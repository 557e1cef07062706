/-!
# Run-time operations

The operations that converted code may call. The set is closed: a catalog says how an operation
is bound in a run-time, and no conversion invents one.

* `Op.all` lists every operation once, in order;
* `Op.name` is the name an operation is known by.
-/

namespace Recast

/-- A run-time operation. -/
inductive Op where
  -- text
  | boolToText | intToText | longToText | longAddrToText | doubleToText | charToText
  | objectToText | numberToText | mutTextToText | valueToText | textToChar
  -- mutable text
  | newMutText | valueToMutText | mutTextToBytes
  -- truth values
  | doubleToBool | textToBool | arrayToBool | mutTextToBool | numberToBool | valueToBool
  -- integers
  | doubleToLong | textToLong | mutTextToLong | numberToLong | valueToLong
  -- floats
  | textToDouble | mutTextToDouble | numberToDouble | valueToDouble
  -- the numeric union
  | numberFromLong | numberFromDouble | numberZero | textToNumber | mutTextToNumber
  | valueToNumber | numberLong | numberDouble
  -- construction of the dynamic union
  | valueFromBool | valueFromLong | valueFromDouble | valueFromText | valueFromMutText
  | valueFromNumber | valueFromArray | valueFromAlias | valueFromKey | valueFromObject
  | valueVoid | valueNull | valueTrue | valueFalse
  -- typed accessors of the dynamic union
  | valueLong | valueDouble | valueBool | valueText | valueMutText | valueArray | valueObject
  -- unwrapping of the dynamic union
  | valueGetArray | valueToArray | valueAsArray | valueAsObject | valueToClass | valueEnsureAlias
  | valueToKey
  -- aliases
  | aliasGetValue | newAlias
  -- keys
  | newKeyFromInt | newKeyFromText
  -- callables
  | textAsCallable | valueAsCallable
  -- arrays
  | convertibleToArray
  deriving DecidableEq

namespace Op

/-- Every operation, in order. -/
def all : List Op :=
  [boolToText, intToText, longToText, longAddrToText, doubleToText, charToText, objectToText,
    numberToText, mutTextToText, valueToText, textToChar, newMutText, valueToMutText,
    mutTextToBytes, doubleToBool, textToBool, arrayToBool, mutTextToBool, numberToBool,
    valueToBool, doubleToLong, textToLong, mutTextToLong, numberToLong, valueToLong,
    textToDouble, mutTextToDouble, numberToDouble, valueToDouble, numberFromLong,
    numberFromDouble, numberZero, textToNumber, mutTextToNumber, valueToNumber, numberLong,
    numberDouble, valueFromBool, valueFromLong, valueFromDouble, valueFromText, valueFromMutText,
    valueFromNumber, valueFromArray, valueFromAlias, valueFromKey, valueFromObject, valueVoid,
    valueNull, valueTrue, valueFalse, valueLong, valueDouble, valueBool, valueText, valueMutText,
    valueArray, valueObject, valueGetArray, valueToArray, valueAsArray, valueAsObject,
    valueToClass, valueEnsureAlias, valueToKey, aliasGetValue, newAlias, newKeyFromInt,
    newKeyFromText, textAsCallable, valueAsCallable, convertibleToArray]

/-- The name of an operation. -/
def name : Op → String
  | boolToText => "BoolToText"
  | intToText => "IntToText"
  | longToText => "LongToText"
  | longAddrToText => "LongAddrToText"
  | doubleToText => "DoubleToText"
  | charToText => "CharToText"
  | objectToText => "ObjectToText"
  | numberToText => "NumberToText"
  | mutTextToText => "MutTextToText"
  | valueToText => "ValueToText"
  | textToChar => "TextToChar"
  | newMutText => "NewMutText"
  | valueToMutText => "ValueToMutText"
  | mutTextToBytes => "MutTextToBytes"
  | doubleToBool => "DoubleToBool"
  | textToBool => "TextToBool"
  | arrayToBool => "ArrayToBool"
  | mutTextToBool => "MutTextToBool"
  | numberToBool => "NumberToBool"
  | valueToBool => "ValueToBool"
  | doubleToLong => "DoubleToLong"
  | textToLong => "TextToLong"
  | mutTextToLong => "MutTextToLong"
  | numberToLong => "NumberToLong"
  | valueToLong => "ValueToLong"
  | textToDouble => "TextToDouble"
  | mutTextToDouble => "MutTextToDouble"
  | numberToDouble => "NumberToDouble"
  | valueToDouble => "ValueToDouble"
  | numberFromLong => "NumberFromLong"
  | numberFromDouble => "NumberFromDouble"
  | numberZero => "NumberZero"
  | textToNumber => "TextToNumber"
  | mutTextToNumber => "MutTextToNumber"
  | valueToNumber => "ValueToNumber"
  | numberLong => "NumberLong"
  | numberDouble => "NumberDouble"
  | valueFromBool => "ValueFromBool"
  | valueFromLong => "ValueFromLong"
  | valueFromDouble => "ValueFromDouble"
  | valueFromText => "ValueFromText"
  | valueFromMutText => "ValueFromMutText"
  | valueFromNumber => "ValueFromNumber"
  | valueFromArray => "ValueFromArray"
  | valueFromAlias => "ValueFromAlias"
  | valueFromKey => "ValueFromKey"
  | valueFromObject => "ValueFromObject"
  | valueVoid => "ValueVoid"
  | valueNull => "ValueNull"
  | valueTrue => "ValueTrue"
  | valueFalse => "ValueFalse"
  | valueLong => "ValueLong"
  | valueDouble => "ValueDouble"
  | valueBool => "ValueBool"
  | valueText => "ValueText"
  | valueMutText => "ValueMutText"
  | valueArray => "ValueArray"
  | valueObject => "ValueObject"
  | valueGetArray => "ValueGetArray"
  | valueToArray => "ValueToArray"
  | valueAsArray => "ValueAsArray"
  | valueAsObject => "ValueAsObject"
  | valueToClass => "ValueToClass"
  | valueEnsureAlias => "ValueEnsureAlias"
  | valueToKey => "ValueToKey"
  | aliasGetValue => "AliasGetValue"
  | newAlias => "NewAlias"
  | newKeyFromInt => "NewKeyFromInt"
  | newKeyFromText => "NewKeyFromText"
  | textAsCallable => "TextAsCallable"
  | valueAsCallable => "ValueAsCallable"
  | convertibleToArray => "ConvertibleToArray"

instance : ToString Op := ⟨name⟩

/-- The operation of a given name. -/
def ofName? (s : String) : Option Op := all.find? (·.name == s)

theorem mem_all (op : Op) : op ∈ all := by
  cases op <;> decide

end Op

end Recast
