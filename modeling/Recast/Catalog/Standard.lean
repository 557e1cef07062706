import Recast.Catalog.Basic

/-!
# The standard run-time

How the standard run-time binds every operation. Conversions between scalars are static members;
the multi-field layouts have members invoked on their address.
-/

namespace Recast

namespace Op

/-- The member that the standard run-time binds an operation to. -/
def standard : Op → Method
  | boolToText => ⟨"Convert", "to_string", .static, [.value .bool], .text⟩
  | intToText => ⟨"Convert", "to_string", .static, [.value .int32], .text⟩
  | longToText => ⟨"Convert", "to_string", .static, [.value .int64], .text⟩
  | longAddrToText => ⟨"long", "to_string", .address .int64, [], .text⟩
  | doubleToText => ⟨"Convert", "to_string", .static, [.value .float64, .context], .text⟩
  | charToText => ⟨"Convert", "to_string", .static, [.value .char], .text⟩
  | objectToText => ⟨"object", "to_string", .virtual .root, [], .text⟩
  | numberToText => ⟨"Number", "to_string", .address .number, [.context], .text⟩
  | mutTextToText => ⟨"MutString", "to_string", .address .mutText, [.context], .text⟩
  | valueToText => ⟨"Value", "as_string", .address .value, [.context], .text⟩
  | textToChar => ⟨"Convert", "to_char", .static, [.value .text], .char⟩
  | newMutText => ⟨"MutString", "new", .constructor .mutText, [.value .text], .mutText⟩
  | valueToMutText => ⟨"Convert", "to_mut_string", .static, [.value .value, .context], .mutText⟩
  | mutTextToBytes => ⟨"MutString", "to_bytes", .address .mutText, [.context], .bytes⟩
  | doubleToBool => ⟨"Convert", "to_bool", .static, [.value .float64], .bool⟩
  | textToBool => ⟨"Convert", "to_bool", .static, [.value .text], .bool⟩
  | arrayToBool => ⟨"Convert", "to_bool", .static, [.value .array], .bool⟩
  | mutTextToBool => ⟨"MutString", "to_bool", .address .mutText, [], .bool⟩
  | numberToBool => ⟨"Number", "to_bool", .address .number, [], .bool⟩
  | valueToBool => ⟨"Value", "to_bool", .address .value, [], .bool⟩
  | doubleToLong => ⟨"Convert", "to_long", .static, [.value .float64], .int64⟩
  | textToLong => ⟨"Convert", "to_long", .static, [.value .text], .int64⟩
  | mutTextToLong => ⟨"MutString", "to_long", .address .mutText, [], .int64⟩
  | numberToLong => ⟨"Number", "to_long", .address .number, [], .int64⟩
  | valueToLong => ⟨"Value", "to_long", .address .value, [], .int64⟩
  | textToDouble => ⟨"Convert", "to_double", .static, [.value .text], .float64⟩
  | mutTextToDouble => ⟨"MutString", "to_double", .address .mutText, [], .float64⟩
  | numberToDouble => ⟨"Number", "to_double", .address .number, [], .float64⟩
  | valueToDouble => ⟨"Value", "to_double", .address .value, [], .float64⟩
  | numberFromLong => ⟨"Number", "from_long", .static, [.value .int64], .number⟩
  | numberFromDouble => ⟨"Number", "from_double", .static, [.value .float64], .number⟩
  | numberZero => ⟨"Number", "zero", .static, [], .number⟩
  | textToNumber => ⟨"Convert", "to_number", .static, [.value .text], .number⟩
  | mutTextToNumber => ⟨"MutString", "to_number", .address .mutText, [], .number⟩
  | valueToNumber => ⟨"Value", "to_number", .address .value, [], .number⟩
  | numberLong => ⟨"Number", "long", .address .number, [], .int64⟩
  | numberDouble => ⟨"Number", "double", .address .number, [], .float64⟩
  | valueFromBool => ⟨"Value", "from_bool", .static, [.value .bool], .value⟩
  | valueFromLong => ⟨"Value", "from_long", .static, [.value .int64], .value⟩
  | valueFromDouble => ⟨"Value", "from_double", .static, [.value .float64], .value⟩
  | valueFromText => ⟨"Value", "from_string", .static, [.value .text], .value⟩
  | valueFromMutText => ⟨"Value", "from_mut_string", .static, [.value .mutText], .value⟩
  | valueFromNumber => ⟨"Value", "from_number", .static, [.value .number], .value⟩
  | valueFromArray => ⟨"Value", "from_array", .static, [.value .array], .value⟩
  | valueFromAlias => ⟨"Value", "from_alias", .static, [.value .alias], .value⟩
  | valueFromKey => ⟨"Value", "from_key", .static, [.value .key], .value⟩
  | valueFromObject => ⟨"Value", "from_class", .static, [.value .root], .value⟩
  | valueVoid => ⟨"Value", "void", .static, [], .value⟩
  | valueNull => ⟨"Value", "null", .static, [], .value⟩
  | valueTrue => ⟨"Value", "true", .static, [], .value⟩
  | valueFalse => ⟨"Value", "false", .static, [], .value⟩
  | valueLong => ⟨"Value", "long", .address .value, [], .int64⟩
  | valueDouble => ⟨"Value", "double", .address .value, [], .float64⟩
  | valueBool => ⟨"Value", "boolean", .address .value, [], .bool⟩
  | valueText => ⟨"Value", "string", .address .value, [], .text⟩
  | valueMutText => ⟨"Value", "mut_string", .address .value, [], .mutText⟩
  | valueArray => ⟨"Value", "array", .address .value, [], .array⟩
  | valueObject => ⟨"Value", "object", .address .value, [], .root⟩
  | valueGetArray => ⟨"Value", "get_array", .address .value, [], .array⟩
  | valueToArray => ⟨"Value", "to_array", .address .value, [], .array⟩
  | valueAsArray => ⟨"Convert", "as_array", .static, [.value .value], .array⟩
  | valueAsObject => ⟨"Convert", "as_object", .static, [.value .value], .root⟩
  | valueToClass => ⟨"Value", "to_class", .address .value, [], .root⟩
  | valueEnsureAlias => ⟨"Value", "ensure_alias", .address .value, [], .alias⟩
  | valueToKey => ⟨"Convert", "to_key", .static, [.value .value], .key⟩
  | aliasGetValue => ⟨"Alias", "value", .virtual .alias, [], .value⟩
  | newAlias => ⟨"Alias", "new", .constructor .alias, [.value .value], .alias⟩
  | newKeyFromInt => ⟨"Key", "new", .constructor .key, [.value .int32], .key⟩
  | newKeyFromText => ⟨"Key", "new", .constructor .key, [.value .text], .key⟩
  | textAsCallable => ⟨"Convert", "as_callable", .static, [.value .text, .typeHandle], .callable⟩
  | valueAsCallable => ⟨"Convert", "as_callable", .static, [.value .value, .typeHandle], .callable⟩
  | convertibleToArray => ⟨"Convertible", "to_array", .virtual .root, [], .array⟩

end Op

/-- The catalog of the standard run-time; it binds every operation. -/
def Catalog.standard : Catalog := ⟨fun op => some op.standard⟩

end Recast
