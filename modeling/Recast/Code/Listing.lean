import Recast.Code.Builder
import Recast.Text.Quoted

/-!
# Listings

The text of complete code, one numbered line per instruction. A run-time call shows the
signature it is bound to, and an interned text is shown in place of its index.
-/

namespace Recast

namespace Code

/-- A line number, filled up with zeros to four digits. -/
def lineNumber (i : Nat) : String :=
  let digits := Nat.toDigits 10 i
  .ofList (List.replicate (4 - digits.length) '0' ++ digits)

/-- The signature an operation is bound to. -/
def signature (C : Catalog) (op : Op) : String :=
  match C.get? op with
  | some m => m.toString
  | none => "<unbound " ++ op.name ++ ">"

/-- An instruction as a listing shows it. -/
def showInstr (C : Catalog) (texts : Array String) (i : Instr) : String :=
  match i with
  | .ldStr index =>
    match texts[index]? with
    | some s => "ldstr " ++ .ofList (Quoted.encode s.toList)
    | none => i.toString
  | .call op => "call " ++ signature C op
  | .callVirt op => "callvirt " ++ signature C op
  | .newObj op => "newobj " ++ signature C op
  | _ => i.toString

/-- The lines of the listing, without their ends. -/
def lines (code : Code) (C : Catalog) : List String :=
  code.instrs.toList.zipIdx.map fun p => lineNumber p.2 ++ " " ++ showInstr C code.texts p.1

/-- The text of the code. -/
def listing (code : Code) (C : Catalog) : String :=
  .join ((code.lines C).map (· ++ "\n"))

end Code

end Recast
