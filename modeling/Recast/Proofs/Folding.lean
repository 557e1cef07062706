import Recast.Proofs.Machine
import Recast.Proofs.Totality

/-!
# Constants

A constant that is folded is loaded in the representation it is wanted in; the general path loads
it in its natural representation and converts it when the code runs.

* `Runtime.Documented` : what is known of the run-time;
* `Scope.convertLiteral` : the general path;
* `Scope.computes_loadConstant?` : both paths compute the same, for every constant and target;
* `folding_refines_conversion` : **folding a constant refines the conversion of its literal**: the
  code leaves the same value, and there is no more of it.
-/

namespace Recast

/-! ### The run-time -/

/-- What is known of the run-time, where `absent` is the null of the dynamic union. -/
structure Runtime.Documented (R : Runtime) (absent : R.Data) : Prop where
  /-- The text of a truth value. -/
  boolToText : ∀ b, R.perform (.call .boolToText) [.ofBool b] =
    some (.text (if b then "1" else ""))
  /-- The text of an integer is decimal. -/
  longToText : ∀ i, R.perform (.call .longToText) [.int64 i] = some (.text i.toInt.repr)
  /-- A float is true unless it is zero. -/
  doubleToBool : ∀ x, R.perform (.call .doubleToBool) [.float64 x] = some (.ofBool !x.isZero)
  /-- A text is true unless it is empty or the text `0`. -/
  textToBool : ∀ s, R.perform (.call .textToBool) [.text s] =
    some (.ofBool (s != "" && s != "0"))
  /-- The union has one value for each truth value. -/
  valueFromBool : ∀ b, R.perform (.call .valueFromBool) [.ofBool b] =
    R.perform (.call (if b then .valueTrue else .valueFalse)) []
  /-- The union has a null. -/
  valueNull : R.perform (.call .valueNull) [] = some absent
  /-- Null is false. -/
  nullToBool : R.perform (.call .valueToBool) [absent] = some (.ofBool false)
  /-- Null is zero as an integer. -/
  nullToLong : R.perform (.call .valueToLong) [absent] = some (.int64 0)
  /-- Null is zero as a float. -/
  nullToDouble : R.perform (.call .valueToDouble) [absent] = some (.float64 .zero)
  /-- Null is the empty text. -/
  nullToText : R.perform (.call .valueToText) [absent, .context] = some (.text "")
  /-- Null is no array. -/
  nullGetArray : R.perform (.call .valueGetArray) [absent] = some .null
  /-- Null is no instance. -/
  nullAsObject : R.perform (.call .valueAsObject) [absent] = some .null
  /-- Null cannot be called, whatever class asks. -/
  nullAsCallable : ∀ cls, R.perform (.call .valueAsCallable) [absent, .typeHandle cls] =
    some .null
  /-- The null reference passes every checked cast. -/
  castNull : ∀ r, R.perform (.castClass r) [.null] = some .null

/-- The step becomes an instruction. -/
def Step.isInstr : Step → Bool
  | .reserve _ | .fork => false
  | _ => true

theorem Numbering.length_code (N : Numbering) (ts : List Step) :
    (N.code ts).length = ts.countP Step.isInstr := by
  induction ts generalizing N with
  | nil => rfl
  | cons t ts ih =>
    rw [code_cons, List.length_append, ih, List.countP_cons, Nat.add_comm]
    cases t <;> rfl

/-- The datum that the literal of a constant leaves. -/
def Constant.datum {O : Type} (absent : Datum O) : Constant → Datum O
  | .null => absent
  | .bool b => .ofBool b
  | .long i => .int64 i
  | .double x => .float64 x
  | .text s => .text s

namespace Scope

/-- The general path: load a constant, and convert it. -/
def convertLiteral (S : Scope) (c : Constant) (target : Rep) : Script Rep := do
  let _ ← S.evaluateLiteral c
  S.convert c.natural c.hint target

variable {T : ClassTable} {k : Option ClassId} {R : Runtime} {absent : R.Data} {c : Constant}
  {source target q : Rep} {hint : Hint} {d : R.Data} {d' : Option R.Data} {fold : Script Rep}

theorem reshape_self (r : Rep) (hint : Hint) :
    (standard T k).reshape r hint r = pure r := by
  rw [reshape_eq standard_resolvesAliases, reshapeBy, if_pos rfl]

theorem standard_returns_ne_void (op : Op) : op.standard.returns ≠ .void := by
  cases op <;> decide

theorem computes_value (op : Op) (hd : op.standard.demand? = some (.value q))
    (h : R.perform (op.standard.callInstr op) (d :: op.standard.implied k) = d') :
    (standard T k).Computes R ((standard T k).call op) [d] (d'.map ([·])) := by
  subst h
  exact computes_call rfl hd (standard_returns_ne_void op) d

theorem computes_address (op : Op) (hd : op.standard.demand? = some (.address q))
    (h : R.perform (op.standard.callInstr op) (d :: op.standard.implied k) = d') :
    (standard T k).Computes R ((standard T k).callByAddress q op) [d] (d'.map ([·])) := by
  subst h
  exact computes_callByAddress rfl hd (standard_returns_ne_void op) q d

theorem computes_nothing (op : Op) (hd : op.standard.demand? = some .nothing) :
    (standard T k).Computes R ((standard T k).call op) []
      ((R.perform (.call op) []).map ([·])) :=
  computes_call_nothing rfl hd (standard_returns_ne_void op)

theorem result_evaluateLiteral (c : Constant) :
    ((standard T k).evaluateLiteral c).result = .ok c.natural := by
  cases c <;> rfl

theorem computes_evaluateLiteral (hR : R.Documented absent) (c : Constant) :
    (standard T k).Computes R ((standard T k).evaluateLiteral c) [] (some [c.datum absent]) := by
  cases c with
  | null =>
    have h := computes_nothing (T := T) (k := k) (R := R) .valueNull rfl
    rwa [hR.valueNull] at h
  | bool b => exact (computes_emit fun _ _ _ => rfl).returning _
  | long i => exact (computes_emit fun _ _ _ => rfl).returning _
  | double x => exact (computes_emit fun _ _ _ => rfl).returning _
  | text s => exact computes_text s

theorem reshape_null (hne : target ≠ .value) (ht : target ≠ .void) :
    (standard T k).reshape .value .null target =
      (standard T k).intoTarget (standard T k).reshape .value .null target :=
  reshape_of_intoTarget standard_resolvesAliases hne.symm ht rfl (by decide)

theorem reshape_text (ht : target ≠ .void) (hr : target.isReference = false) :
    (standard T k).reshape .text hint target =
      (standard T k).intoTarget (standard T k).reshape .text hint target := by
  have hne : Rep.text ≠ target := by
    rintro rfl
    cases hr
  have hassign : T.assignable .text target = false := by
    simp [ClassTable.assignable, hne, hr]
  have hop : accessor? .text hint = none := by
    unfold accessor?
    split <;> rfl
  have hassign : (standard T k).classes.assignable .text target = false := hassign
  rw [reshape_eq standard_resolvesAliases, reshapeBy, if_neg hne, if_neg ht, if_neg (by decide),
    hassign, narrow?, hop]
  rfl

theorem computes_castNull (hR : R.Documented absent) (r : Rep) :
    (standard T k).Computes R (Script.emit (.castClass r)) [.null] (some [.null]) := by
  refine computes_emit fun texts σ ρ => ?_
  have hcall : Machine.callRuntime R .standard (.castClass r) ⟨[.datum .null] ++ σ, ρ, none⟩ =
      (R.perform (.castClass r) [.null]).map fun d => ⟨.datum d :: σ, ρ, none⟩ :=
    Machine.callRuntime_append fun _ => rfl
  rw [hR.castNull] at hcall
  exact hcall

theorem computes_null_object (hR : R.Documented absent) (target : Rep) :
    (standard T k).Computes R ((standard T k).toObject .value target) [absent]
      (some [.null]) := by
  have hobject : (standard T k).Computes R ((standard T k).apply .valueAsObject) [absent]
      (some [.null]) := (computes_value .valueAsObject rfl hR.nullAsObject).returning ()
  unfold toObject
  rw [if_pos rfl]
  split_ifs
  · exact hobject.bind rfl ((computes_castNull hR target).returning _)
  · exact hobject.returning _

theorem computes_null (hR : R.Documented absent)
    (hfold : (standard T k).loadConstant? .null target = some fold) :
    ∃ value : Option R.Data, (standard T k).Computes R fold [] (value.map ([·])) ∧
      (standard T k).Computes R ((standard T k).reshape .value .null target) [absent]
        (value.map ([·])) := by
  have hlong : (standard T k).Computes R ((standard T k).toLong (standard T k).reshape .value)
      [absent] (some [.int64 0]) :=
    ((computes_address .valueToLong rfl hR.nullToLong).returning ()).returning _
  cases target with
  | value =>
    cases hfold
    refine ⟨some absent, ?_, ?_⟩
    · exact ((computes_evaluateLiteral hR .null).returning ()).returning _
    · rw [reshape_self]
      exact computes_pure _ _
  | bool =>
    cases hfold
    refine ⟨some (.ofBool false), (computes_emit fun _ _ _ => rfl).returning _, ?_⟩
    rw [reshape_null (by decide) (by decide)]
    exact ((computes_address .valueToBool rfl hR.nullToBool).returning ()).returning _
  | int32 =>
    cases hfold
    refine ⟨some (.int32 0), (computes_emit fun _ _ _ => rfl).returning _, ?_⟩
    rw [reshape_null (by decide) (by decide)]
    exact hlong.bind rfl ((computes_emit fun _ _ _ => rfl).returning _)
  | int64 =>
    cases hfold
    refine ⟨some (.int64 0), (computes_emit fun _ _ _ => rfl).returning _, ?_⟩
    rw [reshape_null (by decide) (by decide)]
    exact hlong
  | float64 =>
    cases hfold
    refine ⟨some (.float64 .zero), (computes_emit fun _ _ _ => rfl).returning _, ?_⟩
    rw [reshape_null (by decide) (by decide)]
    exact ((computes_address .valueToDouble rfl hR.nullToDouble).returning ()).returning _
  | text =>
    cases hfold
    refine ⟨some (.text ""), ((computes_text "").returning ()).returning _, ?_⟩
    rw [reshape_null (by decide) (by decide)]
    exact computes_address .valueToText rfl hR.nullToText
  | array =>
    cases hfold
    refine ⟨some .null, (computes_emit fun _ _ _ => rfl).returning _, ?_⟩
    rw [reshape_null (by decide) (by decide)]
    exact ((computes_address .valueGetArray rfl hR.nullGetArray).returning ()).returning _
  | callable =>
    cases hfold
    refine ⟨some .null, (computes_emit fun _ _ _ => rfl).returning _, ?_⟩
    rw [reshape_null (by decide) (by decide)]
    exact (computes_pure _ _).bind rfl (computes_value .valueAsCallable rfl (hR.nullAsCallable k))
  | object cls =>
    cases hfold
    refine ⟨some .null, (computes_emit fun _ _ _ => rfl).returning _, ?_⟩
    rw [reshape_null (by simp) (by simp)]
    exact computes_null_object hR _
  | resource =>
    cases hfold
    refine ⟨some .null, (computes_emit fun _ _ _ => rfl).returning _, ?_⟩
    rw [reshape_null (by decide) (by decide)]
    exact computes_null_object hR _
  | _ => cases hfold

theorem reshape_scalar (hs : source.isNumericScalar = true) (hne : source ≠ target)
    (ht : target ≠ .void) :
    (standard T k).reshape source hint target =
      (standard T k).intoTarget (standard T k).reshape source hint target := by
  refine reshape_of_intoTarget standard_resolvesAliases hne ht ?_ ?_
  · cases source <;> first | rfl | cases hs
  · cases hop : accessor? source hint with
    | none => rfl
    | some op => rcases source_of_accessor? hop with rfl | rfl <;> cases hs

theorem computes_bool (hR : R.Documented absent) {b : Bool}
    (hfold : (standard T k).loadConstant? (.bool b) target = some fold) :
    ∃ value : Option R.Data, (standard T k).Computes R fold [] (value.map ([·])) ∧
      (standard T k).Computes R ((standard T k).reshape .bool hint target) [.ofBool b]
        (value.map ([·])) := by
  cases target with
  | value =>
    cases hfold
    refine ⟨R.perform (.call (if b then .valueTrue else .valueFalse)) [], ?_, ?_⟩
    · cases b
      · exact ((computes_nothing .valueFalse rfl).returning ()).returning _
      · exact ((computes_nothing .valueTrue rfl).returning ()).returning _
    · rw [reshape_scalar rfl (by decide) (by decide)]
      exact computes_value .valueFromBool rfl (hR.valueFromBool b)
  | text =>
    cases hfold
    refine ⟨some (.text (if b then "1" else "")), ((computes_text _).returning ()).returning _, ?_⟩
    rw [reshape_scalar rfl (by decide) (by decide)]
    exact computes_value .boolToText rfl (hR.boolToText b)
  | bool =>
    cases hfold
    refine ⟨some (.ofBool b), (computes_emit fun _ _ _ => rfl).returning _, ?_⟩
    rw [reshape_self]
    exact computes_pure _ _
  | int32 =>
    cases hfold
    refine ⟨some (.ofBool b), ?_, ?_⟩
    · cases b <;> exact (computes_emit fun _ _ _ => rfl).returning _
    · rw [reshape_scalar rfl (by decide) (by decide)]
      exact computes_pure _ _
  | int64 =>
    cases hfold
    refine ⟨some (.int64 (.ofNat (Constant.bool b).toBit)),
      (computes_emit fun _ _ _ => rfl).returning _, ?_⟩
    rw [reshape_scalar rfl (by decide) (by decide)]
    cases b <;> exact (computes_emit fun _ _ _ => rfl).returning _
  | float64 =>
    cases hfold
    refine ⟨some (.float64 (.ofInt (Constant.bool b).toBit)),
      (computes_emit fun _ _ _ => rfl).returning _, ?_⟩
    rw [reshape_scalar rfl (by decide) (by decide)]
    cases b <;> exact (computes_emit fun _ _ _ => rfl).returning _
  | _ => cases hfold

/-- As an unsigned integer, all but zero is greater than zero. -/
theorem gtUn?_zero {O : Type} (i : Int64) :
    Datum.gtUn? (.int64 i) (.int64 0 : Datum O) = some (i != 0) := by
  have hpos : (0 : Int64).toUInt64 < i.toUInt64 ↔ i ≠ 0 := by
    have hzero : (0 : Int64).toUInt64 = 0 := rfl
    rw [hzero, UInt64.pos_iff_ne_zero]
    exact not_congr ⟨fun h => congrArg Int64.ofUInt64 h, fun h => by rw [h]; rfl⟩
  simp only [Datum.gtUn?, hpos]
  by_cases h : i = 0 <;> simp [h]

theorem computes_long (hR : R.Documented absent) {i : Int64}
    (hfold : (standard T k).loadConstant? (.long i) target = some fold) :
    ∃ value : Option R.Data, (standard T k).Computes R fold [] (value.map ([·])) ∧
      (standard T k).Computes R ((standard T k).reshape .int64 hint target) [.int64 i]
        (value.map ([·])) := by
  cases target with
  | text =>
    cases hfold
    refine ⟨some (.text i.toInt.repr), ((computes_text _).returning ()).returning _, ?_⟩
    rw [reshape_scalar rfl (by decide) (by decide)]
    exact computes_value .longToText rfl (hR.longToText i)
  | bool =>
    cases hfold
    refine ⟨some (.ofBool (i != 0)), (computes_emit fun _ _ _ => rfl).returning _, ?_⟩
    rw [reshape_scalar rfl (by decide) (by decide)]
    have hcompare : (standard T k).Computes R (Script.emit .cgtUn) [.int64 0, .int64 i]
        (some [.ofBool (i != 0)]) := by
      refine computes_emit fun texts σ ρ => ?_
      change (Datum.gtUn? (.int64 i : R.Data) (.int64 0)).map
        (fun r => (⟨.datum (.ofBool r) :: σ, ρ, none⟩ : Machine R.Object)) = _
      rw [gtUn?_zero]
      rfl
    exact (computes_emit fun _ _ _ => rfl).bind rfl (hcompare.returning _)
  | int32 =>
    cases hfold
    refine ⟨some (.int32 i.toInt32), (computes_emit fun _ _ _ => rfl).returning _, ?_⟩
    rw [reshape_scalar rfl (by decide) (by decide)]
    exact (computes_pure _ _).bind rfl ((computes_emit fun _ _ _ => rfl).returning _)
  | int64 =>
    cases hfold
    refine ⟨some (.int64 i), (computes_emit fun _ _ _ => rfl).returning _, ?_⟩
    rw [reshape_self]
    exact computes_pure _ _
  | float64 =>
    cases hfold
    refine ⟨some (.float64 (.ofInt i.toInt)), (computes_emit fun _ _ _ => rfl).returning _, ?_⟩
    rw [reshape_scalar rfl (by decide) (by decide)]
    exact (computes_emit fun _ _ _ => rfl).returning _
  | _ => cases hfold

theorem computes_double (hR : R.Documented absent) {x : Binary64}
    (hfold : (standard T k).loadConstant? (.double x) target = some fold) :
    ∃ value : Option R.Data, (standard T k).Computes R fold [] (value.map ([·])) ∧
      (standard T k).Computes R ((standard T k).reshape .float64 hint target) [.float64 x]
        (value.map ([·])) := by
  cases target with
  | bool =>
    cases hfold
    refine ⟨some (.ofBool !x.isZero), (computes_emit fun _ _ _ => rfl).returning _, ?_⟩
    rw [reshape_scalar rfl (by decide) (by decide)]
    exact ((computes_value .doubleToBool rfl (hR.doubleToBool x)).returning ()).returning _
  | float32 =>
    cases hfold
    refine ⟨some (.float32 x.toBinary32), (computes_emit fun _ _ _ => rfl).returning _, ?_⟩
    rw [reshape_scalar rfl (by decide) (by decide)]
    exact (computes_pure _ _).bind rfl ((computes_emit fun _ _ _ => rfl).returning _)
  | float64 =>
    cases hfold
    refine ⟨some (.float64 x), (computes_emit fun _ _ _ => rfl).returning _, ?_⟩
    rw [reshape_self]
    exact computes_pure _ _
  | _ => cases hfold

theorem computes_ofText (hR : R.Documented absent) {s : String}
    (hfold : (standard T k).loadConstant? (.text s) target = some fold) :
    ∃ value : Option R.Data, (standard T k).Computes R fold [] (value.map ([·])) ∧
      (standard T k).Computes R ((standard T k).reshape .text hint target) [.text s]
        (value.map ([·])) := by
  cases target with
  | text =>
    cases hfold
    refine ⟨some (.text s), ((computes_text _).returning ()).returning _, ?_⟩
    rw [reshape_self]
    exact computes_pure _ _
  | mutText =>
    cases hfold
    have hnew : (standard T k).Computes R ((standard T k).call .newMutText) [.text s]
        ((R.perform (.newObj .newMutText) [.text s]).map ([·])) :=
      computes_value .newMutText rfl rfl
    refine ⟨R.perform (.newObj .newMutText) [.text s],
      ((computes_text s).bind rfl (hnew.returning ())).returning _, ?_⟩
    rw [reshape_text (by decide) rfl]
    exact (computes_pure _ _).bind rfl hnew
  | bool =>
    cases hfold
    refine ⟨some (.ofBool (s != "" && s != "0")), (computes_emit fun _ _ _ => rfl).returning _, ?_⟩
    rw [reshape_text (by decide) rfl]
    exact ((computes_value .textToBool rfl (hR.textToBool s)).returning ()).returning _
  | _ => cases hfold

/-- **Both paths compute the same**, for every constant and every target that it is folded for. -/
theorem computes_loadConstant? (hR : R.Documented absent)
    (hfold : (standard T k).loadConstant? c target = some fold) :
    ∃ value : Option R.Data, (standard T k).Computes R fold [] (value.map ([·])) ∧
      (standard T k).Computes R ((standard T k).convertLiteral c target) []
        (value.map ([·])) := by
  have hpaths : ∃ value : Option R.Data, (standard T k).Computes R fold [] (value.map ([·])) ∧
      (standard T k).Computes R ((standard T k).reshape c.natural c.hint target)
        [c.datum absent] (value.map ([·])) := by
    cases c with
    | null => exact computes_null hR hfold
    | bool b => exact computes_bool hR hfold
    | long i => exact computes_long hR hfold
    | double x => exact computes_double hR hfold
    | text s => exact computes_ofText hR hfold
  obtain ⟨value, hload, hconvert⟩ := hpaths
  exact ⟨value, hload, (computes_evaluateLiteral hR c).bind (result_evaluateLiteral c) hconvert⟩

/-! ### The plans -/

theorem result_loadConstant? (hfold : (standard T k).loadConstant? c target = some fold) :
    fold.result = .ok target := by
  cases c <;> cases target <;> cases hfold <;> rfl

/-- No folded constant is a number that is wanted as something that can be called. -/
theorem result_convertLiteral (hfold : (standard T k).loadConstant? c target = some fold) :
    ((standard T k).convertLiteral c target).result = .ok target := by
  have houtcome : outcome T c.natural c.hint target = .ok target := by
    cases c <;> cases target <;> cases hfold <;> rfl
  rw [convertLiteral, Script.result_bind, result_evaluateLiteral]
  exact (result_convert _ _ _).trans houtcome

theorem leaves_evaluateLiteral (c : Constant) :
    (standard T k).Leaves ((standard T k).evaluateLiteral c) [] c.natural := by
  cases c with
  | null => exact leaves_nothing .valueNull rfl rfl .void
  | text s => exact leaves_text s
  | _ => exact (leaves_push (fun _ _ => rfl) Rep.noConfusion rfl).returning _

theorem yields_convertLiteral (c : Constant) (target : Rep) :
    (standard T k).Yields ((standard T k).convertLiteral c target) [] fun _ _ => True := by
  refine (leaves_evaluateLiteral c).bind fun _ top h => ?_
  obtain ⟨top', htyped, -⟩ := yields_reshape (k := k) c.natural c.hint target top h
  exact ⟨top', htyped, fun _ _ => trivial⟩

theorem leaves_loadConstant? (hfold : (standard T k).loadConstant? c target = some fold) :
    (standard T k).Leaves fold [] target := by
  cases c <;> cases target <;> cases hfold
  case null.value => exact ((leaves_nothing .valueNull rfl rfl .void).returning ()).returning _
  case bool.value b =>
    cases b
    · exact ((leaves_nothing .valueFalse rfl rfl .void).returning ()).returning _
    · exact ((leaves_nothing .valueTrue rfl rfl .void).returning ()).returning _
  case text.mutText s =>
    have hnew : (standard T k).Leaves (do let _ ← Script.text s; (standard T k).apply .newMutText)
        [] .mutText :=
      (leaves_text s).bind fun _ _ => leaves_apply_value .newMutText rfl rfl
    exact hnew.returning _
  case null.text | bool.text | long.text | text.text =>
    exact ((leaves_text _).returning ()).returning _
  all_goals exact (leaves_push (fun _ _ => rfl) Rep.noConfusion rfl).returning _

theorem isPlain_convertLiteral (c : Constant) (target : Rep) :
    ((standard T k).convertLiteral c target).all Step.isPlain = true := by
  refine Script.all_bind ?_ fun _ _ => isPlain_reshape _ _ _ ?_
  · cases c <;> rfl
  · cases c <;> exact fun _ => Rep.noConfusion

theorem isPlain_loadConstant? (hfold : (standard T k).loadConstant? c target = some fold) :
    fold.all Step.isPlain = true := by
  cases c <;> cases target <;> cases hfold
  case bool.value b => cases b <;> rfl
  all_goals rfl

/-- A folded constant takes no more steps than the general path has instructions. -/
theorem length_loadConstant? (hfold : (standard T k).loadConstant? c target = some fold) :
    fold.steps.length ≤ ((standard T k).convertLiteral c target).steps.countP Step.isInstr := by
  by_cases ht : target = .mutText
  · subst ht
    cases c <;> cases hfold
    rw [convertLiteral, Script.steps_bind, convert, Constant.natural, reshape_text (by decide) rfl]
    exact Nat.le_refl _
  · have hliteral : ((standard T k).evaluateLiteral c).steps.countP Step.isInstr = 1 := by
      cases c <;> rfl
    have hfold : fold.steps.length = 1 := by
      cases c <;> cases target <;> cases hfold
      case bool.value b => cases b <;> rfl
      case text.mutText => exact absurd rfl ht
      all_goals rfl
    rw [convertLiteral, Script.steps_bind, List.countP_append, hliteral, hfold]
    exact Nat.le_add_right _ _

end Scope

/-! ### Code -/

open Scope Session

/-- **Folding a constant refines the conversion of its literal.**  In every session with room,
a constant that is folded ends in its target, as the conversion of its literal does.  The code
leaves the same value, whatever lies on the stack and in the locals, or the run-time fails either
way, and there is no more code. -/
theorem folding_refines_conversion {T : ClassTable} {k : Option ClassId} {o : Options}
    {R : Runtime} {absent : R.Data} (hR : R.Documented absent) {c : Constant} {target : Rep}
    {fold : Script Rep} (hfold : (standard T k).loadConstant? c target = some fold) {s : Session}
    (hs : Reachable (standard T k) o s)
    (hroom : s.HasRoom ((standard T k).convertLiteral c target).steps.length) :
    ∃ (s' s'' : Session) (code code' : List Instr) (value : Option R.Data),
      run .standard fold s = .ok target s' ∧
      run .standard ((standard T k).convertLiteral c target) s = .ok target s'' ∧
      s'.builder.instrs.toList = s.builder.instrs.toList ++ code ∧
      s''.builder.instrs.toList = s.builder.instrs.toList ++ code' ∧
      code.length ≤ code'.length ∧
      ∀ (σ : List (Entry R.Object)) (ρ : Nat → R.Data),
        (∃ ρ', Machine.run R .standard s'.builder.texts code ⟨σ, ρ, none⟩ =
          value.map fun d => ⟨.datum d :: σ, ρ', none⟩) ∧
        ∃ ρ', Machine.run R .standard s''.builder.texts code' ⟨σ, ρ, none⟩ =
          value.map fun d => ⟨.datum d :: σ, ρ', none⟩ := by
  have hlength := length_loadConstant? hfold
  obtain ⟨s', hsteps⟩ := performAll_of_yields (leaves_loadConstant? hfold) (Nat.zero_le _)
    (.inl (Script.branches_of_isPlain (isPlain_loadConstant? hfold))) hs.sound
    (hroom.mono (Nat.le_trans hlength List.countP_le_length))
  obtain ⟨s'', hsteps'⟩ := performAll_of_yields (yields_convertLiteral (k := k) c target)
    (Nat.zero_le _) (.inl (Script.branches_of_isPlain (isPlain_convertLiteral c target)))
    hs.sound hroom
  obtain ⟨value, hload, hconvert⟩ := computes_loadConstant? hR hfold
  -- what a plan computes, its code computes
  have executes : ∀ {p : Script Rep} {t : Session}, performAll .standard p.steps s = .ok () t →
      (standard T k).Computes R p [] (value.map ([·])) → ∀ σ ρ, ∃ ρ',
        Machine.run R .standard t.builder.texts ((t.numbering s.builder.labels).code p.steps)
          ⟨σ, ρ, none⟩ = value.map fun d => ⟨.datum d :: σ, ρ', none⟩ := by
    intro p t hperform hcomputes σ ρ
    have hsound := ((invariant_sound .standard).performAll _).of_eq_ok hs.sound hperform
    have hvalid := numbers_of_performAll hperform hsound s.builder.labels
    obtain ⟨ρ', hrun⟩ := hcomputes _ t.builder.texts σ ρ hvalid.text
    refine ⟨ρ', hrun.trans ?_⟩
    rw [Option.map_map]
    rfl
  refine ⟨s', s'', _, _, value, run_eq_ok.2 ⟨result_loadConstant? hfold, hsteps⟩,
    run_eq_ok.2 ⟨result_convertLiteral hfold, hsteps'⟩, performAll_code hsteps,
    performAll_code hsteps', ?_, fun σ ρ => ⟨executes hsteps hload σ ρ,
      executes hsteps' hconvert σ ρ⟩⟩
  rw [Numbering.length_code, Numbering.length_code]
  exact Nat.le_trans List.countP_le_length hlength

/-- A run-time whose union holds null or a truth value. -/
def Runtime.ofBools : Runtime where
  Object := Option Bool
  perform
    | .call .boolToText, [.int32 i] => some (.text (if i = 0 then "" else "1"))
    | .call .longToText, [.int64 i] => some (.text i.toInt.repr)
    | .call .doubleToBool, [.float64 x] => some (.ofBool !x.isZero)
    | .call .textToBool, [.text s] => some (.ofBool (s != "" && s != "0"))
    | .call .valueFromBool, [.int32 i] => some (.object (some (i != 0)))
    | .call .valueTrue, [] => some (.object (some true))
    | .call .valueFalse, [] => some (.object (some false))
    | .call .valueNull, [] => some (.object none)
    | .call .valueToBool, [.object v] => some (.ofBool (v.getD false))
    | .call .valueToLong, [.object v] => some (.int64 (if v = some true then 1 else 0))
    | .call .valueToDouble, [.object v] =>
      some (.float64 (.ofInt (if v = some true then 1 else 0)))
    | .call .valueToText, [.object v, .context] =>
      some (.text (if v = some true then "1" else ""))
    | .call .valueGetArray, [.object _] => some .null
    | .call .valueAsObject, [.object _] => some .null
    | .call .valueAsCallable, [.object none, .typeHandle _] => some .null
    | .castClass _, [.null] => some .null
    | _, _ => none

/-- The text of null is folded. -/
theorem folding_refines_conversion_null : ∃ (fold : Script Rep) (s : Session),
    Runtime.ofBools.Documented (.object none) ∧
    (standard .new none).loadConstant? .null .text = some fold ∧
    Reachable (standard .new none) .standard s ∧
    s.HasRoom ((standard .new none).convertLiteral .null .text).steps.length ∧
    ∃ (s' s'' : Session) (code code' : List Instr) (value : Option Runtime.ofBools.Data),
      run .standard fold s = .ok .text s' ∧
      run .standard ((standard .new none).convertLiteral .null .text) s = .ok .text s'' ∧
      s'.builder.instrs.toList = s.builder.instrs.toList ++ code ∧
      s''.builder.instrs.toList = s.builder.instrs.toList ++ code' ∧
      code.length ≤ code'.length ∧
      ∀ (σ : List (Entry (Option Bool))) (ρ : Nat → Datum (Option Bool)),
        (∃ ρ', Machine.run .ofBools .standard s'.builder.texts code ⟨σ, ρ, none⟩ =
          value.map fun d => ⟨.datum d :: σ, ρ', none⟩) ∧
        ∃ ρ', Machine.run .ofBools .standard s''.builder.texts code' ⟨σ, ρ, none⟩ =
          value.map fun d => ⟨.datum d :: σ, ρ', none⟩ := by
  have hR : Runtime.ofBools.Documented (.object none) := by
    refine ⟨fun b => ?_, fun _ => rfl, fun _ => rfl, fun _ => rfl, fun b => ?_, rfl, rfl, rfl,
      rfl, rfl, rfl, rfl, fun _ => rfl, fun _ => rfl⟩
    · cases b <;> rfl
    · cases b <;> rfl
  have hroom : (Session.new none none).HasRoom
      ((standard .new none).convertLiteral .null .text).steps.length := by
    refine ⟨?_, ?_, by decide +kernel⟩
    · rintro q ⟨⟩
    · rintro q ⟨⟩
  have hs : Reachable (standard .new none) .standard (.new none none) := .new none none
  exact ⟨_, _, hR, rfl, hs, hroom, folding_refines_conversion hR rfl hs hroom⟩

end Recast
