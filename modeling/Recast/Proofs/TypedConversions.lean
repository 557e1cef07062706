import Recast.Proofs.Reachable
import Recast.Proofs.TypedPlans

/-!
# Types of conversions

Over the standard run-time every conversion is typed.  The proof follows the rules: each function
into a target is typed for every source, and nested conversions are typed by induction.

* `Scope.yields_reshape` : **every conversion is typed**, and leaves an operand of the
  representation it results in;
* `stack_type_safety` : so is the code that a session appends for it.
-/

namespace Recast

theorem Holds.root {T : ClassTable} {r : Rep} {top : List Operand} (h : Holds T r top)
    (hr : r.isReference = true) : Holds T .root top := by
  cases h with
  | void => cases hr
  | one _ he => exact .one (by decide) (Operand.fits_root hr he)

theorem Holds.eq_value {T : ClassTable} {top : List Operand} (h : Holds T .value top) :
    top = [.value .value] := by
  obtain ⟨e, rfl, he⟩ := h.fits (by decide)
  obtain ⟨q, rfl, hq⟩ := Operand.eq_of_fits rfl he
  cases q <;> first | rfl | cases hq

theorem Holds.int32 {T : ClassTable} {top : List Operand} (h : Holds T .bool top) :
    Holds T .int32 top := by
  obtain ⟨e, rfl, he⟩ := h.fits (by decide)
  obtain ⟨q, rfl, hq⟩ := Operand.eq_of_fits rfl he
  exact .one (by decide) (Operand.fits_value.2 (.inl hq))

namespace Scope

variable {T : ClassTable} {k : Option ClassId} {source target : Rep} {hint : Hint}
  {top : List Operand}

/-! ### Calls of standard operations -/

section Calls

variable {q r : Rep}

theorem demand?_standard_ne_void (op : Op) : op.standard.demand? ≠ some (.value .void) := by
  cases op <;> decide

theorem leaves_value (op : Op) (hd : op.standard.demand? = some (.value q))
    (hr : op.standard.returns = r) (h : Holds T q top) :
    (standard T k).Leaves ((standard T k).call op) top r := by
  have hq : q ≠ .void := by
    rintro rfl
    exact demand?_standard_ne_void op hd
  rw [← hr]
  exact leaves_call rfl hd (.value hq h)

theorem leaves_apply_value (op : Op) (hd : op.standard.demand? = some (.value q))
    (hr : op.standard.returns = r) (h : Holds T q top) :
    (standard T k).Leaves ((standard T k).apply op) top r :=
  (leaves_value op hd hr h).returning ()

theorem leaves_address (op : Op) (hd : op.standard.demand? = some (.address q))
    (hr : op.standard.returns = r) (hq : q ≠ .void) (h : Holds T q top) :
    (standard T k).Leaves ((standard T k).callByAddress q op) top r := by
  rw [← hr]
  exact leaves_callByAddress rfl hd hq h

theorem leaves_apply_address (op : Op) (hd : op.standard.demand? = some (.address q))
    (hr : op.standard.returns = r) (hq : q ≠ .void) (h : Holds T q top) :
    (standard T k).Leaves ((standard T k).applyByAddress q op) top r :=
  (leaves_address op hd hr hq h).returning ()

theorem leaves_nothing (op : Op) (hd : op.standard.demand? = some .nothing)
    (hr : op.standard.returns = r) (h : Holds T .void top) :
    (standard T k).Leaves ((standard T k).call op) top r := by
  cases h with
  | one hr => exact absurd rfl hr
  | void =>
    rw [← hr]
    exact leaves_call rfl hd .nothing

theorem leaves_constant {i : Instr} {e : Operand} (hi : ∀ Γ σ, i.retype Γ σ = some (e :: σ))
    (he : e.fits T r = true) (hr : r ≠ .void) (h : Holds T .void top) :
    (standard T k).Leaves (.emit i) top r := by
  cases h with
  | one h => exact absurd rfl h
  | void => exact leaves_push hi hr he

theorem leaves_convR8 (hq : q.isNumericScalar = true) (h : Holds T q top) :
    (standard T k).Leaves (.emit .convR8) top .float64 :=
  leaves_conv (fun _ _ _ => rfl) (by decide) hq h

theorem leaves_convI8 (hq : q.isNumericScalar = true) (h : Holds T q top) :
    (standard T k).Leaves (.emit .convI8) top .int64 :=
  leaves_conv (fun _ _ _ => rfl) (by decide) hq h

end Calls

/-! ### The dynamic union -/

section Union

variable {R : Reshape}

theorem leaves_toValue_of_ne_nullable (hs : ∀ p, source ≠ .nullable p)
    (h : Holds T source top) :
    (standard T k).Leaves ((standard T k).toValue R source) top .value := by
  cases source with
  | void => exact leaves_nothing .valueVoid rfl rfl h
  | bool => exact leaves_value .valueFromBool rfl rfl h
  | int32 => exact (leaves_convI8 rfl h).bind fun _ _ => leaves_value .valueFromLong rfl rfl
  | int64 => exact leaves_value .valueFromLong rfl rfl h
  | float32 =>
    exact (leaves_convR8 rfl h).bind fun _ _ => leaves_value .valueFromDouble rfl rfl
  | float64 => exact leaves_value .valueFromDouble rfl rfl h
  | char =>
    exact (leaves_apply_value .charToText rfl rfl h).bind fun _ _ =>
      leaves_value .valueFromText rfl rfl
  | text => exact leaves_value .valueFromText rfl rfl h
  | mutText => exact leaves_value .valueFromMutText rfl rfl h
  | number => exact leaves_value .valueFromNumber rfl rfl h
  | value => exact leaves_pure h
  | key => exact leaves_value .valueFromKey rfl rfl h
  | array => exact leaves_value .valueFromArray rfl rfl h
  | «alias» => exact leaves_value .aliasGetValue rfl rfl h
  | object _ | resource | callable | bytes =>
    exact leaves_value .valueFromObject rfl rfl (h.root rfl)
  | nullable p => exact absurd rfl (hs p)

theorem fork_not_mem_payload (p : Payload) :
    Step.fork ∉ ((standard T k).toValue (standard T k).reshape p.rep).steps := by
  rw [← List.contains_iff_mem, Bool.not_eq_true]
  cases p <;> rfl

/-- The steps that put a nullable into the dynamic union: two ways, for a payload and for
none. -/
theorem steps_nullableToValue (p : Payload) :
    ((standard T k).nullableToValue (standard T k).reshape p).steps =
      .reserve (.nullable p) :: ways
        [.store (.nullable p), .address (.nullable p), .emit (.hasValue p)]
        (.address (.nullable p) :: .emit (.getValue p) ::
          ((standard T k).toValue (standard T k).reshape p.rep).steps)
        [.emit (.call .valueNull)] := by
  rw [nullableToValue, reshape_payload]
  cases p <;> rfl

theorem leaves_nullableToValue {p : Payload} (h : Holds T (.nullable p) top) :
    (standard T k).Leaves ((standard T k).nullableToValue (standard T k).reshape p) top
      .value := by
  obtain ⟨e, rfl, he⟩ := h.fits (by simp)
  have hp : ∀ q, p.rep ≠ .nullable q := by cases p <;> simp [Payload.rep]
  have hvoid : p.rep ≠ .void := by cases p <;> decide
  obtain ⟨top', hinner, hleft⟩ := leaves_toValue_of_ne_nullable (T := T) (k := k)
    (R := (standard T k).reshape) hp (holds_value hvoid)
  have hleft : Holds T .value top' := hleft .value (by cases p <;> rfl)
  obtain rfl := hleft.eq_value
  refine ⟨[.value .value], fun σ => ?_, fun _ _ => holds_value (by decide)⟩
  rw [steps_nullableToValue]
  have htest : (standard T k).Typed
      [.store (.nullable p), .address (.nullable p), .emit (.hasValue p)] (e :: σ)
      (.value .bool :: σ) :=
    (Typed.store he).append ((Typed.address _).append (.emit fun _ => if_pos (decide_eq_true rfl)))
  refine (Typed.reserve _).append (Typed.ways htest ?_ ?_ ?_)
  · have hget : (standard T k).Typed [.emit (.getValue p)] (.address (.nullable p) :: σ)
        (.value p.rep :: σ) := .emit fun _ => if_pos (decide_eq_true rfl)
    exact (Typed.address _).append (hget.append (hinner σ))
  · exact .emit fun _ => rfl
  · have hforks := fork_not_mem_payload (T := T) (k := k) p
    simpa using hforks

theorem leaves_toValue (h : Holds T source top) :
    (standard T k).Leaves ((standard T k).toValue (standard T k).reshape source) top .value := by
  cases source with
  | nullable p => exact leaves_nullableToValue h
  | _ => exact leaves_toValue_of_ne_nullable (fun p hp => by cases hp) h

theorem leaves_viaValue (op : Op) {r : Rep} (hd : op.standard.demand? = some (.address .value))
    (hr : op.standard.returns = r) (h : Holds T source top) :
    (standard T k).Leaves ((standard T k).viaValue (standard T k).reshape source op) top r :=
  (leaves_toValue h).bind fun _ _ => leaves_address op hd hr (by decide)

end Union

/-! ### Scalars -/

section Scalars

theorem leaves_toBool (h : Holds T source top) :
    (standard T k).Leaves ((standard T k).toBool (standard T k).reshape source) top .bool := by
  cases source with
  | void => exact (leaves_constant (fun _ _ => rfl) rfl (by decide) h).bind fun _ _ h => .pure h
  | bool => exact leaves_pure h
  | int32 | int64 =>
    obtain ⟨e, rfl, he⟩ := h.fits (by decide)
    exact leaves_compare (fun _ _ => rfl) (Operand.comparable_of_fits rfl he) _
  | float32 =>
    exact (leaves_convR8 rfl h).bind fun _ _ h =>
      (leaves_apply_value .doubleToBool rfl rfl h).returning _
  | float64 => exact (leaves_apply_value .doubleToBool rfl rfl h).returning _
  | char =>
    exact (leaves_apply_value .charToText rfl rfl h).bind fun _ _ h =>
      (leaves_apply_value .textToBool rfl rfl h).returning _
  | text => exact (leaves_apply_value .textToBool rfl rfl h).returning _
  | mutText => exact (leaves_apply_address .mutTextToBool rfl rfl (by decide) h).returning _
  | number => exact (leaves_apply_address .numberToBool rfl rfl (by decide) h).returning _
  | value => exact (leaves_apply_address .valueToBool rfl rfl (by decide) h).returning _
  | array => exact (leaves_apply_value .arrayToBool rfl rfl h).returning _
  | object _ | resource | callable | bytes =>
    obtain ⟨e, rfl, he⟩ := h.fits (by simp)
    exact leaves_compare (fun _ _ => rfl) (Operand.comparable_null rfl he) _
  | key | «alias» | nullable p => exact (leaves_viaValue .valueToBool rfl rfl h).returning _

theorem leaves_toLong (h : Holds T source top) :
    (standard T k).Leaves ((standard T k).toLong (standard T k).reshape source) top .int64 := by
  cases source with
  | void => exact (leaves_constant (fun _ _ => rfl) rfl (by decide) h).returning _
  | bool | int32 => exact (leaves_convI8 rfl h).returning _
  | int64 => exact leaves_pure h
  | float32 =>
    exact (leaves_convR8 rfl h).bind fun _ _ h =>
      (leaves_apply_value .doubleToLong rfl rfl h).returning _
  | float64 => exact (leaves_apply_value .doubleToLong rfl rfl h).returning _
  | char =>
    exact (leaves_apply_value .charToText rfl rfl h).bind fun _ _ h =>
      (leaves_apply_value .textToLong rfl rfl h).returning _
  | text => exact (leaves_apply_value .textToLong rfl rfl h).returning _
  | mutText => exact (leaves_apply_address .mutTextToLong rfl rfl (by decide) h).returning _
  | number => exact (leaves_apply_address .numberToLong rfl rfl (by decide) h).returning _
  | value => exact (leaves_apply_address .valueToLong rfl rfl (by decide) h).returning _
  | _ => exact (leaves_viaValue .valueToLong rfl rfl h).returning _

theorem leaves_toInt (h : Holds T source top) :
    (standard T k).Leaves ((standard T k).toInt (standard T k).reshape source) top .int32 := by
  cases source with
  | void => exact (leaves_constant (fun _ _ => rfl) rfl (by decide) h).returning _
  | bool => exact leaves_pure h.int32
  | int32 => exact leaves_pure h
  | _ =>
    exact (leaves_toLong h).bind fun _ _ h =>
      (leaves_conv (fun _ _ _ => rfl) (by decide) rfl h).returning _

theorem leaves_toDouble (h : Holds T source top) :
    (standard T k).Leaves ((standard T k).toDouble (standard T k).reshape source) top
      .float64 := by
  cases source with
  | void => exact (leaves_constant (fun _ _ => rfl) rfl (by decide) h).returning _
  | bool | int32 | int64 | float32 => exact (leaves_convR8 rfl h).returning _
  | float64 => exact leaves_pure h
  | char =>
    exact (leaves_apply_value .charToText rfl rfl h).bind fun _ _ h =>
      (leaves_apply_value .textToDouble rfl rfl h).returning _
  | text => exact (leaves_apply_value .textToDouble rfl rfl h).returning _
  | mutText => exact (leaves_apply_address .mutTextToDouble rfl rfl (by decide) h).returning _
  | number => exact (leaves_apply_address .numberToDouble rfl rfl (by decide) h).returning _
  | value => exact (leaves_apply_address .valueToDouble rfl rfl (by decide) h).returning _
  | _ => exact (leaves_viaValue .valueToDouble rfl rfl h).returning _

theorem leaves_toNumber (h : Holds T source top) :
    (standard T k).Leaves ((standard T k).toNumber (standard T k).reshape source) top
      .number := by
  cases source with
  | void => exact ((leaves_nothing .numberZero rfl rfl h).returning ()).returning _
  | bool | int32 =>
    exact (leaves_convI8 rfl h).bind fun _ _ h =>
      (leaves_apply_value .numberFromLong rfl rfl h).returning _
  | int64 => exact (leaves_apply_value .numberFromLong rfl rfl h).returning _
  | float32 =>
    exact (leaves_convR8 rfl h).bind fun _ _ h =>
      (leaves_apply_value .numberFromDouble rfl rfl h).returning _
  | float64 => exact (leaves_apply_value .numberFromDouble rfl rfl h).returning _
  | char =>
    exact (leaves_apply_value .charToText rfl rfl h).bind fun _ _ h =>
      (leaves_apply_value .textToNumber rfl rfl h).returning _
  | text => exact (leaves_value .textToNumber rfl rfl h).returning _
  | mutText => exact (leaves_address .mutTextToNumber rfl rfl (by decide) h).returning _
  | number => exact leaves_pure h
  | value => exact (leaves_apply_address .valueToNumber rfl rfl (by decide) h).returning _
  | _ => exact (leaves_viaValue .valueToNumber rfl rfl h).returning _

end Scalars

/-! ### Text -/

section Text

theorem leaves_toText (h : Holds T source top) :
    (standard T k).Leaves ((standard T k).toText (standard T k).reshape source) top .text := by
  cases source with
  | void =>
    cases h with
    | void => exact leaves_text ""
    | one hr => exact absurd rfl hr
  | bool => exact leaves_value .boolToText rfl rfl h
  | int32 => exact leaves_value .intToText rfl rfl h
  | int64 => exact leaves_value .longToText rfl rfl h
  | float32 => exact (leaves_convR8 rfl h).bind fun _ _ => leaves_value .doubleToText rfl rfl
  | float64 => exact leaves_value .doubleToText rfl rfl h
  | char => exact leaves_value .charToText rfl rfl h
  | text => exact leaves_pure h
  | mutText => exact leaves_address .mutTextToText rfl rfl (by decide) h
  | number => exact leaves_address .numberToText rfl rfl (by decide) h
  | value => exact leaves_address .valueToText rfl rfl (by decide) h
  | object _ | resource | callable | bytes =>
    exact leaves_value .objectToText rfl rfl (h.root rfl)
  | array | key | «alias» | nullable _ => exact leaves_viaValue .valueToText rfl rfl h

theorem leaves_toMutText (h : Holds T source top) :
    (standard T k).Leaves ((standard T k).toMutText (standard T k).reshape source) top
      .mutText := by
  cases source with
  | mutText => exact leaves_pure h
  | value => exact leaves_value .valueToMutText rfl rfl h
  | _ => exact (leaves_toText h).bind fun _ _ => leaves_value .newMutText rfl rfl

theorem leaves_toKey (h : Holds T source top) :
    (standard T k).Leaves ((standard T k).toKey (standard T k).reshape source) top .key := by
  cases source with
  | int64 =>
    exact (leaves_conv (fun _ _ _ => rfl) (by decide) rfl h).bind fun _ _ =>
      leaves_value .newKeyFromInt rfl rfl
  | int32 => exact leaves_value .newKeyFromInt rfl rfl h
  | text => exact leaves_value .newKeyFromText rfl rfl h
  | key => exact leaves_pure h
  | _ => exact (leaves_toValue h).bind fun _ _ => leaves_value .valueToKey rfl rfl

end Text

/-! ### References -/

section References

theorem leaves_castClass {q r : Rep} (hq : q.isReference = true) (hr : r.isReference = true)
    (h : Holds T q top) : (standard T k).Leaves (.emit (.castClass r)) top r := by
  obtain ⟨e, rfl, he⟩ := h.fits (by rintro rfl; cases hq)
  refine leaves_emit [.value r] (fun _ σ => ?_) (holds_value (by rintro rfl; cases hr))
  have href : (e.isReference && r.isReference) = true := by
    rw [Operand.isReference_of_fits hq he, hr, Bool.and_self]
  exact if_pos href

theorem leaves_box {q : Rep} (hq : q ≠ .void) (h : Holds T q top) :
    (standard T k).Leaves (.emit (.box q)) top .root := by
  obtain ⟨e, rfl, he⟩ := h.fits hq
  exact leaves_emit [.value .root] (fun _ σ => if_pos he) (holds_value (by decide))

theorem leaves_toArray (h : Holds T source top) :
    (standard T k).Leaves ((standard T k).toArray source) top .array := by
  cases source with
  | void => exact (leaves_constant (fun _ _ => rfl) rfl (by decide) h).returning _
  | array => exact leaves_pure h
  | value => exact (leaves_apply_address .valueGetArray rfl rfl (by decide) h).returning _
  | text | «alias» | resource | callable | bytes | object _ =>
    exact (leaves_castClass rfl rfl h).returning _
  | _ =>
    exact (leaves_box (by simp) h).bind fun _ _ h =>
      (leaves_castClass (r := .array) rfl rfl h).returning _

theorem leaves_toAlias (h : Holds T source top) :
    (standard T k).Leaves ((standard T k).toAlias (standard T k).reshape source) top
      .alias := by
  cases source with
  | «alias» => exact leaves_pure h
  | value => exact leaves_address .valueEnsureAlias rfl rfl (by decide) h
  | _ => exact (leaves_toValue h).bind fun _ _ => leaves_value .newAlias rfl rfl

theorem leaves_toCallable (h : Holds T source top) :
    (standard T k).Leaves ((standard T k).toCallable (standard T k).reshape source) top
      .callable := by
  cases source with
  | callable => exact leaves_pure h
  | text => exact leaves_value .textAsCallable rfl rfl h
  | char | mutText =>
    exact (leaves_toText h).bind fun _ _ => leaves_value .textAsCallable rfl rfl
  | bool | int32 | int64 | float32 | float64 | number => exact Yields.fail _
  | _ => exact (leaves_toValue h).bind fun _ _ => leaves_value .valueAsCallable rfl rfl

theorem leaves_toObject (ht : target.isReference = true) (h : Holds T source top) :
    (standard T k).Leaves ((standard T k).toObject source target) top target := by
  unfold toObject
  split_ifs with hs hroot hr
  · subst hs
    exact (leaves_apply_value .valueAsObject rfl rfl h).bind fun _ _ h =>
      (leaves_castClass rfl ht h).returning _
  · subst hs
    rw [not_ne_iff.1 hroot]
    exact (leaves_apply_value .valueAsObject rfl rfl h).returning _
  · exact (leaves_castClass hr.1 ht h).returning _
  · have hnull : Operand.null.fits T target = true := ht
    have hvoid : target ≠ .void := by
      rintro rfl
      cases ht
    exact (leaves_drop h).bind fun _ _ h =>
      (leaves_constant (fun _ _ => rfl) hnull hvoid h).returning _

end References

/-! ### All rules -/

theorem leaves_intoTarget (h : Holds T source top)
    (hb : target = .bytes →
      (standard T k).Leaves ((standard T k).reshape source hint .mutText) top .mutText)
    (hn : ∀ p, target = .nullable p →
      (standard T k).Leaves ((standard T k).reshape source hint p.rep) top p.rep)
    (ht : target ≠ .void) :
    (standard T k).Leaves
      ((standard T k).intoTarget (standard T k).reshape source hint target) top target := by
  cases target with
  | void => exact absurd rfl ht
  | bool => exact leaves_toBool h
  | int32 => exact leaves_toInt h
  | int64 => exact leaves_toLong h
  | float32 =>
    exact (leaves_toDouble h).bind fun _ _ h =>
      (leaves_conv (fun _ _ _ => rfl) (by decide) rfl h).returning _
  | float64 => exact leaves_toDouble h
  | number => exact leaves_toNumber h
  | char => exact (leaves_toText h).bind fun _ _ => leaves_value .textToChar rfl rfl
  | text => exact leaves_toText h
  | mutText => exact leaves_toMutText h
  | value => exact leaves_toValue h
  | key => exact leaves_toKey h
  | array => exact leaves_toArray h
  | «alias» => exact leaves_toAlias h
  | callable => exact leaves_toCallable h
  | bytes =>
    exact (hb rfl).bind fun _ _ => leaves_address .mutTextToBytes rfl rfl (by decide)
  | object c => exact leaves_toObject rfl h
  | resource => exact leaves_toObject rfl h
  | nullable p =>
    refine (hn p rfl).bind fun _ top' h => ?_
    obtain ⟨e, rfl, he⟩ := h.fits (by cases p <;> decide)
    have hwrap : (standard T k).Leaves (.emit (.newNullable p)) [e] (.nullable p) :=
      leaves_emit [.value (.nullable p)] (fun _ _ => if_pos he) (holds_value (by simp))
    exact hwrap.returning _

theorem demand?_of_accessor? {op : Op} (h : accessor? source hint = some op) :
    op.standard.demand? = some (.address source) := by
  obtain ⟨hreceiver, hparams, -⟩ := standard_of_accessor? h
  unfold Method.demand?
  rw [hreceiver, hparams]
  rfl

/-- **Every conversion is typed.**  Given a value of the source, and whatever lies below it, the
operands that it leaves hold a value of the representation it results in. -/
theorem yields_reshape (source : Rep) (hint : Hint) (target : Rep) :
    ∀ top, Holds T source top →
      (standard T k).Yields ((standard T k).reshape source hint target) top
        fun r => Holds T r := by
  refine reshape_induction (S := standard T k) standard_resolvesAliases
    (P := fun source hint target => ∀ top, Holds T source top →
      (standard T k).Yields ((standard T k).reshape source hint target) top fun r => Holds T r)
    (fun source hint target ih => ?_) source hint target
  intro top h
  rw [reshape_eq standard_resolvesAliases]
  apply reshapeBy_elim
    (P := fun plan : Script Rep => (standard T k).Yields plan top fun r => Holds T r)
  case stay =>
    rintro rfl
    exact .pure h
  case discard =>
    intro _ _
    exact (leaves_drop h).bind fun _ _ h => .pure h
  case behind =>
    rintro rfl - -
    have hcall : (standard T k).Leaves ((standard T k).call .aliasGetValue) top .value :=
      leaves_value .aliasGetValue rfl rfl h
    refine (hcall.mono fun a top' ha h => And.intro ha h).bind ?_
    rintro a top' ⟨ha, h⟩
    cases ha
    exact ih _ _ _ (.behind rfl rfl) top' h
  case assign =>
    intro _ _ _ _
    exact .pure h
  case narrow =>
    intro op hop _ _
    have hvoid : source ≠ .void := by
      rintro rfl
      cases source_of_accessor? hop <;> contradiction
    have hcall : (standard T k).Leaves ((standard T k).callByAddress source op) top
        op.standard.returns := leaves_address op (demand?_of_accessor? hop) rfl hvoid h
    refine (hcall.mono fun a top' ha h => And.intro ha h).bind ?_
    rintro a top' ⟨ha, h⟩
    cases ha
    exact ih _ _ _ (.narrowed hop) top' h
  case into =>
    intro _ ht hs _ hop
    -- what bytes and nullables are made from is no reference, so it is just what is left
    have nested : ∀ t, t.isReference = false →
        (standard T k).Nests source hint target source hint t →
        (standard T k).Leaves ((standard T k).reshape source hint t) top t := by
      intro t htype hnest
      refine (ih _ _ _ hnest top h).mono fun a top' ha h => ?_
      rw [result_reshape_of_not_isReference htype] at ha
      cases ha
      exact h
    have hpayload : ∀ p : Payload, p.rep.isReference = false := by
      intro p
      cases p <;> rfl
    refine (leaves_intoTarget h (fun hb => nested _ rfl (.bytes hs hop hb))
      (fun p hn => nested _ (hpayload p) (.wrapped hs hop hn)) ht).mono fun a top' ha h => ?_
    rw [result_intoTarget] at ha
    · split at ha <;> cases ha
      exact h
    · exact fun p _ => result_reshape_of_not_isReference rfl
    · exact fun _ => result_reshape_of_not_isReference rfl
    · exact fun p _ => ⟨_, result_reshape_of_not_isReference (hpayload p)⟩

end Scope

/-! ### Sessions -/

open Scope

/-- **Stack type safety.**  Whatever a session has been through, a conversion that succeeds in it
appends code that the checker accepts, on a stack with a value of the source on top: no operand
is missing or of a wrong type, and all ways through the code meet with the same stack.  In the end
the operands below the source are as they were, and on top is one operand of the representation
that the conversion results in, or none for no value.  This representation may be used as the
target. -/
theorem stack_type_safety {T : ClassTable} {k : Option ClassId} {o : Options} {s s' : Session}
    (hs : Session.Reachable (standard T k) o s) {source target r : Rep} {hint : Hint}
    (hrun : Session.run .standard ((standard T k).convert source hint target) s = .ok r s')
    {top below : List Operand} (htop : Holds T source top) :
    ∃ code f top', s'.builder.instrs.toList = s.builder.instrs.toList ++ code ∧
      Flow.check ⟨.standard, T, s'.builder.locals⟩ code (.start (top ++ below)) = some f ∧
      f.stack = some (top' ++ below) ∧ f.Closed ∧ Holds T r top' ∧
      T.assignable r target = true := by
  obtain ⟨hresult, hsteps⟩ := Session.run_eq_ok.1 hrun
  obtain ⟨top', htyped, hleft⟩ := yields_reshape (k := k) source hint target top htop
  have hsound : s'.Sound :=
    ((Session.invariant_sound .standard).performAll _).of_eq_ok hs.sound hsteps
  have hvalid := Session.numbers_of_performAll hsteps hsound s.builder.labels
  obtain ⟨f, hcheck, hf, hext⟩ := htyped below (s'.numbering s.builder.labels)
    s'.builder.locals (.start (top ++ below)) hvalid.slot rfl (Flow.fresh_start _ _)
  rw [result_convert, ← result_reshape (k := k)] at hresult
  refine ⟨_, f, top', Session.performAll_code hsteps, hcheck, hf, hext.closed fun _ => rfl,
    hleft r hresult, ?_⟩
  rw [result_reshape, outcome] at hresult
  split at hresult <;> cases hresult
  exact assignable_leaves

/-- A nullable is wrapped and then converted to text: the code has two ways. -/
theorem stack_type_safety_nullable : ∃ s s' : Session,
    Session.Reachable (standard .new none) .standard s ∧
    Session.run .standard ((standard .new none).convert (.nullable .int64) .empty .text) s =
      .ok .text s' ∧
    Holds .new (.nullable .int64) [.value (.nullable .int64)] ∧
    ∃ code f top', s'.builder.instrs.toList = s.builder.instrs.toList ++ code ∧
      Flow.check ⟨.standard, .new, s'.builder.locals⟩ code
        (.start ([.value (.nullable .int64)] ++ [.context])) = some f ∧
      f.stack = some (top' ++ [.context]) ∧ f.Closed ∧ Holds .new .text top' ∧
      ClassTable.new.assignable .text .text = true := by
  let S := standard .new none
  let s := Session.endOf ((Request.emit (.newNullable .int64)).answer S .standard)
    (Session.endOf ((Request.emit (.ldcI8 0)).answer S .standard) (.new none none))
  have hs : Session.Reachable S .standard s := .request _ (.request _ (.new none none))
  have hrun : ∃ s', Session.run .standard (S.convert (.nullable .int64) .empty .text) s =
      .ok .text s' := by decide +kernel
  have htop : Holds .new (.nullable .int64) [.value (.nullable .int64)] := holds_value (by simp)
  obtain ⟨s', hrun⟩ := hrun
  exact ⟨s, s', hs, hrun, htop, stack_type_safety hs hrun htop⟩

end Recast
