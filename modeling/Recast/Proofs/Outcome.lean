import Mathlib.Tactic.ByContra
import Mathlib.Tactic.IntervalCases
import Mathlib.Tactic.SplitIfs
import Recast.Catalog.Standard
import Recast.Proofs.Nesting

/-!
# What becomes of a conversion

Over the standard run-time a conversion succeeds or fails by its representations and its hint
alone.  The *effective source* is what the value is known to be once an alias is followed and
the hint is used; a conversion fails exactly when something that can be called is wanted of a
number.

* `effectiveSource` : the effective source, by families of the hint;
* `Scope.result_intoTarget` : the last rule, for a source that is no alias and not narrowed;
* `Scope.result_reshape` : **the outcome of every conversion in closed form**.
-/

namespace Recast

/-! ### Hints of one family -/

theorem Hint.withoutRef_eq_self {h : Hint} (href : h.contains .ref = false) :
    h.withoutRef = h := by
  obtain ⟨b⟩ := h
  have hbit : b.toBitVec.getLsbD 9 = false := by
    by_contra hb
    rw [Bool.not_eq_false] at hb
    suffices b &&& 0x200 = 0x200 by
      simp only [Hint.contains, Hint.ref, this, BEq.rfl, Bool.true_eq_false] at href
    apply UInt16.toBitVec_inj.1
    apply BitVec.eq_of_getLsbD_eq
    intro i hi
    interval_cases i <;> simp_all
  suffices b &&& ~~~0x200 = b by simp only [Hint.withoutRef, Hint.ref, this]
  apply UInt16.toBitVec_inj.1
  apply BitVec.eq_of_getLsbD_eq
  intro i hi
  interval_cases i <;> simp_all

/-- How a union is read if the hint says that it holds one family, and nothing else. -/
def Rep.narrowedBy : Rep → Hint → Rep
  | .value, h =>
    if h = .bool then .bool
    else if h = .long then .int64
    else if h = .double then .float64
    else if h = .string then .text
    else if h = .writableString then .mutText
    else if h = .array then .array
    else if h = .object then .root
    else .value
  | .number, h =>
    if h = .long then .int64
    else if h = .double then .float64
    else .number
  | r, _ => r

/-- What a value is known to be when its conversion starts: an alias is followed, and a union is
read as the one family that the hint admits. -/
def effectiveSource : Rep → Hint → Rep
  | .alias, h => Rep.narrowedBy .value h.withoutRef
  | r, h => r.narrowedBy h

/-- A number, in the numeric union or not. -/
def Rep.isNumeric : Rep → Bool
  | .bool | .int32 | .int64 | .float32 | .float64 | .number => true
  | _ => false

/-! ### Narrowing over the standard run-time -/

section Narrowing

variable {source : Rep} {hint : Hint} {op : Op}

/-- A typed accessor is a member of the union it reads, takes nothing else, and leaves the one
representation that the hint admits. -/
theorem standard_of_accessor? (h : accessor? source hint = some op) :
    op.standard.receiver = .address source ∧ op.standard.params = [] ∧
      op.standard.returns = source.narrowedBy hint := by
  have hsource := source_of_accessor? h
  unfold accessor? Hint.single at h
  split at h
  · cases h
  · rename_i href
    rw [Hint.withoutRef_eq_self (by simpa using href)] at h
    rcases hsource with rfl | rfl <;> dsimp only at h <;> split_ifs at h <;> cases h <;>
      subst_vars <;> exact ⟨rfl, rfl, by decide⟩

theorem narrowedBy_of_accessor?_eq_none (h : accessor? source hint = none) :
    source.narrowedBy hint = source := by
  cases source with
  | value | number =>
    -- under a hint of one family there is an accessor
    simp only [Rep.narrowedBy]
    split_ifs <;> first | rfl | (subst_vars; exact absurd h (by decide))
  | _ => rfl

theorem effectiveSource_of_ne_alias (h : source ≠ .alias) :
    effectiveSource source hint = source.narrowedBy hint := by
  cases source <;> first | rfl | exact absurd rfl h

/-- A value that is neither an alias nor narrowed is known to be what it is. -/
theorem effectiveSource_eq_self (hs : source ≠ .alias) (hop : accessor? source hint = none) :
    effectiveSource source hint = source := by
  rw [effectiveSource_of_ne_alias hs, narrowedBy_of_accessor?_eq_none hop]

theorem effectiveSource_of_isReference (hs : source ≠ .alias) (hr : source.isReference = true) :
    effectiveSource source hint = source := by
  cases source <;> first | rfl | exact absurd rfl hs | cases hr

theorem narrowedBy_ne_alias (h : source ≠ .alias) : source.narrowedBy hint ≠ .alias := by
  cases source with
  | value | number =>
    simp only [Rep.narrowedBy]
    split_ifs <;> simp [Rep.root]
  | _ => exact h

theorem effectiveSource_ne_alias : effectiveSource source hint ≠ .alias := by
  by_cases h : source = .alias
  · subst h
    have hvalue : Rep.value ≠ .alias := by decide
    exact narrowedBy_ne_alias hvalue
  · rw [effectiveSource_of_ne_alias h]
    exact narrowedBy_ne_alias h

end Narrowing

/-! ### Assignability -/

namespace ClassTable

variable {T : ClassTable} {source target : Rep}

@[simp]
theorem assignable_self (r : Rep) : T.assignable r r = true := by
  simp only [assignable, ↓reduceIte]

/-- Distinct representations take part only if both are references. -/
theorem isReference_of_assignable (h : T.assignable source target = true)
    (hne : source ≠ target) : source.isReference = true ∧ target.isReference = true := by
  unfold assignable at h
  rw [if_neg hne] at h
  split_ifs at h with hr
  · simpa using hr
  · simpa using hr

theorem eq_of_assignable (h : T.assignable source target = true)
    (ht : target.isReference = false) : source = target := by
  by_contra hne
  rw [(isReference_of_assignable h hne).2] at ht
  cases ht

/-- Nothing but an alias may be used as one. -/
theorem eq_of_assignable_alias (h : T.assignable source .alias = true) : source = .alias := by
  by_contra hne
  unfold assignable at h
  rw [if_neg hne] at h
  cases source <;> simp [Rep.isReference, Rep.root] at h

theorem assignable_root (h : source.isReference = true) : T.assignable source .root = true := by
  have hroot : Rep.root.isReference = true := rfl
  simp [assignable, h, hroot]

end ClassTable

namespace Scope

/-- The scope of a routine over the standard run-time. -/
def standard (T : ClassTable) (caller : Option ClassId) : Scope := ⟨.standard, T, caller⟩

variable {T : ClassTable} {k : Option ClassId} {R : Reshape} {source target : Rep} {hint : Hint}

theorem standard_resolvesAliases : (standard T k).catalog.ResolvesAliases := by
  intro m hm
  cases hm
  decide

@[simp]
theorem result_call_standard (op : Op) :
    ((standard T k).call op).result = .ok op.standard.returns := rfl

@[simp]
theorem result_callByAddress_standard (r : Rep) (op : Op) :
    ((standard T k).callByAddress r op).result = .ok op.standard.returns := rfl

@[simp]
theorem result_apply_standard (op : Op) : ((standard T k).apply op).result = .ok () := rfl

@[simp]
theorem result_applyByAddress_standard (r : Rep) (op : Op) :
    ((standard T k).applyByAddress r op).result = .ok () := rfl

/-! ### The last rule -/

section Targets

-- the payload of a nullable is put into the dynamic union
variable (hp : ∀ p, source = .nullable p → (R p.rep .empty .value).result = .ok .value)

include hp

theorem result_toValue : ((standard T k).toValue R source).result = .ok .value := by
  cases source with
  | nullable p =>
    simp only [toValue, nullableToValue, Script.result_bind, Script.result_step,
      Script.result_emit, result_apply_standard, Script.result_pure, hp p rfl, Except.bind]
  | _ => rfl

theorem result_viaValue (op : Op) :
    ((standard T k).viaValue R source op).result = .ok op.standard.returns := by
  simp only [viaValue, Script.result_bind, result_toValue hp, Except.bind,
    result_callByAddress_standard]

theorem result_toText : ((standard T k).toText R source).result = .ok .text := by
  cases source with
  | nullable p => exact result_viaValue hp .valueToText
  | _ => rfl

theorem result_toBool : ((standard T k).toBool R source).result = .ok .bool := by
  cases source with
  | nullable p =>
    simp only [toBool, Script.result_bind, result_viaValue hp, Except.bind, Script.result_pure]
  | _ => rfl

theorem result_toLong : ((standard T k).toLong R source).result = .ok .int64 := by
  cases source with
  | nullable p =>
    simp only [toLong, Script.result_bind, result_viaValue hp, Except.bind, Script.result_pure]
  | _ => rfl

theorem result_toInt : ((standard T k).toInt R source).result = .ok .int32 := by
  cases source with
  | nullable p =>
    simp only [toInt, Script.result_bind, result_toLong hp, Except.bind, Script.result_emit,
      Script.result_pure]
  | _ => rfl

theorem result_toDouble : ((standard T k).toDouble R source).result = .ok .float64 := by
  cases source with
  | nullable p =>
    simp only [toDouble, Script.result_bind, result_viaValue hp, Except.bind, Script.result_pure]
  | _ => rfl

theorem result_toNumber : ((standard T k).toNumber R source).result = .ok .number := by
  cases source with
  | nullable p =>
    simp only [toNumber, Script.result_bind, result_viaValue hp, Except.bind, Script.result_pure]
  | _ => rfl

theorem result_toMutText : ((standard T k).toMutText R source).result = .ok .mutText := by
  cases source with
  | nullable p =>
    simp only [toMutText, Script.result_bind, result_toText hp, Except.bind,
      result_call_standard, Op.standard]
  | _ => rfl

theorem result_toKey : ((standard T k).toKey R source).result = .ok .key := by
  cases source with
  | nullable p =>
    simp only [toKey, Script.result_bind, result_toValue hp, Except.bind,
      result_call_standard, Op.standard]
  | _ => rfl

theorem result_toAlias : ((standard T k).toAlias R source).result = .ok .alias := by
  cases source with
  | nullable p =>
    simp only [toAlias, Script.result_bind, result_toValue hp, Except.bind,
      result_call_standard, Op.standard]
  | _ => rfl

theorem result_toCallable :
    ((standard T k).toCallable R source).result =
      if source.isNumeric then .error (.notCallable source) else .ok .callable := by
  cases source with
  | nullable p =>
    simp only [toCallable, Rep.isNumericScalar, Rep.isNumeric, reduceCtorEq, Bool.false_eq_true,
      or_self, ↓reduceIte, Script.result_bind, result_toValue hp, Except.bind,
      result_call_standard, Op.standard]
  | _ => rfl

end Targets

theorem result_toArray : ((standard T k).toArray source).result = .ok .array := by
  cases source <;> rfl

theorem result_toObject : ((standard T k).toObject source target).result = .ok target := by
  unfold toObject
  split_ifs <;> simp only [Script.result_bind, result_apply_standard, Script.result_emit,
    Script.result_drop, Script.result_pure, Except.bind]

/-- The last rule leaves the target, unless something that can be called is wanted of a
number. -/
theorem result_intoTarget
    (hp : ∀ p, source = .nullable p → (R p.rep .empty .value).result = .ok .value)
    (hb : target = .bytes → (R source hint .mutText).result = .ok .mutText)
    (hn : ∀ p, target = .nullable p → ∃ r, (R source hint p.rep).result = .ok r) :
    ((standard T k).intoTarget R source hint target).result =
      if target = .callable ∧ source.isNumeric then .error (.notCallable source)
      else .ok target := by
  cases target with
  | callable =>
    simp only [intoTarget, result_toCallable hp, true_and]
  | nullable p =>
    obtain ⟨r, hr⟩ := hn p rfl
    simp only [intoTarget, Script.result_bind, hr, Script.result_emit, Script.result_pure,
      Except.bind, reduceCtorEq, false_and, ↓reduceIte]
  | bytes =>
    simp only [intoTarget, Script.result_bind, hb rfl, Except.bind,
      result_callByAddress_standard, Op.standard, reduceCtorEq, false_and, ↓reduceIte]
  | _ =>
    simp only [intoTarget, result_toBool hp, result_toInt hp, result_toLong hp,
      result_toDouble hp, result_toNumber hp, result_toText hp, result_toMutText hp,
      result_toValue hp, result_toKey hp, result_toArray, result_toAlias hp, result_toObject,
      Script.result_bind, Script.result_emit, Script.result_pure, result_call_standard,
      Except.bind, Op.standard, reduceCtorEq, false_and, ↓reduceIte]

/-! ### All rules -/

/-- What is left on the stack by a conversion that succeeds: the effective source if it may be
used as the target, and otherwise the target itself. -/
def leaves (T : ClassTable) (source : Rep) (hint : Hint) (target : Rep) : Rep :=
  if T.assignable (effectiveSource source hint) target then effectiveSource source hint
  else target

/-- The outcome of a conversion over the standard run-time. -/
def outcome (T : ClassTable) (source : Rep) (hint : Hint) (target : Rep) :
    Except ConvertError Rep :=
  if target = .callable ∧ (effectiveSource source hint).isNumeric then
    .error (.notCallable (effectiveSource source hint))
  else .ok (leaves T source hint target)

/-- What is left may be used as the target. -/
theorem assignable_leaves : T.assignable (leaves T source hint target) target = true := by
  unfold leaves
  split_ifs with h
  · exact h
  · exact ClassTable.assignable_self target

theorem leaves_of_not_isReference (ht : target.isReference = false) :
    leaves T source hint target = target := by
  unfold leaves
  split_ifs with h
  · exact ClassTable.eq_of_assignable h ht
  · rfl

theorem leaves_self (r : Rep) : leaves T r hint r = r := by
  by_cases hr : r.isReference = true
  · by_cases hs : r = .alias
    · subst hs
      refine if_neg fun h => ?_
      exact effectiveSource_ne_alias (ClassTable.eq_of_assignable_alias h)
    · unfold leaves
      rw [effectiveSource_of_isReference hs hr, ite_self]
  · exact leaves_of_not_isReference (by simpa using hr)

theorem outcome_of_ne_callable (ht : target ≠ .callable) :
    outcome T source hint target = .ok (leaves T source hint target) :=
  if_neg fun h => ht h.1

theorem outcome_payload (p : Payload) : outcome T p.rep .empty .value = .ok .value := by
  rw [outcome_of_ne_callable (by decide), leaves_of_not_isReference rfl]

/-- **The outcome of every conversion.**  The proof follows the rules; each rule either leaves
the effective source as it is and hands on to a nested conversion, or decides. -/
theorem result_reshape (source : Rep) (hint : Hint) (target : Rep) :
    ((standard T k).reshape source hint target).result = outcome T source hint target := by
  refine reshape_induction (S := standard T k) standard_resolvesAliases
    (P := fun source hint target =>
      ((standard T k).reshape source hint target).result = outcome T source hint target)
    (fun source hint target ih => ?_) source hint target
  rw [reshape_eq standard_resolvesAliases]
  apply reshapeBy_elim
    (P := fun plan : Script Rep => plan.result = outcome T source hint target)
  case stay =>
    rintro rfl
    have hnum : ¬(source = .callable ∧ (effectiveSource source hint).isNumeric = true) := by
      rintro ⟨rfl, h⟩
      cases h
    rw [outcome, if_neg hnum, leaves_self]
    rfl
  case discard =>
    rintro - rfl
    rw [outcome_of_ne_callable (by decide), leaves_of_not_isReference rfl]
    simp only [Script.result_bind, Script.result_drop, Except.bind, Script.result_pure]
  case behind =>
    rintro rfl - -
    have := ih _ _ _ (.behind rfl (result_call_standard .aliasGetValue))
    simp only [Script.result_bind, result_call_standard, Except.bind, this]
    rfl
  case assign =>
    intro hne _ hs hassign
    have hr := (ClassTable.isReference_of_assignable hassign hne).1
    have heff : effectiveSource source hint = source := effectiveSource_of_isReference hs hr
    have hnum : source.isNumeric = false := by cases source <;> first | rfl | cases hr
    have : T.assignable source target = true := hassign
    simp only [outcome, leaves, heff, hnum, this, Bool.false_eq_true, and_false, ↓reduceIte,
      Script.result_pure]
  case narrow =>
    intro op hop _ _
    obtain ⟨-, -, hret⟩ := standard_of_accessor? hop
    have hs : source ≠ .alias := by
      rintro rfl
      cases source_of_accessor? hop <;> contradiction
    have heff : effectiveSource source hint = source.narrowedBy hint :=
      effectiveSource_of_ne_alias hs
    -- the narrowed value is known to be what it is
    have hself : effectiveSource op.standard.returns op.standard.returns.hint =
        effectiveSource source hint := by
      rw [heff, ← hret]
      exact effectiveSource_eq_self (by rw [hret]; exact narrowedBy_ne_alias hs)
        (accessor?_hint _)
    have := ih op.standard.returns _ _ (.narrowed hop)
    simp only [Script.result_bind, result_callByAddress_standard, Except.bind, this, outcome,
      leaves, hself]
  case into =>
    intro _ _ hs hassign hop
    have hassign : T.assignable source target = false := hassign
    have heff := effectiveSource_eq_self hs hop
    rw [result_intoTarget]
    · simp only [outcome, leaves, heff, hassign, Bool.false_eq_true, ↓reduceIte]
    · exact fun p hp => (ih _ _ _ (.payload hp)).trans (outcome_payload p)
    · intro ht
      rw [ih _ _ _ (.bytes hs hop ht), outcome_of_ne_callable (by decide),
        leaves_of_not_isReference rfl]
    · intro p ht
      rw [ih _ _ _ (.wrapped hs hop ht), outcome_of_ne_callable (by cases p <;> decide)]
      exact ⟨_, rfl⟩

/-- The payload of a nullable is put into the dynamic union along one way. -/
theorem reshape_payload (p : Payload) :
    (standard T k).reshape p.rep .empty .value =
      (standard T k).toValue (standard T k).reshape p.rep := by
  rw [reshape_eq standard_resolvesAliases]
  cases p <;> rfl

/-- A conversion into a value type leaves just that. -/
theorem result_reshape_of_not_isReference (ht : target.isReference = false) :
    ((standard T k).reshape source hint target).result = .ok target := by
  rw [result_reshape, outcome_of_ne_callable (by rintro rfl; cases ht),
    leaves_of_not_isReference ht]

/-- A conversion names itself in no error: over the standard run-time nothing is missing. -/
theorem result_convert (source : Rep) (hint : Hint) (target : Rep) :
    ((standard T k).convert source hint target).result = outcome T source hint target := by
  rw [convert, Script.result_mapError, result_reshape, outcome]
  split <;> rfl

end Scope

end Recast
