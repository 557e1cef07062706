import Recast.Proofs.Folding
import Recast.Proofs.MissingOperations

/-!
# Narrowing and run-time failures

A union that a hint narrows goes on as what it holds, and is converted by the rules for that.
Those rules may cast where the rule for the union would not, and a checked cast may fail when the
code runs.

* `Step.suits` : the casts and the calls that a conversion of what is no longer narrowed takes;
* `Scope.suits_reshape` : **it takes no others**: nothing is read by a typed accessor, and nothing
  is cast to anything but the target;
* `narrowing_casts_iff` : **narrowing adds a checked cast exactly where an array is wanted** and the
  hint proves that the union holds none.
-/

namespace Recast

/-- The union that an operation takes the payload of, without a test of what it holds. -/
def Op.narrows? : Op → Option Rep
  | .valueLong | .valueDouble | .valueBool | .valueText | .valueMutText | .valueArray
  | .valueObject => some .value
  | .numberLong | .numberDouble => some .number
  | _ => none

/-- A conversion into the representation may fail at run time. -/
def Rep.isCastTarget : Rep → Bool
  | .array | .object _ | .resource => true
  | _ => false

/-- The instruction checks that a reference is an instance, and fails otherwise. -/
def Instr.isCast : Instr → Bool
  | .castClass _ => true
  | _ => false

namespace Step

/-- The step is a checked cast. -/
def isCast : Step → Bool
  | .emit i => i.isCast
  | _ => false

/-- A step that may be taken to convert a value into a target if nothing is narrowed: no payload of
a union is taken, only an array is made of a boxed value, and a cast is one to the target. -/
def suits (target : Rep) : Step → Bool
  | .emit (.castClass r) => r == target && target.isCastTarget
  | .emit (.box _) => target == .array
  | t => (t.op?.bind Op.narrows?).isNone

theorem suits_of_not_isCastTarget {target : Rep} {t : Step} (ht : target.isCastTarget = false)
    (h : t.suits target = true) (r : Rep) : t.suits r = true := by
  cases t with
  | emit i =>
    cases i with
    | castClass q => simp [suits, ht] at h
    | box q =>
      have harray : target = .array := by simpa [suits] using h
      rw [harray] at ht
      cases ht
    | _ => exact h
  | _ => rfl

end Step

/-- The plan has a checked cast. -/
def Script.casts {α : Type} (p : Script α) : Bool := p.steps.any Step.isCast

theorem Numbering.any_isCast_code (N : Numbering) (ts : List Step) :
    (N.code ts).any Instr.isCast = ts.any Step.isCast := by
  induction ts generalizing N with
  | nil => rfl
  | cons t ts ih =>
    rw [code_cons, List.any_append, ih, List.any_cons]
    cases t <;> simp [instr?, Step.isCast, Instr.isCast]

namespace Scope

open Script

variable {T : ClassTable} {k : Option ClassId} {source target : Rep} {hint : Hint} {op : Op}

/-! ### What is not narrowed -/

theorem suits_call (hop : op.narrows? = none) (target : Rep) :
    ((standard T k).call op).all (Step.suits target) = true := by
  cases op <;> first | rfl | cases hop

theorem suits_callByAddress (hop : op.narrows? = none) (r target : Rep) :
    ((standard T k).callByAddress r op).all (Step.suits target) = true :=
  all_bind rfl fun _ _ => suits_call hop target

theorem suits_drop (r target : Rep) : (Script.drop r).all (Step.suits target) = true := by
  cases r <;> rfl

theorem suits_toObject (ht : target.isCastTarget = true) :
    ((standard T k).toObject source target).all (Step.suits target) = true := by
  have hcast : (Script.emit (.castClass target)).all (Step.suits target) = true := by
    simp [Script.all, Step.suits, ht]
  have hobject : ((standard T k).apply .valueAsObject).all (Step.suits target) = true :=
    all_bind (suits_call rfl target) fun _ _ => rfl
  unfold toObject
  split_ifs
  · exact all_bind hobject fun _ _ => all_bind hcast fun _ _ => rfl
  · exact all_bind hobject fun _ _ => rfl
  · exact all_bind hcast fun _ _ => rfl
  · exact all_bind (suits_drop source target) fun _ _ => rfl

theorem suits_intoTarget
    (hb : target = .bytes →
      ((standard T k).reshape source hint .mutText).all (Step.suits .mutText) = true)
    (hn : ∀ p, target = .nullable p →
      ((standard T k).reshape source hint p.rep).all (Step.suits p.rep) = true) :
    ((standard T k).intoTarget (standard T k).reshape source hint target).all
      (Step.suits target) = true := by
  cases target with
  | bytes =>
    exact all_bind (all_mono (fun _ h => Step.suits_of_not_isCastTarget rfl h _) (hb rfl))
      fun _ _ => suits_callByAddress rfl _ _
  | nullable p =>
    have hcast : p.rep.isCastTarget = false := by cases p <;> rfl
    exact all_bind (all_mono (fun _ h => Step.suits_of_not_isCastTarget hcast h _) (hn p rfl))
      fun _ _ => rfl
  | object cls => exact suits_toObject rfl
  | resource => exact suits_toObject rfl
  | _ =>
    cases source with
    | nullable p =>
      rw [intoTarget_nullable p Rep.noConfusion fun _ => Rep.noConfusion]
      cases p <;> rfl
    | _ => rfl

/-- **A conversion of what is not narrowed takes no payload of a union and casts to nothing but the
target.** -/
theorem suits_reshape (source : Rep) (hint : Hint) (target : Rep) :
    source ≠ .alias → accessor? source hint = none →
      ((standard T k).reshape source hint target).all (Step.suits target) = true := by
  refine reshape_induction (S := standard T k) standard_resolvesAliases
    (P := fun source hint target => source ≠ .alias → accessor? source hint = none →
      ((standard T k).reshape source hint target).all (Step.suits target) = true)
    (fun source hint target ih => ?_) source hint target
  intro hs hnone
  rw [reshape_eq standard_resolvesAliases]
  apply reshapeBy_elim (P := fun plan : Script Rep => plan.all (Step.suits target) = true)
  case stay => exact fun _ => rfl
  case discard => exact fun _ _ => all_bind (suits_drop source target) fun _ _ => rfl
  case behind => exact fun halias => absurd halias hs
  case assign => exact fun _ _ _ _ => rfl
  case narrow =>
    intro op hop
    rw [hop] at hnone
    cases hnone
  case into =>
    intro _ _ _ _ _
    exact suits_intoTarget (fun ht => ih _ _ _ (.bytes hs hnone ht) hs hnone)
      fun p ht => ih _ _ _ (.wrapped hs hnone ht) hs hnone

theorem casts_eq_false {p : Script Rep} (ht : target.isCastTarget = false)
    (h : p.all (Step.suits target) = true) : p.casts = false := by
  rw [casts, List.any_eq_false]
  intro t hmem hcast
  have hsuits := all_iff.1 h t hmem
  cases t with
  | emit i =>
    cases i with
    | castClass r => simp [Step.suits, ht] at hsuits
    | _ => cases hcast
  | _ => cases hcast

/-! ### What is narrowed -/

theorem casts_bind {α β : Type} {p : Script α} {f : α → Script β} {a : α} (h : p.result = .ok a) :
    (p >>= f).casts = (p.casts || (f a).casts) := by
  simp only [casts, steps_bind, h, List.any_append]

theorem narrows?_of_accessor? (h : accessor? source hint = some op) :
    op.narrows? = some source := by
  unfold accessor? at h
  split at h
  · cases h
  · split at h <;> cases h <;> rfl

theorem casts_reshape_of_accessor? (hop : accessor? source hint = some op) (hne : source ≠ target)
    (ht : target ≠ .void) :
    ((standard T k).reshape source hint target).casts =
      ((standard T k).reshape op.standard.returns op.standard.returns.hint target).casts := by
  have hcall : ((standard T k).callByAddress source op).casts = false := by cases op <;> rfl
  rw [reshape_of_accessor? standard_resolvesAliases hop hne ht,
    casts_bind (result_callByAddress_standard _ _), hcall, Bool.false_or]

theorem casts_reshape_value (ht : target.isCastTarget = false) :
    ((standard T k).reshape .value hint target).casts = false := by
  by_cases hvalue : Rep.value = target
  · rw [← hvalue, reshape_self]
    rfl
  by_cases hvoid : target = .void
  · rw [hvoid, reshape_eq standard_resolvesAliases]
    rfl
  cases hop : accessor? .value hint with
  | none => exact casts_eq_false ht (suits_reshape .value hint target (by decide) hop)
  | some op =>
    rw [casts_reshape_of_accessor? hop hvalue hvoid]
    refine casts_eq_false ht (suits_reshape _ _ _ ?_ (accessor?_hint _))
    rw [(standard_of_accessor? hop).2.2]
    exact narrowedBy_ne_alias (by decide)

/-- An array is taken out of the union; what a hint proves to be something else is cast. -/
theorem casts_reshape_value_array :
    ((standard T k).reshape .value hint .array).casts = true ↔
      Rep.narrowedBy .value hint ≠ .value ∧ Rep.narrowedBy .value hint ≠ .array := by
  cases hop : accessor? .value hint with
  | none =>
    have hquiet : ((standard T k).reshape .value hint .array).casts = false := by
      rw [reshape_of_intoTarget standard_resolvesAliases (by decide) (by decide) rfl hop]
      rfl
    rw [hquiet, narrowedBy_of_accessor?_eq_none hop]
    decide
  | some op =>
    have hunion := narrows?_of_accessor? hop
    have hcasts : ((standard T k).reshape .value hint .array).casts =
        decide (op.standard.returns ≠ .array) := by
      rw [casts_reshape_of_accessor? hop (by decide) (by decide),
        reshape_eq standard_resolvesAliases]
      cases op <;> first | (cases hunion; done) | rfl
    have hvalue : op.standard.returns ≠ .value := by
      cases op <;> first | (cases hunion; done) | decide
    rw [hcasts, decide_eq_true_iff, ← (standard_of_accessor? hop).2.2]
    exact ⟨fun harray => ⟨hvalue, harray⟩, fun h => h.2⟩

/-- A narrowed union is an instance as it is, or dropped for null. -/
theorem casts_reshape_value_root :
    ((standard T k).reshape .value hint .root).casts = false := by
  cases hop : accessor? .value hint with
  | none =>
    rw [reshape_of_intoTarget standard_resolvesAliases (by decide) (by decide) rfl hop]
    rfl
  | some op =>
    have hunion := narrows?_of_accessor? hop
    rw [casts_reshape_of_accessor? hop (by decide) (by decide), reshape_eq standard_resolvesAliases]
    cases op <;> first | (cases hunion; done) | rfl

theorem casts_reshape_value_instance (ht : target.isCastTarget = true) (harray : target ≠ .array)
    (hroot : target ≠ .root) : ((standard T k).reshape .value .empty target).casts = true := by
  have hinto : (standard T k).reshape .value .empty target =
      (standard T k).toObject .value target := by
    cases target with
    | object cls | resource =>
      rw [reshape_of_intoTarget standard_resolvesAliases (by simp) (by simp) rfl
        (accessor?_empty _)]
      rfl
    | array => exact absurd rfl harray
    | _ => cases ht
  rw [hinto, toObject, if_pos rfl, if_pos hroot]
  rfl

end Scope

open Scope

/-- **Narrowing adds a checked cast exactly where an array is wanted.**  Let the code that converts
a union that nothing is known of have no checked cast.  Then the code that converts a union with a
hint has one if, and only if, the target is an array and the hint proves that the union holds
something else: a union that nothing is known of would have been given up for null. -/
theorem narrowing_casts_iff {T : ClassTable} {k : Option ClassId} {hint : Hint} {target : Rep}
    {N N' : Numbering}
    (h : (N.code ((standard T k).convert .value .empty target).steps).any Instr.isCast = false) :
    (N'.code ((standard T k).convert .value hint target).steps).any Instr.isCast = true ↔
      target = .array ∧ Rep.narrowedBy .value hint ≠ .value ∧
        Rep.narrowedBy .value hint ≠ .array := by
  rw [N.any_isCast_code] at h
  rw [N'.any_isCast_code]
  change ((standard T k).reshape .value .empty target).casts = false at h
  change ((standard T k).reshape .value hint target).casts = true ↔ _
  by_cases harray : target = .array
  · subst harray
    rw [casts_reshape_value_array]
    exact (and_iff_right rfl).symm
  have hquiet : ((standard T k).reshape .value hint target).casts = false := by
    by_cases hcast : target.isCastTarget = true
    · by_cases hroot : target = .root
      · rw [hroot, casts_reshape_value_root]
      · rw [casts_reshape_value_instance hcast harray hroot] at h
        cases h
    · exact casts_reshape_value (Bool.not_eq_true _ ▸ hcast)
  rw [hquiet]
  exact iff_of_false Bool.false_ne_true fun hand => harray hand.1

/-- A union that is known to hold an integer is cast to an array; one that nothing is known of is
not, whatever it holds. -/
theorem narrowing_casts_long :
    (((Session.new none none).numbering 0).code
        ((standard .new none).convert .value .empty .array).steps).any Instr.isCast = false ∧
      (((Session.new none none).numbering 0).code
        ((standard .new none).convert .value .long .array).steps).any Instr.isCast = true :=
  ⟨rfl, (narrowing_casts_iff (N := (Session.new none none).numbering 0) rfl).2
    ⟨rfl, by decide, by decide⟩⟩

end Recast
