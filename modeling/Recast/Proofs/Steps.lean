import Recast.Proofs.Outcome

/-!
# The steps of conversions

A conversion names locals, texts and labels by its steps only, and never by a number.  Only a
nullable is converted with branches; every other plan is a straight line.

* `Scope.isSymbolic_reshape` : **no conversion emits an instruction with a number**;
* `Scope.isPlain_reshape` : **a conversion of anything but a nullable is straight**.
-/

namespace Recast

/-- The instruction names a slot, an index or a label by its number. -/
def Instr.isNumbered : Instr → Bool
  | .ldStr _ | .ldLoc _ | .ldLocA _ | .stLoc _ | .ldArg _ | .ldArgA _ => true
  | .invoke .. | .br _ | .brFalse _ | .mark _ => true
  | _ => false

namespace Step

/-- The step defines, places or branches to a label. -/
def branches : Step → Bool
  | .fork | .brAbsent | .brEnd | .markAbsent | .markEnd => true
  | _ => false

/-- The step names nothing by a number. -/
def isSymbolic : Step → Bool
  | .emit i => !i.isNumbered
  | _ => true

/-- The step neither names anything by a number nor has to do with labels. -/
def isPlain (t : Step) : Bool := t.isSymbolic && !t.branches

theorem isSymbolic_of_isPlain {t : Step} (h : t.isPlain = true) : t.isSymbolic = true :=
  ((Bool.and_eq_true _ _).mp h).1

theorem branches_of_isPlain {t : Step} (h : t.isPlain = true) : t.branches = false := by
  simpa using ((Bool.and_eq_true _ _).mp h).2

end Step

namespace Script

variable {α β : Type} {q q' : Step → Bool} {p : Script α} {f : α → Script β}

/-- All steps of the plan are of a kind. -/
def all (q : Step → Bool) (p : Script α) : Bool := p.steps.all q

theorem all_iff : p.all q = true ↔ ∀ t ∈ p.steps, q t = true := List.all_eq_true

theorem all_mono (h : ∀ t, q t = true → q' t = true) (hp : p.all q = true) :
    p.all q' = true :=
  all_iff.2 fun t ht => h t (all_iff.1 hp t ht)

theorem all_bind (hp : p.all q = true) (hf : ∀ a, p.result = .ok a → (f a).all q = true) :
    (p >>= f).all q = true := by
  unfold all at *
  rw [steps_bind, List.all_append, hp]
  cases h : p.result with
  | ok a => exact hf a h
  | error e => rfl

theorem steps_map (g : α → β) (p : Script α) : (g <$> p).steps = p.steps := by
  rw [← bind_pure_comp, steps_bind]
  cases p.result <;> exact List.append_nil _

theorem result_map (g : α → β) (p : Script α) : (g <$> p).result = p.result.map g := by
  rw [← bind_pure_comp, result_bind]
  cases p.result <;> rfl

theorem all_map (hp : p.all q = true) (g : α → β) : (g <$> p).all q = true := by
  rwa [all, steps_map]

theorem branches_of_isPlain (hp : p.all Step.isPlain = true) : ∀ t ∈ p.steps, t.branches = false :=
  fun t ht => Step.branches_of_isPlain (all_iff.1 hp t ht)

end Script

namespace Scope

open Script

variable {T : ClassTable} {k : Option ClassId} {R : Reshape} {source target : Rep} {hint : Hint}

theorem isPlain_call (op : Op) : ((standard T k).call op).all Step.isPlain = true := by
  cases op <;> rfl

theorem isPlain_callByAddress (r : Rep) (op : Op) :
    ((standard T k).callByAddress r op).all Step.isPlain = true :=
  all_bind rfl fun _ _ => isPlain_call op

theorem isPlain_drop (r : Rep) : (Script.drop r).all Step.isPlain = true := by
  cases r <;> rfl

theorem isPlain_toObject : ((standard T k).toObject source target).all Step.isPlain = true := by
  unfold toObject
  split_ifs
  · rfl
  · rfl
  · rfl
  · exact all_bind (isPlain_drop source) fun _ _ => rfl

/-! ### Straight plans -/

theorem isPlain_intoTarget (hs : ∀ p, source ≠ .nullable p)
    (hb : target = .bytes → (R source hint .mutText).all Step.isPlain = true)
    (hn : ∀ p, target = .nullable p → (R source hint p.rep).all Step.isPlain = true) :
    ((standard T k).intoTarget R source hint target).all Step.isPlain = true := by
  cases target with
  | bytes => exact all_bind (hb rfl) fun _ _ => isPlain_callByAddress _ _
  | nullable p => exact all_bind (hn p rfl) fun _ _ => rfl
  | object cls => exact isPlain_toObject
  | resource => exact isPlain_toObject
  | _ => cases source <;> first | rfl | exact absurd rfl (hs _)

/-- **A conversion of anything but a nullable is straight.** -/
theorem isPlain_reshape (source : Rep) (hint : Hint) (target : Rep) :
    (∀ p, source ≠ .nullable p) →
      ((standard T k).reshape source hint target).all Step.isPlain = true := by
  refine reshape_induction (S := standard T k) standard_resolvesAliases
    (P := fun source hint target => (∀ p, source ≠ .nullable p) →
      ((standard T k).reshape source hint target).all Step.isPlain = true)
    (fun source hint target ih => ?_) source hint target
  intro hs
  rw [reshape_eq standard_resolvesAliases]
  apply reshapeBy_elim (P := fun plan : Script Rep => plan.all Step.isPlain = true)
  case stay => exact fun _ => rfl
  case discard => exact fun _ _ => all_bind (isPlain_drop source) fun _ _ => rfl
  case behind =>
    rintro rfl - -
    refine all_bind (isPlain_call _) fun inner hinner => ih _ _ _ (.behind rfl hinner) ?_
    cases hinner
    exact fun _ => Rep.noConfusion
  case assign => exact fun _ _ _ _ => rfl
  case narrow =>
    intro op hop _ _
    refine all_bind (isPlain_callByAddress _ _) fun narrowed hnarrowed =>
      ih _ _ _ (.narrowed hop) ?_
    cases hnarrowed
    cases op <;> exact fun _ => Rep.noConfusion
  case into =>
    intro _ _ halias _ hop
    exact isPlain_intoTarget hs (fun hb => ih _ _ _ (.bytes halias hop hb) hs)
      fun p hn => ih _ _ _ (.wrapped halias hop hn) hs

theorem isStraight_reshape_or {P : Prop} (h : (∃ p, source = .nullable p) → P) :
    (∀ t ∈ ((standard T k).reshape source hint target).steps, t.branches = false) ∨ P := by
  by_cases hnullable : ∃ p, source = .nullable p
  · exact .inr (h hnullable)
  · exact .inl (branches_of_isPlain
      (isPlain_reshape source hint target fun p hp => hnullable ⟨p, hp⟩))

/-! ### Symbolic plans -/

/-- The only conversion nested in that of a nullable is that of its payload, which nests no
other. -/
theorem intoTarget_nullable (p : Payload) (hb : target ≠ .bytes)
    (hn : ∀ q, target ≠ .nullable q) :
    (standard T k).intoTarget (standard T k).reshape (.nullable p) hint target =
      (standard T k).intoTarget
        (fun source _ _ => (standard T k).toValue (fun _ _ _ => .fail .endlessAlias) source)
        (.nullable p) hint target := by
  refine intoTarget_congr (fun q hq => ?_) (fun h => absurd h hb) fun q h => absurd h (hn q)
  cases hq
  rw [reshape_payload]
  cases p <;> rfl

theorem isSymbolic_intoTarget_nullable {p : Payload}
    (hb : target = .bytes →
      ((standard T k).reshape (.nullable p) hint .mutText).all Step.isSymbolic = true)
    (hn : ∀ q, target = .nullable q →
      ((standard T k).reshape (.nullable p) hint q.rep).all Step.isSymbolic = true) :
    ((standard T k).intoTarget (standard T k).reshape (.nullable p) hint target).all
      Step.isSymbolic = true := by
  cases target with
  | bytes =>
    exact all_bind (hb rfl) fun _ _ =>
      all_mono (fun _ => Step.isSymbolic_of_isPlain) (isPlain_callByAddress _ _)
  | nullable q => exact all_bind (hn q rfl) fun _ _ => rfl
  | object cls => exact all_mono (fun _ => Step.isSymbolic_of_isPlain) isPlain_toObject
  | resource => exact all_mono (fun _ => Step.isSymbolic_of_isPlain) isPlain_toObject
  | _ =>
    rw [intoTarget_nullable p Rep.noConfusion fun _ => Rep.noConfusion]
    cases p <;> rfl

/-- **No conversion emits an instruction with a number.** -/
theorem isSymbolic_reshape (source : Rep) (hint : Hint) (target : Rep) :
    ((standard T k).reshape source hint target).all Step.isSymbolic = true := by
  refine reshape_induction (S := standard T k) standard_resolvesAliases
    (P := fun source hint target =>
      ((standard T k).reshape source hint target).all Step.isSymbolic = true)
    (fun source hint target ih => ?_) source hint target
  by_cases hs : ∃ p, source = .nullable p
  · obtain ⟨p, rfl⟩ := hs
    rw [reshape_eq standard_resolvesAliases]
    apply reshapeBy_elim (P := fun plan : Script Rep => plan.all Step.isSymbolic = true)
    case stay => exact fun _ => rfl
    case discard => exact fun _ _ => rfl
    case behind => exact fun h => Rep.noConfusion h
    case assign => exact fun _ _ _ _ => rfl
    case narrow =>
      intro op hop _ _
      rcases source_of_accessor? hop with h | h <;> cases h
    case into =>
      intro _ _ halias _ hop
      exact isSymbolic_intoTarget_nullable (fun hb => ih _ _ _ (.bytes halias hop hb))
        fun q hn => ih _ _ _ (.wrapped halias hop hn)
  · exact all_mono (fun _ => Step.isSymbolic_of_isPlain)
      (isPlain_reshape source hint target fun p hp => hs ⟨p, hp⟩)

end Scope

end Recast
