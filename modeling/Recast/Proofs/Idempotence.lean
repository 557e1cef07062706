import Recast.Proofs.Folding
import Recast.Proofs.History
import Recast.Proofs.MissingOperations
import Recast.Proofs.TypedRequests

/-!
# Converting twice

A conversion does not always leave the target.  It may leave a reference that is used as it, and
what that is depends on the hint.  But whatever it leaves is settled: the rules have nothing more
to do with it, and no hint brings another rule into play.

* `Settled` : the representations that need no conversion into a target;
* `Scope.reshape_of_settled` : they are left as they are, whatever the hint;
* `Scope.gives_reshape`, `Scope.gives_reshapeExpr` : every conversion leaves one of them;
* `conversion_idempotent` : **what has been converted is not converted again.**
-/

namespace Recast

/-- A representation may be used as the target, and is no alias to something else. -/
structure Settled (T : ClassTable) (target r : Rep) : Prop where
  /-- It may be used as the target. -/
  assignable : T.assignable r target = true
  /-- An alias is there only if one is wanted. -/
  eq_alias : r = .alias → target = .alias

theorem Settled.refl (T : ClassTable) (target : Rep) : Settled T target target :=
  ⟨ClassTable.assignable_self target, id⟩

namespace Script

variable {α β : Type} {P : α → Prop} {Q : β → Prop}

/-- What a plan results in, if it does, has a property. -/
def Gives (p : Script α) (P : α → Prop) : Prop := ∀ a, p.result = .ok a → P a

theorem Gives.of_result {p : Script α} {a : α} (hresult : p.result = .ok a) (h : P a) :
    p.Gives P := by
  intro b hb
  rw [hresult] at hb
  cases hb
  exact h

theorem Gives.bind {p : Script α} {f : α → Script β} (h : ∀ a, (f a).Gives Q) :
    (p >>= f).Gives Q := by
  intro b hb
  rw [result_bind] at hb
  cases hp : p.result with
  | error e =>
    rw [hp] at hb
    cases hb
  | ok a =>
    rw [hp] at hb
    exact h a b hb

theorem Gives.map {p : Script α} (h : p.Gives P) {g : α → β} (hg : ∀ a, P a → Q (g a)) :
    (g <$> p).Gives Q := by
  intro b hb
  rw [← bind_pure_comp, result_bind] at hb
  cases hp : p.result with
  | error e =>
    rw [hp] at hb
    cases hb
  | ok a =>
    rw [hp] at hb
    cases hb
    exact hg a (h a hp)

theorem Gives.mapError {p : Script α} (h : p.Gives P) (f : ConvertError → ConvertError) :
    (p.mapError f).Gives P := by
  intro a ha
  refine h a ?_
  rw [result_mapError] at ha
  cases hp : p.result with
  | error e =>
    rw [hp] at ha
    cases ha
  | ok b =>
    rw [hp] at ha
    exact ha

end Script

namespace Scope

variable {T : ClassTable} {k : Option ClassId} {o : Options} {r source target : Rep} {hint : Hint}

/-- **What is settled stays as it is.**  Of the rules, none comes before that for references, as
nothing but no value at all may be used as such, and an alias is not followed. -/
theorem reshape_of_settled (h : Settled T target r) (hint : Hint) :
    (standard T k).reshape r hint target = pure r := by
  rw [reshape_eq standard_resolvesAliases, reshapeBy]
  by_cases hid : r = target
  · rw [if_pos hid, hid]
  · have hvoid : target ≠ .void := by
      rintro rfl
      exact hid (ClassTable.eq_of_assignable h.assignable rfl)
    have halias : r ≠ .alias := fun hr => hid (hr.trans (h.eq_alias hr).symm)
    have hassign : (standard T k).classes.assignable r target = true := h.assignable
    rw [if_neg hid, if_neg hvoid, if_neg halias, if_pos hassign]

/-! ### What conversions leave -/

theorem gives_call {op : Op} (h : op.standard.returns = target) :
    ((standard T k).call op).Gives (Settled T target) :=
  .of_result (result_call_standard op) (h ▸ .refl T target)

/-- A conversion leaves what its value is known to be, which is no alias, or the target. -/
theorem gives_reshape (source : Rep) (hint : Hint) (target : Rep) :
    ((standard T k).reshape source hint target).Gives (Settled T target) := by
  intro r hr
  rw [result_reshape, outcome] at hr
  split_ifs at hr
  cases hr
  refine ⟨assignable_leaves, fun halias => ?_⟩
  unfold leaves at halias
  split_ifs at halias
  · exact absurd halias effectiveSource_ne_alias
  · exact halias

theorem gives_evaluateAndReshape (e : Expr) (target : Rep) :
    ((standard T k).evaluateAndReshape e target).Gives (Settled T target) := by
  refine .bind fun source => ?_
  split_ifs with hkept
  · rw [hkept.2.1]
    exact gives_call rfl
  · exact gives_reshape _ _ _

theorem gives_readThroughAddress? {p : Place} {plan : Script Rep}
    (h : (standard T k).readThroughAddress? p target = some plan) :
    plan.Gives (Settled T target) := by
  unfold readThroughAddress? at h
  split at h
  · obtain ⟨op, hop, rfl⟩ := Option.map_eq_some_iff.1 h
    exact .bind fun _ => gives_call (standard_of_addressOp? hop).2
  · cases h

theorem gives_typedRead? {e : Expr} {plan : Script Rep}
    (h : (standard T k).typedRead? o e target = some plan) : plan.Gives (Settled T target) := by
  unfold typedRead? at h
  split at h
  · rw [Option.orElse_eq_some] at h
    rcases h with hnarrowed | ⟨-, hread⟩
    · split_ifs at hnarrowed
      obtain ⟨narrowing, -, rfl⟩ := Option.map_eq_some_iff.1 hnarrowed
      exact .bind fun narrowed => gives_reshape _ _ _
    · split_ifs at hread
      exact gives_readThroughAddress? hread
  · cases h

theorem gives_folded? {e : Expr} {plan : Script Rep}
    (h : (standard T k).folded? o e target = some plan) : plan.Gives (Settled T target) := by
  unfold folded? at h
  split_ifs at h
  obtain ⟨c, -, hfold⟩ := Option.bind_eq_some_iff.1 h
  exact .of_result (result_loadConstant? hfold) (.refl T target)

theorem gives_reshapeExpr (e : Expr) (target : Rep) :
    ((standard T k).reshapeExpr o e target).Gives (Settled T target) := by
  unfold reshapeExpr
  split_ifs with hvoid
  · rw [hvoid, discardExpr]
    split_ifs
    · exact .of_result rfl (.refl T .void)
    · exact .bind fun source => .bind fun _ => .of_result rfl (.refl T .void)
  · exact gives_evaluateAndReshape e target
  · cases hplan : (standard T k).folded? o e target <|> (standard T k).typedRead? o e target with
    | none => exact gives_evaluateAndReshape e target
    | some plan =>
      rcases (Option.orElse_eq_some _ _ _).1 hplan with hfold | ⟨-, hread⟩
      · exact gives_folded? hfold
      · exact gives_typedRead? hread

theorem gives_castToArray (e : Expr) :
    ((standard T k).castToArray e).Gives (Settled T .array) := by
  refine .mapError (.bind fun source => .bind fun inner => ?_) _
  have hunion : ((standard T k).reshape inner e.hint.withoutRef .value >>= fun _ =>
      (standard T k).callByAddress .value .valueToArray).Gives (Settled T .array) :=
    .bind fun _ => .bind fun _ => gives_call rfl
  dsimp only
  split
  · exact .of_result rfl (.refl T .array)
  · split_ifs
    · exact gives_call rfl
    · exact hunion
  · exact hunion

end Scope

open Scope

theorem Request.Converts.gives {T : ClassTable} {k : Option ClassId} {o : Options} {q : Request}
    {source target : Rep} (hq : q.Converts source target) {plan : Script Reply}
    (hplan : q.plan? (standard T k) o = some plan) :
    plan.Gives fun reply => ∀ r, reply = .rep r → Settled T target r := by
  have hrep : ∀ {p : Script Rep}, p.Gives (Settled T target) →
      (Reply.rep <$> p).Gives fun reply => ∀ r, reply = .rep r → Settled T target r :=
    fun h => .map h fun _ ha _ heq => Reply.rep.inj heq ▸ ha
  cases hq with
  | convert source hint target =>
    cases hplan
    exact hrep (.mapError (gives_reshape source hint target) _)
  | convertExpr e target =>
    cases hplan
    exact hrep (.mapError (gives_reshapeExpr _ target) _)
  | castToArray e =>
    cases hplan
    exact hrep (gives_castToArray e)

/-- **Converting twice is converting once.**  A value or an expression has been converted over the
standard run-time.  If what that left is converted into the same target, whatever the hint, the
options and the session may be then, nothing is emitted, the session stays as it is, and the answer
is the same. -/
theorem conversion_idempotent {T : ClassTable} {k : Option ClassId} {o : Options} {q : Request}
    {source target r : Rep} {s s' : Session} (hq : q.Converts source target)
    (h : q.answer (standard T k) o s = .ok (.rep r) s') (o' : Options) (hint : Hint)
    (t : Session) :
    (Request.convert r hint target).answer (standard T k) o' t = .ok (.rep r) t := by
  obtain ⟨plan, hplan⟩ : ∃ plan, q.plan? (standard T k) o = some plan := by
    cases hq <;> exact ⟨_, rfl⟩
  rw [Request.answer_eq_run hplan, Session.run_eq_ok] at h
  have hsettled : Settled T target r := hq.gives hplan _ h.1 r rfl
  rw [Request.answer_eq_run rfl, convert, reshape_of_settled hsettled hint]
  rfl

/-- An alias that is known to lead to an array is converted for use as an instance of the root
class.  What is left is the array; it may be used as such, and is not converted again though the
hint says now that it is text. -/
theorem conversion_idempotent_behind_alias :
    let e : Expr := ⟨.load (.local 0 .alias), .array, none, .read⟩
    let S := standard .new none
    ∃ s, (Request.convertExpr e .root).answer S .standard (.new none none) =
        .ok (.rep .array) s ∧
      (Request.convert .array .string .root).answer S .standard s = .ok (.rep .array) s := by
  intro e S
  obtain ⟨s, hs⟩ : ∃ s, (Request.convertExpr e .root).answer S .standard (.new none none) =
      .ok (.rep .array) s := by decide +kernel
  exact ⟨s, hs, conversion_idempotent (.convertExpr e .root) hs .standard .string s⟩

end Recast
