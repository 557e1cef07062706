import Recast.Proofs.Failures

/-!
# The depth of nested conversions

Nothing gets smaller where the rules ask for a nested conversion: the source becomes what the
catalog says an operation returns, and the hint what that representation tells of itself.  The rank
of `Recast.Proofs.Nesting` falls all the same.  So the depth is bounded before anything is known of
the conversion, and the bound that `Scope.reshape` works under is not a part of what it does.

* `Scope.Ends` : a conversion takes a number of rounds of the rules, each nested in the one before;
* `Scope.Ends.unrolled_eq` : what is planned below those rounds is never looked at;
* `nesting_ends` : **every conversion ends within one fixed number of rounds**;
* `Scope.not_ends_of_endless` : an alias that leads to an alias is all that could go on for ever.
-/

namespace Recast

namespace Scope

variable {S : Scope} {source target : Rep} {hint : Hint} {depth : Nat}

/-! ### Rounds of the rules -/

/-- A conversion takes no more than a number of rounds of the rules, each nested in the one before:
its own round consults nested plans of such conversions only that take a round less. -/
def Ends (S : Scope) : Nat → Rep → Hint → Rep → Prop
  | 0, _, _, _ => False
  | rounds + 1, source, hint, target => ∀ R R' : Reshape,
    (∀ s k t, S.Ends rounds s k t → R s k t = R' s k t) →
      S.reshapeBy R source hint target = S.reshapeBy R' source hint target

/-- The rules, nested to a given depth, and anything at all below it. -/
def unrolled (S : Scope) (bottom : Reshape) : Nat → Reshape
  | 0 => bottom
  | depth + 1 => S.reshapeBy (S.unrolled bottom depth)

theorem unrolled_fail (depth : Nat) :
    S.unrolled (fun _ _ _ => .fail .endlessAlias) depth = S.reshapeAt depth := by
  induction depth with
  | zero => rfl
  | succ depth ih => rw [unrolled, reshapeAt, ih]

/-- Nothing below the rounds that a conversion takes makes a difference to it, and neither do more
rounds. -/
theorem Ends.unrolled_eq {rounds : Nat} (h : S.Ends rounds source hint target)
    {bottom bottom' : Reshape} {n m : Nat} (hn : rounds ≤ n) (hm : rounds ≤ m) :
    S.unrolled bottom n source hint target = S.unrolled bottom' m source hint target := by
  induction rounds generalizing source hint target n m with
  | zero => exact h.elim
  | succ rounds ih =>
    obtain ⟨n, rfl⟩ : ∃ k, n = k + 1 := ⟨n - 1, by omega⟩
    obtain ⟨m, rfl⟩ : ∃ k, m = k + 1 := ⟨m - 1, by omega⟩
    exact h _ _ fun s k t hnested => ih hnested (by omega) (by omega)

theorem ends_of_nestingRank_lt (hA : S.catalog.ResolvesAliases) {rounds : Nat}
    (h : nestingRank source hint target < rounds) : S.Ends rounds source hint target := by
  induction rounds generalizing source hint target with
  | zero => exact absurd h (Nat.not_lt_zero _)
  | succ rounds ih =>
    intro R R' hR
    refine reshapeBy_congr fun s k t hnested => hR s k t (ih ?_)
    have := nestingRank_lt hA hnested
    omega

/-- Where an alias leads to an alias, dereferencing takes more rounds than any number. -/
theorem not_ends_of_endless {m : Method} (hm : S.catalog.get? .aliasGetValue = some m)
    (hreturns : m.returns = .alias) (halias : target ≠ .alias) (hvoid : target ≠ .void)
    (rounds : Nat) : ¬ S.Ends rounds .alias hint target := by
  induction rounds generalizing hint with
  | zero => exact id
  | succ rounds ih =>
    intro hends
    -- the two plan everything alike but the conversion of what is behind the alias
    let R : Reshape := fun _ _ _ => .fail .endlessAlias
    let R' : Reshape := fun s k t =>
      if s = .alias ∧ k = hint.withoutRef ∧ t = target then return target else R s k t
    have hround : S.reshapeBy R .alias hint target = S.reshapeBy R' .alias hint target := by
      refine hends R R' fun s k t hnested => ?_
      have hother : ¬ (s = .alias ∧ k = hint.withoutRef ∧ t = target) := by
        rintro ⟨rfl, rfl, rfl⟩
        exact ih hnested
      simp only [R', if_neg hother]
    have hresult := congrArg Script.result hround
    simp [reshapeBy, Ne.symm halias, hvoid, call, hm, hreturns, R, R', Script.result_bind,
      Except.bind] at hresult

/-! ### Requests -/

/-- The bound on nesting is what some plans meet, if a plan does. -/
def Bounded (own : List (Script Rep)) (e : ConvertError) : Prop :=
  e = .endlessAlias → ∃ first ∈ own, first.result = .error .endlessAlias

variable {own : List (Script Rep)} {e : ConvertError}

theorem bounded_missingOp {op : Op} : Bounded own (.missingOp op) := fun h => by cases h

theorem FailureOr.bounded (h : S.FailureOr own target e) : Bounded own e := by
  rintro rfl
  rcases h with h | h
  · cases h
  · exact h

theorem Bounded.inConversion (h : Bounded own e) :
    Bounded own (e.inConversion source target) := by
  intro he
  cases e with
  | missingOp op => cases he
  | _ => exact h he

variable {Q : ConvertError → Prop} (hmissing : ∀ op, S.catalog.get? op = none → Q (.missingOp op))

include hmissing

theorem fails_dereference (source : Rep) : (S.dereference source).Fails Q := by
  unfold dereference
  split_ifs
  · exact fails_call hmissing _
  · exact Script.fails_pure _

theorem fails_asArray (source : Rep) : (S.asArray source).Fails Q := by
  have hcall := fails_apply hmissing
  refine .bind (fails_dereference hmissing source) fun inner => ?_
  cases inner <;> simp [Rep.isReference, hcall]

theorem fails_asObject (source : Rep) : (S.asObject source).Fails Q := by
  have hcall := fails_call hmissing
  refine .bind (fails_dereference hmissing source) fun inner => ?_
  cases inner <;> simp [hcall]

theorem fails_parseText (source : Rep) : (S.parseText source).Fails Q := by
  have hcall := fails_call hmissing
  have haddress := fails_callByAddress hmissing
  cases source <;> simp [parseText, hcall, haddress]

theorem fails_narrow? {plan : Script Rep} (h : S.narrow? source hint = some plan) :
    plan.Fails Q := by
  obtain ⟨op, -, rfl⟩ := Option.map_eq_some_iff.1 h
  exact fails_callByAddress hmissing _ _

end Scope

open Scope

theorem Request.fails_optionally {Q : ConvertError → Prop} {plan? : Option (Script Rep)}
    (h : ∀ plan, plan? = some plan → plan.Fails Q) : (optionally plan?).Fails Q := by
  cases plan? with
  | none => exact Script.fails_pure _
  | some plan => exact .bind (h plan rfl) fun _ => Script.fails_pure _

/-- **No request meets the bound on nesting**, unless its place gives it for an error of its own. -/
theorem Request.bounded_plan? {S : Scope} (hA : S.catalog.ResolvesAliases) {o : Options}
    {q : Request} {plan : Script Reply} (hplan : q.plan? S o = some plan) :
    plan.Fails (Bounded q.own) := by
  have hmissing : ∀ op, S.catalog.get? op = none → Bounded q.own (.missingOp op) :=
    fun _ _ => bounded_missingOp
  -- what fails under the name of the request
  have hasks : ∀ {source target : Rep}, q.Asks source target → plan.Fails (Bounded q.own) :=
    fun hq => (hq.fails hA hplan).mono fun _ ⟨_, hc, he⟩ => he ▸ hc.bounded.inConversion
  have evaluated : ∀ e : Expr, (S.evaluate e).Fails (Bounded e.own) := fun e =>
    have hfails : (S.evaluate e).Fails (S.FailureOr e.own .void) := fails_evaluate hA e
    hfails.mono fun _ hc => hc.bounded
  cases q with
  | convert source hint target => exact hasks (.convert source hint target)
  | convertToBool source hint negated => exact hasks (.convertToBool source hint negated)
  | convertExpr e target => exact hasks (.convertExpr e target)
  | convertExprToBool e negated => exact hasks (.convertExprToBool e negated)
  | castToArray e => exact hasks (.castToArray e)
  | asArray source =>
    cases hplan
    exact Script.fails_map.2 (fails_asArray hmissing source)
  | asObject source =>
    cases hplan
    exact Script.fails_map.2 (fails_asObject hmissing source)
  | widenInt source =>
    cases hplan
    cases source <;> simp [Scope.widenInt]
  | parseText source =>
    cases hplan
    exact Script.fails_map.2 (fails_parseText hmissing source)
  | dereference source =>
    cases hplan
    exact Script.fails_map.2 (fails_dereference hmissing source)
  | narrow source hint =>
    cases hplan
    exact fails_optionally fun _ h => fails_narrow? hmissing h
  | narrowPlace p hint =>
    cases hplan
    refine fails_optionally fun plan h => ?_
    have hplan : plan.Fails (S.FailureOr p.own .void) := fails_narrowPlace? h
    exact hplan.mono fun _ hc => hc.bounded
  | loadConstant c target =>
    cases hplan
    exact fails_optionally fun _ h => (fails_loadConstant? h).mono fun _ hc => hc.bounded
  | evaluate e =>
    cases hplan
    exact Script.fails_map.2 (evaluated e)
  | numberToDouble e =>
    cases hplan
    refine Script.fails_map.2 ?_
    unfold Scope.numberToDouble
    dsimp only
    split
    · exact .bind (Script.fails_emit _) fun _ => Script.fails_pure _
    · refine .bind (evaluated e.readByValue) fun source => ?_
      exact ((fails_reshape_or hA source e.hint).mapError _).mono fun _ ⟨_, hc, he⟩ =>
        he ▸ hc.bounded.inConversion
  | emit _ | intern _ | declare _ _ | label | endStatement | spill _ => cases hplan

/-- **Conversions end.**  Whatever the operations of a catalog return, if only an alias leads to
something other than an alias, every conversion takes no more than one fixed number of rounds of the
rules, whatever its source, its hint and its target are.  So any plans at all may stand for the
conversions that are nested deeper: they are not looked at, and `Scope.reshape` is what the rules
say with all nested conversions planned in the same way.  No request that is planned, under whatever
options and of whatever expression, ends at the bound. -/
theorem nesting_ends {S : Scope} (hA : S.catalog.ResolvesAliases) :
    (∀ source hint target, S.Ends nesting source hint target) ∧
    (∀ (bottom : Reshape) (depth : Nat), nesting ≤ depth → ∀ source hint target,
      S.unrolled bottom depth source hint target = S.reshape source hint target) ∧
    (∀ source hint target,
      S.reshape source hint target = S.reshapeBy S.reshape source hint target) ∧
    (∀ (o : Options) (q : Request) (plan : Script Reply), q.plan? S o = some plan →
      ∀ s t : Session, q.answer S o s = .error (.failed .endlessAlias) t →
        ∃ first ∈ q.own, first.result = .error .endlessAlias) := by
  have hends : ∀ source hint target, S.Ends nesting source hint target :=
    fun _ _ _ => ends_of_nestingRank_lt hA nestingRank_lt_nesting
  refine ⟨hends, fun bottom depth hdepth source hint target => ?_, reshape_eq hA,
    fun o q plan hplan s t hanswer => ?_⟩
  · rw [reshape, ← unrolled_fail]
    exact (hends source hint target).unrolled_eq hdepth (Nat.le_refl _)
  · rw [Request.answer_eq_run hplan, Session.run_eq_error] at hanswer
    rcases hanswer with hsteps | ⟨c, hresult, he, -⟩
    · rcases (Session.raises_of_performAll hsteps).eq_tooMany with he | he <;> cases he
    · cases he
      exact Request.bounded_plan? hA hplan _ hresult rfl

/-- The accessor for integers is bound to return an alias, so that narrowing what is behind an alias
gives an alias again.  What it leads to is not narrowed a second time. -/
theorem nesting_ends_rebound :
    let m : Method := { Op.valueLong.standard with returns := .alias }
    let S : Scope := ⟨Catalog.standard.bind .valueLong m, .new, none⟩
    S.Ends nesting .alias .long .bytes ∧
    S.unrolled (fun _ _ _ => .pure .void) nesting .alias .long .bytes =
      S.reshape .alias .long .bytes := by
  intro m S
  have hA : S.catalog.ResolvesAliases := by
    intro m hm
    cases hm
    decide
  obtain ⟨hends, hunrolled, -⟩ := nesting_ends hA
  exact ⟨hends _ _ _, hunrolled _ _ (Nat.le_refl _) _ _ _⟩

end Recast
