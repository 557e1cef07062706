import Recast.Proofs.History
import Recast.Proofs.Narrowing

/-!
# Typed accessors

A typed accessor takes the payload of a union without a test of what the union holds, so it may be
called only if that is known.  All that is known is the hint that the caller gives; it is passed on
to nested conversions, some of which are told less and none more.

* `Hint.Justifies` : what the caller has to know for the operations that are called;
* `Scope.justifies_reshape` : **a conversion of a value calls no other accessors**;
* `Request.justifies_plan?` : neither does any request, but for what a place emits by itself;
* `typed_accessors_guarded` : **typed accessors are guarded by an exact hint** in all emitted code.
-/

namespace Recast

/-- What is known where an operation takes the payload of a union, after some operations have been
called. -/
structure Hint.Proves (hint : Hint) (union : Rep) (op : Op) (before : List Op) : Prop where
  /-- The hint is the family of the payload; a possible alias apart it has no other bit. -/
  family : hint.withoutRef = op.standard.returns.hint
  /-- The dynamic union came out of an alias, if it may have been in one. -/
  behind : hint.contains .ref = true → union = .value → .aliasGetValue ∈ before

/-- The hint of a value justifies the operations that are called for it, in their order. -/
def Hint.Justifies (hint : Hint) (ops : List Op) : Prop :=
  ∀ before op after union, ops = before ++ op :: after → op.narrows? = some union →
    hint.Proves union op before

/-- The operations that some steps call. -/
def Step.calls (ts : List Step) : List Op := ts.filterMap Step.op?

/-- The hint of a value justifies the operations that some steps call for it. -/
def Hint.Admits (hint : Hint) (ts : List Step) : Prop := hint.Justifies (Step.calls ts)

/-- The operations that a plan calls. -/
def Script.calls {α : Type} (p : Script α) : List Op := Step.calls p.steps

/-- The hint that the caller gives for the value of a request. -/
def Request.hint : Request → Hint
  | convert _ hint _ | convertToBool _ hint _ | narrow _ hint | narrowPlace _ hint => hint
  | evaluate e | convertExpr e _ | convertExprToBool e _ | numberToDouble e | castToArray e =>
    e.hint
  | _ => .empty

theorem Numbering.filterMap_op?_code (N : Numbering) (ts : List Step) :
    (N.code ts).filterMap Instr.op? = Step.calls ts := by
  induction ts generalizing N with
  | nil => rfl
  | cons t ts ih =>
    rw [code_cons, List.filterMap_append, ih]
    cases t with
    | emit i => cases h : i.op? <;> simp [instr?, Step.calls, Step.op?, h]
    | _ => rfl

namespace Hint

theorem withoutRef_withoutRef (h : Hint) : h.withoutRef.withoutRef = h.withoutRef := by
  simp only [withoutRef, UInt16.and_assoc, UInt16.and_self]

namespace Justifies

variable {hint : Hint} {ops ops' : List Op} {op : Op}

theorem of_forall (h : ∀ op ∈ ops, op.narrows? = none) : hint.Justifies ops := by
  rintro before op after union rfl hop
  rw [h op (by simp)] at hop
  cases hop

theorem nil : hint.Justifies [] := .of_forall (by simp)

theorem append (h : hint.Justifies ops) (h' : hint.Justifies ops') :
    hint.Justifies (ops ++ ops') := by
  intro before op after union heq hop
  -- what is called before the second list counts for it, too
  have later : ∀ between, ops' = between ++ op :: after →
      hint.Proves union op (ops ++ between) := fun between heq =>
    have hproves := h' between op after union heq hop
    ⟨hproves.family, fun href hvalue => List.mem_append_right _ (hproves.behind href hvalue)⟩
  rcases List.append_eq_append_iff.1 heq with ⟨between, rfl, heq'⟩ | ⟨rest, rfl, heq'⟩
  · exact later between heq'
  · cases rest with
    | nil =>
      have hproves := later [] heq'.symm
      rwa [List.append_nil, List.append_nil] at hproves
    | cons first rest =>
      cases heq'
      exact h before op rest union rfl hop

theorem single (h : ∀ union, op.narrows? = some union → hint.Proves union op []) :
    hint.Justifies [op] := by
  intro before op' after union heq hop
  cases before with
  | nil =>
    cases heq
    exact h union hop
  | cons first before => simp at heq

theorem of_isPrefix (h : hint.Justifies ops) (hops : ops' <+: ops) : hint.Justifies ops' := by
  obtain ⟨rest, rfl⟩ := hops
  rintro before op after union rfl hop
  exact h before op (after ++ rest) union (by simp) hop

theorem behind (h : hint.withoutRef.Justifies ops) : hint.Justifies (.aliasGetValue :: ops) := by
  intro before op after union heq hop
  cases before with
  | nil =>
    cases heq
    cases hop
  | cons first before =>
    obtain ⟨rfl, rfl⟩ := List.cons.inj heq
    have hfamily := (h before op after union rfl hop).family
    rw [withoutRef_withoutRef] at hfamily
    exact ⟨hfamily, fun _ _ => List.mem_cons_self⟩

end Justifies

end Hint

theorem family_of_accessor? {source : Rep} {hint : Hint} {op : Op}
    (h : accessor? source hint = some op) :
    hint.withoutRef = op.standard.returns.hint ∧ hint.contains .ref = false := by
  have hsource := source_of_accessor? h
  unfold accessor? Hint.single at h
  split at h
  · cases h
  · rename_i href
    rcases hsource with rfl | rfl <;> dsimp only at h <;> split_ifs at h <;> cases h <;>
      exact ⟨‹_›, Bool.not_eq_true _ ▸ href⟩

namespace Scope

open Script

variable {T : ClassTable} {k : Option ClassId} {o : Options} {source target : Rep} {hint : Hint}
  {op : Op} {α β : Type} {p : Script α} {f : α → Script β}

/-! ### Conversions of a value -/

theorem justifies_bind (hp : hint.Justifies p.calls)
    (hf : ∀ a, p.result = .ok a → hint.Justifies (f a).calls) :
    hint.Justifies (p >>= f).calls := by
  unfold calls Step.calls at *
  rw [steps_bind, List.filterMap_append]
  refine hp.append ?_
  cases hresult : p.result with
  | ok a => exact hf a hresult
  | error e => exact .nil

theorem justifies_of_suits (h : p.all (Step.suits target) = true) : hint.Justifies p.calls := by
  refine .of_forall fun op hop => ?_
  obtain ⟨t, ht, hcall⟩ := List.mem_filterMap.1 hop
  have hsuits := all_iff.1 h t ht
  cases t with
  | emit i => cases i <;> cases hcall <;> simpa [Step.suits, Step.op?, Instr.op?] using hsuits
  | _ => cases hcall

theorem calls_callByAddress (r : Rep) (op : Op) :
    ((standard T k).callByAddress r op).calls = [op] := by
  cases op <;> rfl

theorem justifies_accessor (h : accessor? source hint = some op) : hint.Justifies [op] := by
  obtain ⟨hfamily, href⟩ := family_of_accessor? h
  refine .single fun union _ => ⟨hfamily, fun halias => ?_⟩
  rw [href] at halias
  cases halias

/-- What is not an alias is narrowed once at most, by the hint of the conversion. -/
theorem justifies_reshape_of (h : Hint) (hs : source ≠ .alias)
    (hop : source ≠ target → ∀ op, accessor? source hint = some op → h.Justifies [op]) :
    h.Justifies ((standard T k).reshape source hint target).calls := by
  cases hnone : accessor? source hint with
  | none => exact justifies_of_suits (suits_reshape source hint target hs hnone)
  | some op =>
    rw [reshape_eq standard_resolvesAliases]
    apply reshapeBy_elim (P := fun plan : Script Rep => h.Justifies plan.calls)
    case stay => exact fun _ => .nil
    case discard =>
      exact fun _ _ => justifies_of_suits (all_bind (suits_drop source .value) fun _ _ => rfl)
    case behind => exact fun halias => absurd halias hs
    case assign => exact fun _ _ _ _ => .nil
    case narrow =>
      intro op haccessor hne _
      refine justifies_bind ?_ fun narrowed hnarrowed => justifies_of_suits
        (suits_reshape _ _ _ ?_ (accessor?_hint narrowed))
      · rw [calls_callByAddress]
        exact hop hne op haccessor
      · cases hnarrowed
        rw [(standard_of_accessor? haccessor).2.2]
        exact narrowedBy_ne_alias hs
    case into => exact fun _ _ _ _ h => absurd (h.symm.trans hnone) (by simp)

/-- **A conversion of a value calls no other accessors** than the hint justifies. -/
theorem justifies_reshape (source : Rep) (hint : Hint) (target : Rep) :
    hint.Justifies ((standard T k).reshape source hint target).calls := by
  by_cases hs : source = .alias
  · subst hs
    rw [reshape_eq standard_resolvesAliases]
    apply reshapeBy_elim (P := fun plan : Script Rep => hint.Justifies plan.calls)
    case stay => exact fun _ => .nil
    case discard =>
      exact fun _ _ => justifies_of_suits (all_bind (suits_drop .alias .value) fun _ _ => rfl)
    case behind =>
      intro _ _ _
      have hvalue : Rep.value ≠ .alias := by decide
      exact .behind (justifies_reshape_of _ hvalue fun _ op => justifies_accessor)
    case assign => exact fun _ _ halias => absurd rfl halias
    case narrow =>
      intro op hop
      rcases source_of_accessor? hop with h | h <;> cases h
    case into => exact fun _ _ halias => absurd rfl halias
  · exact justifies_reshape_of hint hs fun _ op => justifies_accessor

/-- To put a value into the dynamic union, at most a number is narrowed. -/
theorem justifies_reshape_value (hs : source ≠ .alias) :
    hint.Justifies ((standard T k).reshape source hint.withoutRef .value).calls := by
  refine justifies_reshape_of hint hs fun hne op hop => .single fun union hunion => ⟨?_, ?_⟩
  · rw [← (family_of_accessor? hop).1, hint.withoutRef_withoutRef]
  · rintro - rfl
    rw [narrows?_of_accessor? hop] at hunion
    exact absurd (Option.some.inj hunion) hne

/-! ### Other plans for values -/

theorem suits_loadConstant? {c : Constant} {plan : Script Rep}
    (h : (standard T k).loadConstant? c target = some plan) :
    plan.all (Step.suits .value) = true := by
  rcases c with _ | (_ | _) | i | x | s <;> cases target <;> cases h <;> rfl

theorem suits_evaluateLiteral (c : Constant) :
    ((standard T k).evaluateLiteral c).all (Step.suits .value) = true := by
  cases c <;> rfl

theorem suits_asArray (source : Rep) :
    ((standard T k).asArray source).all (Step.suits .value) = true := by
  cases source <;> rfl

theorem suits_asObject (source : Rep) :
    ((standard T k).asObject source).all (Step.suits .value) = true := by
  cases source <;> rfl

theorem suits_widenInt (source : Rep) :
    (widenInt source).all (Step.suits .value) = true := by
  cases source <;> rfl

theorem suits_parseText (source : Rep) :
    ((standard T k).parseText source).all (Step.suits .value) = true := by
  cases source <;> rfl

theorem suits_dereference (source : Rep) :
    ((standard T k).dereference source).all (Step.suits .value) = true := by
  cases source <;> rfl

/-! ### Expressions -/

section Expressions

variable {own : List (Script Rep)} {plan : Script Rep}

theorem admits_append {ts us : List Step} (hts : hint.Admits ts) (hus : hint.Admits us) :
    hint.Admits (ts ++ us) := by
  unfold Hint.Admits Step.calls at *
  rw [List.filterMap_append]
  exact hts.append hus

theorem continues_own (h : plan ∈ own) : plan.Continues hint.Admits own :=
  ⟨plan, h, [], (List.append_nil _).symm, .nil⟩

theorem continues_of_suits (h : plan.all (Step.suits target) = true)
    (hown : (return .void) ∈ own) : plan.Continues hint.Admits own :=
  .of (justifies_of_suits h) hown

theorem continues_bind (hp : p.Continues hint.Admits own)
    (hf : ∀ a, p.result = .ok a → hint.Justifies (f a).calls) :
    (p >>= f).Continues hint.Admits own :=
  hp.bind_of_append admits_append hf

theorem continues_narrowPlace? {place : Place}
    (h : (standard T k).narrowPlace? place hint = some plan) :
    plan.Continues hint.Admits place.own ∧ ∀ r, plan.result = .ok r → r ≠ .alias := by
  unfold narrowPlace? at h
  split at h
  · obtain ⟨op, hop, rfl⟩ := Option.map_eq_some_iff.1 h
    refine ⟨continues_bind (continues_own place.loadAddress_mem_own) fun _ _ => ?_, ?_⟩
    · have hcalls : ((standard T k).call op).calls = [op] := by cases op <;> rfl
      rw [hcalls]
      exact justifies_accessor hop
    · intro r hr
      rw [result_bind] at hr
      cases hload : place.loadAddress.result with
      | error e =>
        rw [hload] at hr
        cases hr
      | ok q =>
        rw [hload] at hr
        cases hr
        rw [(standard_of_accessor? hop).2.2]
        rcases source_of_accessor? hop with hsource | hsource <;> rw [hsource] <;>
          exact narrowedBy_ne_alias (by decide)
  · cases h

theorem narrows?_of_addressOp? (h : addressOp? source target = some op) : op.narrows? = none := by
  unfold addressOp? at h
  split at h
  case h_6 =>
    split_ifs at h
    cases h
    rfl
  case h_7 => cases h
  all_goals
    cases h
    rfl

theorem continues_readThroughAddress? {place : Place}
    (h : (standard T k).readThroughAddress? place target = some plan) :
    plan.Continues hint.Admits place.own := by
  unfold readThroughAddress? at h
  split at h
  · obtain ⟨op, hop, rfl⟩ := Option.map_eq_some_iff.1 h
    exact continues_bind (continues_own place.loadAddress_mem_own) fun _ _ =>
      justifies_of_suits (suits_call (narrows?_of_addressOp? hop) .value)
  · cases h

theorem continues_evaluate (e : Expr) :
    ((standard T k).evaluate e).Continues e.hint.Admits e.own := by
  unfold evaluate Expr.own
  cases e.kind with
  | literal c => exact continues_of_suits (suits_evaluateLiteral c) List.mem_cons_self
  | load place =>
    dsimp only
    split_ifs
    · unfold loadAlias
      split_ifs
      · exact continues_bind (continues_own place.loadAddress_mem_own) fun _ _ =>
          justifies_of_suits (suits_call rfl .value)
      · exact continues_bind (continues_own place.load_mem_own) fun source _ =>
          justifies_reshape source e.hint .alias
    · exact continues_own place.load_mem_own
  | invoke routine returns => exact continues_own (by simp [Script.invoke])

theorem continues_evaluateAndReshape (e : Expr) (target : Rep) :
    ((standard T k).evaluateAndReshape e target).Continues e.hint.Admits e.own := by
  refine continues_bind (continues_evaluate e) fun source _ => ?_
  split_ifs
  · exact justifies_of_suits (suits_call rfl .value)
  · exact justifies_reshape source e.hint target

theorem continues_typedRead? {e : Expr}
    (h : (standard T k).typedRead? o e target = some plan) :
    plan.Continues e.hint.Admits e.own := by
  unfold typedRead? at h
  unfold Expr.own
  cases hkind : e.kind with
  | load place =>
    rw [hkind] at h
    rcases (Option.orElse_eq_some _ _ _).1 h with h | ⟨-, h⟩
    · split_ifs at h
      obtain ⟨narrowing, hnarrow, rfl⟩ := Option.map_eq_some_iff.1 h
      obtain ⟨hplan, halias⟩ := continues_narrowPlace? hnarrow
      exact continues_bind hplan fun narrowed hnarrowed => justifies_of_suits
        (suits_reshape _ _ _ (halias narrowed hnarrowed) (accessor?_hint narrowed))
    · split_ifs at h
      exact continues_readThroughAddress? h
  | literal c | invoke routine returns =>
    rw [hkind] at h
    cases h

theorem continues_reshapeExpr (e : Expr) (target : Rep) :
    ((standard T k).reshapeExpr o e target).Continues e.hint.Admits e.own := by
  unfold reshapeExpr
  split_ifs
  · unfold discardExpr
    split_ifs
    · exact .of .nil e.return_mem_own
    · exact continues_bind (continues_evaluate e) fun source _ =>
        justifies_of_suits (all_bind (suits_drop source .value) fun _ _ => rfl)
  · exact continues_evaluateAndReshape e target
  · cases hfolded : (standard T k).folded? o e target with
    | some plan =>
      unfold folded? at hfolded
      split_ifs at hfolded
      obtain ⟨c, -, hload⟩ := Option.bind_eq_some_iff.1 hfolded
      exact continues_of_suits (suits_loadConstant? hload) e.return_mem_own
    | none =>
      cases hread : (standard T k).typedRead? o e target with
      | some plan => exact continues_typedRead? hread
      | none => exact continues_evaluateAndReshape e target

theorem continues_numberToDouble (e : Expr) :
    ((standard T k).numberToDouble o e).Continues e.hint.Admits e.own := by
  unfold numberToDouble
  dsimp only
  split
  · rename_i x _
    have hload : Script.all (Step.suits .value) do
        Script.emit (.ldcR8 x)
        return Rep.float64 := rfl
    exact continues_of_suits hload e.return_mem_own
  · exact continues_bind (continues_evaluate e.readByValue) fun source _ =>
      justifies_reshape source e.hint .float64

theorem continues_castToArray (e : Expr) :
    ((standard T k).castToArray e).Continues e.hint.Admits e.own := by
  refine Script.Continues.mapError (continues_bind (continues_evaluate e.readByValue)
    fun source _ => justifies_bind (justifies_of_suits (suits_dereference source))
      fun inner hinner => ?_) _
  have hne : inner ≠ .alias := by
    rintro rfl
    cases source <;> cases hinner
  have hunion : e.hint.Justifies ((standard T k).reshape inner e.hint.withoutRef .value >>=
      fun _ => (standard T k).callByAddress .value .valueToArray).calls :=
    justifies_bind (justifies_reshape_value hne) fun _ _ =>
      justifies_of_suits (suits_callByAddress rfl .value .value)
  cases inner with
  | array => exact .nil
  | object c =>
    dsimp only
    split_ifs
    · exact justifies_of_suits (suits_call rfl .value)
    · exact hunion
  | _ => exact hunion

end Expressions

end Scope

/-! ### Requests -/

namespace Request

open Scope

variable {T : ClassTable} {k : Option ClassId} {o : Options} {q : Request} {hint : Hint}
  {own : List (Script Rep)} {p : Script Rep} {plan : Script Reply}

theorem continues_rep (h : p.Continues hint.Admits own) :
    (Reply.rep <$> p).Continues hint.Admits own :=
  continues_bind h fun _ _ => .nil

theorem continues_optionally_of {p? : Option (Script Rep)} (hown : (return .void) ∈ own)
    (h : ∀ p, p? = some p → p.Continues hint.Admits own) :
    (optionally p?).Continues hint.Admits own := by
  cases p? with
  | none => exact .of .nil hown
  | some p => exact continues_bind (h p rfl) fun _ _ => .nil

theorem continues_negated (h : p.Continues hint.Admits own) (negated : Bool) :
    Script.Continues hint.Admits own do
      let _ ← p
      if negated then .negate
      return Rep.bool := by
  have hnegate : Script.all (Step.suits .value) do
      if negated then Script.negate
      return Rep.bool := by
    cases negated <;> rfl
  exact continues_bind h fun _ _ => justifies_of_suits hnegate

/-- **No request calls another accessor** than its hint justifies, but for what its place emits of
its own accord. -/
theorem justifies_plan? (hplan : q.plan? (standard T k) o = some plan) :
    plan.Continues q.hint.Admits q.own := by
  have hnil : (return .void) ∈ ([return .void] : List (Script Rep)) := List.mem_cons_self
  have converted : ∀ source hint target,
      ((standard T k).convert source hint target).Continues hint.Admits [return .void] :=
    fun source hint target => .mapError (.of (justifies_reshape source hint target) hnil) _
  have evaluated : ∀ e target,
      ((standard T k).convertExpr o e target).Continues e.hint.Admits e.own := fun e target =>
    .mapError (continues_reshapeExpr (o := o) (e.consumedAs target) target) _
  cases q with
  | convert source hint target =>
    cases hplan
    exact continues_rep (converted source hint target)
  | convertToBool source hint negated =>
    cases hplan
    exact continues_rep (continues_negated (converted source hint .bool) negated)
  | asArray source =>
    cases hplan
    exact continues_rep (continues_of_suits (suits_asArray source) hnil)
  | asObject source =>
    cases hplan
    exact continues_rep (continues_of_suits (suits_asObject source) hnil)
  | widenInt source =>
    cases hplan
    exact continues_rep (continues_of_suits (suits_widenInt source) hnil)
  | parseText source =>
    cases hplan
    exact continues_rep (continues_of_suits (suits_parseText source) hnil)
  | dereference source =>
    cases hplan
    exact continues_rep (continues_of_suits (suits_dereference source) hnil)
  | narrow source hint =>
    cases hplan
    refine continues_optionally_of hnil fun p hp => ?_
    obtain ⟨op, hop, rfl⟩ := Option.map_eq_some_iff.1 hp
    have hcalls : hint.Justifies ((standard T k).callByAddress source op).calls := by
      rw [calls_callByAddress]
      exact justifies_accessor hop
    exact .of hcalls hnil
  | narrowPlace place hint =>
    cases hplan
    exact continues_optionally_of place.return_mem_own fun p hp => (continues_narrowPlace? hp).1
  | loadConstant c target =>
    cases hplan
    exact continues_optionally_of hnil fun p hp =>
      continues_of_suits (suits_loadConstant? hp) hnil
  | evaluate e =>
    cases hplan
    exact continues_rep (continues_evaluate e)
  | convertExpr e target =>
    cases hplan
    exact continues_rep (evaluated e target)
  | convertExprToBool e negated =>
    cases hplan
    exact continues_rep (continues_negated (evaluated e .bool) negated)
  | numberToDouble e =>
    cases hplan
    exact continues_rep (continues_numberToDouble e)
  | castToArray e =>
    cases hplan
    exact continues_rep (continues_castToArray e)
  | emit _ | intern _ | declare _ _ | label | endStatement | spill _ => cases hplan

end Request

open Session Scope

/-- **Typed accessors are guarded by an exact hint.**  A planned request is answered in any session,
with whatever outcome.  What it emits is what its place emits of its own accord, asked in the same
session, and then code in which every typed accessor is justified by the hint that the caller gave:
possible aliases apart, the hint is the single family of what the accessor returns, and if the
value may be in an alias, a dynamic union is read only after one has been dereferenced. -/
theorem typed_accessors_guarded {T : ClassTable} {k : Option ClassId} {o : Options} {q : Request}
    {plan : Script Reply} (hplan : q.plan? (standard T k) o = some plan) (s : Session) :
    ∃ first ∈ q.own, ∃ own code,
      (endOf (performAll .standard first.steps) s).builder.instrs.toList =
        s.builder.instrs.toList ++ own ∧
      own.filterMap Instr.op? <+: first.calls ∧
      (endOf (q.answer (standard T k) o) s).builder.instrs.toList =
        s.builder.instrs.toList ++ own ++ code ∧
      q.hint.Justifies (code.filterMap Instr.op?) := by
  obtain ⟨first, hfirst, rest, hsteps, hrest⟩ := Request.justifies_plan? hplan
  obtain ⟨M, N, taken, done, htaken, hdone, hown, hcode⟩ :=
    exists_code_append .standard first.steps rest s
  refine ⟨first, hfirst, M.code taken, N.code done, hown, ?_, ?_, ?_⟩
  · rw [M.filterMap_op?_code]
    exact htaken.filterMap _
  · rw [Request.answer_eq_run hplan, endOf_run, hsteps]
    exact hcode
  · rw [N.filterMap_op?_code]
    exact hrest.of_isPrefix (hdone.filterMap _)

/-- A value that is known to be an integer, in an alias or not, is read as one once the alias has
been dereferenced. -/
theorem typed_accessors_guarded_alias : ∃ (q : Request) (plan : Script Reply) (s : Session),
    q.plan? (standard .new none) .standard = some plan ∧ q.hint.contains .ref = true ∧
    (endOf (q.answer (standard .new none) .standard) s).builder.instrs.toList =
      s.builder.instrs.toList ++
        [.callVirt .aliasGetValue, .stLoc 0, .ldLocA 0, .call .valueLong] ∧
    q.hint.Proves .value .valueLong [.aliasGetValue] := by
  let q : Request := .convert .alias (.long ∪ .ref) .int64
  let s := endOf ((Request.emit .ldNull).answer (standard .new none) .standard) (new none none)
  have hcode : (endOf (q.answer (standard .new none) .standard) s).builder.instrs.toList =
      s.builder.instrs.toList ++
        [.callVirt .aliasGetValue, .stLoc 0, .ldLocA 0, .call .valueLong] := by decide +kernel
  obtain ⟨first, hfirst, own, code, hown, -, hwhole, hjustifies⟩ :=
    typed_accessors_guarded (q := q) (T := .new) (k := none) (o := .standard) rfl s
  -- no place emits anything
  obtain rfl : first = return .void := List.mem_singleton.1 hfirst
  obtain rfl : own = [] := by
    have hnothing : s.builder.instrs.toList = s.builder.instrs.toList ++ own := hown
    exact List.append_right_eq_self.1 hnothing.symm
  rw [hcode, List.append_nil, List.append_cancel_left_eq] at hwhole
  refine ⟨q, _, s, rfl, by decide, hcode, ?_⟩
  exact hjustifies [.aliasGetValue] .valueLong [] .value (by rw [← hwhole]; rfl) rfl

end Recast
