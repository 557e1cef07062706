import Recast.Proofs.CodeFrame
import Recast.Proofs.NestingDepth
import Recast.Proofs.OptionCosts

/-!
# Aliases are transparent

An alias is a reference, so an assignment to the root class, a checked cast or a typed read of its
place might take it for the value that it leads to.  None does: wherever a value is asked for,
whatever becomes of an alias is one call to read what is behind it, and then what becomes of a
dynamic union of which less is known, namely that it is no alias.

* `Script.Splits` : a plan that begins with some steps and goes on as another plan;
* `Request.Twins` : the requests for an alias, each beside the same request for a dynamic union;
* `Request.Twins.splits` : **an alias is dereferenced first and once**, and the plans go on alike;
* `alias_transparency` : **so do code and outcome**, in the same state.
-/

namespace Recast

/-! ### Errors up to their source -/

/-- The same error, but a missing operation is attributed to the conversion of another source. -/
def ConvertError.attributedTo (source : Rep) : ConvertError → ConvertError
  | notImplemented _ target op => notImplemented source target op
  | e => e

/-- The same reason to halt, but for the source that a missing operation is attributed to. -/
def Halt.attributedTo (source : Rep) : Halt → Halt
  | failed e => failed (e.attributedTo source)
  | refused f => refused f

/-- The error names no conversion. -/
def ConvertError.Anonymous (e : ConvertError) : Prop := ∀ f g op, e ≠ notImplemented f g op

namespace Script

variable {α β : Type} {p rest : Script α} {ts us : List Step} {source source' target : Rep}

/-- The plan begins with some steps and goes on as another plan. -/
structure Splits (p : Script α) (ts : List Step) (rest : Script α) : Prop where
  /-- The steps of both, one after the other. -/
  steps : p.steps = ts ++ rest.steps
  /-- What becomes of it. -/
  result : p.result = rest.result

theorem Splits.refl (p : Script α) : p.Splits [] p := ⟨rfl, rfl⟩

theorem Splits.trans {last : Script α} (h : p.Splits ts rest) (h' : rest.Splits us last) :
    p.Splits (ts ++ us) last :=
  ⟨by rw [h.steps, h'.steps, List.append_assoc], h.result.trans h'.result⟩

theorem Splits.mapError (h : p.Splits ts rest) (f : ConvertError → ConvertError) :
    (p.mapError f).Splits ts (rest.mapError f) :=
  ⟨h.steps, by rw [result_mapError, result_mapError, h.result]⟩

theorem splits_bind {q : Script α} {f : α → Script β} {a : α} (h : q.result = .ok a) :
    (q >>= f).Splits q.steps (f a) :=
  ⟨by rw [steps_bind, h], by rw [result_bind, h]; rfl⟩

theorem Splits.map (h : p.Splits ts rest) (g : α → β) : (g <$> p).Splits ts (g <$> rest) :=
  ⟨by rw [steps_map, steps_map, h.steps], by rw [result_map, result_map, h.result]⟩

theorem map_mapError (g : α → β) (f : ConvertError → ConvertError) (p : Script α) :
    g <$> p.mapError f = (g <$> p).mapError f := by
  apply Script.ext
  · rw [steps_map, steps_mapError, steps_mapError, steps_map]
  · rw [result_map, result_mapError, result_mapError, result_map]
    cases p.result <;> rfl

theorem mapError_attributedTo (h : p.Fails ConvertError.Anonymous) :
    p.mapError (.attributedTo source) = p := by
  apply Script.ext
  · rfl
  · rw [result_mapError]
    cases hresult : p.result with
    | ok a => rfl
    | error e =>
      have hanonymous := h e hresult
      cases e with
      | notImplemented f g op => exact absurd rfl (hanonymous f g op)
      | _ => rfl

theorem mapError_inConversion (h : p.Fails ConvertError.Anonymous) :
    p.mapError (.inConversion source target) =
      (p.mapError (.inConversion source' target)).mapError (.attributedTo source) := by
  apply Script.ext
  · rfl
  · simp only [result_mapError]
    cases hresult : p.result with
    | ok a => rfl
    | error e =>
      have hanonymous := h e hresult
      cases e with
      | notImplemented f g op => exact absurd rfl (hanonymous f g op)
      | _ => rfl

end Script

namespace Scope

open Script

variable {S : Scope} {m : Method} {source target : Rep} {hint : Hint} {o : Options}

/-! ### Calls -/

/-- The code of a call: the arguments that the signature implies, and the call. -/
def callCode (S : Scope) (m : Method) (op : Op) : List Instr :=
  m.params.filterMap S.implicitArg? ++ [m.callInstr op]

theorem steps_call {op : Op} (hm : S.catalog.get? op = some m) :
    (S.call op).steps = (S.callCode m op).map .emit := by
  simp only [call, hm, callCode]

theorem isNumbered_callCode {op : Op} (hm : S.catalog.get? op = some m) :
    ∀ i ∈ S.callCode m op, i.isNumbered = false := by
  intro i hi
  have hmem : Step.emit i ∈ (S.call op).steps := by
    rw [steps_call hm]
    exact List.mem_map_of_mem hi
  obtain ⟨j, hj, hnumbered⟩ := exists_emit_of_mem_call hmem
  cases hj
  exact hnumbered

/-! ### Plans for an alias -/

theorem anonymous_missingOp {op : Op} : (ConvertError.missingOp op).Anonymous :=
  fun _ _ _ => by simp

theorem anonymous_reshape (hA : S.catalog.ResolvesAliases) (source : Rep) (hint : Hint)
    (target : Rep) : (S.reshape source hint target).Fails ConvertError.Anonymous := by
  refine (fails_reshape hA source hint target).mono fun e he => ?_
  cases he with
  | missing _ => exact anonymous_missingOp
  | number _ _ => exact fun _ _ _ => by simp

-- the value behind an alias is a dynamic union
variable (hm : S.catalog.get? .aliasGetValue = some m) (hreturns : m.returns = .value)

include hm hreturns

theorem resolvesAliases_of_value : S.catalog.ResolvesAliases := by
  intro m' hm'
  rw [hm] at hm'
  cases hm'
  rw [hreturns]
  decide

theorem result_call_aliasGetValue : (S.call .aliasGetValue).result = .ok .value :=
  result_call_eq_ok.2 ⟨m, hm, hreturns⟩

/-- An alias is dereferenced before any other rule is tried. -/
theorem splits_reshape_alias (halias : target ≠ .alias) (hvoid : target ≠ .void) :
    (S.reshape .alias hint target).Splits (S.call .aliasGetValue).steps
      (S.reshape .value hint.withoutRef target) := by
  rw [reshape_eq (resolvesAliases_of_value hm hreturns), reshapeBy, if_neg (Ne.symm halias),
    if_neg hvoid, if_pos rfl]
  exact splits_bind (result_call_aliasGetValue hm hreturns)

theorem splits_convert_alias (source : Rep) (halias : target ≠ .alias) (hvoid : target ≠ .void) :
    ((S.reshape .alias hint target).mapError (.inConversion source target)).Splits
      (S.call .aliasGetValue).steps
      ((S.convert .value hint.withoutRef target).mapError (.attributedTo source)) := by
  have hA := resolvesAliases_of_value hm hreturns
  have hname : (S.reshape .value hint.withoutRef target).mapError (.inConversion source target) =
      (S.convert .value hint.withoutRef target).mapError (.attributedTo source) :=
    mapError_inConversion (anonymous_reshape hA .value hint.withoutRef target)
  rw [← hname]
  exact (splits_reshape_alias hm hreturns halias hvoid).mapError _

theorem splits_asArray_alias :
    (S.asArray .alias).Splits (S.call .aliasGetValue).steps
      ((S.asArray .value).mapError (.attributedTo source)) := by
  rw [mapError_attributedTo (fails_asArray (fun _ _ => anonymous_missingOp) .value)]
  exact splits_bind (result_call_aliasGetValue hm hreturns)

theorem splits_asObject_alias :
    (S.asObject .alias).Splits (S.call .aliasGetValue).steps
      ((S.asObject .value).mapError (.attributedTo source)) := by
  rw [mapError_attributedTo (fails_asObject (fun _ _ => anonymous_missingOp) .value)]
  exact splits_bind (result_call_aliasGetValue hm hreturns)

end Scope

/-! ### Expressions for an alias -/

/-- The place holds an alias, and is not taken for anything else beforehand. -/
structure Place.HoldsAlias (p : Place) : Prop where
  /-- Nothing else is known. -/
  rep : ∀ r, p.rep? = some r → r = .alias
  /-- Its value is an alias. -/
  load : p.load.result = .ok .alias

namespace Scope

open Script

variable {S : Scope} {m : Method} {target : Rep} {hint : Hint} {o : Options} {p : Place}
  {access : Access}

theorem typedRead?_of_holdsAlias (hp : p.HoldsAlias) :
    S.typedRead? o ⟨.load p, hint, none, access⟩ target = none := by
  have hnarrow : S.narrowPlace? p hint = none := by
    unfold narrowPlace?
    split
    · rename_i source hsource _
      rw [hp.rep source hsource]
      cases hop : accessor? .alias hint with
      | none => rfl
      | some op => rcases source_of_accessor? hop with h | h <;> cases h
    · rfl
  have hread : S.readThroughAddress? p target = none := by
    unfold readThroughAddress?
    split
    · rename_i source hsource _
      rw [hp.rep source hsource]
      rfl
    · rfl
  simp [typedRead?, hnarrow, hread]

theorem splits_reshapeExpr_alias (hp : p.HoldsAlias) (haccess : access ≠ .readRef)
    (hvoid : target ≠ .void) :
    (S.reshapeExpr o (Expr.consumedAs ⟨.load p, hint, none, access⟩ target) target).Splits
      p.load.steps (S.reshape .alias hint target) := by
  have hbound : Expr.consumedAs ⟨.load p, hint, none, access⟩ target =
      ⟨.load p, hint, none, .read⟩ := by
    simp [Expr.consumedAs, hvoid, haccess]
  have hevaluate : S.evaluate ⟨.load p, hint, none, .read⟩ = p.load := by simp [evaluate]
  have hplan : S.reshapeExpr o ⟨.load p, hint, none, .read⟩ target =
      S.evaluateAndReshape ⟨.load p, hint, none, .read⟩ target := by
    rw [reshapeExpr, if_neg hvoid, if_neg (by simp), folded?_eq_none rfl,
      typedRead?_of_holdsAlias hp]
    rfl
  rw [hbound, hplan, evaluateAndReshape, hevaluate]
  have hsplit := splits_bind (f := fun source =>
    if source = .alias ∧ target = .value ∧ Access.read = .readRef then S.call .valueFromAlias
    else S.reshape source hint target) hp.load
  rwa [if_neg (by simp)] at hsplit

theorem splits_castToArray_load {e : Expr} {source : Rep} (he : e.kind = .load p)
    (hload : p.load.result = .ok source) {ts : List Step}
    (hsource : ∀ f : Rep → Script Rep, (S.dereference source >>= f).Splits ts (f .value)) :
    (S.castToArray e).Splits (p.load.steps ++ ts)
      ((S.callByAddress .value .valueToArray).mapError (.inConversion e.staticRep .array)) := by
  have hevaluate : S.evaluate e.readByValue = p.load := by
    simp [evaluate, Expr.readByValue, he]
  have hself : S.reshape .value e.hint.withoutRef .value = pure .value := by
    unfold reshape nesting reshapeAt reshapeBy
    exact if_pos rfl
  refine Splits.mapError ?_ _
  rw [hevaluate]
  refine (splits_bind hload).trans ?_
  -- what is behind an alias and what is there itself are put into the union as they are
  refine (congrArg (Splits _ ts) ?_).mp (hsource _)
  dsimp only
  rw [hself, pure_bind]

end Scope

/-! ### Twins -/

/-- A request for an alias, after some steps that load it, and the same request for a dynamic union,
after steps that load the union.  An error of the first names the representation in between as the
source. -/
inductive Request.Twins : Request → List Step → Rep → Request → List Step → Prop
  /-- A value is converted. -/
  | convert (hint : Hint) {target : Rep} (halias : target ≠ .alias) (hvoid : target ≠ .void) :
    Twins (.convert .alias hint target) [] .alias (.convert .value hint.withoutRef target) []
  /-- An array is asked for. -/
  | asArray : Twins (.asArray .alias) [] .alias (.asArray .value) []
  /-- An instance is asked for. -/
  | asObject : Twins (.asObject .alias) [] .alias (.asObject .value) []
  /-- What is read by value is converted; nothing else is known of it. -/
  | convertExpr {p : Place} (hp : p.HoldsAlias) (hint : Hint) {access : Access}
      (haccess : access ≠ .readRef) {target : Rep} (halias : target ≠ .alias)
      (hvoid : target ≠ .void) :
    Twins (.convertExpr ⟨.load p, hint, none, access⟩ target) p.load.steps (p.rep?.getD .value)
      (.convert .value hint.withoutRef target) []
  /-- An array is made of what is read. -/
  | castToArray {e e' : Expr} {p p' : Place} (he : e.kind = .load p)
      (hp : p.load.result = .ok .alias) (he' : e'.kind = .load p')
      (hp' : p'.load.result = .ok .value) :
    Twins (.castToArray e) p.load.steps e.staticRep (.castToArray e') p'.load.steps

namespace Request

open Scope Script

variable {S : Scope} {m : Method} {o : Options} {q q' : Request} {lead lead' : List Step}
  {source : Rep}

/-- **An alias is dereferenced first and once.**  After that the two plans are the same. -/
theorem Twins.splits (h : q.Twins lead source q' lead')
    (hm : S.catalog.get? .aliasGetValue = some m) (hreturns : m.returns = .value) :
    ∃ plan plan' rest : Script Reply, q.plan? S o = some plan ∧ q'.plan? S o = some plan' ∧
      plan.Splits (lead ++ (S.call .aliasGetValue).steps) (rest.mapError (.attributedTo source)) ∧
      plan'.Splits lead' rest := by
  cases h with
  | convert hint halias hvoid =>
    refine ⟨_, _, _, rfl, rfl, ?_, .refl _⟩
    rw [← map_mapError]
    exact (splits_convert_alias hm hreturns .alias halias hvoid).map _
  | asArray =>
    refine ⟨_, _, _, rfl, rfl, ?_, .refl _⟩
    rw [← map_mapError]
    exact (splits_asArray_alias hm hreturns).map _
  | asObject =>
    refine ⟨_, _, _, rfl, rfl, ?_, .refl _⟩
    rw [← map_mapError]
    exact (splits_asObject_alias hm hreturns).map _
  | convertExpr hp hint haccess halias hvoid =>
    refine ⟨_, _, _, rfl, rfl, ?_, .refl _⟩
    rw [← map_mapError]
    refine Splits.map (.trans ?_ (splits_convert_alias hm hreturns _ halias hvoid)) _
    exact (splits_reshapeExpr_alias hp haccess hvoid).mapError _
  | @castToArray e e' p p' he hp he' hp' =>
    have hcall : (S.callByAddress .value .valueToArray).Fails ConvertError.Anonymous :=
      fails_callByAddress (fun _ _ => anonymous_missingOp) _ _
    have hplan := splits_castToArray_load (S := S) he hp fun f =>
      splits_bind (f := f) (result_call_aliasGetValue hm hreturns)
    have hplan' := splits_castToArray_load (S := S) he' hp' fun f => .refl (f .value)
    rw [mapError_inConversion hcall] at hplan
    rw [List.append_nil] at hplan'
    refine ⟨_, _, _, rfl, rfl, ?_, hplan'.map _⟩
    rw [← map_mapError]
    exact hplan.map _

end Request

/-! ### Sessions -/

namespace Session

open Script

variable {α : Type} {C : Catalog} {p rest : Script α} {ts : List Step} {source : Rep}
  {s t u : Session}

/-- The same action, but a missing operation is attributed to another source. -/
def attributed (source : Rep) (a : Action α) : Action α :=
  EStateM.adaptExcept (Halt.attributedTo source) a

theorem outcome_attributed (a : Action α) (s : Session) :
    outcome (attributed source a) s = (outcome a s).mapError (Halt.attributedTo source) := by
  unfold outcome attributed EStateM.adaptExcept
  cases a s <;> rfl

theorem outcome_bind_of_ok {β : Type} {a : Action α} {f : α → Action β} {x : α}
    (h : a s = .ok x t) : outcome (a >>= f) s = outcome (f x) t := by
  change outcome (EStateM.bind a f) s = _
  rw [outcome, EStateM.bind, h]
  rfl

theorem endOf_attributed (a : Action α) (s : Session) :
    endOf (attributed source a) s = endOf a s := by
  unfold endOf attributed EStateM.adaptExcept
  cases a s <;> rfl

theorem run_of_splits (h : p.Splits ts rest) :
    run C p = performAll C ts >>= fun _ => run C rest := by
  simp only [run, h.steps, h.result, performAll_append, LawfulMonad.bind_assoc]

/-- Only the error that a plan ends in can name a conversion. -/
theorem run_attributed (p : Script α) :
    run C (p.mapError (.attributedTo source)) = attributed source (run C p) := by
  funext s
  unfold attributed EStateM.adaptExcept
  cases hsteps : performAll C p.steps s with
  | ok u t =>
    have hnamed : run C (p.mapError (.attributedTo source)) s =
        settled (p.mapError (.attributedTo source)).result t := run_eq_settled hsteps
    rw [run_eq_settled hsteps, hnamed, result_mapError]
    cases p.result <;> rfl
  | error e t =>
    rw [run_eq_error.2 (.inl hsteps),
      run_eq_error (p := p.mapError (.attributedTo source)).2 (.inl hsteps)]
    cases e with
    | refused f => rfl
    | failed e =>
      rcases (raises_of_performAll hsteps).eq_tooMany with rfl | rfl <;> rfl

theorem performAll_emits_eq_ok {is : List Instr} (his : ∀ i ∈ is, i.isNumbered = false)
    (h : performAll C (is.map .emit) s = .ok () t) :
    ∃ peak, t = { s with builder := { s.builder with
      instrs := s.builder.instrs ++ is.toArray, depth := t.builder.depth, maxDepth := peak } } := by
  induction is generalizing s with
  | nil =>
    cases h
    exact ⟨t.builder.maxDepth, by simp⟩
  | cons i is ih =>
    obtain ⟨⟨⟩, s₁, hemit, hrest⟩ := bind_eq_ok.1 h
    obtain ⟨b, hb, rfl⟩ := emit_eq_ok hemit
    obtain ⟨peak, ht⟩ := ih (fun j hj => his j (List.mem_cons_of_mem i hj)) hrest
    have hbranches : b.branchDepths = s.builder.branchDepths := by
      have hi := his i List.mem_cons_self
      unfold Builder.emit at hb
      dsimp only at hb
      split_ifs at hb
      cases hb
      cases i <;> first | rfl | cases hi
    refine ⟨peak, ht.trans ?_⟩
    dsimp only
    rw [(instrs_emit hb).1, (instrs_emit hb).2, texts_emit hb, locals_emit hb, hbranches]
    simp

/-- A call that leaves as many operands as it takes leaves everything but the code as it was. -/
theorem withCode_of_performAll_call {S : Scope} {op : Op} {m : Method}
    (hm : S.catalog.get? op = some m)
    (h : performAll C ((S.callCode m op).map .emit) s = .ok () t)
    (hdepth : t.builder.depth = s.builder.depth) :
    ∃ peak, t = s.withCode (s.builder.instrs ++ (S.callCode m op).toArray) peak := by
  obtain ⟨peak, ht⟩ := performAll_emits_eq_ok (Scope.isNumbered_callCode hm) h
  refine ⟨peak, ht.trans ?_⟩
  rw [hdepth]
  rfl

end Session

open Session Scope

/-- **Aliases are transparent.**  The value behind an alias is a dynamic union, whatever else the
signature of the operation is that reads it.  Then every request for an alias loads it, if that is
left to the request, reads what is behind it by one call, and does what the same request for a
dynamic union does once that is loaded.  In the same state, which is where the call leaves as many
operands as it takes, the code that follows the call is the same, and so is the outcome, but for the
source that a missing operation is attributed to. -/
theorem alias_transparency {S : Scope} {m : Method}
    (hm : S.catalog.get? .aliasGetValue = some m) (hreturns : m.returns = .value) {o : Options}
    {q q' : Request} {lead lead' : List Step} {source : Rep} (h : q.Twins lead source q' lead') :
    (∃ rest : Action Reply,
      q.answer S o = (performAll S.catalog (lead ++ (S.callCode m .aliasGetValue).map .emit) >>=
        fun _ => attributed source rest) ∧
      q'.answer S o = (performAll S.catalog lead' >>= fun _ => rest)) ∧
    ∀ (s s₁ t u : Session) (instrs : Array Instr) (peak : Nat),
      performAll S.catalog lead s = .ok () s₁ →
      performAll S.catalog lead' t = .ok () (s₁.withCode instrs peak) →
      performAll S.catalog ((S.callCode m .aliasGetValue).map .emit) s₁ = .ok () u →
      u.builder.depth = s₁.builder.depth →
        outcome (q.answer S o) s = (outcome (q'.answer S o) t).mapError (Halt.attributedTo source) ∧
        ∃ code,
          (endOf (q.answer S o) s).builder.instrs.toList =
            s₁.builder.instrs.toList ++ S.callCode m .aliasGetValue ++ code ∧
          (endOf (q'.answer S o) t).builder.instrs.toList = instrs.toList ++ code := by
  obtain ⟨plan, plan', rest, hplan, hplan', hsplit, hsplit'⟩ := h.splits (o := o) hm hreturns
  have hanswer : q.answer S o =
      (performAll S.catalog (lead ++ (S.callCode m .aliasGetValue).map .emit) >>= fun _ =>
        attributed source (run S.catalog rest)) := by
    rw [Request.answer_eq_run hplan, run_of_splits hsplit, run_attributed, steps_call hm]
  have hanswer' : q'.answer S o =
      (performAll S.catalog lead' >>= fun _ => run S.catalog rest) := by
    rw [Request.answer_eq_run hplan', run_of_splits hsplit']
  refine ⟨⟨run S.catalog rest, hanswer, hanswer'⟩, ?_⟩
  intro s s₁ t u instrs peak hlead hlead' hcall hdepth
  obtain ⟨peak', rfl⟩ := withCode_of_performAll_call hm hcall hdepth
  have hboth : performAll S.catalog (lead ++ (S.callCode m .aliasGetValue).map .emit) s =
      .ok () (s₁.withCode (s₁.builder.instrs ++ (S.callCode m .aliasGetValue).toArray) peak') := by
    rw [performAll_append]
    exact bind_eq_ok.2 ⟨(), s₁, hlead, hcall⟩
  -- both go on in a state that differs from the one before the call in the code only
  obtain ⟨hout, code, hcode, hcodeu⟩ := (appends_run (C := S.catalog) rest).exists_code s₁
    (s₁.builder.instrs ++ (S.callCode m .aliasGetValue).toArray) peak'
  obtain ⟨hout', code', hcode', hcodet⟩ :=
    (appends_run (C := S.catalog) rest).exists_code s₁ instrs peak
  obtain rfl : code = code' := List.append_cancel_left (hcode.symm.trans hcode')
  rw [hanswer, hanswer', outcome_bind_of_ok hboth, outcome_bind_of_ok hlead',
    endOf_bind_of_ok hboth, endOf_bind_of_ok hlead', outcome_attributed, endOf_attributed, hout,
    hout']
  refine ⟨rfl, code, ?_, hcodet⟩
  rw [hcodeu, Array.toList_append]

/-- An alias may be used as an instance of the root class as it is.  It is dereferenced all the
same, and what is behind it is asked for an instance. -/
theorem alias_transparency_root :
    let S : Scope := .standard .new none
    let s := endOf ((Request.emit .ldNull).answer S .standard) (new none none)
    S.classes.assignable .alias .root = true ∧
    outcome ((Request.convert .alias .ref .root).answer S .standard) s =
      (outcome ((Request.convert .value .empty .root).answer S .standard) s).mapError
        (Halt.attributedTo .alias) ∧
    ∃ code,
      (endOf ((Request.convert .alias .ref .root).answer S .standard) s).builder.instrs.toList =
        [.ldNull, .callVirt .aliasGetValue] ++ code ∧
      (endOf ((Request.convert .value .empty .root).answer S .standard) s).builder.instrs.toList =
        [.ldNull] ++ code := by
  intro S s
  have hcall : performAll S.catalog
      ((S.callCode Op.aliasGetValue.standard .aliasGetValue).map .emit) s =
        .ok () (s.withCode #[.ldNull, .callVirt .aliasGetValue] 1) := rfl
  have htwins : (Request.convert .alias .ref .root).Twins [] .alias
      (.convert .value .empty .root) [] := .convert .ref (by decide) (by decide)
  obtain ⟨-, hstate⟩ := alias_transparency (S := S) (o := .standard)
    (m := Op.aliasGetValue.standard) rfl rfl htwins
  obtain ⟨hout, code, hcode, hcode'⟩ :=
    hstate s s s _ s.builder.instrs s.builder.maxDepth rfl rfl hcall rfl
  exact ⟨rfl, hout, code, hcode, hcode'⟩

end Recast
