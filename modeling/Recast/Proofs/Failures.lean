import Recast.Proofs.History
import Recast.Proofs.Outcome

/-!
# Failures

The rules of a conversion end in two kinds of errors: an operation is not bound, or something that
can be called is wanted of a number.  Rules nest, and so do their errors, but only the request that
the caller has made names a pair of representations, its own.

* `Script.Fails` : the errors that a plan may end in;
* `Scope.Failure` : the two kinds of errors that the rules for a target end in;
* `Scope.fails_reshape` : **the rules end in no others**, however they nest;
* `Scope.fails_reshapeExpr` : for an expression, there are also those of its place;
* `failures_name_the_request` : **what a caller is told** when a conversion fails.
-/

namespace Recast

namespace Script

variable {α β : Type} {Q Q' : ConvertError → Prop}

/-- If a plan ends in an error, it is of a kind. -/
def Fails (p : Script α) (Q : ConvertError → Prop) : Prop := ∀ e, p.result = .error e → Q e

theorem Fails.mono {p : Script α} (h : p.Fails Q) (hQ : ∀ e, Q e → Q' e) : p.Fails Q' :=
  fun e he => hQ e (h e he)

theorem Fails.of_ok {p : Script α} {a : α} (h : p.result = .ok a) : p.Fails Q := by
  intro e he
  rw [h] at he
  cases he

@[simp]
theorem fails_pure (a : α) : (pure a : Script α).Fails Q := .of_ok rfl

@[simp]
theorem fails_step (t : Step) : (step t).Fails Q := .of_ok rfl

@[simp]
theorem fails_emit (i : Instr) : (emit i).Fails Q := .of_ok rfl

@[simp]
theorem fails_text (s : String) : (text s).Fails Q := .of_ok rfl

@[simp]
theorem fails_drop (r : Rep) : (drop r).Fails Q := .of_ok (result_drop r)

@[simp]
theorem fails_spill (r : Rep) : (spill r).Fails Q := .of_ok (result_spill r)

@[simp]
theorem fails_fail {e : ConvertError} : (fail e : Script α).Fails Q ↔ Q e := by
  simp [Fails]

/-- A plan ends in an error of its first part or of its second. -/
@[simp]
theorem fails_bind {p : Script α} {f : α → Script β} :
    (p >>= f).Fails Q ↔ p.Fails Q ∧ ∀ a, p.result = .ok a → (f a).Fails Q := by
  unfold Fails
  rw [result_bind]
  cases p.result <;> simp [Except.bind]

theorem Fails.bind {p : Script α} {f : α → Script β} (hp : p.Fails Q) (hf : ∀ a, (f a).Fails Q) :
    (p >>= f).Fails Q :=
  fails_bind.2 ⟨hp, fun a _ => hf a⟩

@[simp]
theorem fails_map {p : Script α} {g : α → β} : (g <$> p).Fails Q ↔ p.Fails Q := by
  rw [← bind_pure_comp, fails_bind]
  exact and_iff_left fun a _ => fails_pure (g a)

/-- Another account of an error is given of the errors that there are. -/
theorem Fails.mapError {p : Script α} (hp : p.Fails Q) (g : ConvertError → ConvertError) :
    (p.mapError g).Fails fun e => ∃ c, Q c ∧ e = g c := by
  intro e he
  rw [result_mapError] at he
  cases hresult : p.result with
  | error c =>
    rw [hresult] at he
    cases he
    exact ⟨c, hp c hresult, rfl⟩
  | ok a =>
    rw [hresult] at he
    cases he

end Script

namespace Scope

/-- The errors that the rules for a target end in. -/
inductive Failure (S : Scope) (target : Rep) : ConvertError → Prop
  /-- An operation is not bound. -/
  | missing {op : Op} (h : S.catalog.get? op = none) : Failure S target (.missingOp op)
  /-- Something that can be called is wanted of a number. -/
  | number {r : Rep} (ht : target = .callable) (hr : r.isNumeric = true) :
    Failure S target (.notCallable r)

variable {S : Scope} {R : Reshape} {source target : Rep} {hint : Hint}
  {Q : ConvertError → Prop}

/-- Nothing that can be called is asked for on the way to another target. -/
theorem Failure.of_ne_callable {t : Rep} {e : ConvertError} (h : S.Failure t e)
    (ht : t ≠ .callable) : S.Failure target e := by
  cases h with
  | missing hop => exact .missing hop
  | number hcallable _ => exact absurd hcallable ht

/-! ### Targets -/

section Targets

variable (hmissing : ∀ op, S.catalog.get? op = none → Q (.missingOp op))

include hmissing

theorem fails_call (op : Op) : (S.call op).Fails Q := by
  unfold call
  cases hop : S.catalog.get? op with
  | some m => exact .of_ok rfl
  | none => exact Script.fails_fail.2 (hmissing op hop)

theorem fails_callByAddress (r : Rep) (op : Op) : (S.callByAddress r op).Fails Q :=
  .bind (Script.fails_spill r) fun _ => fails_call hmissing op

theorem fails_apply (op : Op) : (S.apply op).Fails Q :=
  .bind (fails_call hmissing op) fun _ => Script.fails_pure ()

theorem fails_applyByAddress (r : Rep) (op : Op) : (S.applyByAddress r op).Fails Q :=
  .bind (fails_callByAddress hmissing r op) fun _ => Script.fails_pure ()

-- the payload of a nullable is put into the dynamic union
variable (hpayload : ∀ p, source = .nullable p → (R p.rep .empty .value).Fails Q)

include hpayload

theorem fails_toValue : (S.toValue R source).Fails Q := by
  have hcall := fails_call hmissing
  cases source <;> simp [toValue, nullableToValue, apply, hcall, hpayload]

theorem fails_viaValue (op : Op) : (S.viaValue R source op).Fails Q :=
  .bind (fails_toValue hmissing hpayload) fun _ => fails_callByAddress hmissing _ op

theorem fails_toText : (S.toText R source).Fails Q := by
  have hcall := fails_call hmissing
  have haddress := fails_callByAddress hmissing
  have hvia := fails_viaValue hmissing hpayload
  cases source <;> simp [toText, hcall, haddress, hvia]

theorem fails_toBool : (S.toBool R source).Fails Q := by
  have hcall := fails_apply hmissing
  have haddress := fails_applyByAddress hmissing
  have hvia := fails_viaValue hmissing hpayload
  cases source <;> simp [toBool, hcall, haddress, hvia]

theorem fails_toLong : (S.toLong R source).Fails Q := by
  have hcall := fails_apply hmissing
  have haddress := fails_applyByAddress hmissing
  have hvia := fails_viaValue hmissing hpayload
  cases source <;> simp [toLong, hcall, haddress, hvia]

theorem fails_toInt : (S.toInt R source).Fails Q := by
  have hlong := fails_toLong hmissing hpayload
  cases source <;> simp [toInt, hlong]

theorem fails_toDouble : (S.toDouble R source).Fails Q := by
  have hcall := fails_apply hmissing
  have haddress := fails_applyByAddress hmissing
  have hvia := fails_viaValue hmissing hpayload
  cases source <;> simp [toDouble, hcall, haddress, hvia]

theorem fails_toNumber : (S.toNumber R source).Fails Q := by
  have hcall := fails_call hmissing
  have happly := fails_apply hmissing
  have haddress := fails_callByAddress hmissing
  have hvia := fails_viaValue hmissing hpayload
  cases source <;> simp [toNumber, parseText, applyByAddress, hcall, happly, haddress, hvia]

theorem fails_toMutText : (S.toMutText R source).Fails Q := by
  have hcall := fails_call hmissing
  have htext := fails_toText hmissing hpayload
  cases source <;> simp [toMutText, hcall, htext]

theorem fails_toKey : (S.toKey R source).Fails Q := by
  have hcall := fails_call hmissing
  have hvalue := fails_toValue hmissing hpayload
  cases source <;> simp [toKey, hcall, hvalue]

theorem fails_toAlias : (S.toAlias R source).Fails Q := by
  have hcall := fails_call hmissing
  have haddress := fails_callByAddress hmissing
  have hvalue := fails_toValue hmissing hpayload
  cases source <;> simp [toAlias, hcall, haddress, hvalue]

/-- A number is refused. -/
theorem fails_toCallable (hnumber : source.isNumeric = true → Q (.notCallable source)) :
    (S.toCallable R source).Fails Q := by
  have hcall := fails_call hmissing
  have htext := fails_toText hmissing hpayload
  have hvalue := fails_toValue hmissing hpayload
  cases source <;> simp [toCallable, Rep.isNumericScalar, hcall, htext, hvalue] <;>
    exact hnumber rfl

omit hpayload in
theorem fails_toArray : (S.toArray source).Fails Q := by
  have haddress := fails_applyByAddress hmissing
  cases source <;> simp [toArray, Rep.isReference, haddress]

omit hpayload in
theorem fails_toObject : (S.toObject source target).Fails Q := by
  have hcall := fails_apply hmissing
  unfold toObject
  split_ifs <;> simp [hcall]

theorem fails_intoTarget (hb : target = .bytes → (R source hint .mutText).Fails Q)
    (hn : ∀ p, target = .nullable p → (R source hint p.rep).Fails Q)
    (hnumber : target = .callable → source.isNumeric = true → Q (.notCallable source)) :
    (S.intoTarget R source hint target).Fails Q := by
  have hcall := fails_call hmissing
  cases target with
  | bytes => exact .bind (hb rfl) fun _ => fails_callByAddress hmissing _ _
  | nullable p => exact .bind (hn p rfl) fun _ => by simp
  | callable => exact fails_toCallable hmissing hpayload (hnumber rfl)
  | void => exact Script.fails_pure _
  | bool => exact fails_toBool hmissing hpayload
  | int32 => exact fails_toInt hmissing hpayload
  | int64 => exact fails_toLong hmissing hpayload
  | float32 => exact .bind (fails_toDouble hmissing hpayload) fun _ => by simp
  | float64 => exact fails_toDouble hmissing hpayload
  | char => exact .bind (fails_toText hmissing hpayload) fun _ => hcall _
  | text => exact fails_toText hmissing hpayload
  | mutText => exact fails_toMutText hmissing hpayload
  | number => exact fails_toNumber hmissing hpayload
  | value => exact fails_toValue hmissing hpayload
  | key => exact fails_toKey hmissing hpayload
  | array => exact fails_toArray hmissing
  | «alias» => exact fails_toAlias hmissing hpayload
  | resource | object _ => exact fails_toObject hmissing

end Targets

/-! ### Conversions of a value -/

/-- **The rules end in no other errors.**  The induction is along nested conversions.  Those into
another target than the one that is asked for are not into something that can be called. -/
theorem fails_reshape (hA : S.catalog.ResolvesAliases) (source : Rep) (hint : Hint)
    (target : Rep) : (S.reshape source hint target).Fails (S.Failure target) := by
  have hmissing : ∀ {t op}, S.catalog.get? op = none → S.Failure t (.missingOp op) := .missing
  refine reshape_induction hA
    (P := fun source hint target => (S.reshape source hint target).Fails (S.Failure target))
    (fun source hint target ih => ?_) source hint target
  rw [reshape_eq hA]
  -- a nested conversion that is into another target
  have hnested : ∀ {s k t}, S.Nests source hint target s k t → t ≠ .callable →
      (S.reshape s k t).Fails (S.Failure target) := fun hnest ht =>
    (ih _ _ _ hnest).mono fun _ he => he.of_ne_callable ht
  apply reshapeBy_elim (P := fun plan : Script Rep => plan.Fails (S.Failure target))
  case stay => exact fun _ => Script.fails_pure _
  case discard => exact fun _ _ => by simp
  case behind =>
    intro hs _ _
    exact Script.fails_bind.2 ⟨fails_call (fun _ => hmissing) _, fun inner hinner =>
      ih _ _ _ (.behind hs hinner)⟩
  case assign => exact fun _ _ _ _ => Script.fails_pure _
  case narrow =>
    intro op hop _ _
    exact .bind (fails_callByAddress (fun _ => hmissing) _ _) fun narrowed =>
      ih _ _ _ (.narrowed hop)
  case into =>
    intro _ _ hs _ hop
    refine fails_intoTarget (fun _ => hmissing) (fun p hp => hnested (.payload hp) (by decide))
      (fun ht => hnested (.bytes hs hop ht) (by decide)) (fun p ht => ?_) .number
    exact hnested (.wrapped hs hop ht) (by cases p <;> decide)

/-! ### Conversions of an expression -/

/-- The errors of the rules for a target, and those of some plans. -/
def FailureOr (S : Scope) (own : List (Script Rep)) (target : Rep) (e : ConvertError) : Prop :=
  S.Failure target e ∨ ∃ first ∈ own, first.result = .error e

section Expressions

variable {own : List (Script Rep)} {p : Place} {e : Expr} {o : Options} {plan : Script Rep}

theorem fails_own {first : Script Rep} (h : first ∈ own) : first.Fails (S.FailureOr own target) :=
  fun _ he => .inr ⟨first, h, he⟩

theorem fails_call_or (op : Op) : (S.call op).Fails (S.FailureOr own target) :=
  fails_call (fun _ h => .inl (.missing h)) op

theorem fails_reshape_or (hA : S.catalog.ResolvesAliases) (source : Rep) (hint : Hint) :
    (S.reshape source hint target).Fails (S.FailureOr own target) :=
  (fails_reshape hA source hint target).mono fun _ => .inl

/-- A constant is loaded by an operation, if by any. -/
theorem fails_loadConstant? {c : Constant} (h : S.loadConstant? c target = some plan) :
    plan.Fails (S.FailureOr own target) := by
  have hcall : ∀ op, (S.call op).Fails (S.FailureOr own target) := fails_call_or
  cases c <;> cases target <;> cases h <;> simp [apply, loadBool, hcall]

theorem fails_loadAlias (hA : S.catalog.ResolvesAliases) (hint : Hint) :
    (S.loadAlias p hint).Fails (S.FailureOr p.own target) := by
  unfold loadAlias
  split_ifs
  · exact .bind (fails_own p.loadAddress_mem_own) fun _ => fails_call_or _
  · refine .bind (fails_own p.load_mem_own) fun source => ?_
    exact (fails_reshape hA source hint .alias).mono fun _ he =>
      .inl (he.of_ne_callable (by decide))

theorem fails_evaluate (hA : S.catalog.ResolvesAliases) (e : Expr) :
    (S.evaluate e).Fails (S.FailureOr e.own target) := by
  unfold evaluate Expr.own
  cases e.kind with
  | literal c => cases c <;> simp [evaluateLiteral, loadBool, fails_call_or]
  | invoke routine returns => simp
  | load p =>
    dsimp only
    split_ifs
    · exact fails_loadAlias hA e.hint
    · exact fails_own p.load_mem_own

theorem fails_narrowPlace? {hint : Hint} (h : S.narrowPlace? p hint = some plan) :
    plan.Fails (S.FailureOr p.own target) := by
  unfold narrowPlace? at h
  split at h
  · obtain ⟨op, -, rfl⟩ := Option.map_eq_some_iff.1 h
    exact .bind (fails_own p.loadAddress_mem_own) fun _ => fails_call_or op
  · cases h

theorem fails_readThroughAddress? (h : S.readThroughAddress? p target = some plan) :
    plan.Fails (S.FailureOr p.own target) := by
  unfold readThroughAddress? at h
  split at h
  · obtain ⟨op, -, rfl⟩ := Option.map_eq_some_iff.1 h
    exact .bind (fails_own p.loadAddress_mem_own) fun _ => fails_call_or op
  · cases h

theorem fails_typedRead? (hA : S.catalog.ResolvesAliases)
    (h : S.typedRead? o e target = some plan) : plan.Fails (S.FailureOr e.own target) := by
  unfold typedRead? at h
  unfold Expr.own
  cases hkind : e.kind with
  | load p =>
    rw [hkind] at h
    rcases (Option.orElse_eq_some _ _ _).1 h with hnarrowed | ⟨-, hread⟩
    · split_ifs at hnarrowed
      obtain ⟨narrowing, hnarrowing, rfl⟩ := Option.map_eq_some_iff.1 hnarrowed
      exact .bind (fails_narrowPlace? hnarrowing) fun narrowed => fails_reshape_or hA _ _
    · split_ifs at hread
      exact fails_readThroughAddress? hread
  | literal c | invoke routine returns =>
    rw [hkind] at h
    cases h

theorem fails_evaluateAndReshape (hA : S.catalog.ResolvesAliases) (e : Expr) :
    (S.evaluateAndReshape e target).Fails (S.FailureOr e.own target) := by
  refine .bind (fails_evaluate hA e) fun source => ?_
  split_ifs
  · exact fails_call_or _
  · exact fails_reshape_or hA source e.hint

theorem fails_discardExpr (hA : S.catalog.ResolvesAliases) (e : Expr) :
    (S.discardExpr o e).Fails (S.FailureOr e.own target) := by
  unfold discardExpr
  split_ifs
  · exact Script.fails_pure _
  · exact .bind (fails_evaluate hA e) fun source => by simp

/-- **However an expression is evaluated**, its place may fail, and the rules for the target. -/
theorem fails_reshapeExpr (hA : S.catalog.ResolvesAliases) (e : Expr) (target : Rep) :
    (S.reshapeExpr o e target).Fails (S.FailureOr e.own target) := by
  unfold reshapeExpr
  split_ifs
  · exact fails_discardExpr hA e
  · exact fails_evaluateAndReshape hA e
  · cases hplan : S.folded? o e target <|> S.typedRead? o e target with
    | none => exact fails_evaluateAndReshape hA e
    | some plan =>
      rcases (Option.orElse_eq_some _ _ _).1 hplan with hfold | ⟨-, hread⟩
      · unfold folded? at hfold
        split_ifs at hfold
        obtain ⟨c, -, hload⟩ := Option.bind_eq_some_iff.1 hfold
        exact fails_loadConstant? hload
      · exact fails_typedRead? hA hread

/-- A cast to an array fails as a conversion of the expression does, but for its name. -/
theorem fails_castToArray (hA : S.catalog.ResolvesAliases) (e : Expr) :
    (S.castToArray e).Fails fun c =>
      ∃ c', S.FailureOr e.own .array c' ∧ c = c'.inConversion e.staticRep .array := by
  refine .mapError (.bind (fails_evaluate hA e.readByValue) fun source =>
    .bind ?_ fun inner => ?_) _
  · unfold dereference
    split_ifs
    · exact fails_call_or _
    · exact Script.fails_pure _
  · have hunion : (S.reshape inner e.hint.withoutRef .value >>= fun _ =>
        S.callByAddress .value .valueToArray).Fails (S.FailureOr e.own .array) := by
      refine .bind ?_ fun _ => .bind (Script.fails_spill _) fun _ => fails_call_or _
      exact (fails_reshape hA inner _ .value).mono fun _ he =>
        .inl (he.of_ne_callable (by decide))
    dsimp only
    split
    · exact Script.fails_pure _
    · split_ifs
      · exact fails_call_or _
      · exact hunion
    · exact hunion

end Expressions

end Scope

/-! ### Requests -/

/-- The requests that name a pair of representations when they fail, the one that the caller asks
for: that of the value or the expected one of the expression, and the target. -/
inductive Request.Asks : Request → Rep → Rep → Prop
  /-- A value is converted. -/
  | convert (source : Rep) (hint : Hint) (target : Rep) :
    Asks (.convert source hint target) source target
  /-- A value is converted to a truth value. -/
  | convertToBool (source : Rep) (hint : Hint) (negated : Bool) :
    Asks (.convertToBool source hint negated) source .bool
  /-- An expression is converted. -/
  | convertExpr (e : Expr) (target : Rep) : Asks (.convertExpr e target) e.staticRep target
  /-- An expression is converted to a truth value. -/
  | convertExprToBool (e : Expr) (negated : Bool) :
    Asks (.convertExprToBool e negated) e.staticRep .bool
  /-- An expression is cast to an array. -/
  | castToArray (e : Expr) : Asks (.castToArray e) e.staticRep .array

/-- The errors in the plan of a request are those of its place and of the rules, under the name of
the request. -/
theorem Request.Asks.fails {S : Scope} (hA : S.catalog.ResolvesAliases) {o : Options}
    {q : Request} {source target : Rep} (hq : q.Asks source target) {plan : Script Reply}
    (hplan : q.plan? S o = some plan) :
    plan.Fails fun c =>
      ∃ c', S.FailureOr q.own target c' ∧ c = c'.inConversion source target := by
  have hvalue : ∀ source hint target, (S.convert source hint target).Fails fun c =>
      ∃ c', S.FailureOr [return .void] target c' ∧ c = c'.inConversion source target :=
    fun source hint target => .mapError (Scope.fails_reshape_or hA source hint) _
  have hexpr : ∀ e target, (S.convertExpr o e target).Fails fun c =>
      ∃ c', S.FailureOr e.own target c' ∧ c = c'.inConversion e.staticRep target :=
    fun e target => .mapError (Scope.fails_reshapeExpr hA (e.consumedAs target) target) _
  cases hq with
  | convert source hint target =>
    cases hplan
    exact Script.fails_map.2 (hvalue source hint target)
  | convertToBool source hint negated =>
    cases hplan
    refine Script.fails_map.2 (.bind (hvalue source hint .bool) fun _ => ?_)
    split <;> simp [Script.negate]
  | convertExpr e target =>
    cases hplan
    exact Script.fails_map.2 (hexpr e target)
  | convertExprToBool e negated =>
    cases hplan
    refine Script.fails_map.2 (.bind (hexpr e .bool) fun _ => ?_)
    split <;> simp [Script.negate]
  | castToArray e =>
    cases hplan
    exact Script.fails_map.2 (Scope.fails_castToArray hA e)

/-! ### Sessions -/

namespace Session

variable {C : Catalog} {s t : Session} {e : ConvertError} {r : Rep}

/-- A session has no room for another local or another text, and says so. -/
def Raises (s : Session) (e : ConvertError) : Prop :=
  (∃ r, s.declareLocal r = .error e) ∨ ∃ x, s.internText x = .error e

theorem Raises.eq_tooMany (h : s.Raises e) : e = .tooManyLocals ∨ e = .tooManyTexts := by
  rcases h with ⟨r, h⟩ | ⟨x, h⟩
  · unfold declareLocal at h
    split_ifs at h
    · exact .inl (Except.error.inj h).symm
    · split at h
      · cases h
      · exact .inl (Except.error.inj h).symm
  · unfold internText at h
    split_ifs at h
    exact .inr (Except.error.inj h).symm

theorem emit_ne_failed {i : Instr} : emit C i s ≠ .error (.failed e) t := by
  unfold emit
  cases s.builder.emit C i <;> simp

/-- A step that fails, fails for want of room. -/
theorem raises_of_perform {x : Step} (h : perform C x s = .error (.failed e) t) : t.Raises e := by
  cases x with
  | emit i => exact absurd h emit_ne_failed
  | text x | invoke x returnsValue =>
    rcases bind_eq_error.1 h with hj | ⟨j, t₀, -, hemit⟩
    · obtain ⟨rfl, c, hc, herror⟩ := attempt_eq_error hj
      cases hc
      exact .inr ⟨x, herror⟩
    · exact absurd hemit emit_ne_failed
  | reserve r | store r | address r =>
    rcases bind_eq_error.1 h with hj | ⟨j, t₀, -, hrest⟩
    · -- a scratch local is refused only where a local is
      obtain ⟨rfl, c, hc, herror⟩ := acquire_eq_error hj
      cases hc
      exact .inl ⟨r, herror⟩
    · first | cases hrest | exact absurd hrest emit_ne_failed
  | fork => cases h
  | brAbsent | brEnd | markAbsent | markEnd =>
    rcases bind_eq_error.1 h with hget | ⟨_, _, -, hemit⟩
    · cases hget
    · exact absurd hemit emit_ne_failed

theorem raises_of_performAll {ts : List Step} (h : performAll C ts s = .error (.failed e) t) :
    t.Raises e := by
  induction ts generalizing s with
  | nil => cases h
  | cons x ts ih =>
    rcases bind_eq_error.1 h with hx | ⟨_, s₀, -, hts⟩
    · exact raises_of_perform hx
    · exact ih hts

/-- Whether an action halts for a reason is found out by taking it. -/
instance decidableHalts {α : Type} (a : Action α) (e : Halt) (s : Session) :
    Decidable (∃ t, a s = .error e t) :=
  match h : a s with
  | .ok x t => isFalse (by simp)
  | .error c t => decidable_of_iff (c = e) (by simp)

end Session

open Session

/-- Why a request fails: an operation is not bound, and the request is named; something that can
be called is wanted of a number; there is no room in the session; or its place fails. -/
theorem Request.Asks.failure {S : Scope} (hA : S.catalog.ResolvesAliases) {o : Options}
    {q : Request} {source target : Rep} (hq : q.Asks source target) {s t : Session}
    {e : ConvertError} (h : q.answer S o s = .error (.failed e) t) :
    (∃ op, S.catalog.get? op = none ∧ e = .notImplemented source target op) ∨
      (∃ r : Rep, target = .callable ∧ r.isNumeric = true ∧ e = .notCallable r) ∨
      t.Raises e ∨
      ∃ first ∈ q.own, ∃ c, first.result = .error c ∧ e = c.inConversion source target := by
  obtain ⟨plan, hplan⟩ : ∃ plan, q.plan? S o = some plan := by
    cases hq <;> exact ⟨_, rfl⟩
  rw [Request.answer_eq_run hplan, run_eq_error] at h
  rcases h with hsteps | ⟨c, hresult, he, -⟩
  · exact .inr (.inr (.inl (raises_of_performAll hsteps)))
  · cases he
    obtain ⟨c, hc | ⟨first, hfirst, herror⟩, rfl⟩ := hq.fails hA hplan _ hresult
    · cases hc with
      | @missing op hop => exact .inl ⟨op, hop, rfl⟩
      | @number r ht hr => exact .inr (.inl ⟨r, ht, hr, rfl⟩)
    · exact .inr (.inr (.inr ⟨first, hfirst, c, herror, rfl⟩))

/-- **Failures name the requested pair.**  An alias leads to no alias, and what the place of a
request refuses, it refuses for want of an address or of room.  Then a request to convert never
fails for an operation without naming a conversion; the one that it names is the one that the
caller has asked for, and the operation is not bound.  Only a number is refused as something that
can be called, and only if that is asked for.  Any other error has been raised by the session or by
the place, and is passed on as it is. -/
theorem failures_name_the_request {S : Scope} (hA : S.catalog.ResolvesAliases) {o : Options}
    {q : Request} {source target : Rep} (hq : q.Asks source target)
    (hown : ∀ first ∈ q.own, ∀ c, first.result = .error c →
      c = .noAddress ∨ c = .tooManyLocals ∨ c = .tooManyTexts)
    {s t : Session} {e : ConvertError} (h : q.answer S o s = .error (.failed e) t) :
    (∀ op, e ≠ .missingOp op) ∧
    (∀ f g op, e = .notImplemented f g op →
      f = source ∧ g = target ∧ S.catalog.get? op = none) ∧
    (∀ r : Rep, e = .notCallable r → target = .callable ∧ r.isNumeric = true) ∧
    ((∀ f g op, e ≠ .notImplemented f g op) → (∀ r, e ≠ .notCallable r) →
      t.Raises e ∨ ∃ first ∈ q.own, first.result = .error e) := by
  rcases hq.failure hA h with ⟨op, hop, rfl⟩ | ⟨r, ht, hr, rfl⟩ | hraises |
    ⟨first, hfirst, c, herror, rfl⟩
  · refine ⟨by simp, ?_, by simp, fun hnot _ => absurd rfl (hnot source target op)⟩
    intro f g op' heq
    cases heq
    exact ⟨rfl, rfl, hop⟩
  · refine ⟨by simp, by simp, ?_, fun _ hnot => absurd rfl (hnot r)⟩
    intro r' heq
    cases heq
    exact ⟨ht, hr⟩
  · rcases hraises.eq_tooMany with rfl | rfl <;>
      exact ⟨by simp, by simp, by simp, fun _ _ => .inl hraises⟩
  · have hkept : c.inConversion source target = c ∧ (∀ op, c ≠ .missingOp op) ∧
        (∀ f g op, c ≠ .notImplemented f g op) ∧ ∀ r, c ≠ .notCallable r := by
      rcases hown first hfirst c herror with rfl | rfl | rfl <;> simp [ConvertError.inConversion]
    obtain ⟨heq, hmissing, hnamed, hnumber⟩ := hkept
    rw [heq]
    exact ⟨hmissing, fun f g op h => absurd h (hnamed f g op), fun r h => absurd h (hnumber r),
      fun _ _ => .inr ⟨first, hfirst, herror⟩⟩

/-- A union that is known to hold a float cannot be converted to text without the operation for
floats.  The report names the union all the same. -/
theorem failures_name_the_request_narrowed :
    let S : Scope := ⟨Catalog.standard.without .doubleToText, .new, none⟩
    let q : Request := .convertExpr ⟨.load (.local 0 .value), .double, none, .read⟩ .text
    q.Asks .value .text ∧
    (∃ t, q.answer S .standard (.new none none) =
      .error (.failed (.notImplemented .value .text .doubleToText)) t) ∧
    S.catalog.get? .doubleToText = none := by
  intro S q
  have hA : S.catalog.ResolvesAliases := by
    intro m hm
    cases hm
    decide
  have hq : q.Asks .value .text := .convertExpr _ .text
  have hown : ∀ first ∈ q.own, ∀ c, first.result = .error c →
      c = .noAddress ∨ c = .tooManyLocals ∨ c = .tooManyTexts := by
    intro first hfirst c hc
    simp only [q, Request.own, Expr.own, Place.own, List.mem_cons, List.not_mem_nil,
      or_false] at hfirst
    rcases hfirst with rfl | rfl | rfl <;> cases hc
  obtain ⟨t, ht⟩ : ∃ t, q.answer S .standard (.new none none) =
      .error (.failed (.notImplemented .value .text .doubleToText)) t := by decide +kernel
  obtain ⟨-, hnamed, -⟩ := failures_name_the_request hA hq hown ht
  exact ⟨hq, ⟨t, ht⟩, (hnamed _ _ _ rfl).2.2⟩

end Recast
