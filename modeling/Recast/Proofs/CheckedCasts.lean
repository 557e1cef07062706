import Recast.Proofs.Accessors

/-!
# Checked casts

A checked cast fails when the code runs, if the reference is no instance of what it is cast to.  So
the code of a conversion may have one only where the target admits that the conversion fails: an
array, an instance of a class or a resource.  There it is the last thing that is done, so that
nothing on the way to the target, nor any nested conversion, can fail.  A value is boxed for the
cast to an array and for nothing else.

* `CastsLast` : code that neither boxes nor casts, but at its very end;
* `Scope.castsLast_reshape` : **the rules cast last**, however they nest;
* `Scope.castsLast_reshapeExpr` : so does every evaluation of an expression into a target;
* `checked_casts_are_last` : **what is emitted** for the conversions, and for the requests that
  never cast at all.
-/

namespace Recast

/-! ### Code that casts last -/

/-- The instruction neither boxes a value nor casts a reference. -/
def Instr.isGentle : Instr → Bool
  | .box _ | .castClass _ => false
  | _ => true

/-- The step neither boxes a value nor casts a reference. -/
def Step.isGentle : Step → Bool
  | .emit i => i.isGentle
  | _ => true

/-- What the code of a conversion may end in: a cast to a target that values are cast to, and for
an array also of a value that has been boxed for it. -/
inductive Rep.FinalCast (target : Rep) : List Instr → Prop
  /-- Nothing is cast. -/
  | none : FinalCast target []
  /-- A reference is cast to the target. -/
  | cast (ht : target.isCastTarget = true) : FinalCast target [.castClass target]
  /-- A value is boxed and cast to an array. -/
  | boxed (ht : target = .array) (r : Rep) : FinalCast target [.box r, .castClass .array]

/-- The code neither boxes a value nor casts a reference, but at its very end. -/
def CastsLast (target : Rep) (code : List Instr) : Prop :=
  ∃ body last, code = body ++ last ∧ body.all Instr.isGentle = true ∧ target.FinalCast last

/-- The plan neither boxes a value nor casts a reference, but at its very end. -/
def Script.CastsLast {α : Type} (target : Rep) (p : Script α) : Prop :=
  ∃ body last, p.steps = body ++ last.map .emit ∧ body.all Step.isGentle = true ∧
    target.FinalCast last

theorem Rep.FinalCast.eq_nil {target : Rep} {last : List Instr} (h : target.FinalCast last)
    (ht : target.isCastTarget = false) : last = [] := by
  cases h with
  | none => rfl
  | cast hcast => simp [ht] at hcast
  | boxed harray r => simp [harray, Rep.isCastTarget] at ht

theorem Numbering.all_isGentle_code (N : Numbering) (ts : List Step) :
    (N.code ts).all Instr.isGentle = ts.all Step.isGentle := by
  induction ts generalizing N with
  | nil => rfl
  | cons t ts ih =>
    rw [code_cons, List.all_append, ih, List.all_cons]
    cases t <;> simp [instr?, Step.isGentle, Instr.isGentle]

theorem Step.isGentle_of_suits {target : Rep} {t : Step} (ht : target.isCastTarget = false)
    (h : t.suits target = true) : t.isGentle = true := by
  cases t with
  | emit i =>
    cases i with
    | castClass r => simp [suits, ht] at h
    | box r =>
      have harray : target = .array := by simpa [suits] using h
      simp [harray, Rep.isCastTarget] at ht
    | _ => rfl
  | _ => rfl

namespace Script

variable {α β : Type} {p : Script α} {f : α → Script β} {target : Rep}

theorem CastsLast.of_all (h : p.all Step.isGentle = true) : p.CastsLast target :=
  ⟨p.steps, [], (List.append_nil _).symm, h, .none⟩

theorem CastsLast.all_of_not_isCastTarget (h : p.CastsLast target)
    (ht : target.isCastTarget = false) : p.all Step.isGentle = true := by
  obtain ⟨body, last, hsteps, hbody, hlast⟩ := h
  rw [hlast.eq_nil ht, List.map_nil, List.append_nil] at hsteps
  rw [all, hsteps, hbody]

theorem CastsLast.mapError (h : p.CastsLast target) (g : ConvertError → ConvertError) :
    (p.mapError g).CastsLast target := h

/-- What casts last may follow what does not cast. -/
theorem CastsLast.bind (hp : p.all Step.isGentle = true)
    (hf : ∀ a, p.result = .ok a → (f a).CastsLast target) : (p >>= f).CastsLast target := by
  cases hresult : p.result with
  | error e =>
    refine .of_all ?_
    rwa [all, steps_bind, hresult, List.append_nil]
  | ok a =>
    obtain ⟨body, last, hsteps, hbody, hlast⟩ := hf a hresult
    refine ⟨p.steps ++ body, last, ?_, ?_, hlast⟩
    · rw [steps_bind, hresult]
      dsimp only
      rw [hsteps, List.append_assoc]
    · rw [List.all_append, hbody, Bool.and_true]
      exact hp

theorem CastsLast.map (h : p.CastsLast target) (g : α → β) : (g <$> p).CastsLast target := by
  rwa [CastsLast, steps_map]

end Script

namespace Scope

open Script

variable {T : ClassTable} {k : Option ClassId} {o : Options} {source target : Rep} {hint : Hint}
  {plan : Script Rep}

/-! ### Conversions of a value -/

theorem isGentle_call (op : Op) : ((standard T k).call op).all Step.isGentle = true := by
  cases op <;> rfl

theorem isGentle_callByAddress (r : Rep) (op : Op) :
    ((standard T k).callByAddress r op).all Step.isGentle = true :=
  all_bind rfl fun _ _ => isGentle_call op

theorem isGentle_drop (r : Rep) : (Script.drop r).all Step.isGentle = true := by
  cases r <;> rfl

theorem isGentle_of_suits {p : Script Rep} (ht : target.isCastTarget = false)
    (h : p.all (Step.suits target) = true) : p.all Step.isGentle = true :=
  all_mono (fun _ => Step.isGentle_of_suits ht) h

theorem castsLast_toArray (source : Rep) : ((standard T k).toArray source).CastsLast .array := by
  cases source with
  | void | array | value => exact .of_all rfl
  | text | «alias» | resource | callable | bytes | object _ =>
    exact ⟨[], [.castClass .array], rfl, rfl, .cast rfl⟩
  | _ => exact ⟨[], [.box _, .castClass .array], rfl, rfl, .boxed rfl _⟩

theorem castsLast_toObject (ht : target.isCastTarget = true) :
    ((standard T k).toObject source target).CastsLast target := by
  have hcast : Script.CastsLast target do
      Script.emit (.castClass target)
      return target := ⟨[], [.castClass target], rfl, rfl, .cast ht⟩
  have hobject : ((standard T k).apply .valueAsObject).all Step.isGentle = true := rfl
  unfold toObject
  split_ifs
  · exact .bind hobject fun _ _ => hcast
  · exact .bind hobject fun _ _ => .of_all rfl
  · exact hcast
  · exact .bind (isGentle_drop source) fun _ _ => .of_all rfl

/-- **The rules cast last.**  The induction is along nested conversions: what is dereferenced or
narrowed is converted into the same target, and what a target is made from is no target that values
are cast to. -/
theorem castsLast_reshape (source : Rep) (hint : Hint) (target : Rep) :
    ((standard T k).reshape source hint target).CastsLast target := by
  refine reshape_induction (S := standard T k) standard_resolvesAliases
    (P := fun source hint target => ((standard T k).reshape source hint target).CastsLast target)
    (fun source hint target ih => ?_) source hint target
  rw [reshape_eq standard_resolvesAliases]
  apply reshapeBy_elim (P := fun plan : Script Rep => plan.CastsLast target)
  case stay => exact fun _ => .of_all rfl
  case discard => exact fun _ _ => .bind (isGentle_drop source) fun _ _ => .of_all rfl
  case behind =>
    intro hs _ _
    exact .bind (isGentle_call _) fun inner hinner => ih _ _ _ (.behind hs hinner)
  case assign => exact fun _ _ _ _ => .of_all rfl
  case narrow =>
    intro op hop _ _
    exact .bind (isGentle_callByAddress _ _) fun narrowed _ => ih _ _ _ (.narrowed hop)
  case into =>
    intro _ _ hs _ hnone
    cases hcast : target.isCastTarget with
    | true =>
      cases target with
      | array => exact castsLast_toArray source
      | object _ | resource => exact castsLast_toObject hcast
      | _ => cases hcast
    | false =>
      exact .of_all (isGentle_of_suits hcast
        (suits_intoTarget (fun _ => suits_reshape source hint .mutText hs hnone)
          fun p _ => suits_reshape source hint p.rep hs hnone))

theorem isGentle_reshape (ht : target.isCastTarget = false) :
    ((standard T k).reshape source hint target).all Step.isGentle = true :=
  (castsLast_reshape source hint target).all_of_not_isCastTarget ht

/-! ### Conversions of an expression -/

section Expressions

variable {e : Expr} {place : Place}

theorem isGentle_narrowPlace? (hown : ∀ first ∈ place.own, first.all Step.isGentle = true)
    (h : (standard T k).narrowPlace? place hint = some plan) :
    plan.all Step.isGentle = true := by
  unfold narrowPlace? at h
  split at h
  · obtain ⟨op, -, rfl⟩ := Option.map_eq_some_iff.1 h
    exact all_bind (hown _ place.loadAddress_mem_own) fun _ _ => isGentle_call op
  · cases h

theorem isGentle_readThroughAddress? (hown : ∀ first ∈ place.own, first.all Step.isGentle = true)
    (h : (standard T k).readThroughAddress? place target = some plan) :
    plan.all Step.isGentle = true := by
  unfold readThroughAddress? at h
  split at h
  · obtain ⟨op, -, rfl⟩ := Option.map_eq_some_iff.1 h
    exact all_bind (hown _ place.loadAddress_mem_own) fun _ _ => isGentle_call op
  · cases h

theorem isGentle_loadAlias (hown : ∀ first ∈ place.own, first.all Step.isGentle = true)
    (hint : Hint) : ((standard T k).loadAlias place hint).all Step.isGentle = true := by
  unfold loadAlias
  split_ifs
  · exact all_bind (hown _ place.loadAddress_mem_own) fun _ _ => isGentle_call _
  · exact all_bind (hown _ place.load_mem_own) fun _ _ => isGentle_reshape rfl

/-- To read a place by reference may take a conversion, but none that casts. -/
theorem isGentle_evaluate (hown : ∀ first ∈ e.own, first.all Step.isGentle = true) :
    ((standard T k).evaluate e).all Step.isGentle = true := by
  unfold Expr.own at hown
  unfold evaluate
  cases hkind : e.kind with
  | literal c => exact isGentle_of_suits rfl (suits_evaluateLiteral c)
  | invoke routine returns => rfl
  | load place =>
    rw [hkind] at hown
    dsimp only
    split_ifs
    · exact isGentle_loadAlias hown e.hint
    · exact hown _ place.load_mem_own

theorem castsLast_evaluateAndReshape (hown : ∀ first ∈ e.own, first.all Step.isGentle = true) :
    ((standard T k).evaluateAndReshape e target).CastsLast target := by
  refine .bind (isGentle_evaluate hown) fun source _ => ?_
  split_ifs
  · exact .of_all (isGentle_call _)
  · exact castsLast_reshape source e.hint target

theorem castsLast_typedRead? (hown : ∀ first ∈ e.own, first.all Step.isGentle = true)
    (h : (standard T k).typedRead? o e target = some plan) : plan.CastsLast target := by
  unfold Expr.own at hown
  unfold typedRead? at h
  cases hkind : e.kind with
  | load place =>
    rw [hkind] at h hown
    rcases (Option.orElse_eq_some _ _ _).1 h with h | ⟨-, h⟩
    · split_ifs at h
      obtain ⟨narrowing, hnarrow, rfl⟩ := Option.map_eq_some_iff.1 h
      exact .bind (isGentle_narrowPlace? hown hnarrow) fun narrowed _ =>
        castsLast_reshape narrowed narrowed.hint target
    · split_ifs at h
      exact .of_all (isGentle_readThroughAddress? hown h)
  | literal c | invoke routine returns =>
    rw [hkind] at h
    cases h

/-- **However an expression is evaluated** into a target, a cast comes last. -/
theorem castsLast_reshapeExpr (hown : ∀ first ∈ e.own, first.all Step.isGentle = true)
    (target : Rep) : ((standard T k).reshapeExpr o e target).CastsLast target := by
  unfold reshapeExpr
  split_ifs
  · unfold discardExpr
    split_ifs
    · exact .of_all rfl
    · exact .bind (isGentle_evaluate hown) fun source _ =>
        .bind (isGentle_drop source) fun _ _ => .of_all rfl
  · exact castsLast_evaluateAndReshape hown
  · cases hfolded : (standard T k).folded? o e target with
    | some plan =>
      unfold folded? at hfolded
      split_ifs at hfolded
      obtain ⟨c, -, hload⟩ := Option.bind_eq_some_iff.1 hfolded
      exact .of_all (isGentle_of_suits rfl (suits_loadConstant? hload))
    | none =>
      cases hread : (standard T k).typedRead? o e target with
      | some plan => exact castsLast_typedRead? hown hread
      | none => exact castsLast_evaluateAndReshape hown

theorem isGentle_castToArray (hown : ∀ first ∈ e.own, first.all Step.isGentle = true) :
    ((standard T k).castToArray e).all Step.isGentle = true := by
  have hevaluate : ((standard T k).evaluate e.readByValue).all Step.isGentle = true :=
    isGentle_evaluate (e := e.readByValue) hown
  refine all_bind hevaluate fun source _ =>
    all_bind (isGentle_of_suits rfl (suits_dereference source)) fun inner _ => ?_
  have hunion : ((standard T k).reshape inner e.hint.withoutRef .value >>= fun _ =>
      (standard T k).callByAddress .value .valueToArray).all Step.isGentle = true :=
    all_bind (isGentle_reshape rfl) fun _ _ => isGentle_callByAddress _ _
  dsimp only
  split
  · rfl
  · split_ifs
    · exact isGentle_call _
    · exact hunion
  · exact hunion

end Expressions

end Scope

/-! ### Emitted code -/

namespace Session

variable {C : Catalog} {target : Rep} {last : List Instr}

/-- A boxed value is there to be cast, so that no code ends in between. -/
theorem exists_finalCast (h : target.FinalCast last) (s : Session) :
    ∃ done, target.FinalCast done ∧
      (endOf (performAll C (last.map .emit)) s).builder.instrs.toList =
        s.builder.instrs.toList ++ done := by
  cases h with
  | none => exact ⟨[], .none, (List.append_nil _).symm⟩
  | cast ht =>
    obtain ⟨N, done, hdone, hcode⟩ := exists_code C [.emit (.castClass target)] s
    rcases List.prefix_cons_iff.1 hdone with rfl | ⟨rest, rfl, hrest⟩
    · exact ⟨[], .none, hcode⟩
    · rw [List.prefix_nil.1 hrest] at hcode
      exact ⟨_, .cast ht, hcode⟩
  | boxed ht r =>
    cases hbox : emit C (.box r) s with
    | error f t =>
      refine ⟨[], .none, ?_⟩
      have hstays : endOf (performAll C [.emit (.box r), .emit (.castClass .array)]) s = t :=
        endOf_bind_of_error hbox
      rw [List.map_cons, List.map_cons, List.map_nil, hstays, emit_eq_error hbox, List.append_nil]
    | ok u t =>
      obtain ⟨b, hb, rfl⟩ := emit_eq_ok hbox
      have hdepth : 1 ≤ b.depth := by
        unfold Builder.emit at hb
        dsimp only [Instr.effect] at hb
        split_ifs at hb
        cases hb
        exact Nat.le_add_left _ _
      have hcast : ∃ b', b.emit C (.castClass .array) = .ok b' := by
        unfold Builder.emit
        simp [Instr.effect, Builder.startDepth, Nat.not_lt.2 hdepth]
      obtain ⟨b', hb'⟩ := hcast
      refine ⟨_, .boxed ht r, ?_⟩
      have hends : performAll C [.emit (.box r), .emit (.castClass .array)] s =
          .ok () { s with builder := b' } := by
        refine bind_eq_ok.2 ⟨(), _, hbox, bind_eq_ok.2 ⟨(), { s with builder := b' }, ?_, rfl⟩⟩
        simp only [perform, emit, hb']
      rw [List.map_cons, List.map_cons, List.map_nil, endOf_eq_ok hends]
      dsimp only
      rw [(instrs_emit (s := { s with builder := b }) hb').1, (instrs_emit hb).1]
      simp

/-- The code that an action appends has a property, whether the action halts or not. -/
def Emits {α : Type} (a : Action α) (s : Session) (P : List Instr → Prop) : Prop :=
  ∃ code, (endOf a s).builder.instrs.toList = s.builder.instrs.toList ++ code ∧ P code

theorem emits_castsLast {α : Type} {p : Script α} (h : p.CastsLast target) (s : Session) :
    Emits (run C p) s (CastsLast target) := by
  obtain ⟨body, last, hsteps, hbody, hlast⟩ := h
  unfold Emits
  rw [endOf_run, hsteps, performAll_append]
  obtain ⟨N, taken, htaken, hcode⟩ := exists_code C body s
  have hgentle : (N.code taken).all Instr.isGentle = true := by
    rw [N.all_isGentle_code]
    exact List.all_eq_true.2 fun t ht => List.all_eq_true.1 hbody t (htaken.subset ht)
  cases hperform : performAll C body s with
  | error e t =>
    rw [endOf_eq_error hperform] at hcode
    rw [endOf_bind_of_error hperform]
    exact ⟨_, hcode, _, [], (List.append_nil _).symm, hgentle, .none⟩
  | ok u t =>
    rw [endOf_eq_ok hperform] at hcode
    obtain ⟨done, hdone, hend⟩ := exists_finalCast (C := C) hlast t
    rw [endOf_bind_of_ok hperform, hend, hcode, List.append_assoc]
    exact ⟨_, rfl, _, done, rfl, hgentle, hdone⟩

theorem emits_gentle {α : Type} {p : Script α} (h : p.all Step.isGentle = true) (s : Session) :
    Emits (run C p) s fun code => code.all Instr.isGentle = true := by
  obtain ⟨N, done, hdone, hcode⟩ := exists_code C p.steps s
  rw [Emits, endOf_run]
  refine ⟨_, hcode, ?_⟩
  rw [N.all_isGentle_code]
  exact List.all_eq_true.2 fun t ht => Script.all_iff.1 h t (hdone.subset ht)

end Session

/-! ### Requests -/

/-- The requests that convert into a target, and may be refused by it when the code runs. -/
inductive Request.MayCast (target : Rep) : Request → Prop
  /-- A value is converted. -/
  | convert (source : Rep) (hint : Hint) : MayCast target (.convert source hint target)
  /-- An expression is converted. -/
  | convertExpr (e : Expr) : MayCast target (.convertExpr e target)

/-- The requests that take null, or the dynamic union, for what is not as it is asked for. -/
inductive Request.NeverCasts : Request → Prop
  /-- An array is asked for. -/
  | asArray (source : Rep) : NeverCasts (.asArray source)
  /-- An instance is asked for. -/
  | asObject (source : Rep) : NeverCasts (.asObject source)
  /-- An array is made of an expression. -/
  | castToArray (e : Expr) : NeverCasts (.castToArray e)
  /-- A union is narrowed. -/
  | narrow (source : Rep) (hint : Hint) : NeverCasts (.narrow source hint)
  /-- A union in a place is narrowed. -/
  | narrowPlace (p : Place) (hint : Hint) : NeverCasts (.narrowPlace p hint)
  /-- A constant is loaded. -/
  | loadConstant (c : Constant) (target : Rep) : NeverCasts (.loadConstant c target)

namespace Request

open Scope

variable {T : ClassTable} {k : Option ClassId} {o : Options} {q : Request} {target : Rep}
  {plan : Script Reply}

theorem isGentle_optionally {plan? : Option (Script Rep)}
    (h : ∀ plan, plan? = some plan → plan.all Step.isGentle = true) :
    (optionally plan?).all Step.isGentle = true := by
  cases plan? with
  | none => rfl
  | some plan => exact Script.all_bind (h plan rfl) fun _ _ => rfl

theorem MayCast.castsLast (hq : q.MayCast target)
    (hown : ∀ first ∈ q.own, first.all Step.isGentle = true)
    (hplan : q.plan? (standard T k) o = some plan) : plan.CastsLast target := by
  cases hq with
  | convert source hint =>
    cases hplan
    exact .map (.mapError (castsLast_reshape source hint target) _) _
  | convertExpr e =>
    cases hplan
    exact .map (.mapError (castsLast_reshapeExpr (e := e.consumedAs target) hown target) _) _

theorem NeverCasts.isGentle (hq : q.NeverCasts)
    (hown : ∀ first ∈ q.own, first.all Step.isGentle = true)
    (hplan : q.plan? (standard T k) o = some plan) : plan.all Step.isGentle = true := by
  cases hq with
  | asArray source =>
    cases hplan
    exact Script.all_map (isGentle_of_suits rfl (suits_asArray source)) _
  | asObject source =>
    cases hplan
    exact Script.all_map (isGentle_of_suits rfl (suits_asObject source)) _
  | castToArray e =>
    cases hplan
    exact Script.all_map (isGentle_castToArray hown) _
  | narrow source hint =>
    cases hplan
    refine isGentle_optionally fun plan h => ?_
    obtain ⟨op, -, rfl⟩ := Option.map_eq_some_iff.1 h
    exact isGentle_callByAddress source op
  | narrowPlace p hint =>
    cases hplan
    exact isGentle_optionally fun _ => isGentle_narrowPlace? hown
  | loadConstant c target =>
    cases hplan
    exact isGentle_optionally fun _ h => isGentle_of_suits rfl (suits_loadConstant? h)

end Request

open Session Scope

/-- **Checked casts appear only where the language admits failure.**  What the place of a request
emits neither boxes nor casts, as a load does not.  In any session and with any outcome, the code
that is emitted to convert a value, or an expression, into a target has no checked cast but one at
its very end, to the target, if that is an array, an instance or a resource; and it boxes nothing
but a value for the cast to an array, right before it.  The code that asks for an array or an
instance, makes an array of an expression, narrows a union or loads a constant neither boxes nor
casts at all. -/
theorem checked_casts_are_last {T : ClassTable} {k : Option ClassId} {o : Options} {q : Request}
    (hown : ∀ first ∈ q.own, first.all Step.isGentle = true) (s : Session) :
    (∀ target, q.MayCast target → Emits (q.answer (standard T k) o) s (CastsLast target)) ∧
    (q.NeverCasts →
      Emits (q.answer (standard T k) o) s fun code => code.all Instr.isGentle = true) := by
  refine ⟨fun target hq => ?_, fun hq => ?_⟩
  · obtain ⟨plan, hplan⟩ : ∃ plan, q.plan? (standard T k) o = some plan := by
      cases hq <;> exact ⟨_, rfl⟩
    rw [Request.answer_eq_run hplan]
    exact emits_castsLast (hq.castsLast hown hplan) s
  · obtain ⟨plan, hplan⟩ : ∃ plan, q.plan? (standard T k) o = some plan := by
      cases hq <;> exact ⟨_, rfl⟩
    rw [Request.answer_eq_run hplan]
    exact emits_gentle (hq.isGentle hown hplan) s

/-- An integer in a variable is boxed and cast to an array: the cast is all that may fail. -/
theorem checked_casts_are_last_integer :
    let q : Request := .convertExpr ⟨.load (.local 0 .int64), .long, none, .read⟩ .array
    let a := q.answer (standard .new none) .standard
    Emits a (new none none) (CastsLast .array) ∧
    (endOf a (new none none)).builder.instrs.toList =
      [.ldLoc 0, .box .int64, .castClass .array] := by
  intro q a
  have hown : ∀ first ∈ q.own, first.all Step.isGentle = true := by
    intro first hfirst
    simp only [q, Request.own, Expr.own, Place.own, List.mem_cons, List.not_mem_nil,
      or_false] at hfirst
    rcases hfirst with rfl | rfl | rfl <;> rfl
  exact ⟨(checked_casts_are_last hown _).1 .array (.convertExpr _), by decide +kernel⟩

end Recast
