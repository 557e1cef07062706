import Recast.Proofs.Congruence
import Recast.Proofs.Reachable

/-!
# Missing operations

Two catalogs are compared, of which one lacks some operations that the other one binds.  No rule
asks whether an operation is bound in order to choose another one: the plans in both scopes are
the same, up to the first call of an operation that is lacking.  There the plan ends in an error,
before anything is pushed for the call.

* `Scope.Cuts` : how the plan with operations missing stands to the plan with all of them;
* `Scope.congruence_cuts` : the constructions of plans respect it;
* `missing_operations_cut_short` : **missing operations only cut the output short**.
-/

namespace Recast

/-- The operation that a step calls, if it calls one. -/
def Step.op? : Step → Option Op
  | .emit i => i.op?
  | _ => none

/-- No step calls one of some operations. -/
def Spares (removed : List Op) (ts : List Step) : Prop :=
  ∀ t ∈ ts, ∀ op, t.op? = some op → op ∉ removed

/-- No instruction calls one of some operations. -/
def Spared (removed : List Op) (code : List Instr) : Prop :=
  ∀ i ∈ code, ∀ op, i.op? = some op → op ∉ removed

/-- Remove the bindings of some operations. -/
def Catalog.withoutAll (C : Catalog) (removed : List Op) : Catalog :=
  removed.foldl Catalog.without C

/-- The same scope with the bindings of some operations removed. -/
def Scope.withoutAll (S : Scope) (removed : List Op) : Scope :=
  { S with catalog := S.catalog.withoutAll removed }

section Catalogs

variable {C : Catalog} {removed : List Op} {op : Op} {ts us : List Step}

theorem Catalog.get?_withoutAll :
    (C.withoutAll removed).get? op = if op ∈ removed then none else C.get? op := by
  induction removed generalizing C with
  | nil => simp [withoutAll]
  | cons o removed ih =>
    have hrest : (C.withoutAll (o :: removed)).get? op =
        if op ∈ removed then none else (C.without o).get? op := ih
    rw [hrest, get?_without]
    by_cases h : op ∈ removed <;> by_cases ho : op = o <;> simp [h, ho]

theorem spares_nil : Spares removed [] := by simp [Spares]

theorem spares_append : Spares removed (ts ++ us) ↔ Spares removed ts ∧ Spares removed us := by
  simp only [Spares, List.forall_mem_append]

theorem spared_nil : Spared removed [] := by simp [Spared]

theorem spared_append {code code' : List Instr} :
    Spared removed (code ++ code') ↔ Spared removed code ∧ Spared removed code' := by
  simp only [Spared, List.forall_mem_append]

end Catalogs

/-! ### Plans -/

namespace Scope

/-- How the plan with operations missing stands to the plan with all of them, after an opening
that both have.  What is reported of a missing operation depends on who asks. -/
inductive Cuts (S : Scope) (removed : List Op) (opening : List Step) (report : Op → ConvertError)
    {α : Type} : Script α → Script α → Prop
  /-- No missing operation is called: the plans are the same. -/
  | same {p : Script α} (rest : List Step) (hsteps : p.steps = opening ++ rest)
      (hrest : Spares removed rest) : Cuts S removed opening report p p
  /-- The plan ends in the place of the first call of a missing operation. -/
  | cut {p p' : Script α} {op : Op} {m : Method} (before after : List Step)
      (hop : op ∈ removed) (hm : S.catalog.get? op = some m) (hbefore : Spares removed before)
      (hsteps : p.steps = opening ++ before ++ (S.call op).steps ++ after)
      (hsteps' : p'.steps = opening ++ before) (hresult' : p'.result = .error (report op)) :
      Cuts S removed opening report p p'

section Cuts

variable {S : Scope} {removed : List Op} {opening : List Step} {report : Op → ConvertError}
  {α β : Type} {p p' : Script α} {f f' : α → Script β}

theorem Cuts.of_spares (h : Spares removed p.steps) : S.Cuts removed [] report p p :=
  .same p.steps rfl h

theorem Cuts.step {t : Step} (h : t.op? = none) :
    S.Cuts removed [] report (Script.step t) (Script.step t) := by
  refine .of_spares fun u hu op hop => ?_
  rw [List.mem_singleton.1 hu, h] at hop
  cases hop

/-- What follows plans that are the same may be cut short, and what follows a cut is lost. -/
theorem Cuts.bind (hp : S.Cuts removed opening report p p')
    (hf : ∀ a, S.Cuts removed [] report (f a) (f' a)) :
    S.Cuts removed opening report (p >>= f) (p' >>= f') := by
  cases hp with
  | same rest hsteps hrest =>
    cases hresult : p.result with
    | error e =>
      have heq : p >>= f' = p >>= f := Script.bind_congr fun a ha => by simp [hresult] at ha
      rw [heq]
      refine .same rest ?_ hrest
      rw [Script.steps_bind, hresult, List.append_nil, hsteps]
    | ok a =>
      have hfollow := hf a
      generalize hq : f a = q at hfollow
      generalize hq' : f' a = q' at hfollow
      cases hfollow with
      | same more hmore hspares =>
        have heq : p >>= f' = p >>= f := Script.bind_congr fun b hb => by
          rw [hresult] at hb
          cases hb
          rw [hq, hq']
        rw [heq]
        refine .same (rest ++ more) ?_ (spares_append.2 ⟨hrest, hspares⟩)
        rw [Script.steps_bind, hresult, hsteps]
        dsimp only
        rw [hq, hmore, List.nil_append, List.append_assoc]
      | cut before after hop hm hbefore hmore hmore' hcut =>
        refine .cut (rest ++ before) after hop hm
          (spares_append.2 ⟨hrest, hbefore⟩) ?_ ?_ ?_
        · rw [Script.steps_bind, hresult, hsteps]
          dsimp only
          rw [hq, hmore]
          simp only [List.nil_append, List.append_assoc]
        · rw [Script.steps_bind, hresult, hsteps]
          dsimp only
          rw [hq', hmore', List.nil_append, List.append_assoc]
        · rw [Script.result_bind, hresult, Except.bind, hq', hcut]
  | cut before after hop hm hbefore hsteps hsteps' hcut =>
    obtain ⟨more, hmore⟩ : ∃ more, (p >>= f).steps = p.steps ++ more := ⟨_, p.steps_bind f⟩
    refine .cut before (after ++ more) hop hm hbefore ?_ ?_ ?_
    · rw [hmore, hsteps, List.append_assoc _ after]
    · rw [Script.steps_bind, hcut, List.append_nil, hsteps']
    · rw [Script.result_bind, hcut, Except.bind]

theorem Cuts.seq {q q' : Script β} (hp : S.Cuts removed opening report p p')
    (hq : S.Cuts removed [] report q q') :
    S.Cuts removed opening report (p >>= fun _ => q) (p' >>= fun _ => q') :=
  hp.bind fun _ => hq

theorem spares_call {op : Op} (hop : op ∉ removed) : Spares removed (S.call op).steps := by
  unfold call
  cases S.catalog.get? op with
  | none => exact spares_nil
  | some m =>
    intro t ht o ho
    obtain ⟨i, hi, rfl⟩ := List.mem_map.1 ht
    rcases List.mem_append.1 hi with hi | hi
    · -- what a parameter implies is no call
      obtain ⟨param, -, hparam⟩ := List.mem_filterMap.1 hi
      cases param <;> cases hparam <;> cases ho
    · rw [List.mem_singleton.1 hi] at ho
      unfold Method.callInstr at ho
      split at ho <;> cases ho <;> exact hop

/-- Whether an operation is missing is found out before anything is done for its call. -/
theorem cuts_call (op : Op) :
    S.Cuts removed [] .missingOp (S.call op) ((S.withoutAll removed).call op) := by
  have hget : (S.withoutAll removed).catalog.get? op =
      if op ∈ removed then none else S.catalog.get? op := Catalog.get?_withoutAll
  have hmissing : ∀ S : Scope, S.catalog.get? op = none → S.call op = .fail (.missingOp op) := by
    intro S h
    rw [call, h]
  by_cases hop : op ∈ removed
  · rw [if_pos hop] at hget
    rw [hmissing _ hget]
    cases hm : S.catalog.get? op with
    | none =>
      rw [hmissing _ hm]
      exact .of_spares spares_nil
    | some m => exact .cut [] [] hop hm spares_nil (by simp) rfl rfl
  · rw [if_neg hop] at hget
    have heq : (S.withoutAll removed).call op = S.call op := by
      unfold call
      rw [hget]
      rfl
    rw [heq]
    exact .of_spares (spares_call hop)

/-- **No rule asks whether an operation is bound**: all constructions of plans are cut short in
the same way. -/
theorem congruence_cuts (S : Scope) (removed : List Op) :
    S.Congruence (S.withoutAll removed) fun _ p p' => S.Cuts removed [] .missingOp p p' where
  classes := rfl
  pure _ := .of_spares spares_nil
  fail _ := .of_spares spares_nil
  bind := Cuts.bind
  emit _ hi := .step (Instr.op?_of_actsOnTop hi)
  text _ := (Cuts.step rfl).seq (.of_spares spares_nil)
  call := cuts_call
  callByAddress _ op _ := ((Cuts.step rfl).seq (.step rfl)).seq (cuts_call op)
  nullable _ _ hpayload :=
    (Cuts.step rfl).seq <| (Cuts.step rfl).seq <| (Cuts.step rfl).seq <| (Cuts.step rfl).seq <|
      (Cuts.step rfl).seq <| (Cuts.step rfl).seq <| (Cuts.step rfl).seq <| (Cuts.step rfl).seq <|
      hpayload.seq <| (Cuts.step rfl).seq <| (Cuts.step rfl).seq <|
      ((cuts_call _).seq (.of_spares spares_nil)).seq <| (Cuts.step rfl).seq
      (.of_spares spares_nil)

theorem Cuts.inConversion (hp : S.Cuts removed opening .missingOp p p') (source target : Rep) :
    S.Cuts removed opening (.notImplemented source target)
      (p.mapError (.inConversion source target)) (p'.mapError (.inConversion source target)) := by
  cases hp with
  | same rest hsteps hrest => exact .same rest hsteps hrest
  | cut before after hop hm hbefore hsteps hsteps' hcut =>
    refine .cut before after hop hm hbefore hsteps hsteps' ?_
    rw [Script.result_mapError, hcut]
    rfl

theorem Cuts.map (hp : S.Cuts removed opening report p p') (f : α → β) :
    S.Cuts removed opening report (f <$> p) (f <$> p') :=
  hp.bind fun _ => .of_spares spares_nil

/-- What both plans open with may call what it likes. -/
theorem Opens.cuts {own : List (Script Rep)}
    (hp : Opens (fun _ p p' => S.Cuts removed [] .missingOp p p') own p p') :
    ∃ first ∈ own, S.Cuts removed first.steps .missingOp p p' := by
  obtain ⟨hfirst, hf⟩ := hp
  refine ⟨_, hfirst, Cuts.bind (.same [] (List.append_nil _).symm spares_nil) hf⟩

end Cuts

end Scope

/-- The requests that convert from one representation into another, and name both in an error. -/
inductive Request.Converts : Request → Rep → Rep → Prop
  /-- A value is converted. -/
  | convert (source : Rep) (hint : Hint) (target : Rep) :
    Converts (.convert source hint target) source target
  /-- An expression is converted. -/
  | convertExpr (e : Expr) (target : Rep) : Converts (.convertExpr e target) e.staticRep target
  /-- An expression is cast to an array. -/
  | castToArray (e : Expr) : Converts (.castToArray e) e.staticRep .array

/-- **The plan of a request is only cut short**, after what its place emits. -/
theorem Request.Converts.cuts {S : Scope} {o : Options} {removed : List Op} {q : Request}
    {source target : Rep} (hq : q.Converts source target) {plan plan' : Script Reply}
    (hplan : q.plan? S o = some plan) (hplan' : q.plan? (S.withoutAll removed) o = some plan') :
    ∃ first ∈ q.own, S.Cuts removed first.steps (.notImplemented source target) plan plan' := by
  have h := S.congruence_cuts removed
  cases hq with
  | convert source hint target =>
    cases hplan
    cases hplan'
    exact ⟨_, List.mem_cons_self, .map (.inConversion (h.reshape source hint target) _ _) _⟩
  | convertExpr e target =>
    cases hplan
    cases hplan'
    obtain ⟨first, hfirst, hcuts⟩ := (h.reshapeExpr (o := o) (e.consumedAs target) target).cuts
    exact ⟨first, hfirst, .map (hcuts.inConversion _ _) _⟩
  | castToArray e =>
    cases hplan
    cases hplan'
    obtain ⟨p, p', hp, hp', hopens⟩ := h.castToArray e
    obtain ⟨first, hfirst, hcuts⟩ := (hopens.mono e.sources_subset_own).cuts
    rw [hp, hp']
    exact ⟨first, hfirst, .map (hcuts.inConversion _ _) _⟩

/-! ### Sessions -/

namespace Session

variable {B B' : Catalog} {removed : List Op} {s t : Session} {ts : List Step} {e : Halt}

theorem effect_congr {i : Instr} (h : ∀ op, i.op? = some op → B'.get? op = B.get? op)
    (depth : Nat) : i.effect B' depth = i.effect B depth := by
  cases i <;> first | rfl | simp only [Instr.effect, h _ rfl]

theorem emit_congr {i : Instr} (h : ∀ op, i.op? = some op → B'.get? op = B.get? op) :
    emit B' i = emit B i := by
  funext s
  simp only [emit, Builder.emit, effect_congr h]

/-- Steps depend on the bindings of the operations that they call, and on no others. -/
theorem perform_congr {t : Step} (h : ∀ op, t.op? = some op → B'.get? op = B.get? op) :
    perform B' t = perform B t := by
  cases t with
  | emit i => exact emit_congr h
  | reserve r | fork => rfl
  | _ => exact bind_congr fun _ => emit_congr h

theorem performAll_congr
    (h : ∀ t ∈ ts, ∀ op, t.op? = some op → B'.get? op = B.get? op) :
    performAll B' ts = performAll B ts := by
  induction ts with
  | nil => rfl
  | cons t ts ih =>
    obtain ⟨ht, hts⟩ := List.forall_mem_cons.1 h
    rw [performAll, performAll, perform_congr ht, ih hts]

theorem spared_code {N : Numbering} (h : Spares removed ts) : Spared removed (N.code ts) := by
  induction ts generalizing N with
  | nil => exact spared_nil
  | cons t ts ih =>
    obtain ⟨ht, hts⟩ := List.forall_mem_cons.1 h
    refine spared_append.2 ⟨fun i hi op hop => ?_, ih hts⟩
    cases t with
    | emit j =>
      rw [List.mem_singleton.1 hi] at hop
      exact ht op hop
    | reserve | fork => cases hi
    | _ =>
      -- the other steps become instructions that call nothing
      rw [List.mem_singleton.1 hi] at hop
      cases hop

theorem exists_spared_append (removed : List Op) (B : Catalog) (ts us : List Step) (s : Session) :
    ∃ own code, (endOf (performAll B ts) s).builder.instrs.toList =
        s.builder.instrs.toList ++ own ∧
      (endOf (performAll B (ts ++ us)) s).builder.instrs.toList =
        s.builder.instrs.toList ++ own ++ code ∧ (Spares removed us → Spared removed code) := by
  obtain ⟨M, N, taken, done, -, hdone, hown, hcode⟩ := exists_code_append B ts us s
  exact ⟨_, N.code done, hown, hcode, fun h => spared_code fun t ht => h t (hdone.subset ht)⟩

/-- Instructions are appended as they are, unless one finds too few operands. -/
theorem performAll_emits (B : Catalog) (is : List Instr) (s : Session) :
    (∃ t, performAll B (is.map .emit) s = .ok () t ∧
      t.builder.instrs.toList = s.builder.instrs.toList ++ is) ∨
    ∃ f t, performAll B (is.map .emit) s = .error (.refused f) t := by
  induction is generalizing s with
  | nil => exact .inl ⟨s, rfl, (List.append_nil _).symm⟩
  | cons i is ih =>
    cases hb : s.builder.emit B i with
    | error f =>
      have hemit : emit B i s = .error (.refused f) s := by simp only [emit, hb]
      exact .inr ⟨f, s, bind_eq_error.2 (.inl hemit)⟩
    | ok b =>
      have hemit : emit B i s = .ok () { s with builder := b } := by simp only [emit, hb]
      rcases ih { s with builder := b } with ⟨t, ht, hinstrs⟩ | ⟨f, t, ht⟩
      · refine .inl ⟨t, bind_eq_ok.2 ⟨(), _, hemit, ht⟩, ?_⟩
        rw [hinstrs, (instrs_emit hb).1, Array.toList_push, List.append_assoc]
        rfl
      · exact .inr ⟨f, t, bind_eq_error.2 (.inr ⟨(), _, hemit, ht⟩)⟩

/-- How the run of a request with operations missing ends, given the code that the run with all
of them appends after an opening that both have. -/
inductive CutShort (S : Scope) (removed : List Op) (report : Op → ConvertError) {α : Type}
    (s : Session) (own code : List Instr) (whole part : EStateM.Result Halt Session α) : Prop
  /-- No missing operation is called, and the runs are the same. -/
  | same (hcode : Spared removed code) (hpart : part = whole)
  /-- The run ends before the first call of a missing operation, and before the arguments that
  the signature of the operation implies. -/
  | cut {op : Op} {m : Method} {before after : List Instr} {t : Session} (hop : op ∈ removed)
      (hm : S.catalog.get? op = some m)
      (hcode : code = before ++ m.params.filterMap S.implicitArg? ++ m.callInstr op :: after)
      (hbefore : Spared removed before) (hpart : part = .error (.failed (report op)) t)
      (hinstrs : t.builder.instrs.toList = s.builder.instrs.toList ++ own ++ before)

theorem CutShort.isPrefix {S : Scope} {report : Op → ConvertError} {α : Type}
    {own code : List Instr} {a a' : Action α}
    (h : CutShort S removed report s own code (a s) (a' s))
    (hcode : (endOf a s).builder.instrs.toList = s.builder.instrs.toList ++ own ++ code) :
    (endOf a' s).builder.instrs.toList <+: (endOf a s).builder.instrs.toList := by
  cases h with
  | same _ hpart =>
    refine ⟨[], ?_⟩
    unfold endOf
    rw [List.append_nil, hpart]
  | cut _ _ hsplit _ hpart hinstrs =>
    rw [endOf_eq_error hpart, hinstrs, hcode, hsplit, List.append_assoc _ _ (_ :: _),
      ← List.append_assoc]
    exact List.prefix_append _ _

/-- **A plan that is cut short is carried out up to the cut**, if its steps find their operands
in the plan that is not. -/
theorem run_of_cuts {S : Scope} {opening : List Step} {report : Op → ConvertError} {α : Type}
    {p p' : Script α} (h : S.Cuts removed opening report p p')
    (hB : ∀ op, B'.get? op ≠ B.get? op → op ∈ removed ∧ ∀ t ∈ opening, t.op? ≠ some op)
    (hrun : ∀ f t, run B p s ≠ .error (.refused f) t) :
    ∃ own code,
      (endOf (performAll B opening) s).builder.instrs.toList =
        s.builder.instrs.toList ++ own ∧
      (endOf (run B p) s).builder.instrs.toList = s.builder.instrs.toList ++ own ++ code ∧
      CutShort S removed report s own code (run B p s) (run B' p' s) := by
  -- the sinks agree on what both plans call
  have agree : ∀ us, Spares removed us →
      performAll B' (opening ++ us) = performAll B (opening ++ us) := by
    intro us hus
    refine performAll_congr fun t ht op hop => ?_
    by_contra hne
    obtain ⟨hremoved, hopening⟩ := hB op hne
    rcases List.mem_append.1 ht with ht | ht
    · exact hopening t ht hop
    · exact hus t ht op hop hremoved
  cases h with
  | same rest hsteps hrest =>
    obtain ⟨own, code, hown, hcode, hspared⟩ :=
      exists_spared_append removed B opening rest s
    refine ⟨own, code, hown, ?_, .same (hspared hrest) ?_⟩
    · rw [endOf_run, hsteps, hcode]
    · unfold run
      rw [hsteps, agree rest hrest]
  | @cut _ op m before after hop hm hbefore hsteps hsteps' hcut =>
    obtain ⟨own, code, hown, hcode, hspared⟩ :=
      exists_spared_append removed B opening before s
    have hcall : (S.call op).steps =
        (m.params.filterMap S.implicitArg? ++ [m.callInstr op]).map .emit := by
      rw [Scope.call, hm]
    have hwhole : performAll B p.steps = performAll B (opening ++ before) >>= fun _ =>
        performAll B (S.call op).steps >>= fun _ => performAll B after := by
      rw [hsteps, performAll_append, performAll_append, bind_assoc]
    have hcutat : performAll B' p'.steps = performAll B (opening ++ before) := by
      rw [hsteps', agree before hbefore]
    cases hopen : performAll B (opening ++ before) s with
    | error e t =>
      -- the run does not get as far as the call
      have hfail : performAll B p.steps s = .error e t := by
        rw [hwhole]
        exact bind_eq_error.2 (.inl hopen)
      rw [endOf_eq_error hopen] at hcode
      refine ⟨own, code, hown, ?_, .same (hspared hbefore) ?_⟩
      · rw [endOf_run, endOf_eq_error hfail, hcode]
      · rw [run_eq_error.2 (.inl hfail)]
        exact run_eq_error.2 (.inl (by rw [hcutat, hopen]))
    | ok u t =>
      rw [endOf_eq_ok hopen] at hcode
      rcases performAll_emits B (m.params.filterMap S.implicitArg? ++ [m.callInstr op]) t with
        ⟨t₁, ht₁, hinstrs⟩ | ⟨f, t₁, ht₁⟩
      · rw [← hcall] at ht₁
        obtain ⟨N, done, -, hafter⟩ := exists_code B after t₁
        refine ⟨own, code ++ m.params.filterMap S.implicitArg? ++ m.callInstr op :: N.code done,
          hown, ?_, .cut hop hm rfl (hspared hbefore) ?_ hcode⟩
        · rw [endOf_run, hwhole, endOf_bind_of_ok hopen, endOf_bind_of_ok ht₁, hafter, hinstrs,
            hcode]
          simp only [List.append_assoc, List.singleton_append]
        · exact run_eq_error.2 (.inr ⟨_, hcut, rfl, by rw [hcutat, hopen]⟩)
      · rw [← hcall] at ht₁
        refine absurd (run_eq_error.2 (.inl ?_)) (hrun f t₁)
        rw [hwhole]
        exact bind_eq_error.2 (.inr ⟨u, t, hopen, bind_eq_error.2 (.inl ht₁)⟩)

end Session

open Session

/-- **Missing operations only cut the output short.**  A request to convert is made twice of the
same session, in scopes of which one lacks some operations.  The sinks may know the signatures of
these or not, except for those that are called of a place's own accord.  If the run with all
operations finds its operands, the run with operations missing emits a part of its code.  After
what the place emits, either the code calls no missing operation, and the two runs are the same in
all respects; or the run with operations missing reports the first one, and has emitted what
comes before the call and before the arguments that its signature implies. -/
theorem missing_operations_cut_short {S : Scope} {o : Options} {removed : List Op}
    {B B' : Catalog} {q : Request} {source target : Rep} {plan plan' : Script Reply}
    (hq : q.Converts source target) (hplan : q.plan? S o = some plan)
    (hplan' : q.plan? (S.withoutAll removed) o = some plan')
    (hB : ∀ op, B'.get? op ≠ B.get? op →
      op ∈ removed ∧ ∀ first ∈ q.own, ∀ t ∈ first.steps, t.op? ≠ some op)
    {s : Session} (hrun : ∀ f t, run B plan s ≠ .error (.refused f) t) :
    (endOf (run B' plan') s).builder.instrs.toList <+:
        (endOf (run B plan) s).builder.instrs.toList ∧
      ∃ first ∈ q.own, ∃ own code,
        (endOf (performAll B first.steps) s).builder.instrs.toList =
          s.builder.instrs.toList ++ own ∧
        (endOf (run B plan) s).builder.instrs.toList =
          s.builder.instrs.toList ++ own ++ code ∧
        CutShort S removed (.notImplemented source target) s own code (run B plan s)
          (run B' plan' s) := by
  obtain ⟨first, hfirst, hcuts⟩ := hq.cuts hplan hplan'
  obtain ⟨own, code, hown, hcode, hshort⟩ := run_of_cuts hcuts
    (fun op hne => ⟨(hB op hne).1, (hB op hne).2 first hfirst⟩) hrun
  exact ⟨hshort.isPrefix hcode, first, hfirst, own, code, hown, hcode, hshort⟩

/-- Without the lookup of routines a character still becomes text, but nothing that can be
called. -/
theorem missing_operations_cut_short_callable : ∃ s t plan plan',
    Request.plan? (.standard .new none) .standard (.convert .char .empty .callable) =
      some plan ∧
    Request.plan? ((Scope.standard .new none).withoutAll [.textAsCallable]) .standard
      (.convert .char .empty .callable) = some plan' ∧
    (∀ f t, run .standard plan s ≠ .error (.refused f) t) ∧
    run (Catalog.standard.without .textAsCallable) plan' s =
      .error (.failed (.notImplemented .char .callable .textAsCallable)) t := by
  let S := Scope.standard .new none
  let q : Request := .convert .char .empty .callable
  let s := endOf ((Request.emit .ldNull).answer S .standard) (.new none none)
  let plan : Script Reply := .rep <$> S.convert .char .empty .callable
  let plan' : Script Reply := .rep <$>
    (S.withoutAll [.textAsCallable]).convert .char .empty .callable
  obtain ⟨t, hok⟩ : ∃ t, run .standard plan s = .ok (.rep .callable) t := by decide +kernel
  have hrun : ∀ f t, run .standard plan s ≠ .error (.refused f) t := by
    rintro f t hrefused
    rw [hok] at hrefused
    cases hrefused
  have hB : ∀ op, (Catalog.standard.without .textAsCallable).get? op ≠ Catalog.standard.get? op →
      op ∈ [Op.textAsCallable] ∧ ∀ first ∈ q.own, ∀ t ∈ first.steps, t.op? ≠ some op := by
    intro op hne
    refine ⟨?_, fun first hfirst u hu => ?_⟩
    · by_contra hop
      exact hne (if_neg fun h : op = .textAsCallable => hop (List.mem_singleton.2 h))
    · rw [List.mem_singleton.1 hfirst] at hu
      cases hu
  obtain ⟨-, first, -, own, code, -, -, hshort⟩ := missing_operations_cut_short
    (.convert .char .empty .callable) (rfl : q.plan? S .standard = some plan)
    (rfl : q.plan? (S.withoutAll [.textAsCallable]) .standard = some plan') hB hrun
  cases hshort with
  | same _ hpart =>
    rw [hok] at hpart
    cases (run_eq_ok.1 hpart).1
  | @cut op m before after t' hop hm hcode hbefore hpart hinstrs =>
    rw [List.mem_singleton.1 hop] at hpart
    exact ⟨s, t', plan, plan', rfl, rfl, hrun, hpart⟩

end Recast
