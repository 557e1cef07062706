import Mathlib.Data.List.Forall2
import Recast.Proofs.Congruence
import Recast.Proofs.PlaceLoads

/-!
# Independence of history

What a session has been through shows in the numbers that it gives: which slots are scratch
locals and which of them are free, which texts have an index, how many labels there are.  It
shows in nothing else.  The code of a request is read with the numbers replaced by what they stand
for, and is then the same in all sessions.

* `Symbol` : an instruction with what its number stands for in place of the number;
* `Step.Forked` : labels are used only after they have been defined;
* `Session.stands_code` : the code of a plan stands for the symbols of its steps;
* `emission_independent_of_history` : **any two sessions answer a request alike**.
-/

namespace Recast

/-! ### Symbols -/

/-- An instruction with what its number stands for in place of the number. -/
inductive Symbol where
  /-- An instruction as it is. -/
  | instr (i : Instr)
  /-- Push a text. -/
  | text (s : String)
  /-- Call a routine of the program. -/
  | invoke (routine : String) (returnsValue : Bool)
  /-- Store in the temporary of a representation. -/
  | store (r : Rep)
  /-- Push the address of the temporary of a representation. -/
  | address (r : Rep)
  /-- Branch if false to a label, by its order of definition. -/
  | brFalse (n : Nat)
  /-- Branch to a label, by its order of definition. -/
  | br (n : Nat)
  /-- Place a label, by its order of definition. -/
  | mark (n : Nat)
  deriving DecidableEq

/-- A symbol stands for an instruction in a session that had defined a number of labels before
the request. -/
inductive Symbol.Stands (s : Session) (labels : Nat) : Symbol → Instr → Prop
  /-- An instruction stands for itself. -/
  | instr (i : Instr) : Stands s labels (.instr i) i
  /-- A text stands for its index. -/
  | text {x : String} {j : Nat} (h : s.builder.texts[j]? = some x) :
    Stands s labels (.text x) (.ldStr j)
  /-- The name of a routine stands for its index. -/
  | invoke {x : String} {j : Nat} {b : Bool} (h : s.builder.texts[j]? = some x) :
    Stands s labels (.invoke x b) (.invoke j b)
  /-- A representation stands for the slot that is in use for it and declared with it. -/
  | store {r : Rep} {slot : Nat} (h : s.scratch.active.lookup r = some slot)
    (hlocal : s.builder.locals[slot]? = some r) : Stands s labels (.store r) (.stLoc slot)
  /-- A representation stands for the slot that is in use for it and declared with it. -/
  | address {r : Rep} {slot : Nat} (h : s.scratch.active.lookup r = some slot)
    (hlocal : s.builder.locals[slot]? = some r) : Stands s labels (.address r) (.ldLocA slot)
  /-- The order of definition stands for the label. -/
  | brFalse (n : Nat) : Stands s labels (.brFalse n) (.brFalse ⟨labels + n⟩)
  /-- The order of definition stands for the label. -/
  | br (n : Nat) : Stands s labels (.br n) (.br ⟨labels + n⟩)
  /-- The order of definition stands for the label. -/
  | mark (n : Nat) : Stands s labels (.mark n) (.mark ⟨labels + n⟩)

namespace Step

/-- The symbol of a step, if a number of labels have been defined before it. -/
def symbol? (labels : Nat) : Step → Option Symbol
  | .emit i => some (.instr i)
  | .text x => some (.text x)
  | .invoke x b => some (.invoke x b)
  | .store r => some (.store r)
  | .address r => some (.address r)
  | .brAbsent => some (.brFalse (labels - 2))
  | .brEnd => some (.br (labels - 1))
  | .markAbsent => some (.mark (labels - 2))
  | .markEnd => some (.mark (labels - 1))
  | .reserve _ | .fork => none

/-- The number of labels that a step defines. -/
def defines : Step → Nat
  | .fork => 2
  | _ => 0

/-- The symbols of some steps. -/
def symbols : Nat → List Step → List Symbol
  | _, [] => []
  | n, t :: ts => (t.symbol? n).toList ++ symbols (n + t.defines) ts

/-- Labels are branched to and placed only after they have been defined. -/
def Forked : List Step → Bool
  | [] => true
  | .fork :: _ => true
  | t :: ts => !t.branches && Forked ts

variable {t : Step} {ts us : List Step} {n : Nat}

theorem forked_cons (ht : t ≠ .fork) : Forked (t :: ts) = (!t.branches && Forked ts) := by
  cases t <;> first | rfl | exact absurd rfl ht

theorem forked_append (hts : Forked ts = true) (hus : Forked us = true) :
    Forked (ts ++ us) = true := by
  induction ts with
  | nil => exact hus
  | cons t ts ih =>
    by_cases ht : t = .fork
    · rw [ht]
      rfl
    · rw [forked_cons ht, Bool.and_eq_true] at hts
      rw [List.cons_append, forked_cons ht, hts.1, ih hts.2, Bool.and_self]

theorem mem_of_instr_mem_symbols {i : Instr} (h : .instr i ∈ symbols n ts) : .emit i ∈ ts := by
  induction ts generalizing n with
  | nil => cases h
  | cons t ts ih =>
    rcases List.mem_append.1 h with h | h
    · cases t with
      | emit j =>
        cases List.mem_singleton.1 h
        exact List.mem_cons_self
      | reserve | fork => cases h
      | _ => cases List.mem_singleton.1 h
    · exact List.mem_cons_of_mem _ (ih h)

end Step

/-! ### The code of a plan -/

namespace Session

open Step

variable {C : Catalog} {s s' : Session} {t : Step} {ts : List Step} {n : Nat} {u : Unit} {r : Rep}

theorem lookup_of_performAll (h : performAll C ts s = .ok u s') (ht : t ∈ ts)
    (hr : t.scratch? = some r) : ∃ slot, s'.scratch.active.lookup r = some slot := by
  induction ts generalizing s with
  | nil => cases ht
  | cons t₀ ts ih =>
    obtain ⟨_, s₀, hfirst, hrest⟩ := bind_eq_ok.1 h
    rcases List.mem_cons.1 ht with rfl | ht
    · obtain ⟨slot, hslot⟩ := (numbers_of_perform hfirst).1 r hr
      exact ⟨slot, (performAll_grows hrest).slots hslot⟩
    · exact ih hrest ht

/-- Sessions that grow out of one number what a plan has taken hold of by the slots in use. -/
theorem lookup_slot_of_performAll (h : performAll C ts s = .ok u s') {s'' : Session}
    (hgrows : s'.Grows s'') (n : Nat) (ht : t ∈ ts) (hr : t.scratch? = some r) :
    s''.scratch.active.lookup r = some ((s''.numbering n).slot r) := by
  obtain ⟨slot, hslot⟩ := lookup_of_performAll h ht hr
  have hlookup := hgrows.slots hslot
  rw [numbering_slot hlookup, hlookup]

/-- **The code of a plan stands for the symbols of its steps**, under a numbering whose numbers
stand for what the steps name. -/
theorem stands_code {labels : Nat} {N : Numbering}
    (hvalid : N.Valid s.builder.locals s.builder.texts ts)
    (hslots : ∀ t ∈ ts, ∀ r, t.scratch? = some r → s.scratch.active.lookup r = some (N.slot r))
    (hlabels : N.labels = labels + n) (hforked : Forked ts = true ∨ 2 ≤ n) :
    List.Forall₂ (Symbol.Stands s labels) (symbols n ts) (N.code ts) := by
  induction ts generalizing N n with
  | nil => exact .nil
  | cons t ts ih =>
    have hlocal : ∀ r, t.scratch? = some r → s.builder.locals[N.slot r]? = some r :=
      hvalid.slot t List.mem_cons_self
    have hlookup : ∀ r, t.scratch? = some r → s.scratch.active.lookup r = some (N.slot r) :=
      hslots t List.mem_cons_self
    have htext : ∀ x, t.interned? = some x → s.builder.texts[N.text x]? = some x :=
      hvalid.text t List.mem_cons_self
    -- a branch target is one of the two labels that have been defined last
    have hdefined : t.branches = true → t ≠ .fork → 2 ≤ n := by
      intro hbranches hne
      refine hforked.resolve_left fun h => ?_
      rw [forked_cons hne, hbranches] at h
      cases h
    have hrest : List.Forall₂ (Symbol.Stands s labels) (symbols (n + t.defines) ts)
        ((N.after t).code ts) := by
      refine ih ⟨fun t' ht' r hr => ?_, fun t' ht' x hx => ?_⟩ (fun t' ht' r hr => ?_) ?_ ?_
      · rw [Numbering.slot_after]
        exact hvalid.slot t' (List.mem_cons_of_mem _ ht') r hr
      · rw [Numbering.text_after]
        exact hvalid.text t' (List.mem_cons_of_mem _ ht') x hx
      · rw [Numbering.slot_after]
        exact hslots t' (List.mem_cons_of_mem _ ht') r hr
      · rw [← Nat.add_assoc, ← hlabels]
        cases t <;> rfl
      · by_cases hfork : t = .fork
        · rw [hfork]
          exact .inr (Nat.le_add_left _ _)
        · refine hforked.imp (fun h => ?_) fun h => Nat.le_add_right_of_le h
          rw [forked_cons hfork, Bool.and_eq_true] at h
          exact h.2
    refine List.rel_append ?_ hrest
    have hfirst : ∀ k, 2 ≤ n → k ≤ 2 → N.labels - k = labels + (n - k) := by omega
    cases t with
    | emit i => exact .cons (.instr i) .nil
    | text x => exact .cons (.text (htext x rfl)) .nil
    | invoke x b => exact .cons (.invoke (htext x rfl)) .nil
    | store r => exact .cons (.store (hlookup r rfl) (hlocal r rfl)) .nil
    | address r => exact .cons (.address (hlookup r rfl) (hlocal r rfl)) .nil
    | reserve | fork => exact .nil
    | brAbsent =>
      rw [symbol?, Numbering.instr?, hfirst 2 (hdefined rfl (by simp)) (by omega)]
      exact .cons (.brFalse _) .nil
    | brEnd =>
      rw [symbol?, Numbering.instr?, hfirst 1 (hdefined rfl (by simp)) (by omega)]
      exact .cons (.br _) .nil
    | markAbsent =>
      rw [symbol?, Numbering.instr?, hfirst 2 (hdefined rfl (by simp)) (by omega)]
      exact .cons (.mark _) .nil
    | markEnd =>
      rw [symbol?, Numbering.instr?, hfirst 1 (hdefined rfl (by simp)) (by omega)]
      exact .cons (.mark _) .nil

/-! ### Room for a plan -/

/-- The number of times that steps ask for a scratch local or for the index of a text. -/
def asked (ts : List Step) : Nat :=
  ts.countP fun t => t.scratch?.isSome || t.interned?.isSome

theorem emit_eq (C : Catalog) (i : Instr) (s : Session) :
    (∃ b, emit C i s = .ok () { s with builder := b } ∧ b.locals = s.builder.locals) ∨
      ∃ f, emit C i s = .error (.refused f) s := by
  cases h : s.builder.emit C i with
  | ok b => exact .inl ⟨b, by simp only [emit, h], locals_emit h⟩
  | error f => exact .inr ⟨f, by simp only [emit, h]⟩

/-- In a session with room only a lack of operands keeps a step from being taken. -/
theorem perform_of_hasRoom {m : Nat} (hroom : s.HasRoom (asked [t] + m)) :
    (∃ s', perform C t s = .ok () s' ∧ s'.HasRoom m) ∨
      ∃ f s', perform C t s = .error (.refused f) s' := by
  -- an instruction needs no room, and an operand that needs a number has been given it
  have emitted : ∀ {s : Session} (i : Instr), s.HasRoom m →
      (∃ s', emit C i s = .ok () s' ∧ s'.HasRoom m) ∨
        ∃ f s', emit C i s = .error (.refused f) s' := by
    intro s i hroom
    rcases emit_eq C i s with ⟨b, hemit, hlocals⟩ | ⟨f, hemit⟩
    · exact .inl ⟨_, hemit, hroom.congr rfl rfl hlocals⟩
    · exact .inr ⟨f, s, hemit⟩
  have numbered : ∀ {a : Action Nat} {i : Nat → Instr} {j : Nat} {s₀ : Session},
      a s = .ok j s₀ → s₀.HasRoom m →
      (∃ s', (a >>= fun j => emit C (i j)) s = .ok () s' ∧ s'.HasRoom m) ∨
        ∃ f s', (a >>= fun j => emit C (i j)) s = .error (.refused f) s' := by
    intro a i j s₀ ha hroom
    rcases emitted (i j) hroom with ⟨s', hemit, hroom⟩ | ⟨f, s', hemit⟩
    · exact .inl ⟨s', bind_eq_ok.2 ⟨j, s₀, ha, hemit⟩, hroom⟩
    · exact .inr ⟨f, s', bind_eq_error.2 (.inr ⟨j, s₀, ha, hemit⟩)⟩
  cases t with
  | emit i => exact emitted i (hroom.mono (Nat.le_add_left _ _))
  | text x | invoke x b =>
    obtain ⟨j, s₀, hj, hroom⟩ := (hroom.mono (Nat.le_of_eq (Nat.add_comm m 1))).internText x
    exact numbered (attempt_eq_ok.2 hj) hroom
  | reserve r =>
    obtain ⟨j, s₀, hj, hroom⟩ := (hroom.mono (Nat.le_of_eq (Nat.add_comm m 1))).acquire r
    exact .inl ⟨s₀, bind_eq_ok.2 ⟨j, s₀, hj, rfl⟩, hroom⟩
  | store r | address r =>
    obtain ⟨j, s₀, hj, hroom⟩ := (hroom.mono (Nat.le_of_eq (Nat.add_comm m 1))).acquire r
    exact numbered hj hroom
  | fork => exact .inl ⟨_, rfl, (hroom.mono (Nat.le_add_left _ _)).congr rfl rfl rfl⟩
  | brAbsent => exact emitted (.brFalse s.forkLabels.1) (hroom.mono (Nat.le_add_left _ _))
  | brEnd => exact emitted (.br s.forkLabels.2) (hroom.mono (Nat.le_add_left _ _))
  | markAbsent => exact emitted (.mark s.forkLabels.1) (hroom.mono (Nat.le_add_left _ _))
  | markEnd => exact emitted (.mark s.forkLabels.2) (hroom.mono (Nat.le_add_left _ _))

theorem asked_cons (t : Step) (ts : List Step) : asked (t :: ts) = asked [t] + asked ts :=
  @List.countP_append _ _ [t] ts

theorem HasRoom.performAll {m : Nat} {u : Unit} (hroom : s.HasRoom (asked ts + m))
    (h : performAll C ts s = .ok u s') : s'.HasRoom m := by
  induction ts generalizing s with
  | nil =>
    cases h
    exact hroom.mono (Nat.le_add_left _ _)
  | cons t ts ih =>
    obtain ⟨_, s₀, ht, hts⟩ := bind_eq_ok.1 h
    rw [asked_cons, Nat.add_assoc] at hroom
    rcases perform_of_hasRoom (C := C) hroom with ⟨s₁, ht', hroom⟩ | ⟨f, s₁, ht'⟩
    · rw [ht] at ht'
      cases ht'
      exact ih hroom hts
    · rw [ht] at ht'
      cases ht'

/-- **A session with room takes all steps of a plan**, if all find their operands. -/
theorem performAll_of_hasRoom (hroom : s.HasRoom (asked ts))
    (hops : ∀ f s', performAll C ts s ≠ .error (.refused f) s') :
    ∃ s', performAll C ts s = .ok () s' := by
  induction ts generalizing s with
  | nil => exact ⟨s, rfl⟩
  | cons t ts ih =>
    rw [asked_cons] at hroom
    rcases perform_of_hasRoom (C := C) hroom with ⟨s₀, ht, hroom⟩ | ⟨f, s₀, ht⟩
    · obtain ⟨s', hts⟩ := ih hroom fun f s' hrefused =>
        hops f s' (bind_eq_error.2 (.inr ⟨(), s₀, ht, hrefused⟩))
      exact ⟨s', bind_eq_ok.2 ⟨(), s₀, ht, hts⟩⟩
    · exact absurd (bind_eq_error.2 (.inl ht)) (hops f s₀)

end Session

/-! ### The steps of requests -/

/-- Steps that name everything, and use labels only after they have been defined. -/
def Named (ts : List Step) : Prop := (∀ t ∈ ts, t.isSymbolic = true) ∧ Step.Forked ts = true

theorem Named.append {ts us : List Step} (hts : Named ts) (hus : Named us) : Named (ts ++ us) :=
  ⟨List.forall_mem_append.2 ⟨hts.1, hus.1⟩, Step.forked_append hts.2 hus.2⟩

theorem Named.of_isPlain {ts : List Step} (h : ts.all Step.isPlain = true) : Named ts := by
  induction ts with
  | nil => exact ⟨by simp, rfl⟩
  | cons t ts ih =>
    rw [List.all_cons, Bool.and_eq_true] at h
    obtain ⟨hsymbolic, hforked⟩ := ih h.2
    have hbranches := Step.branches_of_isPlain h.1
    have hne : t ≠ .fork := by
      rintro rfl
      cases hbranches
    refine ⟨List.forall_mem_cons.2 ⟨Step.isSymbolic_of_isPlain h.1, hsymbolic⟩, ?_⟩
    rw [Step.forked_cons hne, hbranches, hforked]
    rfl

namespace Scope

open Script

/-- No construction of plans names a number. -/
theorem congruence_symbolic (S : Scope) :
    S.Congruence S fun _ p _ => p.all Step.isSymbolic = true :=
  .ofAll (fun i hi => by simp [Step.isSymbolic, hi]) (fun _ => rfl) (fun _ _ _ => rfl) fun _ => rfl

/-- **No request names a number of its own accord**, and none uses a label before it is
defined. -/
theorem congruence_named (S : Scope) : S.Congruence S fun _ p _ => Named p.steps := by
  have plain : ∀ i : Instr, i.isNumbered = false → Step.isPlain (.emit i) = true := fun i hi => by
    simp [Step.isPlain, Step.isSymbolic, hi, Step.branches]
  refine .ofSteps ⟨by simp, rfl⟩ .append (fun i hi => .of_isPlain ?_) (fun _ => .of_isPlain rfl)
    (fun op => .of_isPlain (all_call plain op)) (fun r op _ => .of_isPlain ?_)
    fun n p hpayload => ⟨?_, rfl⟩
  · simp [plain i (Instr.isNumbered_of_actsOnTop hi)]
  · exact all_bind rfl fun _ _ => all_call plain op
  · exact all_iff.1 ((congruence_symbolic S).nullable n p (all_iff.2 hpayload.1))

end Scope

namespace Request

variable {S : Scope} {o : Options} {q : Request} {plan : Script Reply}

theorem answer_eq_run (hplan : q.plan? S o = some plan) :
    q.answer S o = Session.run S.catalog plan := by
  cases q <;> first | (cases hplan; rfl) | cases hplan

theorem named_plan? (hplan : q.plan? S o = some plan) : plan.Continues Named q.own :=
  continues_plan? S.congruence_named hplan

end Request

/-! ### Two sessions -/

open Session

/-- A request is answered in a session by emitting code that some symbols stand for. -/
def Answers (S : Scope) (o : Options) (q : Request) (s : Session)
    (out : Except ConvertError Reply) (symbols : List Symbol) : Prop :=
  ∃ s' code, q.answer S o s = settled out s' ∧
    s'.builder.instrs.toList = s.builder.instrs.toList ++ code ∧
    List.Forall₂ (Symbol.Stands s' s.builder.labels) symbols code

/-- A session with room that has the operands of a request answers it as its plan says. -/
theorem answers_plan {S : Scope} {o : Options} {q : Request} {plan : Script Reply}
    (hplan : q.plan? S o = some plan) (hforked : Step.Forked plan.steps = true) {s : Session}
    (hs : Reachable S o s) (hroom : s.HasRoom (asked plan.steps))
    (hops : ∀ f s', q.answer S o s ≠ .error (.refused f) s') :
    Answers S o q s plan.result (Step.symbols 0 plan.steps) := by
  rw [Request.answer_eq_run hplan] at hops
  obtain ⟨s', hsteps⟩ := performAll_of_hasRoom (C := S.catalog) hroom fun f s' hrefused =>
    hops f s' (run_eq_error.2 (.inl hrefused))
  have hsound : s'.Sound := ((invariant_sound S.catalog).performAll _).of_eq_ok hs.sound hsteps
  refine ⟨s', _, ?_, performAll_code hsteps,
    stands_code (numbers_of_performAll hsteps hsound _) (fun t ht r hr =>
      lookup_slot_of_performAll hsteps (.refl s') _ ht hr) rfl (.inl hforked)⟩
  rw [Request.answer_eq_run hplan, run_eq_settled hsteps]

/-- **Emission is independent of history.**  Two sessions over the same catalog, classes, caller
and options have been through whatever requests, with whatever outcome.  If nothing runs out in
either and both have the operands of a request, both answer it with the same result or the same
error, and their code stands for the same symbols: it is the same once each temporary is replaced
by the representation it is held under, each index by its text and each label by its order of
definition in the request.  No other numbers are in the code than those that the place of the
request emits itself. -/
theorem emission_independent_of_history {S : Scope} {o : Options} {q : Request}
    {plan : Script Reply} (hplan : q.plan? S o = some plan)
    (hown : ∀ first ∈ q.own, Step.Forked first.steps = true) {s₁ s₂ : Session}
    (h₁ : Reachable S o s₁) (h₂ : Reachable S o s₂)
    (hroom₁ : s₁.HasRoom (asked plan.steps)) (hroom₂ : s₂.HasRoom (asked plan.steps))
    (hops₁ : ∀ f s', q.answer S o s₁ ≠ .error (.refused f) s')
    (hops₂ : ∀ f s', q.answer S o s₂ ≠ .error (.refused f) s') :
    ∃ out symbols, Answers S o q s₁ out symbols ∧ Answers S o q s₂ out symbols ∧
      ∀ i, .instr i ∈ symbols → i.isNumbered = true → ∃ first ∈ q.own, .emit i ∈ first.steps := by
  obtain ⟨first, hfirst, rest, hsteps, hrest⟩ := Request.named_plan? hplan
  have hforked : Step.Forked plan.steps = true := by
    rw [hsteps]
    exact Step.forked_append (hown first hfirst) hrest.2
  refine ⟨_, _, answers_plan hplan hforked h₁ hroom₁ hops₁,
    answers_plan hplan hforked h₂ hroom₂ hops₂, fun i hi hnumbered => ?_⟩
  have hmem := Step.mem_of_instr_mem_symbols hi
  rw [hsteps, List.mem_append] at hmem
  refine ⟨first, hfirst, hmem.resolve_right fun hmem => ?_⟩
  have hsymbolic := hrest.1 _ hmem
  rw [Step.isSymbolic, hnumbered] at hsymbolic
  cases hsymbolic

/-- The labels and the temporaries of two sessions differ, but a nullable becomes text in the
same way. -/
theorem emission_independent_of_history_nullable : ∃ s₁ s₂ : Session,
    Reachable (.standard .new none) .standard s₁ ∧ Reachable (.standard .new none) .standard s₂ ∧
    s₁.builder.labels ≠ s₂.builder.labels ∧ s₁.scratch ≠ s₂.scratch ∧
    ∃ out symbols,
      Answers (.standard .new none) .standard (.convert (.nullable .int64) .empty .text) s₁ out
        symbols ∧
      Answers (.standard .new none) .standard (.convert (.nullable .int64) .empty .text) s₂ out
        symbols := by
  let S := Scope.standard .new none
  let q : Request := .convert (.nullable .int64) .empty .text
  let s₁ := endOf ((Request.emit .ldNull).answer S .standard) (.new none none)
  let s := endOf ((Request.convert .value .empty .bool).answer S .standard)
    (endOf (Request.label.answer S .standard) s₁)
  let s₂ := endOf ((Request.emit .ldNull).answer S .standard)
    (endOf (Request.endStatement.answer S .standard) s)
  have h₁ : Reachable S .standard s₁ := .request _ (.new none none)
  have h₂ : Reachable S .standard s₂ := .request _ (.request _ (.request _ (.request _ h₁)))
  have hops : ∀ s, (∃ s', q.answer S .standard s = .ok (.rep .text) s') →
      ∀ f s', q.answer S .standard s ≠ .error (.refused f) s' := by
    rintro s ⟨s', hok⟩ f s'' hrefused
    rw [hok] at hrefused
    cases hrefused
  let plan : Script Reply := .rep <$> S.convert (.nullable .int64) .empty .text
  have hasked : asked plan.steps = 6 := by decide +kernel
  have hroom : ∀ s : Session, s.localQuota = none → s.textQuota = none →
      s.builder.locals.size ≤ 1 → s.HasRoom (asked plan.steps) := by
    intro s hlocal htext hsize
    rw [hasked]
    refine ⟨fun q hq => ?_, fun q hq => ?_, ?_⟩
    · rw [hlocal] at hq
      cases hq
    · rw [htext] at hq
      cases hq
    · rw [Builder.maxLocals]
      omega
  obtain ⟨out, symbols, hfirst, hsecond, -⟩ := emission_independent_of_history (q := q) rfl
    (by simp [q, Request.own, Step.Forked]) h₁ h₂ (hroom s₁ rfl rfl (by decide))
    (hroom s₂ rfl rfl (by decide +kernel)) (hops s₁ (by decide +kernel))
    (hops s₂ (by decide +kernel))
  exact ⟨s₁, s₂, h₁, h₂, by decide +kernel, by decide +kernel, out, symbols, hfirst, hsecond⟩

end Recast
