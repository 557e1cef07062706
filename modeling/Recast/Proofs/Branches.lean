import Recast.Proofs.ClosedCode
import Recast.Proofs.StackDepth

/-!
# Branches of a method

A nullable is converted with branches, wherever it turns up in a plan and however often.  No branch
leaves the code that its request has emitted, and the payload is taken out only where the test of
the same slot has not branched.  This is told of the code of one plan, and then of whatever a
session has emitted, request by request.

* `Cautious` : code that takes no payload without a test, and does not leave the method;
* `Scope.congruence_cautious` : all constructions of plans are cautious;
* `AllReach` : all ways that begin at a position come to another one;
* `Session.Wrote` : a run of requests that all succeed, with the code that each has emitted;
* `branches_closed` : **in every run the branches of each request are closed**.
-/

namespace Recast

/-! ### Payloads are tested for -/

/-- The instruction neither takes a payload out of a nullable nor leaves the method. -/
def Instr.isCautious : Instr → Bool
  | .getValue _ | .ret => false
  | _ => true

/-- Code takes the payload of a nullable only right after the test of the same slot, on the way on
which the test does not branch, and it does not leave the method. -/
structure Cautious (code : List Instr) : Prop where
  /-- The test comes first. -/
  tests : ∀ pre p rest, code = pre ++ .getValue p :: rest →
    ∃ slot l, [.ldLocA slot, .hasValue p, .brFalse l, .ldLocA slot] <:+ pre
  /-- The method goes on. -/
  stays : Instr.ret ∉ code

namespace Cautious

variable {code code' : List Instr}

theorem of_isCautious (h : ∀ i ∈ code, i.isCautious = true) : Cautious code where
  tests pre p rest heq := absurd (h (.getValue p) (by simp [heq])) (by simp [Instr.isCautious])
  stays hret := absurd (h .ret hret) (by simp [Instr.isCautious])

theorem append (h : Cautious code) (h' : Cautious code') : Cautious (code ++ code') where
  tests pre p rest heq := by
    rcases append_eq_append_cons heq with ⟨mid, hcode, -⟩ | ⟨mid, rfl, hcode⟩
    · exact h.tests pre p mid hcode
    · obtain ⟨slot, l, hsuffix⟩ := h'.tests mid p rest hcode
      exact ⟨slot, l, hsuffix.trans (List.suffix_append _ _)⟩
  stays hret := by
    rcases List.mem_append.1 hret with hret | hret
    · exact h.stays hret
    · exact h'.stays hret

theorem take {p : Payload} {slot : Nat} {l : Label} (h : ∀ i ∈ code, i.isCautious = true)
    (htest : [.ldLocA slot, .hasValue p, .brFalse l, .ldLocA slot] <:+ code) :
    Cautious (code ++ [.getValue p]) where
  tests pre p' rest heq := by
    rcases append_eq_append_cons heq with ⟨mid, rfl, -⟩ | ⟨mid, rfl, hlast⟩
    · exact absurd (h (.getValue p') (by simp)) (by simp [Instr.isCautious])
    · cases mid with
      | nil =>
        cases hlast
        exact ⟨slot, l, by rwa [List.append_nil]⟩
      | cons i mid => simp at hlast
  stays hret := by
    rcases List.mem_append.1 hret with hret | hret
    · exact absurd (h .ret hret) (by simp [Instr.isCautious])
    · cases List.mem_singleton.1 hret

end Cautious

namespace Step

/-- The step becomes a cautious instruction. -/
def isCautious : Step → Bool
  | .emit i => i.isCautious
  | _ => true

/-- However the steps are numbered, their code is cautious. -/
def Cautious (ts : List Step) : Prop := ∀ N : Numbering, Recast.Cautious (N.code ts)

theorem Cautious.append {ts us : List Step} (hts : Cautious ts) (hus : Cautious us) :
    Cautious (ts ++ us) := by
  intro N
  rw [Numbering.code_append]
  exact (hts N).append (hus _)

theorem cautious_of_isCautious {ts : List Step} (h : ts.all isCautious = true) : Cautious ts := by
  refine fun N => .of_isCautious fun i hi => ?_
  obtain ⟨t, ht, M, -, hinstr⟩ := Numbering.exists_of_mem_code hi
  have ht := List.all_eq_true.1 h t ht
  cases t with
  | emit j =>
    cases hinstr
    exact ht
  | reserve | fork => cases hinstr
  | _ =>
    cases hinstr
    rfl

end Step

namespace Scope

open Script

variable {T : ClassTable} {k : Option ClassId}

theorem isCautious_call (op : Op) : ((standard T k).call op).all Step.isCautious = true := by
  cases op <;> rfl

/-- **All constructions of plans are cautious.** -/
theorem congruence_cautious (T : ClassTable) (k : Option ClassId) :
    (standard T k).Congruence (standard T k) fun _ p _ => Step.Cautious p.steps := by
  refine .ofSteps (Step.cautious_of_isCautious rfl) .append
    (fun i hi => Step.cautious_of_isCautious ?_) (fun _ => Step.cautious_of_isCautious rfl)
    (fun op => Step.cautious_of_isCautious (isCautious_call op)) (fun r op _ => ?_)
    fun n p hpayload => ?_
  · cases i <;> first | rfl | cases hi
  · exact Step.cautious_of_isCautious (all_bind rfl fun _ _ => isCautious_call op)
  · change Step.Cautious ([.reserve (.nullable p), .fork, .store (.nullable p),
      .address (.nullable p), .emit (.hasValue p), .brAbsent, .address (.nullable p),
      .emit (.getValue p)] ++ ((standard T k).reshapeAt n p.rep .empty .value >>= fun _ => (do
        .step .brEnd
        .step .markAbsent
        (standard T k).apply .valueNull
        .step .markEnd
        return .value : Script Rep)).steps)
    refine .append (fun N => ?_) ?_
    · let slot := N.slot (.nullable p)
      let absent : Label := ⟨N.labels + 2 - 2⟩
      have htest : [.ldLocA slot, .hasValue p, .brFalse absent, .ldLocA slot] <:+
          [Instr.stLoc slot, .ldLocA slot, .hasValue p, .brFalse absent, .ldLocA slot] :=
        List.suffix_cons _ _
      exact Cautious.take (by simp [Instr.isCautious]) htest
    · rw [steps_bind]
      refine .append hpayload (Step.cautious_of_isCautious ?_)
      cases ((standard T k).reshapeAt n p.rep .empty .value).result <;> rfl

end Scope

/-! ### Ways through code -/

/-- All ways that begin at a position come to the position `stop`, and none ends before. -/
inductive AllReach (code : List Instr) (stop : Nat) : Nat → Prop
  /-- The position is reached. -/
  | here : AllReach code stop stop
  /-- Control goes on, or jumps to where a label is placed, and all ways come to it from there. -/
  | on {n : Nat} {i : Instr} (hi : code[n]? = some i) (hsome : i.goesOn = true ∨ i.target? ≠ none)
      (hnext : i.goesOn = true → AllReach code stop (n + 1))
      (hplaced : ∀ l, i.target? = some l → ∃ m : Nat, code[m]? = some (Instr.mark l))
      (hjump : ∀ l, i.target? = some l → ∀ m : Nat, code[m]? = some (Instr.mark l) →
        AllReach code stop m) :
      AllReach code stop n

/-- A way through code from its start: the positions that it has come to, the last one first.  A
branch that depends on an operand goes on where the operand is true. -/
inductive Way (code : List Instr) : List Nat → Prop
  /-- A way begins at the start. -/
  | start : Way code [0]
  /-- It goes on. -/
  | next {n : Nat} {before : List Nat} {i : Instr} (h : Way code (n :: before))
      (hi : code[n]? = some i) (hgo : i.goesOn = true) : Way code ((n + 1) :: n :: before)
  /-- It jumps to where a label is placed. -/
  | jump {n m : Nat} {before : List Nat} {i : Instr} {l : Label} (h : Way code (n :: before))
      (hi : code[n]? = some i) (hl : i.target? = some l) (hm : code[m]? = some (.mark l)) :
      Way code (m :: n :: before)

section Ways

variable {code : List Instr} {n m : Nat} {i : Instr} {before : List Nat}

/-- A position where no label is placed is only come to from the one before. -/
theorem Way.of_unplaced (h : Way code ((n + 1) :: before)) (hi : code[n + 1]? = some i)
    (hplaced : i.placed? = none) : ∃ earlier, before = n :: earlier ∧ Way code before := by
  cases h with
  | next h => exact ⟨_, rfl, h⟩
  | jump h _ _ hm =>
    rw [hi] at hm
    cases hm
    cases hplaced

end Ways

/-! ### Runs -/

/-- What the caller of a request emits in it. -/
def Request.callers : Request → List (List Step)
  | .emit i => [[.emit i]]
  | q => q.own.map (·.steps)

/-- The caller of a request neither places labels nor branches to any.  He may define labels. -/
def Request.Unlabelled (q : Request) : Prop :=
  ∀ ts ∈ q.callers, ∀ t ∈ ts, t.isUnlabelled = true

/-- The stretch of code that has been emitted for a request. -/
structure Stretch where
  /-- The request. -/
  request : Request
  /-- The first position. -/
  start : Nat
  /-- The position after the last one. -/
  stop : Nat

/-- A run over the standard run-time, from a new session under any quotas: requests that all
succeed, each in a scope and under options of its own, and the stretches of code that have been
emitted for them. -/
inductive Session.Wrote : List Stretch → Session → Prop
  /-- Nothing has been emitted. -/
  | new (localQuota textQuota : Option Nat) : Wrote [] (new localQuota textQuota)
  /-- A request is answered. -/
  | request {run : List Stretch} {s s' : Session} {T : ClassTable} {k : Option ClassId}
      {o : Options} {q : Request} {a : Reply} (h : Wrote run s) (hq : q.Unlabelled)
      (hanswer : q.answer (.standard T k) o s = .ok a s') :
      Wrote (run ++ [⟨q, s.builder.instrs.size, s'.builder.instrs.size⟩]) s'

/-- What a request has emitted: what its caller emits, then what the converter does. -/
structure Request.Writes (q : Request) (n m : Nat) (own inner : List Instr) : Prop where
  /-- The caller's part stands for what the caller emits. -/
  opens : ∃ ts ∈ q.callers, ∃ N : Numbering, own = N.code ts
  /-- The other part is cautious. -/
  cautious : Cautious inner
  /-- Together they are closed. -/
  closes : Closes n m (own ++ inner)
  /-- Labels are numbered on. -/
  le : n ≤ m

section Runs

open Session

variable {s s' : Session} {T : ClassTable} {k : Option ClassId} {o : Options} {q : Request}
  {a : Reply} {C : Catalog} {ts : List Step} {u : Unit}

theorem Session.labels_of_performAll (h : performAll C ts s = .ok u s') (N : Numbering)
    (hN : N.labels = s.builder.labels) : (N.afterAll ts).labels = s'.builder.labels := by
  induction ts generalizing s N with
  | nil =>
    cases h
    exact hN
  | cons t ts ih =>
    obtain ⟨_, t₀, ht, hts⟩ := bind_eq_ok.1 h
    refine ih hts (N.after t) ?_
    rw [(perform_eq_ok ht).2.1]
    cases t <;> first | exact hN | exact congrArg (· + 2) hN

/-- A plan writes what its caller emits, and goes on with care. -/
theorem Request.writes_plan {plan : Script Reply} (hplan : q.plan? (.standard T k) o = some plan)
    (hq : q.Unlabelled) (hs : s.Sound) (h : performAll .standard plan.steps s = .ok u s') :
    ∃ own inner, s'.builder.instrs.toList = s.builder.instrs.toList ++ (own ++ inner) ∧
      q.Writes s.builder.labels s'.builder.labels own inner := by
  have hcallers : q.callers = q.own.map (·.steps) := by
    cases q <;> first | rfl | cases hplan
  have hs' : s'.Sound := ((invariant_sound .standard).performAll plan.steps).of_eq_ok hs h
  obtain ⟨first, hfirst, rest, hsteps, hrest⟩ :=
    continues_plan? (Scope.congruence_cautious T k) hplan
  let N := s'.numbering s.builder.labels
  have hlabels : (N.afterAll plan.steps).labels = s'.builder.labels :=
    labels_of_performAll h N rfl
  have hclosed : Closes N.labels (N.afterAll plan.steps).labels (N.code plan.steps) :=
    q.closes_plan? hplan (fun first hfirst t ht =>
      hq first.steps (hcallers ▸ List.mem_map_of_mem hfirst) t ht)
      (numbers_of_performAll h hs' s.builder.labels).slot
  have hcode : N.code plan.steps = N.code first.steps ++ (N.afterAll first.steps).code rest := by
    rw [hsteps, Numbering.code_append]
  rw [hlabels, hcode] at hclosed
  refine ⟨_, _, ?_, ⟨first.steps, hcallers ▸ List.mem_map_of_mem hfirst, N, rfl⟩, hrest _, hclosed,
    ?_⟩
  · rw [performAll_code h, ← hcode]
  · rw [← hlabels]
    exact N.labels_le_afterAll _

/-- A session has gone on from another one, with instructions that have no labels and need no
care. -/
def Session.GoesOn (s t : Session) : Prop :=
  ∃ inner, t.builder.instrs.toList = s.builder.instrs.toList ++ inner ∧
    (∀ i ∈ inner, i.label? = none ∧ i.isCautious = true) ∧ s.builder.labels ≤ t.builder.labels

theorem Session.GoesOn.refl (s : Session) : s.GoesOn s :=
  ⟨[], (List.append_nil _).symm, by simp, Nat.le_refl _⟩

theorem Session.GoesOn.congr {t t' : Session} (h : s.GoesOn t)
    (hinstrs : t'.builder.instrs = t.builder.instrs)
    (hlabels : t.builder.labels ≤ t'.builder.labels) : s.GoesOn t' := by
  obtain ⟨inner, hcode, hinner, hle⟩ := h
  exact ⟨inner, by rw [hinstrs, hcode], hinner, Nat.le_trans hle hlabels⟩

theorem Session.preserves_goesOn_emit {i : Instr} (hlabel : i.label? = none)
    (hcautious : i.isCautious = true) : Preserves s.GoesOn (emit C i) := by
  intro t ht
  cases h : emit C i t with
  | error e t' =>
    rw [endOf_eq_error h, emit_eq_error h]
    exact ht
  | ok u t' =>
    obtain ⟨b, hb, rfl⟩ := emit_eq_ok h
    obtain ⟨hinstrs, hlabels⟩ := instrs_emit hb
    obtain ⟨inner, hcode, hinner, hle⟩ := ht
    rw [endOf_eq_ok h]
    refine ⟨inner ++ [i], ?_, fun j hj => ?_, hlabels ▸ hle⟩
    · rw [hinstrs, Array.toList_push, hcode, List.append_assoc]
    · rcases List.mem_append.1 hj with hj | hj
      · exact hinner j hj
      · rw [List.mem_singleton.1 hj]
        exact ⟨hlabel, hcautious⟩

theorem Request.preserves_goesOn (hplan : q.plan? (.standard T k) o = none)
    (hemit : ∀ i, q ≠ .emit i) : Preserves s.GoesOn (q.answer (.standard T k) o) := by
  have acquire : ∀ r, Preserves s.GoesOn (acquire r) := fun r =>
    .acquire fun t slot t' ht h => by
      have hb := builder_acquire h
      exact ht.congr (by rw [hb]) (by rw [hb])
  have declare : ∀ r, Preserves s.GoesOn (Session.declare r) := fun r =>
    .attempt fun t slot t' ht h => by
      obtain ⟨-, -, hb⟩ := declareLocal_eq_ok h
      exact ht.congr (by rw [hb]) (by rw [hb])
  have moved : ∀ r, Preserves s.GoesOn (do
      let slot ← Session.acquire r
      Session.emit .standard (.stLoc slot)
      Session.emit .standard (.ldLocA slot)
      return slot : Action Nat) := fun r =>
    (acquire r).bind fun _ => (preserves_goesOn_emit rfl rfl).bind fun _ =>
      (preserves_goesOn_emit rfl rfl).bind fun _ => .pure _
  cases q with
  | emit i => exact absurd rfl (hemit i)
  | intern x =>
    refine .map _ (.attempt fun t j t' ht h => ?_)
    obtain ⟨-, -, hb⟩ := internText_eq_ok h
    exact ht.congr (by rw [hb]) (by rw [hb])
  | declare r count => exact (Preserves.declareMany declare r count).map _
  | label => exact .map _ fun t ht => ht.congr rfl (Nat.le_succ _)
  | endStatement =>
    have hend : Preserves s.GoesOn Session.endStatement := fun t ht => ht.congr rfl (Nat.le_refl _)
    exact hend.bind fun _ => .pure _
  | spill r =>
    refine .map _ ?_
    unfold Session.spill
    split
    · exact (Preserves.throw _).bind fun _ => moved r
    · exact moved r
  | _ => cases hplan

/-- **Every request that succeeds writes closed code.** -/
theorem Request.writes_answer (hq : q.Unlabelled) (hs : s.Sound)
    (h : q.answer (.standard T k) o s = .ok a s') :
    ∃ own inner, s'.builder.instrs.toList = s.builder.instrs.toList ++ (own ++ inner) ∧
      q.Writes s.builder.labels s'.builder.labels own inner := by
  cases hplan : q.plan? (.standard T k) o with
  | some plan =>
    rw [answer_eq_run hplan] at h
    exact writes_plan hplan hq hs (run_eq_ok.1 h).2
  | none =>
    by_cases hemit : ∃ i, q = .emit i
    · obtain ⟨i, rfl⟩ := hemit
      obtain ⟨_, t, hi, hpure⟩ := bind_eq_ok.1 h
      cases hpure
      obtain ⟨b, hb, rfl⟩ := emit_eq_ok hi
      obtain ⟨hinstrs, hlabels⟩ := instrs_emit hb
      have hi : i.label? = none :=
        Option.isNone_iff_eq_none.1 (hq _ List.mem_cons_self _ List.mem_cons_self)
      refine ⟨[i], [], ?_, ⟨_, List.mem_cons_self, ⟨fun _ => 0, fun _ => 0, 0⟩, rfl⟩,
        .of_isCautious (by simp), .of_unlabelled (by simp [hi]), hlabels.ge⟩
      rw [hinstrs, Array.toList_push, List.append_nil]
    · obtain ⟨inner, hcode, hinner, hle⟩ :=
        (preserves_goesOn hplan fun i hi => hemit ⟨i, hi⟩).of_eq_ok (.refl s) h
      have hnothing : [] ∈ q.callers := by
        cases q with
        | emit i => exact absurd ⟨i, rfl⟩ hemit
        | intern | declare | label | endStatement | spill => exact List.mem_cons_self
        | _ => cases hplan
      exact ⟨[], inner, hcode, ⟨_, hnothing, ⟨fun _ => 0, fun _ => 0, 0⟩, rfl⟩,
        .of_isCautious fun i hi => (hinner i hi).2,
        .of_unlabelled fun i hi => (hinner i (by simpa using hi)).1, hle⟩

end Runs

/-! ### Closed stretches -/

/-- At a position the payload of a nullable is taken out.  Every way to it comes straight from the
test of the same slot, past the branch that is taken if there is no payload. -/
def TakesTested (code : List Instr) (n : Nat) (p : Payload) : Prop :=
  ∃ m slot l, n = m + 4 ∧ code[m]? = some (.ldLocA slot) ∧ code[m + 1]? = some (.hasValue p) ∧
    code[m + 2]? = some (.brFalse l) ∧ code[m + 3]? = some (.ldLocA slot) ∧
    ∀ before, Way code (n :: before) →
      ∃ earlier, before = (m + 3) :: (m + 2) :: (m + 1) :: m :: earlier

namespace Stretch

/-- In the code of a method the branches of a stretch are closed. -/
structure Sealed (code : List Instr) (g : Stretch) : Prop where
  /-- A branch leads forward, to a label that is placed in the same stretch. -/
  lands : ∀ n l, g.start ≤ n → n < g.stop → BranchesAt code n l →
    ∃ m, n < m ∧ m < g.stop ∧ code[m]? = some (.mark l)
  /-- After what the caller emits, payloads are only taken where they have been tested for.  All
  ways through the stretch come to its end, unless the caller leaves the method. -/
  parts : ∃ own, g.start ≤ own ∧ own ≤ g.stop ∧
    (∃ ts ∈ g.request.callers, ∃ N : Numbering, (code.take own).drop g.start = N.code ts) ∧
    (∀ n p, own ≤ n → n < g.stop → code[n]? = some (.getValue p) → TakesTested code n p) ∧
    ∀ n, g.start ≤ n → n ≤ g.stop → (∀ m, n ≤ m → m < own → code[m]? ≠ some .ret) →
      AllReach code g.stop n

/-- A stretch stands in the code of a method as it has been written. -/
def Written (code : List Instr) (g : Stretch) : Prop :=
  ∃ before own inner after, code = before ++ (own ++ inner) ++ after ∧
    before.length = g.start ∧ before.length + (own ++ inner).length = g.stop ∧
    ∃ n m, g.request.Writes n m own inner

theorem Written.append {code : List Instr} {g : Stretch} (h : g.Written code)
    (more : List Instr) : g.Written (code ++ more) := by
  obtain ⟨before, own, inner, after, rfl, hrest⟩ := h
  exact ⟨before, own, inner, after ++ more, by simp, hrest⟩

end Stretch

section Positions

variable {code before piece after : List Instr} {n m : Nat} {i : Instr} {l : Label}

theorem eq_take_append_cons (h : code[n]? = some i) :
    code = code.take n ++ i :: code.drop (n + 1) := by
  obtain ⟨hn, rfl⟩ := List.getElem?_eq_some_iff.1 h
  rw [← List.drop_eq_getElem_cons hn, List.take_append_drop]

theorem eq_of_marks_nodup (h : (marks code).Nodup) (hn : code[n]? = some (.mark l))
    (hm : code[m]? = some (.mark l)) : n = m := by
  have later : ∀ {n m : Nat}, code[n]? = some (.mark l) → code[m]? = some (.mark l) → ¬n < m := by
    intro n m hn hm hlt
    have hmem : Instr.mark l ∈ code.drop (n + 1) := by
      refine List.mem_of_getElem? (i := m - (n + 1)) ?_
      rw [List.getElem?_drop, Nat.add_sub_cancel' hlt, hm]
    rw [eq_take_append_cons hn, marks_append, marks_cons] at h
    have hnodup := (List.nodup_append.1 h).2.1
    exact (List.nodup_cons.1 hnodup).1 (mem_marks.2 hmem)
  exact Nat.le_antisymm (Nat.le_of_not_lt (later hm hn)) (Nat.le_of_not_lt (later hn hm))

theorem getElem?_middle (hn : n < piece.length) :
    (before ++ piece ++ after)[before.length + n]? = piece[n]? := by
  rw [List.append_assoc, List.getElem?_append_right (Nat.le_add_right _ _),
    Nat.add_sub_cancel_left, List.getElem?_append_left hn]

theorem Closes.exists_mark {p q : Nat} (h : Closes p q piece)
    (hn : before.length ≤ n) (hstop : n < before.length + piece.length)
    (hbranch : BranchesAt (before ++ piece ++ after) n l) :
    ∃ m, n < m ∧ m < before.length + piece.length ∧
      (before ++ piece ++ after)[m]? = some (.mark l) := by
  obtain ⟨j, rfl⟩ := Nat.exists_eq_add_of_le hn
  have hj : j < piece.length := by omega
  obtain ⟨i, hi, hl⟩ := hbranch
  rw [getElem?_middle hj] at hi
  have hmem := mem_marks.1 (h.lands _ i _ l (eq_take_append_cons hi) hl)
  obtain ⟨d, hd⟩ := List.mem_iff_getElem?.1 hmem
  rw [List.getElem?_drop] at hd
  have hlt : j + 1 + d < piece.length := (List.getElem?_eq_some_iff.1 hd).1
  refine ⟨before.length + (j + 1 + d), by omega, by omega, ?_⟩
  rw [getElem?_middle hlt, hd]

theorem Cautious.takesTested {p : Payload} (h : Cautious piece)
    (hn : before.length ≤ n) (hstop : n < before.length + piece.length)
    (hget : (before ++ piece ++ after)[n]? = some (.getValue p)) :
    TakesTested (before ++ piece ++ after) n p := by
  obtain ⟨j, rfl⟩ := Nat.exists_eq_add_of_le hn
  have hj : j < piece.length := by omega
  rw [getElem?_middle hj] at hget
  have heq := eq_take_append_cons hget
  obtain ⟨slot, l, pre, hpre⟩ := h.tests _ p _ heq
  have hlength : pre.length + 4 = j := by
    have := congrArg List.length hpre
    rwa [List.length_append, List.length_take_of_le (Nat.le_of_lt hj)] at this
  -- the five instructions, one after another
  let test : List Instr := [.ldLocA slot, .hasValue p, .brFalse l, .ldLocA slot, .getValue p]
  have hcode : before ++ piece ++ after =
      (before ++ pre) ++ test ++ (piece.drop (j + 1) ++ after) := by
    conv_lhs => rw [heq, ← hpre]
    simp [test]
  have hat : ∀ d, d < 5 → (before ++ piece ++ after)[before.length + pre.length + d]? =
      test[d]? := by
    intro d hd
    rw [hcode, ← List.length_append, getElem?_middle hd]
  refine ⟨before.length + pre.length, slot, l, by omega, hat 0 (by omega), hat 1 (by omega),
    hat 2 (by omega), hat 3 (by omega), fun earlier hway => ?_⟩
  obtain ⟨e₁, rfl, hway⟩ := Way.of_unplaced (n := before.length + pre.length + 3)
    (by convert hway using 2; omega) (hat 4 (by omega)) rfl
  obtain ⟨e₂, rfl, hway⟩ := hway.of_unplaced (hat 3 (by omega)) rfl
  obtain ⟨e₃, rfl, hway⟩ := hway.of_unplaced (hat 2 (by omega)) rfl
  obtain ⟨e₄, rfl, -⟩ := hway.of_unplaced (hat 1 (by omega)) rfl
  exact ⟨e₄, rfl⟩

end Positions

/-- Where branches lead forward to labels that are placed once, and the method is not left, all
ways come to the end. -/
theorem AllReach.of_forward {code : List Instr} {start stop n : Nat} (honce : (marks code).Nodup)
    (hlands : ∀ n l, start ≤ n → n < stop → BranchesAt code n l →
      ∃ m, n < m ∧ m < stop ∧ code[m]? = some (.mark l))
    (hstop : stop ≤ code.length) (hstart : start ≤ n) (hn : n ≤ stop)
    (hstays : ∀ m, n ≤ m → m < stop → code[m]? ≠ some .ret) : AllReach code stop n := by
  -- what is left up to the end gets shorter with every instruction
  induction hleft : stop - n using Nat.strong_induction_on generalizing n with
  | _ left ih =>
  rcases Nat.eq_or_lt_of_le hn with rfl | hlt
  · exact .here
  obtain ⟨i, hi⟩ : ∃ i, code[n]? = some i := ⟨_, List.getElem?_eq_getElem (by omega)⟩
  have hret : i ≠ .ret := by
    rintro rfl
    exact hstays n (Nat.le_refl _) hlt hi
  have further : ∀ m, n < m → m ≤ stop → AllReach code stop m := fun m hnm hm =>
    ih (stop - m) (by omega) (by omega) hm (fun m' hm' => hstays m' (by omega)) rfl
  refine .on hi ?_ (fun _ => further _ (Nat.lt_succ_self n) hlt) (fun l hl => ?_)
    fun l hl m hm => ?_
  · cases i with
    | br l => exact .inr (by simp [Instr.target?])
    | ret => exact absurd rfl hret
    | _ => exact .inl rfl
  · obtain ⟨m, -, -, hm⟩ := hlands n l hstart hlt ⟨i, hi, hl⟩
    exact ⟨m, hm⟩
  · obtain ⟨m', hnm, hm', hmark⟩ := hlands n l hstart hlt ⟨i, hi, hl⟩
    rw [eq_of_marks_nodup honce hm hmark]
    exact further m' hnm (Nat.le_of_lt hm')

theorem Stretch.Written.sealed {code : List Instr} {g : Stretch} (h : g.Written code)
    (honce : (marks code).Nodup) : g.Sealed code := by
  obtain ⟨before, own, inner, after, rfl, hstart, hstop, n, m, hopens, hcautious, hcloses, -⟩ := h
  have hlength : before.length + own.length + inner.length = g.stop := by
    rw [← hstop, List.length_append, Nat.add_assoc]
  have hlands : ∀ n l, g.start ≤ n → n < g.stop →
      BranchesAt (before ++ (own ++ inner) ++ after) n l →
      ∃ m, n < m ∧ m < g.stop ∧ (before ++ (own ++ inner) ++ after)[m]? = some (.mark l) := by
    rw [← hstart, ← hstop]
    exact fun n l => hcloses.exists_mark
  -- the converter's part, after what is the caller's
  have hinner : before ++ (own ++ inner) ++ after = (before ++ own) ++ inner ++ after := by simp
  refine ⟨hlands, before.length + own.length, by omega, by omega, ?_, fun n p hn hlt => ?_,
    fun n hn hle hstays => ?_⟩
  · rw [hinner, List.append_assoc, List.take_left' (by simp), ← hstart, List.drop_left]
    exact hopens
  · rw [hinner]
    exact hcautious.takesTested (by simpa using hn) (by simpa [hlength] using hlt)
  · refine .of_forward honce hlands ?_ hn hle fun m hnm hm => ?_
    · rw [← hlength]
      simp only [List.length_append]
      omega
    · by_cases hown : m < before.length + own.length
      · exact hstays m hnm hown
      · obtain ⟨d, rfl⟩ := Nat.exists_eq_add_of_le (Nat.le_of_not_lt hown)
        rw [hinner, ← List.length_append, getElem?_middle (by omega)]
        exact fun hret => hcautious.stays (List.mem_of_getElem? hret)

/-- What one request after another has written. -/
theorem Session.Wrote.written {run : List Stretch} {s : Session} (h : Wrote run s) :
    s.Sound ∧ Closes 0 s.builder.labels s.builder.instrs.toList ∧
      (∀ n < s.builder.instrs.toList.length, ∃ g ∈ run, g.start ≤ n ∧ n < g.stop) ∧
      ∀ g ∈ run, g.Written s.builder.instrs.toList := by
  induction h with
  | new localQuota textQuota =>
    have hempty : (Session.new localQuota textQuota).builder.instrs.toList = [] := rfl
    rw [hempty]
    exact ⟨(invariant_sound .standard).new _ _, .of_unlabelled (by simp), by simp, by simp⟩
  | @request run s s' T k o q a _ hq hanswer ih =>
    obtain ⟨hs, hclosed, hcover, hrun⟩ := ih
    obtain ⟨own, inner, hcode, hwrites⟩ := Request.writes_answer hq hs hanswer
    have hsize : s'.builder.instrs.size = s.builder.instrs.size + (own ++ inner).length := by
      rw [← Array.length_toList, hcode, List.length_append, Array.length_toList]
    refine ⟨((invariant_sound .standard).answer (S := .standard T k) q).of_eq_ok hs hanswer, ?_,
      fun n hn => ?_, fun g hg => ?_⟩
    · rw [hcode]
      exact hclosed.append hwrites.closes (Nat.zero_le _) hwrites.le
    · by_cases hold : n < s.builder.instrs.toList.length
      · obtain ⟨g, hg, hle, hlt⟩ := hcover n hold
        exact ⟨g, List.mem_append_left _ hg, hle, hlt⟩
      · exact ⟨_, List.mem_append_right _ List.mem_cons_self, Nat.le_of_not_lt hold, hn⟩
    · rcases List.mem_append.1 hg with hg | hg
      · rw [hcode]
        exact (hrun g hg).append _
      · rw [List.mem_singleton.1 hg]
        exact ⟨s.builder.instrs.toList, own, inner, [], by rw [hcode, List.append_nil], rfl,
          hsize.symm, _, _, hwrites⟩

/-- **Branches are closed.**  In a run of requests that all succeed, whose callers place no labels
and branch to none, no label is placed twice.  Every instruction belongs to the stretch of a
request, in which every branch leads forward to a label, no payload is taken from a nullable but
where it has been tested for, and all ways come to the end. -/
theorem branches_closed {run : List Stretch} {s : Session} (h : Session.Wrote run s) :
    (∀ (n m : Nat) (l : Label), s.builder.instrs.toList[n]? = some (.mark l) →
      s.builder.instrs.toList[m]? = some (.mark l) → n = m) ∧
    (∀ n < s.builder.instrs.toList.length, ∃ g ∈ run, g.start ≤ n ∧ n < g.stop) ∧
    ∀ g ∈ run, g.Sealed s.builder.instrs.toList := by
  obtain ⟨-, hclosed, hcover, hrun⟩ := h.written
  exact ⟨fun n m l hn hm => eq_of_marks_nodup hclosed.once hn hm, hcover, fun g hg =>
    (hrun g hg).sealed hclosed.once⟩

/-- Two nullables are converted.  In between the caller defines a label, and emits an argument. -/
theorem branches_closed_nullables : ∃ (run : List Stretch) (s : Session), Session.Wrote run s ∧
    marks s.builder.instrs.toList = [⟨0⟩, ⟨1⟩, ⟨3⟩, ⟨4⟩] ∧ run.length = 5 ∧
      ∀ g ∈ run, g.Sealed s.builder.instrs.toList := by
  let S := Scope.standard .new none
  have unlabelled : ∀ q : Request, (q.callers.all fun ts => ts.all Step.isUnlabelled) = true →
      q.Unlabelled := fun q h ts hts t ht => List.all_eq_true.1 (List.all_eq_true.1 h ts hts) t ht
  have answered : ∀ {run : List Stretch} {s : Session} (q : Request) (a : Reply),
      Session.Wrote run s → q.Unlabelled → (∃ s', q.answer S .standard s = .ok a s') →
      Session.Wrote (run ++ [⟨q, s.builder.instrs.size,
        (Session.endOf (q.answer S .standard) s).builder.instrs.size⟩])
        (Session.endOf (q.answer S .standard) s) := by
    rintro run s q a h hq ⟨s', hs'⟩
    rw [Session.endOf_eq_ok hs']
    exact h.request hq hs'
  have h₁ := answered (.emit (.ldArg 0)) .done (.new none none) (unlabelled _ rfl)
    (by decide +kernel)
  have h₂ := answered (.convert (.nullable .int64) .empty .text) (.rep .text) h₁ (unlabelled _ rfl)
    (by decide +kernel)
  have h₃ := answered .label (.label ⟨2⟩) h₂ (unlabelled _ rfl) (by decide +kernel)
  have h₄ := answered (.emit (.ldArg 1)) .done h₃ (unlabelled _ rfl) (by decide +kernel)
  have h₅ := answered (.convert (.nullable .bool) .empty .key) (.rep .key) h₄ (unlabelled _ rfl)
    (by decide +kernel)
  exact ⟨_, _, h₅, by decide +kernel, rfl, (branches_closed h₅).2.2⟩

end Recast
