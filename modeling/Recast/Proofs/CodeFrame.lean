import Recast.Proofs.Statements

/-!
# Code is only appended

A plan is carried out by appending code.  What has been emitted before is never read, and neither is
the greatest depth that it has reached; what comes next depends on the rest of the session only: the
depth of the operand stack, the locals, texts and labels, and the quotas.

* `Session.withCode` : a session with other code emitted before;
* `Session.Extends` : two ways to end that differ in the code before only;
* `Session.appends_run` : **a plan appends the same code**, whatever has been emitted before.
-/

namespace Recast

namespace Session

/-- The session, had other code been emitted so far, with another greatest depth. -/
def withCode (s : Session) (instrs : Array Instr) (peak : Nat) : Session :=
  { s with builder := { s.builder with instrs := instrs, maxDepth := peak } }

/-- Two ways to end, with the same result or for the same reason, that have appended the same code
to what was there before. -/
inductive Extends {α : Type} (before before' : Array Instr) :
    EStateM.Result Halt Session α → EStateM.Result Halt Session α → Prop
  /-- Both have a result. -/
  | ok {x : α} {s : Session} {code : Array Instr} (peak : Nat)
      (h : s.builder.instrs = before ++ code) :
      Extends before before' (.ok x s) (.ok x (s.withCode (before' ++ code) peak))
  /-- Both halt. -/
  | error {e : Halt} {s : Session} {code : Array Instr} (peak : Nat)
      (h : s.builder.instrs = before ++ code) :
      Extends before before' (.error e s) (.error e (s.withCode (before' ++ code) peak))

/-- An action that appends code, whatever has been emitted before. -/
def Appends {α : Type} (a : Action α) : Prop :=
  ∀ (s : Session) (instrs : Array Instr) (peak : Nat),
    Extends s.builder.instrs instrs (a s) (a (s.withCode instrs peak))

section Appends

variable {α β : Type} {a : Action α} {f : α → Action β} {C : Catalog} {s : Session}
  {before before' instrs : Array Instr} {peak : Nat}

theorem Extends.ok_self (x : α) : Extends s.builder.instrs instrs (.ok x s)
    (.ok x (s.withCode instrs peak)) := by
  have h : Extends s.builder.instrs instrs (.ok x s) (.ok x (s.withCode (instrs ++ #[]) peak)) :=
    .ok peak Array.append_empty.symm
  rwa [Array.append_empty] at h

theorem Extends.error_self (e : Halt) : Extends s.builder.instrs instrs
    (.error e s : EStateM.Result Halt Session α) (.error e (s.withCode instrs peak)) := by
  have h : Extends s.builder.instrs instrs (.error e s : EStateM.Result Halt Session α)
      (.error e (s.withCode (instrs ++ #[]) peak)) := .error peak Array.append_empty.symm
  rwa [Array.append_empty] at h

theorem Extends.append {code : Array Instr} {r r' : EStateM.Result Halt Session α}
    (h : Extends (before ++ code) (before' ++ code) r r') : Extends before before' r r' := by
  cases h with
  | @ok x s later peak h =>
    rw [Array.append_assoc]
    rw [Array.append_assoc] at h
    exact .ok peak h
  | @error e s later peak h =>
    rw [Array.append_assoc]
    rw [Array.append_assoc] at h
    exact .error peak h

theorem Appends.pure (x : α) : Appends (pure x : Action α) := fun _ _ _ => .ok_self x

theorem Appends.throw (e : Halt) : Appends (throw e : Action α) := fun _ _ _ => .error_self e

theorem Appends.bind (ha : Appends a) (hf : ∀ x, Appends (f x)) : Appends (a >>= f) := by
  intro s instrs peak
  have h := ha s instrs peak
  change Extends _ _ (EStateM.bind a f s) (EStateM.bind a f (s.withCode instrs peak))
  unfold EStateM.bind
  generalize a s = r, a (s.withCode instrs peak) = r' at h
  cases h with
  | @ok x t code peak' h =>
    have hrest := hf x t (instrs ++ code) peak'
    rw [h] at hrest
    exact hrest.append
  | error peak' h => exact .error peak' h

/-- What is read of the session is not its code. -/
theorem Appends.get_bind {g : Session → Action β}
    (h : ∀ (s : Session) instrs peak, g (s.withCode instrs peak) = g s)
    (hg : ∀ s, Appends (g s)) : Appends (get >>= g) := by
  intro s instrs peak
  have hrest := hg s s instrs peak
  change Extends _ _ (g s s) (g (s.withCode instrs peak) (s.withCode instrs peak))
  rwa [h]

/-- An instruction takes what it needs from the depth and the branches so far. -/
theorem emit_withCode (s : Session) (i : Instr) (instrs : Array Instr) (peak : Nat) :
    (s.withCode instrs peak).builder.emit C i = (s.builder.emit C i).map fun b =>
      { b with instrs := instrs.push i, maxDepth := max peak b.depth } := by
  have hstart : (s.withCode instrs peak).builder.startDepth i = s.builder.startDepth i := by
    cases i <;> rfl
  unfold Builder.emit
  rw [hstart]
  dsimp only
  split_ifs <;> rfl

theorem appends_emit (i : Instr) : Appends (emit C i) := by
  intro s instrs peak
  unfold emit
  rw [emit_withCode]
  cases h : s.builder.emit C i with
  | error f => exact .error_self _
  | ok b =>
    have hcode : b.instrs = s.builder.instrs ++ #[i] := (instrs_emit h).1
    exact .ok (s := { s with builder := b }) (max peak b.depth) hcode

/-- What leaves the code as it is, and does not read it, appends nothing. -/
theorem Appends.attempt {g : Session → Except ConvertError (α × Session)}
    (h : ∀ (s : Session) instrs peak, g (s.withCode instrs peak) =
      (g s).map fun p => (p.1, p.2.withCode instrs peak))
    (hcode : ∀ s x t, g s = .ok (x, t) → t.builder.instrs = s.builder.instrs) :
    Appends (attempt g) := by
  intro s instrs peak
  unfold Session.attempt
  rw [h]
  cases hg : g s with
  | error e => exact .error_self _
  | ok p =>
    have hself : Extends p.2.builder.instrs instrs (.ok p.1 p.2)
        (.ok p.1 (p.2.withCode instrs peak)) := .ok_self p.1
    rw [hcode s p.1 p.2 hg] at hself
    exact hself

theorem internText_withCode (s : Session) (x : String) (instrs : Array Instr) (peak : Nat) :
    internText x (s.withCode instrs peak) =
      (internText x s).map fun p => (p.1, p.2.withCode instrs peak) := by
  have hquota : (s.withCode instrs peak).textQuota = s.textQuota := rfl
  have htexts : (s.withCode instrs peak).builder.texts = s.builder.texts := rfl
  unfold internText Builder.intern
  rw [hquota, htexts]
  split_ifs
  · rfl
  · cases s.builder.texts.idxOf? x <;> rfl

theorem declareLocal_withCode (s : Session) (r : Rep) (instrs : Array Instr) (peak : Nat) :
    declareLocal r (s.withCode instrs peak) =
      (declareLocal r s).map fun p => (p.1, p.2.withCode instrs peak) := by
  have hquota : (s.withCode instrs peak).localQuota = s.localQuota := rfl
  have hlocals : (s.withCode instrs peak).builder.locals = s.builder.locals := rfl
  unfold declareLocal Builder.declare?
  rw [hquota, hlocals]
  split_ifs <;> rfl

theorem appends_intern (x : String) : Appends (intern x) :=
  .attempt (internText_withCode · x) fun s j t h => by rw [(internText_eq_ok h).2.2]

theorem appends_declare (r : Rep) : Appends (declare r) :=
  .attempt (declareLocal_withCode · r) fun s slot t h => by rw [(declareLocal_eq_ok h).2.2]

/-- The pool does not look at the code. -/
theorem appends_acquire (r : Rep) : Appends (acquire r) := by
  intro s instrs peak
  have hpool : (s.withCode instrs peak).scratch = s.scratch := rfl
  unfold acquire
  rw [hpool]
  cases hactive : s.scratch.active.lookup r with
  | some slot =>
    rw [ScratchPool.take_of_active hactive, ScratchPool.take_of_active hactive]
    exact .ok_self slot
  | none =>
    cases hreleased : s.scratch.released.lookup r with
    | some slot =>
      rw [ScratchPool.take_of_released hactive hreleased,
        ScratchPool.take_of_released hactive hreleased]
      generalize ScratchPool.activate _ r slot = P
      have hself : Extends s.builder.instrs instrs (.ok slot { s with scratch := P })
          (.ok slot ({ s with scratch := P }.withCode instrs peak)) :=
        .ok_self (s := { s with scratch := P }) slot
      exact hself
    | none =>
      rw [ScratchPool.take_of_new hactive hreleased, ScratchPool.take_of_new hactive hreleased]
      have h := appends_declare r s instrs peak
      generalize declare r s = x, declare r (s.withCode instrs peak) = y at h
      cases h with
      | @ok slot t code peak h => exact .ok (s := { t with scratch := _ }) peak h
      | @error e t code peak h => exact .error (s := { t with scratch := _ }) peak h

theorem appends_defineLabel : Appends defineLabel := fun s _ _ =>
  .ok_self (s := { s with builder := s.builder.defineLabel.2 }) s.builder.defineLabel.1

theorem appends_perform (t : Step) : Appends (perform C t) := by
  cases t with
  | emit i => exact appends_emit i
  | text x => exact (appends_intern x).bind fun _ => appends_emit _
  | invoke x returnsValue => exact (appends_intern x).bind fun _ => appends_emit _
  | reserve r => exact (appends_acquire r).bind fun _ => .pure ()
  | store r => exact (appends_acquire r).bind fun _ => appends_emit _
  | address r => exact (appends_acquire r).bind fun _ => appends_emit _
  | fork => exact appends_defineLabel.bind fun _ => appends_defineLabel.bind fun _ => .pure ()
  | brAbsent | brEnd | markAbsent | markEnd =>
    exact .get_bind (fun _ _ _ => rfl) fun _ => appends_emit _

theorem appends_performAll (ts : List Step) : Appends (performAll C ts) := by
  induction ts with
  | nil => exact .pure ()
  | cons t ts ih => exact (appends_perform t).bind fun _ => ih

/-- **A plan appends the same code**, whatever has been emitted before. -/
theorem appends_run (p : Script α) : Appends (run C p) := by
  refine (appends_performAll p.steps).bind fun _ => ?_
  cases p.result with
  | ok a => exact .pure a
  | error e => exact .throw _

theorem Appends.exists_code (ha : Appends a) (s : Session) (instrs : Array Instr) (peak : Nat) :
    outcome a (s.withCode instrs peak) = outcome a s ∧ ∃ code : List Instr,
      (endOf a s).builder.instrs.toList = s.builder.instrs.toList ++ code ∧
      (endOf a (s.withCode instrs peak)).builder.instrs.toList = instrs.toList ++ code := by
  have h := ha s instrs peak
  unfold outcome endOf
  generalize a s = r, a (s.withCode instrs peak) = r' at h
  cases h with
  | @ok x t code peak' h => exact ⟨rfl, code.toList, by simp [h], by simp [withCode]⟩
  | @error e t code peak' h => exact ⟨rfl, code.toList, by simp [h], by simp [withCode]⟩

end Appends

end Session

end Recast
