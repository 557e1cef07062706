import Recast.Proofs.Numbering
import Recast.Request

/-!
# Reachable sessions

A session is reached from a new one by any requests in any order, whatever became of them.
What the few actions on a session preserve holds of every reachable session.

* `Session.Steady` : a property that carrying out plans preserves;
* `Session.Invariant` : a property that every action preserves;
* `Session.Invariant.of_reachable` : **an invariant holds of every reachable session**;
* `Session.Reachable.sound` : every slot of the pool is declared with its representation.
-/

namespace Recast

namespace Session

/-- The session that an action leaves, whether it halts or not. -/
def endOf {α : Type} (a : Action α) (s : Session) : Session :=
  match a s with
  | .ok _ s' | .error _ s' => s'

/-- The sessions that requests lead to, starting from a new one under any quotas.  A request
that fails or is refused leaves a session too. -/
inductive Reachable (S : Scope) (o : Options) : Session → Prop
  /-- A new session. -/
  | new (localQuota textQuota : Option Nat) : Reachable S o (new localQuota textQuota)
  /-- A request is answered. -/
  | request {s : Session} (q : Request) (h : Reachable S o s) :
      Reachable S o (endOf (q.answer S o) s)

/-! ### Where an action ends -/

section Ends

variable {α β : Type} {a : Action α} {f : α → Action β} {x : α} {e : Halt} {s t : Session}
  {C : Catalog}

theorem endOf_eq_ok (h : a s = .ok x t) : endOf a s = t := by
  rw [endOf, h]

theorem endOf_eq_error (h : a s = .error e t) : endOf a s = t := by
  rw [endOf, h]

theorem endOf_bind_of_ok (h : a s = .ok x t) : endOf (a >>= f) s = endOf (f x) t := by
  change endOf (EStateM.bind a f) s = _
  rw [endOf, EStateM.bind, h]
  rfl

theorem endOf_bind_of_error (h : a s = .error e t) : endOf (a >>= f) s = t :=
  endOf_eq_error (bind_eq_error.2 (.inl h))

theorem endOf_bind_pure (a : Action α) (y : β) (s : Session) :
    endOf (a >>= fun _ => pure y) s = endOf a s := by
  cases h : a s with
  | ok x t =>
    rw [endOf_bind_of_ok h, endOf_eq_ok h]
    rfl
  | error e t => rw [endOf_bind_of_error h, endOf_eq_error h]

theorem performAll_append (ts us : List Step) :
    performAll C (ts ++ us) = performAll C ts >>= fun _ => performAll C us := by
  induction ts with
  | nil => rfl
  | cons t ts ih => simp only [List.cons_append, performAll, ih, bind_assoc]

theorem endOf_run (p : Script α) (s : Session) :
    endOf (run C p) s = endOf (performAll C p.steps) s := by
  cases h : performAll C p.steps s with
  | error e t =>
    rw [endOf_eq_error h, endOf_eq_error (run_eq_error.2 (.inl h))]
  | ok u t =>
    rw [endOf_eq_ok h]
    cases hresult : p.result with
    | ok a => exact endOf_eq_ok (run_eq_ok.2 ⟨hresult, h⟩)
    | error c => exact endOf_eq_error (run_eq_error.2 (.inr ⟨c, hresult, rfl, h⟩))

theorem exists_code (C : Catalog) (ts : List Step) (s : Session) :
    ∃ (N : Numbering) (done : List Step), done <+: ts ∧
      (endOf (performAll C ts) s).builder.instrs.toList =
        s.builder.instrs.toList ++ N.code done := by
  cases h : performAll C ts s with
  | ok u t =>
    rw [endOf_eq_ok h]
    exact ⟨_, ts, List.prefix_rfl, performAll_code h⟩
  | error e t =>
    rw [endOf_eq_error h]
    obtain ⟨-, done, t', rest, rfl, hcode⟩ := performAll_code_of_error h
    exact ⟨_, done, List.prefix_append _ _, hcode⟩

/-- What steps append can be told from what the steps before them have appended. -/
theorem exists_code_append (C : Catalog) (ts us : List Step) (s : Session) :
    ∃ (M N : Numbering) (taken done : List Step), taken <+: ts ∧ done <+: us ∧
      (endOf (performAll C ts) s).builder.instrs.toList =
        s.builder.instrs.toList ++ M.code taken ∧
      (endOf (performAll C (ts ++ us)) s).builder.instrs.toList =
        s.builder.instrs.toList ++ M.code taken ++ N.code done := by
  obtain ⟨M, taken, htaken, hown⟩ := exists_code C ts s
  rw [performAll_append]
  cases h : performAll C ts s with
  | ok u t =>
    obtain ⟨N, done, hdone, hcode⟩ := exists_code C us t
    rw [endOf_eq_ok h] at hown
    refine ⟨M, N, taken, done, htaken, hdone, by rw [endOf_eq_ok h, hown], ?_⟩
    rw [endOf_bind_of_ok h, hcode, hown]
  | error e t =>
    refine ⟨M, M, taken, [], htaken, List.nil_prefix, hown, ?_⟩
    rw [endOf_bind_of_error h, Numbering.code_nil, List.append_nil, ← hown, endOf_eq_error h]

end Ends

/-- An action preserves a property of sessions. -/
def Preserves {α : Type} (P : Session → Prop) (a : Action α) : Prop :=
  ∀ s, P s → P (endOf a s)

section Preserves

variable {α β : Type} {P : Session → Prop} {a : Action α} {f : α → Action β}

theorem Preserves.of_eq_ok (h : Preserves P a) {s s' : Session} {x : α} (hs : P s)
    (ha : a s = .ok x s') : P s' := by
  have := h s hs
  rwa [endOf, ha] at this

theorem Preserves.pure (x : α) : Preserves P (pure x : Action α) := fun _ hs => hs

theorem Preserves.throw (e : Halt) : Preserves P (throw e : Action α) := fun _ hs => hs

theorem Preserves.get : Preserves P (get : Action Session) := fun _ hs => hs

theorem Preserves.bind (ha : Preserves P a) (hf : ∀ x, Preserves P (f x)) :
    Preserves P (a >>= f) := by
  intro s hs
  have hP := ha s hs
  change P (endOf (EStateM.bind a f) s)
  unfold endOf EStateM.bind at *
  cases h : a s with
  | error e t =>
    rw [h] at hP
    exact hP
  | ok x t =>
    rw [h] at hP
    exact hf x t hP

theorem Preserves.map (g : α → β) (ha : Preserves P a) : Preserves P (g <$> a) := by
  intro s hs
  have hP := ha s hs
  change P (endOf (EStateM.map g a) s)
  unfold endOf EStateM.map at *
  cases h : a s <;> rw [h] at hP <;> exact hP

theorem Preserves.attempt {g : Session → Except ConvertError (α × Session)}
    (h : ∀ s x s', P s → g s = .ok (x, s') → P s') : Preserves P (attempt g) := by
  intro s hs
  unfold endOf Session.attempt
  cases hg : g s with
  | ok p => exact h s p.1 p.2 hs hg
  | error e => exact hs

theorem Preserves.acquire {r : Rep}
    (h : ∀ s slot s', P s → Session.acquire r s = .ok slot s' → P s') :
    Preserves P (acquire r) := by
  intro s hs
  cases hr : Session.acquire r s with
  | ok slot s' =>
    rw [endOf_eq_ok hr]
    exact h s slot s' hs hr
  | error e s' =>
    rw [endOf_eq_error hr, (acquire_eq_error hr).1]
    exact hs

theorem Preserves.declareMany (h : ∀ r, Preserves P (declare r)) (r : Rep) (n : Nat) :
    Preserves P (Request.declareMany r n) := by
  match n with
  | 0 => exact .pure 0
  | 1 => exact h r
  | n + 2 => exact (h r).bind fun _ => declareMany h r (n + 1)

end Preserves

/-- A property that everything done to a session while a plan is carried out preserves. -/
structure Steady (C : Catalog) (P : Session → Prop) : Prop where
  /-- Instructions preserve it. -/
  emit : ∀ i, Preserves P (emit C i)
  /-- Texts preserve it. -/
  intern : ∀ t, Preserves P (intern t)
  /-- Scratch locals preserve it. -/
  acquire : ∀ r, Preserves P (acquire r)
  /-- Labels preserve it. -/
  defineLabel : Preserves P defineLabel

namespace Steady

variable {C : Catalog} {P : Session → Prop}

theorem perform (hP : Steady C P) (t : Step) : Preserves P (perform C t) := by
  cases t with
  | emit i => exact hP.emit i
  | text x => exact (hP.intern x).bind fun j => hP.emit _
  | invoke x returnsValue => exact (hP.intern x).bind fun j => hP.emit _
  | reserve r => exact (hP.acquire r).bind fun _ => .pure ()
  | store r => exact (hP.acquire r).bind fun _ => hP.emit _
  | address r => exact (hP.acquire r).bind fun _ => hP.emit _
  | fork => exact hP.defineLabel.bind fun _ => hP.defineLabel.bind fun _ => .pure ()
  | brAbsent | brEnd | markAbsent | markEnd => exact Preserves.get.bind fun _ => hP.emit _

theorem performAll (hP : Steady C P) (ts : List Step) : Preserves P (performAll C ts) := by
  induction ts with
  | nil => exact .pure ()
  | cons t ts ih => exact (hP.perform t).bind fun _ => ih

/-- A property of the scratch locals and the locals of the code is one, if it is preserved where a
scratch local is acquired. -/
theorem of_acquire
    (hcongr : ∀ s t : Session, t.scratch = s.scratch → t.builder.locals = s.builder.locals →
      P s → P t)
    (hacquire : ∀ s r slot t, Session.acquire r s = .ok slot t → P s → P t) : Steady C P where
  emit i := by
    intro s hs
    cases h : Session.emit C i s with
    | error e t =>
      rw [endOf_eq_error h, emit_eq_error h]
      exact hs
    | ok u t =>
      obtain ⟨b, hb, rfl⟩ := emit_eq_ok h
      rw [endOf_eq_ok h]
      exact hcongr s _ rfl (locals_emit hb) hs
  intern x := .attempt fun s j s' hs h => by
    obtain ⟨-, hscratch, hb⟩ := internText_eq_ok h
    exact hcongr s s' hscratch (by rw [hb]) hs
  acquire r := .acquire fun s slot t hs h => hacquire s r slot t h hs
  defineLabel := fun s hs => hcongr s _ rfl rfl hs

theorem spill (hP : Steady C P) (r : Rep) : Preserves P (spill C r) := by
  have moved : Preserves P (do
      let slot ← Session.acquire r
      Session.emit C (.stLoc slot)
      Session.emit C (.ldLocA slot)
      return slot : Action Nat) :=
    (hP.acquire r).bind fun _ => (hP.emit _).bind fun _ => (hP.emit _).bind fun _ => .pure _
  unfold Session.spill
  split
  · exact (Preserves.throw _).bind fun _ => moved
  · exact moved

theorem run (hP : Steady C P) {α : Type} (p : Script α) : Preserves P (run C p) := by
  refine (hP.performAll p.steps).bind fun _ => ?_
  cases p.result with
  | ok a => exact .pure a
  | error e => exact .throw _

theorem answer {S : Scope} {o : Options} (hP : Steady S.catalog P)
    (hdeclare : ∀ r, Preserves P (declare r)) (hend : Preserves P endStatement) (q : Request) :
    Preserves P (q.answer S o) := by
  cases q with
  | emit i => exact (hP.emit i).bind fun _ => .pure _
  | intern t => exact (hP.intern t).map _
  | declare r count => exact (Preserves.declareMany hdeclare r count).map _
  | label => exact hP.defineLabel.map _
  | endStatement => exact hend.bind fun _ => .pure _
  | spill source => exact (hP.spill source).map _
  | _ => exact hP.run _

end Steady

/-- A property that everything done to a session preserves. -/
structure Invariant (C : Catalog) (P : Session → Prop) : Prop extends Steady C P where
  /-- It holds at the start. -/
  new : ∀ localQuota textQuota, P (new localQuota textQuota)
  /-- Locals preserve it. -/
  declare : ∀ r, Preserves P (declare r)
  /-- The end of a statement preserves it. -/
  endStatement : Preserves P endStatement

namespace Invariant

variable {S : Scope} {o : Options} {P : Session → Prop}

theorem answer (hP : Invariant S.catalog P) (q : Request) : Preserves P (q.answer S o) :=
  hP.toSteady.answer hP.declare hP.endStatement q

/-- **An invariant holds of every reachable session.** -/
theorem of_reachable (hP : Invariant S.catalog P) {s : Session} (h : Reachable S o s) : P s := by
  induction h with
  | new localQuota textQuota => exact hP.new localQuota textQuota
  | request q _ ih => exact hP.answer q _ ih

end Invariant

/-! ### The pool is sound -/

section Sound

variable {s s' : Session} {r : Rep} {slot : Nat}

theorem getElem?_push_of_eq_some {locals : Array Rep} {i : Nat} {q : Rep}
    (h : locals[i]? = some r) : (locals.push q)[i]? = some r := by
  obtain ⟨hi, -⟩ := Array.getElem?_eq_some_iff.1 h
  rw [Array.getElem?_push, if_neg (Nat.ne_of_lt hi), h]

theorem Sound.declareLocal (hs : s.Sound) (h : s.declareLocal r = .ok (slot, s')) :
    s'.Sound := by
  obtain ⟨-, hscratch, hb⟩ := declareLocal_eq_ok h
  intro p hp
  rw [hscratch] at hp
  have := hs p hp
  rw [hb]
  exact getElem?_push_of_eq_some this

theorem Sound.acquire (hs : s.Sound) (h : Session.acquire r s = .ok slot s') : s'.Sound := by
  obtain ⟨t, htake, hs'⟩ := acquire_eq_ok h
  have hb : s'.builder = t.builder := by rw [hs']
  intro p hp
  rw [hb]
  rcases ScratchPool.held_of_take htake with ⟨-, hheld, -, rfl⟩ | ⟨-, -, hheld, -, hdeclare⟩
  · exact hs p (hheld.mem_iff.1 hp)
  · obtain ⟨rfl, -, hlocals⟩ := declareLocal_eq_ok (attempt_eq_ok.1 hdeclare)
    rw [hheld] at hp
    rw [hlocals]
    rcases List.mem_cons.1 hp with rfl | hp
    · exact Array.getElem?_push_size
    · exact getElem?_push_of_eq_some (hs p hp)

/-- The pool stays sound: locals are only added, and a slot is only put to use for the
representation it was declared with. -/
theorem invariant_sound (C : Catalog) : Invariant C Sound where
  toSteady := .of_acquire (fun s t hscratch hlocals hs p hp => by
    rw [hlocals]
    exact hs p (hscratch ▸ hp)) fun _ _ _ _ h hs => hs.acquire h
  new _ _ := by simp [Sound, Session.new, ScratchPool.empty]
  declare r := .attempt fun _ _ _ hs h => hs.declareLocal h
  endStatement := by
    intro s hs p hp
    change p ∈ s.scratch.reset.active ++ s.scratch.reset.released at hp
    exact hs p (by simpa [ScratchPool.reset] using hp)

theorem Reachable.sound {S : Scope} {o : Options} (h : Reachable S o s) : s.Sound :=
  (invariant_sound S.catalog).of_reachable h

end Sound

end Session

end Recast
