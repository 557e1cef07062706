import Mathlib.Data.List.Perm.Basic
import Recast.Proofs.ScratchUse

/-!
# Statements

The end of a statement releases the scratch locals, in no particular order, and what is released is
taken again before anything is declared.  Every representation has one scratch local at most, in use
or released, so nothing depends on which of both it is, or on the order.

* `ScratchPool.Drains` : the ways to release what is in use;
* `Session.Alike` : two sessions that differ in what is in use and what is released;
* `Session.blind_answer` : **no request can tell such sessions apart**;
* `Runs` : what requests are answered, whatever the order of release;
* `end_statement_invisible` : **where statements end makes no difference** to what is answered and
  emitted.
-/

namespace Recast

/-- What is in use is released, in any order. -/
inductive ScratchPool.Drains (P : ScratchPool) : ScratchPool → Prop
  /-- What is released last is found first. -/
  | intro {drained : List (Rep × Nat)} (h : drained.Perm P.active) :
      Drains P { P with active := [], released := drained ++ P.released }

namespace Session

/-- The same code and quotas, and the same scratch locals, of which each representation has one at
most.  Which of them are in use may differ. -/
structure Alike (s t : Session) : Prop where
  /-- The code is the same. -/
  builder : t.builder = s.builder
  /-- As many locals may be declared. -/
  localQuota : t.localQuota = s.localQuota
  /-- As many texts may be interned. -/
  textQuota : t.textQuota = s.textQuota
  /-- The scratch locals are the same. -/
  pool : t.pool.Perm s.pool
  /-- No representation has two of them. -/
  keys : (s.pool.map Prod.fst).Nodup
  /-- As many have been declared. -/
  declared : t.scratch.declared = s.scratch.declared

/-- Two ways to end, with the same result or for the same reason, in sessions that are alike. -/
inductive Matches {α : Type} : EStateM.Result Halt Session α → EStateM.Result Halt Session α → Prop
  /-- Both have a result. -/
  | ok {x : α} {s t : Session} (h : s.Alike t) : Matches (.ok x s) (.ok x t)
  /-- Both halt. -/
  | error {e : Halt} {s t : Session} (h : s.Alike t) : Matches (.error e s) (.error e t)

/-- An action that cannot tell sessions apart that are alike. -/
def Blind {α : Type} (a : Action α) : Prop := ∀ s t, s.Alike t → Matches (a s) (a t)

/-! ### The pool -/

section Pool

variable {l l' : List (Rep × Nat)} {s t : Session} {r : Rep} {slot : Nat}

theorem lookup_eq_of_perm (h : l'.Perm l) (hkeys : (l.map Prod.fst).Nodup) :
    l'.lookup r = l.lookup r := by
  induction h with
  | nil => rfl
  | cons p _ ih => rw [List.lookup_cons, List.lookup_cons, ih (List.nodup_cons.1 hkeys).2]
  | swap p q l =>
    have hne : p.1 ≠ q.1 := by
      rw [List.map_cons, List.map_cons, List.nodup_cons, List.mem_cons, not_or] at hkeys
      exact hkeys.1.1
    rw [List.lookup_cons, List.lookup_cons, List.lookup_cons, List.lookup_cons]
    by_cases hp : r = p.1
    · rw [hp, beq_self_eq_true, beq_false_of_ne hne]
    · rw [beq_false_of_ne hp]
  | trans _ h₂ ih₁ ih₂ => rw [ih₁ ((h₂.map Prod.fst).nodup_iff.2 hkeys), ih₂ hkeys]

theorem notMem_keys_of_lookup (h : l.lookup r = none) : r ∉ l.map Prod.fst := by
  intro hmem
  obtain ⟨p, hp, rfl⟩ := List.mem_map.1 hmem
  simpa using List.lookup_eq_none_iff.1 h p hp

theorem acquire_of_lookup (h : s.pool.lookup r = some slot) : ∃ P : ScratchPool,
    acquire r s = .ok slot { s with scratch := P } ∧ (P.active ++ P.released).Perm s.pool ∧
      P.declared = s.scratch.declared := by
  rw [pool, List.lookup_append] at h
  have htake : ∃ P, ScratchPool.take declare r (s.scratch, s) = .ok slot (P, s) := by
    cases hactive : s.scratch.active.lookup r with
    | some i =>
      rw [hactive] at h
      cases h
      exact ⟨_, ScratchPool.take_of_active hactive s⟩
    | none =>
      rw [hactive, Option.none_or] at h
      exact ⟨_, ScratchPool.take_of_released hactive h s⟩
  obtain ⟨P, htake⟩ := htake
  refine ⟨P, by rw [acquire, htake], ?_⟩
  rcases ScratchPool.held_of_take htake with
    ⟨-, hheld, hdeclared, -⟩ | ⟨hactive, hreleased, -⟩
  · exact ⟨hheld, hdeclared⟩
  · rw [hactive, hreleased] at h
    cases h

theorem acquire_of_lookup_eq_none (h : s.pool.lookup r = none) : acquire r s =
    match s.declareLocal r with
    | .ok (slot, s') => .ok slot { s' with scratch := s.scratch.count.activate r slot }
    | .error e => .error (.failed e) s := by
  rw [pool, List.lookup_append, Option.or_eq_none_iff] at h
  rw [acquire, ScratchPool.take_of_new h.1 h.2, declare, attempt]
  cases s.declareLocal r <;> rfl

end Pool

/-! ### Sessions that are alike -/

section Blind

variable {α β : Type} {a : Action α} {f : α → Action β} {C : Catalog} {s t u : Session}

theorem Alike.refl (h : (s.pool.map Prod.fst).Nodup) : s.Alike s :=
  ⟨rfl, rfl, rfl, .refl _, h, rfl⟩

theorem Alike.with_builder (h : s.Alike t) (b : Builder) :
    Alike { s with builder := b } { t with builder := b } :=
  ⟨rfl, h.localQuota, h.textQuota, h.pool, h.keys, h.declared⟩

theorem Blind.pure (x : α) : Blind (pure x : Action α) := fun _ _ h => .ok h

theorem Blind.throw (e : Halt) : Blind (throw e : Action α) := fun _ _ h => .error h

theorem Blind.bind (ha : Blind a) (hf : ∀ x, Blind (f x)) : Blind (a >>= f) := by
  intro s t h
  have hmatches := ha s t h
  change Matches (EStateM.bind a f s) (EStateM.bind a f t)
  unfold EStateM.bind
  generalize a s = x, a t = y at hmatches
  cases hmatches with
  | ok h => exact hf _ _ _ h
  | error h => exact .error h

theorem Blind.map (g : α → β) (ha : Blind a) : Blind (g <$> a) := by
  rw [← bind_pure_comp]
  exact ha.bind fun x => .pure (g x)

/-- Only the code may be asked for. -/
theorem Blind.get_bind {g : Session → Action β}
    (h : ∀ s t, s.Alike t → g s = g t) (hg : ∀ s, Blind (g s)) : Blind (get >>= g) := by
  intro s t hst
  have hmatches := hg s s
  change Matches (g s s) (g t t)
  rw [← h s t hst]
  exact hg s s t hst

theorem blind_emit (i : Instr) : Blind (emit C i) := by
  intro s t h
  unfold emit
  rw [h.builder]
  cases s.builder.emit C i with
  | ok b => exact .ok (h.with_builder b)
  | error f => exact .error h

theorem blind_defineLabel : Blind defineLabel := by
  intro s t h
  unfold defineLabel
  rw [h.builder]
  exact .ok (h.with_builder _)

theorem declareLocal_alike (h : s.Alike t) (r : Rep) :
    (∃ e, s.declareLocal r = .error e ∧ t.declareLocal r = .error e) ∨
      ∃ slot s' t', s.declareLocal r = .ok (slot, s') ∧ t.declareLocal r = .ok (slot, t') ∧
        s'.Alike t' := by
  unfold declareLocal
  rw [h.builder, h.localQuota]
  split_ifs
  · exact .inl ⟨_, rfl, rfl⟩
  · cases s.builder.declare? r with
    | none => exact .inl ⟨_, rfl, rfl⟩
    | some p =>
      exact .inr ⟨_, _, _, rfl, rfl, rfl, rfl, h.textQuota, h.pool, h.keys, h.declared⟩

theorem blind_declare (r : Rep) : Blind (declare r) := by
  intro s t h
  unfold declare attempt
  rcases declareLocal_alike h r with ⟨e, hs, ht⟩ | ⟨slot, s', t', hs, ht, h'⟩
  · rw [hs, ht]
    exact .error h
  · rw [hs, ht]
    exact .ok h'

theorem blind_intern (x : String) : Blind (intern x) := by
  intro s t h
  unfold intern attempt internText
  rw [h.builder, h.textQuota]
  split_ifs
  · exact .error h
  · exact .ok ⟨rfl, h.localQuota, rfl, h.pool, h.keys, h.declared⟩

/-- The scratch local of a representation is the same, wherever it is. -/
theorem blind_acquire (r : Rep) : Blind (acquire r) := by
  intro s t h
  have hlookup : t.pool.lookup r = s.pool.lookup r := lookup_eq_of_perm h.pool h.keys
  cases hs : s.pool.lookup r with
  | some slot =>
    obtain ⟨P, hP, hpool, hdeclared⟩ := acquire_of_lookup hs
    obtain ⟨Q, hQ, hpool', hdeclared'⟩ := acquire_of_lookup (hlookup.trans hs)
    rw [hP, hQ]
    refine .ok ⟨h.builder, h.localQuota, h.textQuota, ?_, ?_, ?_⟩
    · exact hpool'.trans (h.pool.trans hpool.symm)
    · exact (hpool.map Prod.fst).nodup_iff.2 h.keys
    · exact hdeclared'.trans (h.declared.trans hdeclared.symm)
  | none =>
    rw [acquire_of_lookup_eq_none hs, acquire_of_lookup_eq_none (hlookup.trans hs)]
    rcases declareLocal_alike h r with ⟨e, hs', ht'⟩ | ⟨slot, s', t', hs', ht', h'⟩
    · rw [hs', ht']
      exact .error h
    · rw [hs', ht']
      refine .ok ⟨h'.builder, h'.localQuota, h'.textQuota, h.pool.cons (r, slot), ?_, ?_⟩
      · exact List.nodup_cons.2 ⟨notMem_keys_of_lookup hs, h.keys⟩
      · exact congrArg (· + 1) h.declared

theorem blind_endStatement : Blind endStatement := fun _ _ h =>
  .ok ⟨h.builder, h.localQuota, h.textQuota, h.pool, h.keys, h.declared⟩

/-! ### Plans and requests -/

theorem Alike.forkLabels (h : s.Alike t) : t.forkLabels = s.forkLabels := by
  rw [Session.forkLabels, h.builder, Session.forkLabels]

theorem blind_perform (x : Step) : Blind (perform C x) := by
  cases x with
  | emit i => exact blind_emit i
  | text x => exact (blind_intern x).bind fun _ => blind_emit _
  | invoke x returnsValue => exact (blind_intern x).bind fun _ => blind_emit _
  | reserve r => exact (blind_acquire r).bind fun _ => .pure ()
  | store r => exact (blind_acquire r).bind fun _ => blind_emit _
  | address r => exact (blind_acquire r).bind fun _ => blind_emit _
  | fork => exact blind_defineLabel.bind fun _ => blind_defineLabel.bind fun _ => .pure ()
  | brAbsent | brEnd | markAbsent | markEnd =>
    exact .get_bind (fun s t h => by rw [h.forkLabels]) fun _ => blind_emit _

theorem blind_performAll (ts : List Step) : Blind (performAll C ts) := by
  induction ts with
  | nil => exact .pure ()
  | cons x ts ih => exact (blind_perform x).bind fun _ => ih

theorem blind_run (p : Script α) : Blind (run C p) := by
  refine (blind_performAll p.steps).bind fun _ => ?_
  cases p.result with
  | ok a => exact .pure a
  | error e => exact .throw _

theorem blind_spill (r : Rep) : Blind (spill C r) := by
  have haddress : Blind (acquire r >>= fun slot => do
      emit C (.stLoc slot)
      emit C (.ldLocA slot)
      return slot) :=
    (blind_acquire r).bind fun slot => (blind_emit _).bind fun _ => (blind_emit _).bind fun _ =>
      .pure slot
  unfold spill
  split
  · exact (Blind.throw _).bind fun _ => haddress
  · exact haddress

theorem blind_declareMany (r : Rep) (n : Nat) : Blind (Request.declareMany r n) := by
  match n with
  | 0 => exact .pure 0
  | 1 => exact blind_declare r
  | n + 2 => exact (blind_declare r).bind fun _ => blind_declareMany r (n + 1)

/-- **No request can tell sessions apart that are alike.** -/
theorem blind_answer {S : Scope} {o : Options} (q : Request) : Blind (q.answer S o) := by
  cases q with
  | emit i => exact (blind_emit i).bind fun _ => .pure _
  | intern x => exact (blind_intern x).map _
  | declare r count => exact (blind_declareMany r count).map _
  | label => exact blind_defineLabel.map _
  | endStatement => exact blind_endStatement.bind fun _ => .pure _
  | spill source => exact (blind_spill source).map _
  | _ => exact blind_run _

end Blind

end Session

/-! ### Runs -/

open Session

/-- What an action ends with. -/
def Session.outcome {α : Type} (a : Action α) (s : Session) : Except Halt α :=
  match a s with
  | .ok x _ => .ok x
  | .error e _ => .error e

/-- The request ends a statement. -/
def Request.endsStatement : Request → Bool
  | endStatement => true
  | _ => false

/-- The session that some requests lead to, whatever becomes of each. -/
def Session.through (S : Scope) (o : Options) (qs : List Request) (s : Session) : Session :=
  qs.foldl (fun s q => endOf (q.answer S o) s) s

/-- What some requests but the ends of statements are answered.  After a request that failed or was
refused the session goes on. -/
def Session.replies (S : Scope) (o : Options) : List Request → Session → List (Except Halt Reply)
  | [], _ => []
  | q :: qs, s =>
    let rest := replies S o qs (endOf (q.answer S o) s)
    if q.endsStatement then rest else outcome (q.answer S o) s :: rest

/-- The same, but the end of a statement releases the scratch locals in any order. -/
inductive Runs (S : Scope) (o : Options) :
    Session → List Request → List (Except Halt Reply) → Session → Prop
  /-- Nothing is requested. -/
  | nil {s : Session} : Runs S o s [] [] s
  /-- A statement ends. -/
  | endStatement {s t : Session} {P : ScratchPool} {qs : List Request}
      {replies : List (Except Halt Reply)} (hP : s.scratch.Drains P)
      (h : Runs S o { s with scratch := P } qs replies t) :
      Runs S o s (.endStatement :: qs) replies t
  /-- Anything else is requested. -/
  | request {s t : Session} {q : Request} {qs : List Request}
      {replies : List (Except Halt Reply)} (hq : q.endsStatement = false)
      (h : Runs S o (endOf (q.answer S o) s) qs replies t) :
      Runs S o s (q :: qs) (outcome (q.answer S o) s :: replies) t

section Runs

variable {S : Scope} {o : Options} {s s₀ t t₀ : Session} {P : ScratchPool} {qs : List Request}
  {rs rs₀ : List (Except Halt Reply)}

theorem ScratchPool.drains_reset (P : ScratchPool) : P.Drains P.reset := .intro (.refl P.active)

theorem Session.Alike.drains (h : s₀.Alike s) (hP : s.scratch.Drains P) :
    s₀.Alike { s with scratch := P } := by
  obtain ⟨hdrained⟩ := hP
  exact ⟨h.builder, h.localQuota, h.textQuota, (hdrained.append_right _).trans h.pool, h.keys,
    h.declared⟩

theorem Session.Blind.outcome_eq {α : Type} {a : Action α} (ha : Blind a) (h : s.Alike t) :
    outcome a t = outcome a s ∧ (endOf a s).Alike (endOf a t) := by
  have hmatches := ha s t h
  unfold outcome endOf
  generalize a s = x, a t = y at hmatches
  cases hmatches with
  | ok h => exact ⟨rfl, h⟩
  | error h => exact ⟨rfl, h⟩

theorem Runs.own (S : Scope) (o : Options) (qs : List Request) (s : Session) :
    Runs S o s qs (s.replies S o qs) (s.through S o qs) := by
  induction qs generalizing s with
  | nil => exact .nil
  | cons q qs ih =>
    have hrest := ih (endOf (q.answer S o) s)
    cases hq : q.endsStatement with
    | false =>
      rw [replies, hq]
      exact .request hq hrest
    | true =>
      obtain rfl : q = .endStatement := by cases q <;> first | rfl | cases hq
      exact .endStatement s.scratch.drains_reset hrest

/-- A run without the end of any statement answers the same, and leaves a session that is alike. -/
theorem Runs.alike (h : Runs S o s qs rs t)
    (h₀ : Runs S o s₀ (qs.filter (!·.endsStatement)) rs₀ t₀) (hs : s₀.Alike s) :
    rs = rs₀ ∧ t₀.Alike t := by
  induction h generalizing s₀ rs₀ with
  | nil =>
    cases h₀
    exact ⟨rfl, hs⟩
  | endStatement hP _ ih => exact ih h₀ (hs.drains hP)
  | request hq _ ih =>
    rw [List.filter_cons_of_pos (by simp [hq])] at h₀
    cases h₀ with
    | endStatement => cases hq
    | request _ h₀ =>
      obtain ⟨houtcome, hs'⟩ := (blind_answer _).outcome_eq hs
      obtain ⟨rfl, ht⟩ := ih h₀ hs'
      exact ⟨congrArg (· :: _) houtcome, ht⟩

end Runs

/-- **The end of a statement is invisible.**  Some requests are gone through in a new session under
any quotas, whatever becomes of each, and so are other requests that differ in the ends of
statements only.  However the latter are gone through, and in whatever order scratch locals are
released meanwhile, all are answered as the former are, with the same errors, the code is the same
in all its parts, with the same slots, locals, texts and labels, the same is left of the quotas,
and as many scratch locals have been declared. -/
theorem end_statement_invisible {S : Scope} {o : Options} {localQuota textQuota : Option Nat}
    {qs qs' : List Request}
    (hqs : qs'.filter (!·.endsStatement) = qs.filter (!·.endsStatement)) :
    let s := new localQuota textQuota
    let t := s.through S o qs
    Runs S o s qs' (s.replies S o qs') (s.through S o qs') ∧
      ∀ rs' t', Runs S o s qs' rs' t' → rs' = s.replies S o qs ∧ t'.builder = t.builder ∧
        t'.localQuota = t.localQuota ∧ t'.textQuota = t.textQuota ∧
        t'.scratch.declared = t.scratch.declared := by
  intro s t
  refine ⟨.own S o qs' s, fun rs' t' h' => ?_⟩
  have hnew : s.Alike s := .refl List.nodup_nil
  -- both are compared with a run in which no statement ends
  let silent := qs.filter (!·.endsStatement)
  have h₀ : Runs S o s silent (s.replies S o silent) (s.through S o silent) := .own S o silent s
  have h₀' : Runs S o s (qs'.filter (!·.endsStatement)) (s.replies S o silent)
      (s.through S o silent) := by
    rw [hqs]
    exact h₀
  obtain ⟨hreplies, ht⟩ := (Runs.own S o qs s).alike h₀ hnew
  obtain ⟨hreplies', ht'⟩ := h'.alike h₀' hnew
  exact ⟨hreplies'.trans hreplies.symm, ht'.builder.trans ht.builder.symm,
    ht'.localQuota.trans ht.localQuota.symm, ht'.textQuota.trans ht.textQuota.symm,
    ht'.declared.trans ht.declared.symm⟩

/-- A union and a number are spilled, and then another number: to the same slot, whether the
statement has ended in between or not. -/
theorem end_statement_invisible_spill : ∃ (first next : List Request) (t' : Session),
    let S := Scope.standard .new none
    let s := new none none
    Runs S .standard s (first ++ .endStatement :: next) (s.replies S .standard (first ++ next)) t' ∧
      (s.replies S .standard (first ++ next)).getLast? = some (.ok (.index 1)) ∧
      t'.builder = (s.through S .standard (first ++ next)).builder ∧
      t'.scratch ≠ (s.through S .standard (first ++ next)).scratch := by
  let S := Scope.standard .new none
  let first : List Request :=
    [.emit .ldNull, .spill .value, .emit .ldNull, .spill .number, .emit .ldNull]
  let next : List Request := [.spill .number]
  have hactive : ((new none none).through S .standard first).scratch.active =
      [(.number, 1), (.value, 0)] := by decide +kernel
  have hdrains : ((new none none).through S .standard first).scratch.Drains
      ⟨[], [(.value, 0), (.number, 1)] ++ _, _⟩ := .intro (hactive ▸ .swap _ _ _)
  have h' : Runs S .standard (new none none) (first ++ .endStatement :: next) _ _ :=
    .request rfl (.request rfl (.request rfl (.request rfl (.request rfl
      (.endStatement hdrains (.request rfl .nil))))))
  have hqs : (first ++ .endStatement :: next).filter (!·.endsStatement) =
      (first ++ next).filter (!·.endsStatement) := rfl
  obtain ⟨hreplies, hbuilder, -⟩ := (end_statement_invisible hqs).2 _ _ h'
  refine ⟨first, next, _, hreplies ▸ h', ?_, hbuilder, ?_⟩
  · decide +kernel
  · decide +kernel

end Recast
