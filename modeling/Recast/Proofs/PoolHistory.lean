import Mathlib.Data.List.Dedup
import Mathlib.Data.Set.Insert
import Recast.Proofs.Statements

/-!
# The history of a pool

A pool of scratch locals is asked for slots, may be refused a new one, and is reset, in any order.
In between others declare locals of their own.  A pool keeps no history; what it holds is compared
with one that is written down beside it.

* `SlotSource` : where slots come from; a slot that is declared was not taken before;
* `ScratchPool.History` : what a pool has been through, and what was declared for it;
* `ScratchPool.Accounts` : what a pool holds agrees with its history;
* `ScratchPool.History.accounts` : it always does;
* `Session.Reachable.hasHistory` : the pool of every session has a history;
* `pool_keeps_account` : **nothing is lost, held twice or declared twice.**
-/

namespace Recast

/-- Where slots come from.  Some are taken, by whomever; more are taken as time goes on. -/
structure SlotSource (σ ε : Type) where
  /-- Declare a slot for a representation, or fail. -/
  declare : Rep → EStateM ε σ Nat
  /-- The slots that are taken. -/
  taken : σ → Set Nat
  /-- A slot that is declared was not taken. -/
  fresh : ∀ {r s slot s'}, declare r s = .ok slot s' → slot ∉ taken s
  /-- It is taken then, and what was taken before stays so. -/
  grows : ∀ {r s slot s'}, declare r s = .ok slot s' → insert slot (taken s) ⊆ taken s'
  /-- What was taken before a failure stays so. -/
  keeps : ∀ {r s e s'}, declare r s = .error e s' → taken s ⊆ taken s'

/-- Declare, and write down what is declared. -/
def SlotSource.record {σ ε : Type} (D : SlotSource σ ε) (r : Rep) :
    EStateM ε (σ × List (Rep × Nat)) Nat := fun (s, log) =>
  match D.declare r s with
  | .ok slot s' => .ok slot (s', (r, slot) :: log)
  | .error e s' => .error e (s', log)

/-- Something that happens to a pool. -/
inductive PoolEvent where
  /-- It gives a slot. -/
  | acquired (r : Rep) (slot : Nat)
  /-- It gives none. -/
  | refused (r : Rep)
  /-- The statement ends. -/
  | reset
  deriving DecidableEq

namespace PoolEvent

/-- The slot that is given, and what for. -/
def answer? : PoolEvent → Option (Rep × Nat)
  | acquired r slot => some (r, slot)
  | _ => none

/-- The slots that are given, and what for. -/
def answers (es : List PoolEvent) : List (Rep × Nat) := es.filterMap answer?

/-- What has happened since the statement began; the last comes first. -/
def sinceReset (es : List PoolEvent) : List PoolEvent := es.takeWhile (· ≠ reset)

@[simp]
theorem mem_answers {es : List PoolEvent} {r : Rep} {slot : Nat} :
    (r, slot) ∈ answers es ↔ acquired r slot ∈ es := by
  rw [answers, List.mem_filterMap]
  constructor
  · rintro ⟨e, he, heq⟩
    cases e <;> cases heq
    exact he
  · exact fun h => ⟨_, h, rfl⟩

end PoolEvent

open PoolEvent

namespace ScratchPool

/-- All scratch locals, those in use first. -/
def held (P : ScratchPool) : List (Rep × Nat) := P.active ++ P.released

section History

variable {σ ε : Type} (D : SlotSource σ ε)

/-- What a new pool has been through, the last first, and what was declared for it. -/
inductive History : List PoolEvent → ScratchPool → σ → List (Rep × Nat) → Prop
  /-- Nothing yet. -/
  | new (s : σ) : History [] .empty s []
  /-- It is asked for a slot, and gives one. -/
  | acquired {es : List PoolEvent} {P P' : ScratchPool} {s s' : σ} {log log' : List (Rep × Nat)}
      {r : Rep} {slot : Nat} (h : History es P s log)
      (hr : take D.record r (P, s, log) = .ok slot (P', s', log')) :
      History (.acquired r slot :: es) P' s' log'
  /-- It is asked for a slot, and gives none. -/
  | refused {es : List PoolEvent} {P P' : ScratchPool} {s s' : σ} {log log' : List (Rep × Nat)}
      {r : Rep} {e : ε} (h : History es P s log)
      (hr : take D.record r (P, s, log) = .error e (P', s', log')) :
      History (.refused r :: es) P' s' log'
  /-- The statement ends. -/
  | reset {es : List PoolEvent} {P : ScratchPool} {s : σ} {log : List (Rep × Nat)}
      (h : History es P s log) : History (.reset :: es) P.reset s log
  /-- What it holds is in no particular order. -/
  | reordered {es : List PoolEvent} {P P' : ScratchPool} {s : σ} {log : List (Rep × Nat)}
      (h : History es P s log) (hactive : P'.active.Perm P.active)
      (hreleased : P'.released.Perm P.released) (hdeclared : P'.declared = P.declared) :
      History es P' s log
  /-- Others declare what they need. -/
  | elsewhere {es : List PoolEvent} {P : ScratchPool} {s s' : σ} {log : List (Rep × Nat)}
      (h : History es P s log) (hs : D.taken s ⊆ D.taken s') : History es P s' log

/-- What a pool holds agrees with what it has been through. -/
structure Accounts (es : List PoolEvent) (P : ScratchPool) (s : σ) (log : List (Rep × Nat)) :
    Prop where
  /-- It holds what was declared for it. -/
  held : P.held.Perm log
  /-- Nothing is declared twice for a representation. -/
  reps : (log.map Prod.fst).Nodup
  /-- No slot is declared twice. -/
  slots : (log.map Prod.snd).Nodup
  /-- It has given what was declared. -/
  answers : ∀ p, p ∈ answers es ↔ p ∈ log
  /-- In use is what it has given since the statement began. -/
  active : ∀ p, p ∈ PoolEvent.answers (sinceReset es) ↔ p ∈ P.active
  /-- What was declared for it is taken. -/
  taken : ∀ p ∈ log, p.2 ∈ D.taken s
  /-- It has counted what was declared for it. -/
  declared : P.declared = log.length

variable {D} {es : List PoolEvent} {P P' : ScratchPool} {s s' : σ} {log log' : List (Rep × Nat)}
  {r : Rep} {slot : Nat} {e : ε}

/-! ### Acquiring -/

theorem exists_take_record (h : take D.declare r (P, s) = .ok slot (P', s'))
    (log : List (Rep × Nat)) : ∃ log', take D.record r (P, s, log) = .ok slot (P', s', log') := by
  rcases take_eq_ok h with ⟨hactive, rfl, rfl⟩ | ⟨hactive, hreleased, rfl, rfl⟩ |
    ⟨hactive, hreleased, rfl, hdeclare⟩
  · exact ⟨log, take_of_active hactive _⟩
  · exact ⟨log, take_of_released hactive hreleased _⟩
  · refine ⟨(r, slot) :: log, ?_⟩
    simp only [take_of_new hactive hreleased, SlotSource.record, hdeclare]

theorem SlotSource.record_eq_ok (h : D.record r (s, log) = .ok slot (s', log')) :
    D.declare r s = .ok slot s' ∧ log' = (r, slot) :: log := by
  unfold SlotSource.record at h
  dsimp only at h
  split at h
  case h_1 hdeclare =>
    cases h
    exact ⟨hdeclare, rfl⟩
  case h_2 => cases h

theorem SlotSource.record_eq_error (h : D.record r (s, log) = .error e (s', log')) :
    D.declare r s = .error e s' ∧ log' = log := by
  unfold SlotSource.record at h
  dsimp only at h
  split at h
  case h_1 => cases h
  case h_2 hdeclare =>
    cases h
    exact ⟨hdeclare, rfl⟩

theorem notMem_held (hactive : P.active.lookup r = none) (hreleased : P.released.lookup r = none) :
    r ∉ P.held.map Prod.fst := by
  rw [held, List.map_append, List.mem_append, not_or]
  exact ⟨Session.notMem_keys_of_lookup hactive, Session.notMem_keys_of_lookup hreleased⟩

/-! ### Accounts -/

/-- What is given is in use, whether it was held before or is declared. -/
theorem Accounts.acquired (h : Accounts D es P s log)
    (hr : take D.record r (P, s, log) = .ok slot (P', s', log')) :
    Accounts D (.acquired r slot :: es) P' s' log' := by
  have hgiven : ∀ p, p ∈ PoolEvent.answers (.acquired r slot :: es) ↔
      p = (r, slot) ∨ p ∈ log := fun p => by
    rw [← h.answers p]
    exact List.mem_cons
  have huse : ∀ p, p ∈ PoolEvent.answers (sinceReset (.acquired r slot :: es)) ↔
      p ∈ P'.active := fun p => by
    rw [mem_active_of_take hr, ← h.active p]
    exact List.mem_cons
  rcases held_of_take hr with
    ⟨hmem, hheld, hcount, hsame⟩ | ⟨hactive, hreleased, hheld, hcount, hrecord⟩
  · cases hsame
    have hlogged : (r, slot) ∈ log := h.held.mem_iff.1 hmem
    refine ⟨hheld.trans h.held, h.reps, h.slots, fun p => ?_, huse, h.taken,
      hcount.trans h.declared⟩
    rw [hgiven]
    exact ⟨fun hp => hp.elim (· ▸ hlogged) id, .inr⟩
  · obtain ⟨hdeclare, rfl⟩ := SlotSource.record_eq_ok hrecord
    have hrep : r ∉ log.map Prod.fst := fun hmem =>
      notMem_held hactive hreleased ((h.held.map _).mem_iff.2 hmem)
    have hslot : slot ∉ log.map Prod.snd := by
      intro hmem
      obtain ⟨p, hp, rfl⟩ := List.mem_map.1 hmem
      exact D.fresh hdeclare (h.taken p hp)
    refine ⟨(List.Perm.of_eq hheld).trans (h.held.cons _), List.nodup_cons.2 ⟨hrep, h.reps⟩,
      List.nodup_cons.2 ⟨hslot, h.slots⟩, fun p => ?_, huse, fun p hp => D.grows hdeclare ?_, ?_⟩
    · rw [hgiven, List.mem_cons]
    · rcases List.mem_cons.1 hp with rfl | hp
      · exact Set.mem_insert _ _
      · exact Set.mem_insert_of_mem _ (h.taken p hp)
    · rw [hcount, h.declared, List.length_cons]

theorem Accounts.refused (h : Accounts D es P s log)
    (hr : take D.record r (P, s, log) = .error e (P', s', log')) :
    Accounts D (.refused r :: es) P' s' log' := by
  obtain ⟨-, -, rfl, hrecord⟩ := take_eq_error hr
  obtain ⟨hdeclare, rfl⟩ := SlotSource.record_eq_error hrecord
  exact { h with taken := fun p hp => D.keeps hdeclare (h.taken p hp) }

/-- The end of a statement leaves nothing in use, and loses nothing. -/
theorem Accounts.reset (h : Accounts D es P s log) : Accounts D (.reset :: es) P.reset s log :=
  { h with active := fun _ => .rfl }

theorem Accounts.reordered (h : Accounts D es P s log) (hactive : P'.active.Perm P.active)
    (hreleased : P'.released.Perm P.released) (hdeclared : P'.declared = P.declared) :
    Accounts D es P' s log :=
  { h with
    held := (hactive.append hreleased).trans h.held
    active := fun p => (h.active p).trans hactive.mem_iff.symm
    declared := hdeclared.trans h.declared }

theorem Accounts.elsewhere (h : Accounts D es P s log) (hs : D.taken s ⊆ D.taken s') :
    Accounts D es P s' log :=
  { h with taken := fun p hp => hs (h.taken p hp) }

theorem History.declared (h : History D es P s log) (hr : D.declare r s = .ok slot s') :
    History D es P s' log :=
  h.elsewhere ((Set.subset_insert _ _).trans (D.grows hr))

/-- **A pool agrees with its history.** -/
theorem History.accounts (h : History D es P s log) : Accounts D es P s log := by
  induction h with
  | new s =>
    exact ⟨.refl _, .nil, .nil, fun _ => .rfl, fun _ => .rfl, fun _ hp => (nomatch hp), rfl⟩
  | acquired _ hr ih => exact ih.acquired hr
  | refused _ hr ih => exact ih.refused hr
  | reset _ ih => exact ih.reset
  | reordered _ hactive hreleased hdeclared ih =>
    exact ih.reordered hactive hreleased hdeclared
  | elsewhere _ hs ih => exact ih.elsewhere hs

theorem length_dedup_reps {l l' : List (Rep × Nat)} (h : ∀ p, p ∈ l ↔ p ∈ l')
    (hreps : (l'.map Prod.fst).Nodup) : (l.map Prod.fst).dedup.length = l'.length := by
  have hperm : (l.map Prod.fst).dedup.Perm (l'.map Prod.fst) := by
    refine (List.perm_ext_iff_of_nodup (List.nodup_dedup _) hreps).2 fun r => ?_
    simp only [List.mem_dedup, List.mem_map, h]
  rw [hperm.length_eq, List.length_map]

end History

end ScratchPool

/-! ### Sessions -/

/-- Sessions declare locals one after another, within the quota. -/
def Session.slotSource : SlotSource Session Halt where
  declare := Session.declare
  taken s := Set.Iio s.builder.locals.size
  fresh h := by
    rw [(Session.declareLocal_eq_ok (attempt_eq_ok.1 h)).1]
    exact Nat.lt_irrefl _
  grows h := by
    obtain ⟨rfl, -, hb⟩ := Session.declareLocal_eq_ok (attempt_eq_ok.1 h)
    intro i hi
    rw [hb, Set.mem_Iio, Array.size_push]
    rcases Set.mem_insert_iff.1 hi with rfl | hi
    · exact Nat.lt_succ_self _
    · exact Nat.lt_succ_of_lt hi
  keeps h := by rw [(attempt_eq_error h).1]

/-- The pool of a session has a history. -/
def Session.HasHistory (s : Session) : Prop :=
  ∃ es log, ScratchPool.History slotSource es s.scratch s log

theorem Session.HasHistory.congr {s t : Session} (h : s.HasHistory)
    (hscratch : t.scratch = s.scratch) (hsize : s.builder.locals.size ≤ t.builder.locals.size) :
    t.HasHistory := by
  obtain ⟨es, log, h⟩ := h
  rw [← hscratch] at h
  exact ⟨es, log, h.elsewhere (Set.Iio_subset_Iio hsize)⟩

theorem Session.HasHistory.acquire {s t : Session} {r : Rep} {slot : Nat}
    (h : s.HasHistory) (hr : Session.acquire r s = .ok slot t) : t.HasHistory := by
  obtain ⟨es, log, h⟩ := h
  obtain ⟨u, htake, ht⟩ := acquire_eq_ok hr
  obtain ⟨log', hrecord⟩ := ScratchPool.exists_take_record (D := slotSource) htake log
  have hb : t.builder = u.builder := by rw [ht]
  refine ⟨_, log', (h.acquired hrecord).elsewhere ?_⟩
  exact Set.Iio_subset_Iio (Nat.le_of_eq (by rw [hb]))

/-- **Every session has gone through a history of its pool**, whatever requests it has answered. -/
theorem Session.Reachable.hasHistory {S : Scope} {o : Options} {s : Session}
    (h : Session.Reachable S o s) : s.HasHistory := by
  have hinvariant : Session.Invariant S.catalog Session.HasHistory :=
    { toSteady := .of_acquire
        (fun s t hscratch hlocals hs => hs.congr hscratch (Nat.le_of_eq (by rw [hlocals])))
        fun s r slot t hr hs => hs.acquire hr
      new := fun localQuota textQuota => ⟨[], [], .new _⟩
      declare := fun r => .attempt fun s slot t hs hr => by
        obtain ⟨-, hscratch, hb⟩ := Session.declareLocal_eq_ok hr
        exact hs.congr hscratch (by simp [hb])
      endStatement := fun s hs => by
        obtain ⟨es, log, hs⟩ := hs
        exact ⟨.reset :: es, log, hs.reset.elsewhere subset_rfl⟩ }
  exact hinvariant.of_reachable h

/-- **A pool keeps account of its slots.**  It is asked for slots, refused new ones and reset in any
order, while others declare locals of their own.  Then every slot declared for it is in use or
released, once and for its representation, and it holds no other.  No two slots are declared for a
representation.  It always gives the same slot for a representation, and never the same for two.  It
has counted as many declarations as there are representations that it was asked for with success,
and those it was asked for with success since the statement began are in use.  Only a representation
without a slot can be refused one, if its declaration fails, and then the pool is left as it was; so
is a session that is refused a scratch local. -/
theorem pool_keeps_account {σ ε : Type} {D : SlotSource σ ε} {es : List PoolEvent}
    {P : ScratchPool} {s : σ} {log : List (Rep × Nat)} (h : ScratchPool.History D es P s log) :
    (∀ r slot, (r, slot) ∈ log → (r, slot) ∈ P.held ∧ (P.held.map Prod.snd).count slot = 1) ∧
    (∀ p ∈ P.held, p ∈ log) ∧
    (log.map Prod.fst).Nodup ∧
    (∀ r slot slot', .acquired r slot ∈ es → .acquired r slot' ∈ es → slot = slot') ∧
    (∀ r r' slot, .acquired r slot ∈ es → .acquired r' slot ∈ es → r = r') ∧
    P.declared = log.length ∧
    P.declared = ((answers es).map Prod.fst).dedup.length ∧
    P.active.length = ((answers (sinceReset es)).map Prod.fst).dedup.length ∧
    (∀ r e P' s', ScratchPool.take D.declare r (P, s) = .error e (P', s') →
      P' = P ∧ D.declare r s = .error e s' ∧ ∀ slot, .acquired r slot ∉ es) ∧
    ∀ r e (t u : Session), Session.acquire r t = .error e u → u = t := by
  have hacc := h.accounts
  have hlogged : ∀ r slot, PoolEvent.acquired r slot ∈ es → (r, slot) ∈ log := fun r slot hmem =>
    (hacc.answers _).1 (mem_answers.2 hmem)
  refine ⟨fun r slot hmem => ⟨hacc.held.mem_iff.2 hmem, ?_⟩, fun p => hacc.held.mem_iff.1,
    hacc.reps, ?_, ?_, hacc.declared, ?_, ?_, ?_, ?_⟩
  · rw [(hacc.held.map Prod.snd).count_eq]
    exact List.count_eq_one_of_mem hacc.slots (List.mem_map_of_mem hmem)
  · intro r slot slot' hmem hmem'
    have heq := List.inj_on_of_nodup_map hacc.reps (hlogged _ _ hmem) (hlogged _ _ hmem') rfl
    exact congrArg Prod.snd heq
  · intro r r' slot hmem hmem'
    have heq := List.inj_on_of_nodup_map hacc.slots (hlogged _ _ hmem) (hlogged _ _ hmem') rfl
    exact congrArg Prod.fst heq
  · rw [hacc.declared, ScratchPool.length_dedup_reps hacc.answers hacc.reps]
  · have hactive : (P.active.map Prod.fst).Nodup := by
      have hheld := (hacc.held.map Prod.fst).nodup_iff.2 hacc.reps
      rw [ScratchPool.held, List.map_append] at hheld
      exact hheld.of_append_left
    rw [ScratchPool.length_dedup_reps hacc.active hactive]
  · intro r e P' s' hr
    obtain ⟨hactive, hreleased, hP, hdeclare⟩ := ScratchPool.take_eq_error hr
    refine ⟨hP, hdeclare, fun slot hmem => ?_⟩
    have hkey := List.mem_map_of_mem (f := Prod.fst) (hacc.held.mem_iff.2 (hlogged r slot hmem))
    exact ScratchPool.notMem_held hactive hreleased hkey
  · intro r e t u hr
    exact (Session.acquire_eq_error hr).1

/-- Two statements.  In the first, a local is declared elsewhere in between, and the quota is used
up; the second takes a slot of the first again. -/
theorem history_two_statements : ∃ s, ScratchPool.History Session.slotSource
    [.acquired .number 2, .reset, .refused .array, .acquired .number 2, .acquired .value 0]
    ⟨[(.number, 2)], [(.value, 0)], 2⟩ s [(.number, 2), (.value, 0)] := by
  have h₀ := ScratchPool.History.new (D := Session.slotSource) (Session.new (some 3) none)
  have h₁ := h₀.acquired (r := .value) rfl
  have h₂ := (h₁.declared (r := .text) rfl).acquired (r := .number) rfl
  have h₃ := (h₂.refused (r := .array) rfl).reset
  exact ⟨_, h₃.acquired (r := .number) rfl⟩

theorem pool_keeps_account_two_statements : ∃ s,
    ScratchPool.History Session.slotSource
      [.acquired .number 2, .reset, .refused .array, .acquired .number 2, .acquired .value 0]
      ⟨[(.number, 2)], [(.value, 0)], 2⟩ s [(.number, 2), (.value, 0)] ∧
    ScratchPool.declared ⟨[(.number, 2)], [(.value, 0)], 2⟩ = 2 := by
  obtain ⟨s, h⟩ := history_two_statements
  exact ⟨s, h, (pool_keeps_account h).2.2.2.2.2.1⟩

end Recast
