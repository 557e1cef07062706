import Mathlib.Tactic.SplitIfs
import Recast.Session

/-!
# The code of a plan

A plan names its scratch locals by representation, its texts by themselves and its branch
targets by role.  A `Numbering` says which slots, indices and labels stand for them, and
`Numbering.code` is the code of a plan under a numbering.

* `Session.performAll_code` : **carrying out a plan appends its code**, or that of the steps
  before the one that could not be taken, numbered as the session numbers in the end;
* `Session.Grows` : what a plan has numbered keeps its number while the plan is carried out;
* `Session.numbers_of_performAll` : the numbers in the code stand for what the plan names.
-/

namespace Recast

/-! ### Numberings -/

/-- The representation whose scratch local a step takes hold of. -/
def Step.scratch? : Step → Option Rep
  | .reserve r | .store r | .address r => some r
  | _ => none

/-- The text that a step interns. -/
def Step.interned? : Step → Option String
  | .text s | .invoke s _ => some s
  | _ => none

/-- What stands for the names in a plan. -/
structure Numbering where
  /-- The slot of the scratch local of a representation. -/
  slot : Rep → Nat
  /-- The index of a text. -/
  text : String → Nat
  /-- The number of labels defined so far. -/
  labels : Nat

namespace Numbering

variable (N : Numbering)

/-- The numbering after a step: a fork defines two labels. -/
def after : Step → Numbering
  | .fork => { N with labels := N.labels + 2 }
  | _ => N

/-- The numbering after some steps. -/
def afterAll (ts : List Step) : Numbering := ts.foldl after N

/-- The instruction that a step becomes, if it becomes one. -/
def instr? : Step → Option Instr
  | .emit i => some i
  | .text s => some (.ldStr (N.text s))
  | .invoke s returnsValue => some (.invoke (N.text s) returnsValue)
  | .store r => some (.stLoc (N.slot r))
  | .address r => some (.ldLocA (N.slot r))
  | .brAbsent => some (.brFalse ⟨N.labels - 2⟩)
  | .brEnd => some (.br ⟨N.labels - 1⟩)
  | .markAbsent => some (.mark ⟨N.labels - 2⟩)
  | .markEnd => some (.mark ⟨N.labels - 1⟩)
  | .reserve _ | .fork => none

/-- The code of some steps. -/
def code : Numbering → List Step → List Instr
  | _, [] => []
  | N, t :: ts => (N.instr? t).toList ++ code (N.after t) ts

@[simp]
theorem code_nil : N.code [] = [] := rfl

@[simp]
theorem code_cons (t : Step) (ts : List Step) :
    N.code (t :: ts) = (N.instr? t).toList ++ (N.after t).code ts := rfl

@[simp]
theorem afterAll_nil : N.afterAll [] = N := rfl

@[simp]
theorem afterAll_cons (t : Step) (ts : List Step) :
    N.afterAll (t :: ts) = (N.after t).afterAll ts := rfl

theorem afterAll_append (ts us : List Step) :
    N.afterAll (ts ++ us) = (N.afterAll ts).afterAll us := List.foldl_append

theorem code_append (ts us : List Step) :
    N.code (ts ++ us) = N.code ts ++ (N.afterAll ts).code us := by
  induction ts generalizing N with
  | nil => rfl
  | cons t ts ih => simp only [List.cons_append, code_cons, ih, afterAll_cons, List.append_assoc]

@[simp]
theorem slot_after (t : Step) : (N.after t).slot = N.slot := by
  cases t <;> rfl

@[simp]
theorem text_after (t : Step) : (N.after t).text = N.text := by
  cases t <;> rfl

@[simp]
theorem slot_afterAll (ts : List Step) : (N.afterAll ts).slot = N.slot := by
  induction ts generalizing N with
  | nil => rfl
  | cons t ts ih => rw [afterAll_cons, ih, slot_after]

@[simp]
theorem text_afterAll (ts : List Step) : (N.afterAll ts).text = N.text := by
  induction ts generalizing N with
  | nil => rfl
  | cons t ts ih => rw [afterAll_cons, ih, text_after]

/-- The numbers stand for what some steps name: a slot for a local of the representation, an
index for the text. -/
structure Valid (locals : Array Rep) (texts : Array String) (ts : List Step) : Prop where
  /-- Each slot is declared with the representation it stands for. -/
  slot : ∀ t ∈ ts, ∀ r, t.scratch? = some r → locals[N.slot r]? = some r
  /-- Each index is that of the text it stands for. -/
  text : ∀ t ∈ ts, ∀ s, t.interned? = some s → texts[N.text s]? = some s

end Numbering

/-! ### Texts -/

section Texts

variable {texts : Array String} {s u : String} {i : Nat}

theorem getElem?_of_idxOf? (h : texts.idxOf? s = some i) : texts[i]? = some s := by
  obtain ⟨l⟩ := texts
  rw [List.idxOf?_toArray, List.idxOf?, List.findIdx?_eq_some_iff_getElem] at h
  obtain ⟨hi, hs, -⟩ := h
  simpa [hi] using hs

theorem idxOf?_push (h : texts.idxOf? s = some i) : (texts.push u).idxOf? s = some i := by
  obtain ⟨l⟩ := texts
  rw [List.idxOf?_toArray, List.idxOf?] at h
  rw [List.push_toArray, List.idxOf?_toArray, List.idxOf?, List.findIdx?_append, h]
  rfl

theorem idxOf?_push_self (h : texts.idxOf? s = none) :
    (texts.push s).idxOf? s = some texts.size := by
  obtain ⟨l⟩ := texts
  rw [List.idxOf?_toArray, List.idxOf?] at h
  rw [List.push_toArray, List.idxOf?_toArray, List.idxOf?, List.findIdx?_append, h]
  simp

end Texts

theorem Builder.idxOf?_intern (b : Builder) (s : String) :
    (b.intern s).2.texts.idxOf? s = some (b.intern s).1 := by
  unfold Builder.intern
  split
  · assumption
  · exact idxOf?_push_self ‹_›

/-- The texts once a text has been interned. -/
def internInto (texts : Array String) (s : String) : Array String :=
  if (texts.idxOf? s).isSome then texts else texts.push s

theorem Builder.texts_intern (b : Builder) (s : String) :
    (b.intern s).2.texts = internInto b.texts s := by
  unfold Builder.intern internInto
  cases h : b.texts.idxOf? s <;> rfl

theorem Builder.intern_eq (b : Builder) (s : String) :
    (b.intern s).2 = { b with texts := internInto b.texts s } := by
  rw [← b.texts_intern s]
  unfold intern
  split <;> rfl

theorem Builder.emit_frame {C : Catalog} {b b' : Builder} {i : Instr} (h : b.emit C i = .ok b') :
    b'.instrs = b.instrs.push i ∧ b'.texts = b.texts ∧ b'.locals = b.locals ∧
      b'.labels = b.labels := by
  unfold emit at h
  dsimp only at h
  split_ifs at h
  cases h
  exact ⟨rfl, rfl, rfl, rfl⟩

/-! ### Scratch locals -/

namespace ScratchPool

variable {P P' : ScratchPool} {r q : Rep} {slot : Nat}

theorem lookup_activate :
    (P.activate r slot).active.lookup q = if q = r then some slot else P.active.lookup q := by
  unfold activate
  by_cases hq : q = r
  · rw [if_pos hq, hq, List.lookup_cons_self]
  · rw [if_neg hq, List.lookup_cons, beq_false_of_ne hq]

theorem pop_eq_some (h : P.pop r = (some slot, P')) :
    P.released.lookup r = some slot ∧
      P' = { P with released := P.released.erase (r, slot) } := by
  unfold pop at h
  split at h
  case h_1 hlookup =>
    cases h
    exact ⟨hlookup, rfl⟩
  case h_2 => cases h

theorem pop_eq_none (h : P.pop r = (none, P')) : P.released.lookup r = none ∧ P' = P := by
  unfold pop at h
  split at h
  case h_1 => cases h
  case h_2 hlookup =>
    cases h
    exact ⟨hlookup, rfl⟩

theorem mem_of_lookup {l : List (Rep × Nat)} (h : l.lookup r = some slot) : (r, slot) ∈ l := by
  obtain ⟨l₁, l₂, heq, -⟩ := List.lookup_eq_some_iff.1 h
  simp [heq]

section Take

variable {σ ε : Type} {declare : Rep → EStateM ε σ Nat} {s s' : σ} {e : ε}

/-- A slot is in use already, has been released, or is declared. -/
theorem take_eq_ok (h : take declare r (P, s) = .ok slot (P', s')) :
    (P.active.lookup r = some slot ∧ P' = P ∧ s' = s) ∨
      (P.active.lookup r = none ∧ P.released.lookup r = some slot ∧
        P' = { P with released := P.released.erase (r, slot) }.activate r slot ∧ s' = s) ∨
      (P.active.lookup r = none ∧ P.released.lookup r = none ∧
        P' = P.count.activate r slot ∧ declare r s = .ok slot s') := by
  unfold take at h
  dsimp only at h
  split at h
  case h_1 hactive =>
    cases h
    exact .inl ⟨hactive, rfl, rfl⟩
  case h_2 hactive =>
    split at h
    case h_1 hpop =>
      cases h
      obtain ⟨hreleased, rfl⟩ := pop_eq_some hpop
      exact .inr (.inl ⟨hactive, hreleased, rfl, rfl⟩)
    case h_2 hpop =>
      obtain ⟨hreleased, rfl⟩ := pop_eq_none hpop
      split at h
      case h_1 hdeclare =>
        cases h
        exact .inr (.inr ⟨hactive, hreleased, rfl, hdeclare⟩)
      case h_2 => cases h

/-- A slot that is taken was held, or is declared and counted. -/
theorem held_of_take (h : take declare r (P, s) = .ok slot (P', s')) :
    ((r, slot) ∈ P.active ++ P.released ∧
        (P'.active ++ P'.released).Perm (P.active ++ P.released) ∧ P'.declared = P.declared ∧
        s' = s) ∨
      (P.active.lookup r = none ∧ P.released.lookup r = none ∧
        P'.active ++ P'.released = (r, slot) :: (P.active ++ P.released) ∧
        P'.declared = P.declared + 1 ∧ declare r s = .ok slot s') := by
  rcases take_eq_ok h with ⟨hactive, rfl, rfl⟩ | ⟨hactive, hreleased, rfl, rfl⟩ |
    ⟨hactive, hreleased, rfl, hdeclare⟩
  · exact .inl ⟨List.mem_append_left _ (mem_of_lookup hactive), .refl _, rfl, rfl⟩
  · have hmem := mem_of_lookup hreleased
    refine .inl ⟨List.mem_append_right _ hmem, ?_, rfl, rfl⟩
    -- the slot moves from those that are released to those in use
    exact List.perm_middle.symm.trans ((List.perm_cons_erase hmem).symm.append_left _)
  · exact .inr ⟨hactive, hreleased, rfl, rfl, hdeclare⟩

theorem mem_active_of_take (h : take declare r (P, s) = .ok slot (P', s')) {p : Rep × Nat} :
    p ∈ P'.active ↔ p = (r, slot) ∨ p ∈ P.active := by
  rcases take_eq_ok h with ⟨hactive, rfl, -⟩ | ⟨-, -, rfl, -⟩ | ⟨-, -, rfl, -⟩
  · exact ⟨.inr, fun hp => hp.elim (· ▸ mem_of_lookup hactive) id⟩
  · exact List.mem_cons
  · exact List.mem_cons

/-- Only a declaration can fail, and the pool stays as it was. -/
theorem take_eq_error (h : take declare r (P, s) = .error e (P', s')) :
    P.active.lookup r = none ∧ P.released.lookup r = none ∧ P' = P ∧
      declare r s = .error e s' := by
  unfold take at h
  dsimp only at h
  split at h
  case h_1 => cases h
  case h_2 hactive =>
    split at h
    case h_1 => cases h
    case h_2 hpop =>
      obtain ⟨hreleased, rfl⟩ := pop_eq_none hpop
      split at h
      case h_1 => cases h
      case h_2 hdeclare =>
        cases h
        exact ⟨hactive, hreleased, rfl, hdeclare⟩

theorem take_of_active (h : P.active.lookup r = some slot) (s : σ) :
    take declare r (P, s) = .ok slot (P, s) := by
  simp only [take, h]

theorem take_of_released (hactive : P.active.lookup r = none)
    (h : P.released.lookup r = some slot) (s : σ) : take declare r (P, s) =
      .ok slot ({ P with released := P.released.erase (r, slot) }.activate r slot, s) := by
  simp only [take, hactive, pop, h]

theorem take_of_new (hactive : P.active.lookup r = none) (hreleased : P.released.lookup r = none)
    (s : σ) : take declare r (P, s) =
      match declare r s with
      | .ok slot s' => .ok slot (P.count.activate r slot, s')
      | .error e s' => .error e (P, s') := by
  cases hdeclare : declare r s <;> simp only [take, hactive, pop, hreleased, hdeclare]

theorem lookup_of_take (h : take declare r (P, s) = .ok slot (P', s')) (q : Rep) :
    P'.active.lookup q = if q = r then some slot else P.active.lookup q := by
  rcases take_eq_ok h with ⟨hactive, rfl, -⟩ | ⟨-, -, rfl, -⟩ | ⟨-, -, rfl, -⟩
  · split_ifs with hq
    · rw [hq, hactive]
    · rfl
  · exact lookup_activate
  · exact lookup_activate

end Take

end ScratchPool

/-! ### Sessions -/

namespace Session

variable {s s' s'' : Session} {r : Rep} {slot : Nat}

/-- How a session numbers what it has numbered so far, in code before which a number of labels
are defined. -/
def numbering (s : Session) (labels : Nat) : Numbering where
  slot r := (s.scratch.active.lookup r).getD 0
  text t := (s.builder.texts.idxOf? t).getD 0
  labels := labels

/-- What is numbered keeps its number. -/
structure Grows (s s' : Session) : Prop where
  /-- Slots in use stay in use for the same representation. -/
  slots : ∀ {r i}, s.scratch.active.lookup r = some i → s'.scratch.active.lookup r = some i
  /-- Texts keep their index. -/
  texts : ∀ {t i}, s.builder.texts.idxOf? t = some i → s'.builder.texts.idxOf? t = some i

theorem Grows.refl (s : Session) : s.Grows s := ⟨id, id⟩

theorem Grows.trans (h : s.Grows s') (h' : s'.Grows s'') : s.Grows s'' :=
  ⟨h'.slots ∘ h.slots, h'.texts ∘ h.texts⟩

theorem declareLocal_eq_ok (h : s.declareLocal r = .ok (slot, s')) :
    slot = s.builder.locals.size ∧ s'.scratch = s.scratch ∧
      s'.builder = { s.builder with locals := s.builder.locals.push r } := by
  unfold declareLocal Builder.declare? at h
  split_ifs at h with hquota hroom
  · simp only [Except.ok.injEq, Prod.mk.injEq] at h
    obtain ⟨rfl, rfl⟩ := h
    exact ⟨rfl, rfl, rfl⟩

/-! ### Actions -/

section Actions

variable {C : Catalog} {α β : Type} {a : Action α} {f : α → Action β} {x : α} {y : β} {e : Halt}

theorem bind_eq_ok :
    (a >>= f) s = .ok y s' ↔ ∃ x t, a s = .ok x t ∧ f x t = .ok y s' := by
  change EStateM.bind a f s = _ ↔ _
  unfold EStateM.bind
  cases a s with
  | ok x t =>
    refine ⟨fun h => ⟨x, t, rfl, h⟩, ?_⟩
    rintro ⟨_, _, hxt, h⟩
    cases hxt
    exact h
  | error e t => simp

theorem bind_eq_error :
    (a >>= f) s = .error e s' ↔
      a s = .error e s' ∨ ∃ x t, a s = .ok x t ∧ f x t = .error e s' := by
  change EStateM.bind a f s = _ ↔ _
  unfold EStateM.bind
  cases a s with
  | ok x t =>
    refine ⟨fun h => .inr ⟨x, t, rfl, h⟩, ?_⟩
    rintro (h | ⟨_, _, hxt, h⟩)
    · cases h
    · cases hxt
      exact h
  | error e t => simp

theorem map_eq_ok {g : α → β} : (g <$> a) s = .ok y s' ↔ ∃ x, a s = .ok x s' ∧ g x = y := by
  change EStateM.map g a s = _ ↔ _
  unfold EStateM.map
  cases a s with
  | ok x t =>
    refine ⟨fun h => ?_, ?_⟩
    · cases h
      exact ⟨x, rfl, rfl⟩
    · rintro ⟨_, hxt, rfl⟩
      cases hxt
      rfl
  | error e t => simp

/-- Whether an action succeeds with a result is found out by taking it. -/
instance decidableSucceeds [DecidableEq α] (a : Action α) (x : α) (s : Session) :
    Decidable (∃ s', a s = .ok x s') :=
  match h : a s with
  | .ok y t => decidable_of_iff (y = x) (by simp)
  | .error e t => isFalse (by simp)

theorem attempt_eq_ok {g : Session → Except ConvertError (α × Session)} :
    attempt g s = .ok x s' ↔ g s = .ok (x, s') := by
  unfold attempt
  cases g s <;> simp [Prod.ext_iff]

theorem attempt_eq_error {g : Session → Except ConvertError (α × Session)}
    (h : attempt g s = .error e s') : s' = s ∧ ∃ c, e = .failed c ∧ g s = .error c := by
  unfold attempt at h
  cases hg : g s with
  | ok p => simp [hg] at h
  | error c =>
    simp only [hg, EStateM.Result.error.injEq] at h
    exact ⟨h.2.symm, c, h.1.symm, rfl⟩

theorem acquire_eq_ok (h : acquire r s = .ok slot s') :
    ∃ t, ScratchPool.take declare r (s.scratch, s) = .ok slot (s'.scratch, t) ∧
      s' = { t with scratch := s'.scratch } := by
  unfold acquire at h
  split at h
  case h_1 t htake =>
    cases h
    exact ⟨t, htake, rfl⟩
  case h_2 => cases h

/-- **A session that is refused a scratch local stays as it was.** -/
theorem acquire_eq_error (h : acquire r s = .error e s') :
    s' = s ∧ ∃ c, e = .failed c ∧ s.declareLocal r = .error c := by
  unfold acquire at h
  split at h
  case h_1 => cases h
  case h_2 htake =>
    cases h
    obtain ⟨-, -, rfl, hdeclare⟩ := ScratchPool.take_eq_error htake
    obtain ⟨rfl, hc⟩ := attempt_eq_error hdeclare
    exact ⟨rfl, hc⟩

/-- But for its pool, a session that takes a scratch local stays as it was, or declares a local. -/
theorem exists_of_acquire (h : acquire r s = .ok slot s') :
    ∃ t, s' = { t with scratch := s'.scratch } ∧ (t = s ∨ s.declareLocal r = .ok (slot, t)) := by
  obtain ⟨t, htake, hs'⟩ := acquire_eq_ok h
  refine ⟨t, hs', ?_⟩
  rcases ScratchPool.held_of_take htake with ⟨-, -, -, ht⟩ | ⟨-, -, -, -, hdeclare⟩
  · exact .inl ht
  · exact .inr (attempt_eq_ok.1 hdeclare)

theorem builder_acquire (h : acquire r s = .ok slot s') :
    s'.builder = { s.builder with locals := s'.builder.locals } := by
  obtain ⟨t, hs', ht⟩ := exists_of_acquire h
  have hb : s'.builder = t.builder := by rw [hs']
  rw [hb]
  rcases ht with rfl | hdeclare
  · rfl
  · rw [(declareLocal_eq_ok hdeclare).2.2]

theorem lookup_acquire (h : acquire r s = .ok slot s') :
    s'.scratch.active.lookup r = some slot := by
  obtain ⟨t, htake, -⟩ := acquire_eq_ok h
  rw [ScratchPool.lookup_of_take htake, if_pos rfl]

theorem grows_acquire (h : acquire r s = .ok slot s') : s.Grows s' where
  slots := by
    intro q i hi
    obtain ⟨t, htake, -⟩ := acquire_eq_ok h
    rw [ScratchPool.lookup_of_take htake]
    split_ifs with hq
    · rcases ScratchPool.take_eq_ok htake with ⟨hr, -⟩ | ⟨hr, -⟩ | ⟨hr, -⟩
      all_goals rw [hq, hr] at hi
      · exact hi
      · cases hi
      · cases hi
    · exact hi
  texts := by
    intro t i hi
    rw [builder_acquire h]
    exact hi

theorem emit_eq_ok {i : Instr} {u : Unit} (h : emit C i s = .ok u s') :
    ∃ b, s.builder.emit C i = .ok b ∧ s' = { s with builder := b } := by
  unfold emit at h
  cases hb : s.builder.emit C i with
  | ok b =>
    simp only [hb, EStateM.Result.ok.injEq] at h
    exact ⟨b, rfl, h.2.symm⟩
  | error f => simp [hb] at h

theorem emit_eq_error {i : Instr} (h : emit C i s = .error e s') : s' = s := by
  unfold emit at h
  cases hb : s.builder.emit C i with
  | ok b => simp [hb] at h
  | error f =>
    simp only [hb, EStateM.Result.error.injEq] at h
    exact h.2.symm

theorem grows_emit {b : Builder} {i : Instr} (h : s.builder.emit C i = .ok b) :
    s.Grows { s with builder := b } := by
  refine ⟨id, fun {t j} hj => ?_⟩
  rw [(Builder.emit_frame h).2.1]
  exact hj

theorem instrs_emit {b : Builder} {i : Instr} (h : s.builder.emit C i = .ok b) :
    b.instrs = s.builder.instrs.push i ∧ b.labels = s.builder.labels := by
  obtain ⟨hinstrs, -, -, hlabels⟩ := Builder.emit_frame h
  exact ⟨hinstrs, hlabels⟩

theorem locals_emit {b : Builder} {i : Instr} (h : s.builder.emit C i = .ok b) :
    b.locals = s.builder.locals :=
  (Builder.emit_frame h).2.2.1

theorem texts_emit {b : Builder} {i : Instr} (h : s.builder.emit C i = .ok b) :
    b.texts = s.builder.texts :=
  (Builder.emit_frame h).2.1

theorem texts_internText {t : String} {j : Nat} (h : s.internText t = .ok (j, s')) :
    s'.builder.texts = internInto s.builder.texts t := by
  unfold internText at h
  split_ifs at h with hquota
  simp only [Except.ok.injEq, Prod.mk.injEq] at h
  obtain ⟨-, rfl⟩ := h
  exact s.builder.texts_intern t

theorem internText_eq_ok {t : String} {j : Nat} (h : s.internText t = .ok (j, s')) :
    s'.builder.texts.idxOf? t = some j ∧ s'.scratch = s.scratch ∧
      s'.builder = { s.builder with texts := s'.builder.texts } := by
  unfold internText at h
  split_ifs at h with hquota
  simp only [Except.ok.injEq, Prod.mk.injEq] at h
  obtain ⟨rfl, rfl⟩ := h
  refine ⟨s.builder.idxOf?_intern t, rfl, ?_⟩
  dsimp only
  rw [Builder.intern_eq]

theorem grows_internText {t : String} {j : Nat} (h : s.internText t = .ok (j, s')) :
    s.Grows s' := by
  unfold internText at h
  split_ifs at h with hquota
  simp only [Except.ok.injEq, Prod.mk.injEq] at h
  obtain ⟨rfl, rfl⟩ := h
  refine ⟨id, fun {u i} hi => ?_⟩
  dsimp only
  unfold Builder.intern
  split
  · exact hi
  · exact idxOf?_push hi

end Actions

/-! ### Steps and plans -/

section Plans

variable {C : Catalog} {t : Step} {ts : List Step} {e : Halt} {u : Unit}

theorem numbering_slot (h : s.scratch.active.lookup r = some slot) (n : Nat) :
    (s.numbering n).slot r = slot := by
  simp only [numbering, h, Option.getD_some]

theorem numbering_text {x : String} {j : Nat} (h : s.builder.texts.idxOf? x = some j) (n : Nat) :
    (s.numbering n).text x = j := by
  simp only [numbering, h, Option.getD_some]

/-- Performing a step appends the instruction that it becomes, under the numbering of any
session that has grown out of the one it leaves. -/
theorem perform_eq_ok (h : perform C t s = .ok u s') :
    s.Grows s' ∧ s'.builder.labels = ((s'.numbering s.builder.labels).after t).labels ∧
      ∀ s'', s'.Grows s'' → s'.builder.instrs.toList =
        s.builder.instrs.toList ++ ((s''.numbering s.builder.labels).instr? t).toList := by
  -- an instruction whose operand needs a number: the number comes first
  have numbered : ∀ {i : Instr} {t₀ : Session}, s.Grows t₀ →
      t₀.builder.instrs = s.builder.instrs → t₀.builder.labels = s.builder.labels →
      emit C i t₀ = .ok u s' →
      s.Grows s' ∧ s'.builder.labels = s.builder.labels ∧
        s'.builder.instrs.toList = s.builder.instrs.toList ++ [i] ∧ t₀.Grows s' := by
    intro i t₀ hgrows hinstrs hlabels hemit
    obtain ⟨b, hb, rfl⟩ := emit_eq_ok hemit
    have hi := instrs_emit hb
    refine ⟨hgrows.trans (grows_emit hb), hi.2.trans hlabels, ?_, grows_emit hb⟩
    simp only [hi.1, hinstrs, Array.toList_push]
  cases t with
  | emit i =>
    obtain ⟨hg, hl, hc, -⟩ := numbered (.refl s) rfl rfl h
    exact ⟨hg, hl, fun _ _ => hc⟩
  | text x =>
    obtain ⟨j, t₀, hj, hemit⟩ := bind_eq_ok.1 h
    obtain ⟨hx, -, hb⟩ := internText_eq_ok (attempt_eq_ok.1 hj)
    obtain ⟨hg, hl, hc, hg₀⟩ :=
      numbered (grows_internText (attempt_eq_ok.1 hj)) (by rw [hb]) (by rw [hb]) hemit
    refine ⟨hg, hl, fun s'' hs'' => ?_⟩
    rw [hc, Numbering.instr?, numbering_text (hs''.texts (hg₀.texts hx))]
    rfl
  | invoke x returnsValue =>
    obtain ⟨j, t₀, hj, hemit⟩ := bind_eq_ok.1 h
    obtain ⟨hx, -, hb⟩ := internText_eq_ok (attempt_eq_ok.1 hj)
    obtain ⟨hg, hl, hc, hg₀⟩ :=
      numbered (grows_internText (attempt_eq_ok.1 hj)) (by rw [hb]) (by rw [hb]) hemit
    refine ⟨hg, hl, fun s'' hs'' => ?_⟩
    rw [hc, Numbering.instr?, numbering_text (hs''.texts (hg₀.texts hx))]
    rfl
  | reserve r =>
    obtain ⟨j, t₀, hj, hpure⟩ := bind_eq_ok.1 h
    cases hpure
    have hb := builder_acquire hj
    refine ⟨grows_acquire hj, by rw [hb]; rfl, fun s'' _ => ?_⟩
    rw [hb, Numbering.instr?, Option.toList_none, List.append_nil]
  | store r =>
    obtain ⟨j, t₀, hj, hemit⟩ := bind_eq_ok.1 h
    have hb := builder_acquire hj
    obtain ⟨hg, hl, hc, hg₀⟩ := numbered (grows_acquire hj) (by rw [hb]) (by rw [hb]) hemit
    refine ⟨hg, hl, fun s'' hs'' => ?_⟩
    rw [hc, Numbering.instr?, numbering_slot (hs''.slots (hg₀.slots (lookup_acquire hj)))]
    rfl
  | address r =>
    obtain ⟨j, t₀, hj, hemit⟩ := bind_eq_ok.1 h
    have hb := builder_acquire hj
    obtain ⟨hg, hl, hc, hg₀⟩ := numbered (grows_acquire hj) (by rw [hb]) (by rw [hb]) hemit
    refine ⟨hg, hl, fun s'' hs'' => ?_⟩
    rw [hc, Numbering.instr?, numbering_slot (hs''.slots (hg₀.slots (lookup_acquire hj)))]
    rfl
  | fork =>
    cases h
    exact ⟨⟨id, id⟩, rfl, fun _ _ => (List.append_nil _).symm⟩
  | brAbsent | brEnd | markAbsent | markEnd =>
    obtain ⟨_, _, hget, hemit⟩ := bind_eq_ok.1 h
    cases hget
    obtain ⟨hg, hl, hc, -⟩ := numbered (.refl s) rfl rfl hemit
    exact ⟨hg, hl, fun _ _ => hc⟩

theorem perform_eq_error (h : perform C t s = .error e s') :
    s.Grows s' ∧ s'.builder.instrs = s.builder.instrs := by
  cases t with
  | emit i => rw [emit_eq_error h]; exact ⟨.refl s, rfl⟩
  | text x | invoke x returnsValue =>
    rcases bind_eq_error.1 h with hj | ⟨j, t₀, hj, hemit⟩
    · rw [(attempt_eq_error hj).1]
      exact ⟨.refl s, rfl⟩
    · obtain ⟨-, -, hb⟩ := internText_eq_ok (attempt_eq_ok.1 hj)
      rw [emit_eq_error hemit, hb]
      exact ⟨grows_internText (attempt_eq_ok.1 hj), rfl⟩
  | reserve r =>
    rcases bind_eq_error.1 h with hj | ⟨j, t₀, hj, hpure⟩
    · rw [(acquire_eq_error hj).1]
      exact ⟨.refl s, rfl⟩
    · cases hpure
  | store r | address r =>
    rcases bind_eq_error.1 h with hj | ⟨j, t₀, hj, hemit⟩
    · rw [(acquire_eq_error hj).1]
      exact ⟨.refl s, rfl⟩
    · rw [emit_eq_error hemit, builder_acquire hj]
      exact ⟨grows_acquire hj, rfl⟩
  | fork => cases h
  | brAbsent | brEnd | markAbsent | markEnd =>
    rcases bind_eq_error.1 h with hget | ⟨_, _, hget, hemit⟩
    · cases hget
    · cases hget
      rw [emit_eq_error hemit]
      exact ⟨.refl s, rfl⟩

theorem texts_perform (h : perform C t s = .ok u s') :
    s'.builder.texts = t.interned?.toList.foldl internInto s.builder.texts := by
  -- emitting an instruction leaves the texts as they are
  have emitted : ∀ {i : Instr} {t₀ : Session}, emit C i t₀ = .ok u s' →
      s'.builder.texts = t₀.builder.texts := by
    intro i t₀ hemit
    obtain ⟨b, hb, rfl⟩ := emit_eq_ok hemit
    exact texts_emit hb
  cases t with
  | emit i => exact emitted h
  | text x | invoke x returnsValue =>
    obtain ⟨j, t₀, hj, hemit⟩ := bind_eq_ok.1 h
    rw [emitted hemit]
    exact texts_internText (attempt_eq_ok.1 hj)
  | reserve r =>
    obtain ⟨j, t₀, hj, hpure⟩ := bind_eq_ok.1 h
    cases hpure
    rw [builder_acquire hj]
    rfl
  | store r | address r =>
    obtain ⟨j, t₀, hj, hemit⟩ := bind_eq_ok.1 h
    rw [emitted hemit, builder_acquire hj]
    rfl
  | fork =>
    cases h
    rfl
  | brAbsent | brEnd | markAbsent | markEnd =>
    obtain ⟨_, _, hget, hemit⟩ := bind_eq_ok.1 h
    cases hget
    exact emitted hemit

theorem texts_performAll (h : performAll C ts s = .ok u s') :
    s'.builder.texts = (ts.filterMap Step.interned?).foldl internInto s.builder.texts := by
  induction ts generalizing s with
  | nil =>
    cases h
    rfl
  | cons t ts ih =>
    obtain ⟨_, t₀, ht, hts⟩ := bind_eq_ok.1 h
    rw [ih hts, texts_perform ht]
    cases hx : t.interned? with
    | none => rw [List.filterMap_cons_none hx, Option.toList_none, List.foldl_nil]
    | some x => rw [List.filterMap_cons_some hx, Option.toList_some, List.foldl_cons,
        List.foldl_cons, List.foldl_nil]

theorem performAll_grows (h : performAll C ts s = .ok u s') : s.Grows s' := by
  induction ts generalizing s with
  | nil =>
    cases h
    exact .refl _
  | cons t ts ih =>
    obtain ⟨_, t₀, ht, hts⟩ := bind_eq_ok.1 h
    exact (perform_eq_ok ht).1.trans (ih hts)

theorem performAll_code_of_grows (h : performAll C ts s = .ok u s') (hgrows : s'.Grows s'') :
    s'.builder.instrs.toList =
      s.builder.instrs.toList ++ (s''.numbering s.builder.labels).code ts := by
  induction ts generalizing s with
  | nil =>
    cases h
    exact (List.append_nil _).symm
  | cons t ts ih =>
    obtain ⟨_, t₀, ht, hts⟩ := bind_eq_ok.1 h
    obtain ⟨-, hlabels, hinstrs⟩ := perform_eq_ok ht
    have hafter :
        s''.numbering t₀.builder.labels = (s''.numbering s.builder.labels).after t := by
      rw [hlabels]
      cases t <;> rfl
    rw [ih hts, hinstrs s'' ((performAll_grows hts).trans hgrows), hafter, Numbering.code_cons,
      List.append_assoc]

/-- **Carrying out a plan appends its code**, under the numbering that the session ends with. -/
theorem performAll_code (h : performAll C ts s = .ok u s') :
    s'.builder.instrs.toList =
      s.builder.instrs.toList ++ (s'.numbering s.builder.labels).code ts :=
  performAll_code_of_grows h (.refl s')

/-- A plan that could not be carried out to its end has appended the code of the steps before
the one that could not be taken. -/
theorem performAll_code_of_error (h : performAll C ts s = .error e s') :
    s.Grows s' ∧ ∃ done t rest, ts = done ++ t :: rest ∧ s'.builder.instrs.toList =
      s.builder.instrs.toList ++ (s'.numbering s.builder.labels).code done := by
  induction ts generalizing s with
  | nil => cases h
  | cons t ts ih =>
    rcases bind_eq_error.1 h with ht | ⟨_, t₀, ht, hts⟩
    · obtain ⟨hgrows, hinstrs⟩ := perform_eq_error ht
      exact ⟨hgrows, [], t, ts, rfl, by rw [hinstrs, Numbering.code_nil, List.append_nil]⟩
    · obtain ⟨hgrows', done, t', rest, rfl, hcode⟩ := ih hts
      obtain ⟨hgrows, hlabels, hinstrs⟩ := perform_eq_ok ht
      have hafter :
          s'.numbering t₀.builder.labels = (s'.numbering s.builder.labels).after t := by
        rw [hlabels]
        cases t <;> rfl
      refine ⟨hgrows.trans hgrows', t :: done, t', rest, rfl, ?_⟩
      rw [hcode, hinstrs s' hgrows', hafter, Numbering.code_cons, List.append_assoc]

/-- The number of a scratch local or of a text that a step asks for is fixed by the step. -/
theorem numbers_of_perform (h : perform C t s = .ok u s') :
    (∀ r, t.scratch? = some r → ∃ i, s'.scratch.active.lookup r = some i) ∧
      ∀ x, t.interned? = some x → ∃ j, s'.builder.texts.idxOf? x = some j := by
  cases t with
  | text x | invoke x returnsValue =>
    obtain ⟨j, t₀, hj, hemit⟩ := bind_eq_ok.1 h
    obtain ⟨hx, -, -⟩ := internText_eq_ok (attempt_eq_ok.1 hj)
    obtain ⟨b, hb, rfl⟩ := emit_eq_ok hemit
    refine ⟨fun _ hr => (Option.some_ne_none _ hr.symm).elim, fun y hy => ?_⟩
    cases hy
    exact ⟨j, (grows_emit hb).texts hx⟩
  | reserve r =>
    obtain ⟨i, t₀, hi, hpure⟩ := bind_eq_ok.1 h
    cases hpure
    refine ⟨fun q hq => ?_, fun _ hx => (Option.some_ne_none _ hx.symm).elim⟩
    cases hq
    exact ⟨i, lookup_acquire hi⟩
  | store r | address r =>
    obtain ⟨i, t₀, hi, hemit⟩ := bind_eq_ok.1 h
    obtain ⟨b, hb, rfl⟩ := emit_eq_ok hemit
    refine ⟨fun q hq => ?_, fun _ hx => (Option.some_ne_none _ hx.symm).elim⟩
    cases hq
    exact ⟨i, (grows_emit hb).slots (lookup_acquire hi)⟩
  | _ =>
    exact ⟨fun _ hr => (Option.some_ne_none _ hr.symm).elim,
      fun _ hx => (Option.some_ne_none _ hx.symm).elim⟩

theorem run_eq_ok {α : Type} {p : Script α} {a : α} :
    run C p s = .ok a s' ↔ p.result = .ok a ∧ performAll C p.steps s = .ok () s' := by
  unfold run
  rw [bind_eq_ok]
  cases p.result with
  | error e =>
    refine ⟨?_, fun h => by cases h.1⟩
    rintro ⟨_, _, -, h⟩
    cases h
  | ok b =>
    constructor
    · rintro ⟨_, _, hsteps, h⟩
      cases h
      exact ⟨rfl, hsteps⟩
    · rintro ⟨hb, hsteps⟩
      cases hb
      exact ⟨(), s', hsteps, rfl⟩

theorem run_eq_error {α : Type} {p : Script α} :
    run C p s = .error e s' ↔ performAll C p.steps s = .error e s' ∨
      ∃ c, p.result = .error c ∧ e = .failed c ∧ performAll C p.steps s = .ok () s' := by
  unfold run
  rw [bind_eq_error]
  refine or_congr_right ?_
  cases p.result with
  | ok a =>
    constructor
    · rintro ⟨_, _, -, h⟩
      cases h
    · rintro ⟨_, h, -⟩
      cases h
  | error c =>
    constructor
    · rintro ⟨_, _, hsteps, h⟩
      cases h
      exact ⟨c, rfl, rfl, hsteps⟩
    · rintro ⟨_, hc, rfl, hsteps⟩
      cases hc
      exact ⟨(), s', hsteps, rfl⟩

/-- The slots of the pool are declared, each with the representation it is held under. -/
def Sound (s : Session) : Prop :=
  ∀ p ∈ s.scratch.active ++ s.scratch.released, s.builder.locals[p.2]? = some p.1

theorem Sound.local_of_lookup (hs : s.Sound) (h : s.scratch.active.lookup r = some slot) :
    s.builder.locals[slot]? = some r :=
  hs (r, slot) (List.mem_append_left _ (ScratchPool.mem_of_lookup h))

/-- **The numbers in the code of a plan stand for what the plan names.** -/
theorem numbers_of_performAll (h : performAll C ts s = .ok u s') (hs : s'.Sound) (n : Nat) :
    (s'.numbering n).Valid s'.builder.locals s'.builder.texts ts := by
  induction ts generalizing s with
  | nil => exact ⟨by simp, by simp⟩
  | cons t ts ih =>
    obtain ⟨_, t₀, ht, hts⟩ := bind_eq_ok.1 h
    have hgrows := performAll_grows hts
    obtain ⟨hslot, htext⟩ := numbers_of_perform ht
    have ih := ih hts
    refine ⟨fun t' ht' r hr => ?_, fun t' ht' x hx => ?_⟩
    · rcases List.mem_cons.1 ht' with rfl | ht'
      · obtain ⟨i, hi⟩ := hslot r hr
        rw [numbering_slot (hgrows.slots hi)]
        exact hs.local_of_lookup (hgrows.slots hi)
      · exact ih.slot t' ht' r hr
    · rcases List.mem_cons.1 ht' with rfl | ht'
      · obtain ⟨j, hj⟩ := htext x hx
        rw [numbering_text (hgrows.texts hj)]
        exact getElem?_of_idxOf? (hgrows.texts hj)
      · exact ih.text t' ht' x hx

end Plans

end Session

end Recast
