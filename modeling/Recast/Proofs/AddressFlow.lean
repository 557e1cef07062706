import Mathlib.Tactic.SplitIfs
import Recast.Catalog.Standard
import Recast.Code.Instr

/-!
# Where addresses go

A stack machine does not tell an address of a local from any other operand.  Here they are told
apart along every way through the code of a method: for each operand, the slot whose address it
is, if it is one, and the slots stored to.  Only stores since a position was passed or a jump was
made count, so that what has been stored to in a piece of code is told from what was before.  Some
slots are the user's own; what is done with their addresses is the user's affair.

* `Reaches` : the ways through code, along jumps as well;
* `Guarded` : what falls through code keeps the rules: no slot but the user's is stored to while
  its address is on the stack, and none has its address pushed before it is stored to;
* `Guards` : code keeps the rules wherever it is entered, and leaves no address of a slot that is
  not the user's, if there was none on the stack before;
* `Guards.sound` : **guarded code keeps the rules on every way** through it.
-/

namespace Recast

/-- Control may go on with the next instruction. -/
def Instr.goesOn : Instr → Bool
  | .br _ | .ret => false
  | _ => true

/-- The label that control may jump to. -/
def Instr.target? : Instr → Option Label
  | .br l | .brFalse l => some l
  | _ => none

/-- What is known on a way through code. -/
structure Usage where
  /-- For each operand the slot whose address it is, if it is one. -/
  stack : List (Option Nat)
  /-- The slots stored to, as far as they count. -/
  stored : List Nat

namespace Usage

/-- What is known after an instruction over the standard run-time.  Only the address of a local and
a copy of it are addresses. -/
def after (u : Usage) (i : Instr) : Usage :=
  match i with
  | .ldLocA slot => { u with stack := some slot :: u.stack }
  | .dup => { u with stack := u.stack.head?.join :: u.stack }
  | .stLoc slot => ⟨u.stack.tail, slot :: u.stored⟩
  | i =>
    let (pops, pushes) := i.effect .standard u.stack.length
    { u with stack := List.replicate pushes none ++ u.stack.drop pops }

/-- What is known when all stores are forgotten. -/
def forget (u : Usage) : Usage := ⟨u.stack, []⟩

/-- What is known on arrival at a position: at the position `p` all stores are forgotten. -/
def arrive (p n : Nat) (u : Usage) : Usage := if n = p then u.forget else u

/-- All addresses on the stack are addresses of the user's own slots. -/
def Clean (users : List Nat) (u : Usage) : Prop := ∀ slot, some slot ∈ u.stack → slot ∈ users

/-- The rules for slots that are not the user's: the address is only pushed once the slot has been
stored to, and the slot is not stored to while its address is on the stack. -/
def Admits (users : List Nat) (u : Usage) : Instr → Prop
  | .ldLocA slot => slot ∈ users ∨ slot ∈ u.stored
  | .stLoc slot => slot ∈ users ∨ some slot ∉ u.stack
  | _ => True

end Usage

/-- The ways through code from its start: what may be known on arrival at each position.  Stores
before the position `p` do not count, and those before a jump do not either. -/
inductive Reaches (code : List Instr) (p : Nat) : Nat → Usage → Prop
  /-- A way begins at the start. -/
  | start : Reaches code p 0 ⟨[], []⟩
  /-- It goes on. -/
  | next {n : Nat} {u : Usage} {i : Instr} (h : Reaches code p n u) (hi : code[n]? = some i)
      (hgo : i.goesOn = true) : Reaches code p (n + 1) ((u.after i).arrive p (n + 1))
  /-- It jumps to where a label is placed. -/
  | jump {n m : Nat} {u : Usage} {i : Instr} {l : Label} (h : Reaches code p n u)
      (hi : code[n]? = some i) (hl : i.target? = some l) (hm : code[m]? = some (.mark l)) :
      Reaches code p m (u.after i).forget

/-! ### Guarded code -/

/-- From here on the rules are kept.  What falls through the end has a property, and what jumps
takes no address along but of the user's slots. -/
def Guarded (users : List Nat) : List Instr → (Usage → Prop) → Usage → Prop
  | [], Q, u => Q u
  | i :: code, Q, u => u.Admits users i ∧
      (i.goesOn = true → Guarded users code Q (u.after i)) ∧
      (i.target? ≠ none → (u.after i).Clean users)

/-- Code that is entered and left without addresses, but of the user's slots, keeps the rules. -/
structure Guards (users : List Nat) (code : List Instr) : Prop where
  /-- It does so from the start. -/
  start : ∀ u : Usage, u.Clean users → Guarded users code (·.Clean users) u
  /-- It does so from where a label is placed. -/
  landing : ∀ pre l rest, code = pre ++ .mark l :: rest → ∀ u : Usage, u.Clean users →
    Guarded users (.mark l :: rest) (·.Clean users) u

/-- An instruction takes the address of no slot but the user's. -/
def Instr.Harmless (users : List Nat) (i : Instr) : Prop := ∀ slot, i = .ldLocA slot → slot ∈ users

section Guards

variable {users : List Nat} {code code' : List Instr} {P Q : Usage → Prop} {u : Usage}
  {i : Instr} {n p slot : Nat}

@[simp]
theorem Usage.stack_arrive : (u.arrive p n).stack = u.stack := by
  unfold arrive
  split_ifs <;> rfl

theorem Usage.clean_congr {v : Usage} (h : v.stack = u.stack) :
    v.Clean users ↔ u.Clean users := by
  rw [Clean, Clean, h]

theorem Usage.Clean.after (hu : u.Clean users) (hi : i.Harmless users) :
    (u.after i).Clean users := by
  intro slot hslot
  -- what an instruction pushes is no address, and what it leaves was there before
  have pushed : ∀ pushes pops, some slot ∈ List.replicate pushes none ++ u.stack.drop pops →
      slot ∈ users := by
    intro pushes pops h
    rcases List.mem_append.1 h with h | h
    · cases (List.mem_replicate.1 h).2
    · exact hu slot (List.mem_of_mem_drop h)
  cases i with
  | ldLocA slot' =>
    rcases List.mem_cons.1 hslot with h | h
    · cases h
      exact hi slot rfl
    · exact hu slot h
  | dup =>
    rcases List.mem_cons.1 hslot with h | h
    · refine hu slot (List.mem_of_mem_head? ?_)
      rw [Option.mem_def]
      exact Option.join_eq_some_iff.1 h.symm
    · exact hu slot h
  | stLoc slot' => exact hu slot (List.mem_of_mem_tail hslot)
  | _ => exact pushed _ _ hslot

theorem Usage.Clean.admits (hu : u.Clean users) (hi : i.Harmless users) : u.Admits users i := by
  cases i with
  | ldLocA slot => exact .inl (hi slot rfl)
  | stLoc slot =>
    by_cases hslot : slot ∈ users
    · exact .inl hslot
    · exact .inr fun h => hslot (hu slot h)
  | _ => trivial

theorem Usage.Clean.tail (hu : u.Clean users) (stored : List Nat) :
    Usage.Clean users ⟨u.stack.tail, stored⟩ :=
  fun slot hslot => hu slot (List.mem_of_mem_tail hslot)

theorem Usage.clean_call {op : Op} (hpops : op.standard.pops = n)
    (hu : Usage.Clean users ⟨u.stack.drop n, u.stored⟩) : (u.after (.call op)).Clean users := by
  intro slot hslot
  rcases List.mem_append.1 hslot with h | h
  · cases (List.mem_replicate.1 h).2
  · change some slot ∈ u.stack.drop op.standard.pops at h
    rw [hpops] at h
    exact hu slot h

theorem guarded_append : Guarded users (code ++ code') Q u ↔
    Guarded users code (Guarded users code' Q) u := by
  induction code generalizing u with
  | nil => rfl
  | cons i code ih => simp only [List.cons_append, Guarded, ih]

theorem Guarded.imp (h : Guarded users code P u) (hQ : ∀ u, P u → Q u) :
    Guarded users code Q u := by
  induction code generalizing u with
  | nil => exact hQ u h
  | cons i code ih => exact ⟨h.1, fun hgo => ih (h.2.1 hgo), h.2.2⟩

theorem guarded_addressed (hslot : slot ∉ users) (hu : u.Clean users)
    (h : Guarded users code Q ⟨some slot :: u.stack.tail, slot :: u.stored⟩) :
    Guarded users (.stLoc slot :: .ldLocA slot :: code) Q u :=
  ⟨.inr fun hmem => hslot (hu slot hmem), fun _ => ⟨.inr List.mem_cons_self, fun _ => h,
    fun htarget => absurd rfl htarget⟩, fun htarget => absurd rfl htarget⟩

/-- **Guarded code composes.** -/
theorem Guards.append (h : Guards users code) (h' : Guards users code') :
    Guards users (code ++ code') where
  start u hu := guarded_append.2 ((h.start u hu).imp h'.start)
  landing pre l rest heq u hu := by
    rcases List.append_eq_append_iff.1 heq with ⟨as, rfl, hrest⟩ | ⟨bs, hcode, hrest⟩
    · exact h'.landing as l rest hrest u hu
    · cases bs with
      | nil => exact h'.landing [] l rest hrest.symm u hu
      | cons i bs =>
        cases hrest
        exact guarded_append.2 ((h.landing pre l bs hcode u hu).imp h'.start)

theorem Guards.of_start (h : ∀ u : Usage, u.Clean users → Guarded users code (·.Clean users) u)
    (hmark : ∀ l, .mark l ∉ code) : Guards users code where
  start := h
  landing pre l rest heq := absurd (by simp [heq]) (hmark l)

theorem Guards.of_harmless (h : ∀ i ∈ code, i.Harmless users) : Guards users code := by
  have start : ∀ code : List Instr, (∀ i ∈ code, i.Harmless users) → ∀ u : Usage,
      u.Clean users → Guarded users code (·.Clean users) u := by
    intro code h
    induction code with
    | nil => exact fun u hu => hu
    | cons i code ih =>
      intro u hu
      have hi := h i List.mem_cons_self
      exact ⟨hu.admits hi, fun _ => ih (fun i hi => h i (List.mem_cons_of_mem _ hi)) _
        (hu.after hi), fun _ => hu.after hi⟩
  refine ⟨start code h, fun pre l rest heq => start _ fun i hi => h i ?_⟩
  rw [heq]
  exact List.mem_append_right _ hi

/-! ### Ways through guarded code -/

theorem Guarded.drop (h : Guarded users (code.drop n) Q u) (hi : code[n]? = some i) :
    u.Admits users i ∧ (i.goesOn = true → Guarded users (code.drop (n + 1)) Q (u.after i)) ∧
      (i.target? ≠ none → (u.after i).Clean users) := by
  rwa [List.drop_eq_getElem?_toList_append, hi] at h

theorem Guards.land (h : Guards users code) {l : Label} (hn : code[n]? = some (.mark l))
    (hu : u.Clean users) : Guarded users (code.drop n) (·.Clean users) u := by
  have hsplit : code = code.take n ++ code.drop n := (List.take_append_drop n code).symm
  rw [List.drop_eq_getElem?_toList_append, hn] at hsplit ⊢
  exact h.landing _ _ _ hsplit u hu

/-- **Guarded code keeps the rules on every way** through it and what stands before it, though no
stores before it count. -/
theorem Guards.sound {pre : List Instr} (hpre : Guards users pre) (hcode : Guards users code)
    (h : Reaches (pre ++ code) pre.length n u) :
    (n ≤ pre.length → Guarded users (pre.drop n) (·.Clean users) u) ∧
      (pre.length ≤ n → Guarded users (code.drop (n - pre.length)) (·.Clean users) u) := by
  have boundary : ∀ {u : Usage}, u.Clean users →
      (pre.length ≤ pre.length → Guarded users (pre.drop pre.length) (·.Clean users) u) ∧
        (pre.length ≤ pre.length →
          Guarded users (code.drop (pre.length - pre.length)) (·.Clean users) u) := by
    intro u hu
    rw [List.drop_length, Nat.sub_self]
    exact ⟨fun _ => hu, fun _ => hcode.start u hu⟩
  induction h with
  | start =>
    have hclean : (⟨[], []⟩ : Usage).Clean users := fun slot hslot => by cases hslot
    refine ⟨fun _ => hpre.start _ hclean, fun _ => ?_⟩
    rw [Nat.zero_sub]
    exact hcode.start _ hclean
  | @next n u i _ hi hgo ih =>
    by_cases hn : n < pre.length
    · rw [List.getElem?_append_left hn] at hi
      have hrest := ((ih.1 (Nat.le_of_lt hn)).drop hi).2.1 hgo
      by_cases hend : n + 1 = pre.length
      · rw [hend, List.drop_length] at hrest
        rw [hend]
        exact boundary ((Usage.clean_congr Usage.stack_arrive).2 hrest)
      · rw [Usage.arrive, if_neg hend]
        exact ⟨fun _ => hrest, fun _ => by omega⟩
    · have hle := Nat.le_of_not_lt hn
      rw [List.getElem?_append_right hle] at hi
      have hrest := ((ih.2 hle).drop hi).2.1 hgo
      rw [Usage.arrive, if_neg (by omega), Nat.sub_add_comm hle]
      exact ⟨fun _ => by omega, fun _ => hrest⟩
  | @jump n m u i l _ hi hl hm ih =>
    have hclean : (u.after i).Clean users := by
      have hjumps : i.target? ≠ none := by
        rw [hl]
        exact Option.some_ne_none l
      rcases Nat.lt_or_ge n pre.length with hn | hn
      · rw [List.getElem?_append_left hn] at hi
        exact ((ih.1 (Nat.le_of_lt hn)).drop hi).2.2 hjumps
      · rw [List.getElem?_append_right hn] at hi
        exact ((ih.2 hn).drop hi).2.2 hjumps
    have hclean : (u.after i).forget.Clean users := hclean
    rcases Nat.lt_trichotomy m pre.length with hlt | rfl | hgt
    · rw [List.getElem?_append_left hlt] at hm
      exact ⟨fun _ => hpre.land hm hclean, fun _ => by omega⟩
    · exact boundary hclean
    · rw [List.getElem?_append_right (Nat.le_of_lt hgt)] at hm
      exact ⟨fun _ => by omega, fun _ => hcode.land hm hclean⟩

theorem Guards.admits {pre : List Instr} (hpre : Guards users pre) (hcode : Guards users code)
    (h : Reaches (pre ++ code) pre.length (pre.length + n) u) (hi : code[n]? = some i) :
    u.Admits users i := by
  have hrest := (hpre.sound hcode h).2 (Nat.le_add_right _ _)
  rw [Nat.add_sub_cancel_left] at hrest
  exact (hrest.drop hi).1

theorem Reaches.recount (h : Reaches code p n u) (q : Nat) :
    ∃ v, Reaches code q n v ∧ v.stack = u.stack := by
  have step : ∀ {u v : Usage}, v.stack = u.stack → ∀ i : Instr,
      (v.after i).stack = (u.after i).stack := by
    intro u v huv i
    cases i <;> simp only [Usage.after, huv]
  induction h with
  | start => exact ⟨_, .start, rfl⟩
  | next _ hi hgo ih =>
    obtain ⟨v, hv, hstack⟩ := ih
    refine ⟨_, .next hv hi hgo, ?_⟩
    rw [Usage.stack_arrive, Usage.stack_arrive, step hstack]
  | jump _ hi hl hm ih =>
    obtain ⟨v, hv, hstack⟩ := ih
    exact ⟨_, .jump hv hi hl hm, step hstack _⟩

/-- No way passes from one piece of guarded code to the next with an address on the stack, but of
the user's slots. -/
theorem Guards.clean {pre : List Instr} (hpre : Guards users pre) (hcode : Guards users code)
    (h : Reaches (pre ++ code) p pre.length u) : u.Clean users := by
  obtain ⟨v, hv, hstack⟩ := h.recount pre.length
  have hclean := (hpre.sound hcode hv).1 (Nat.le_refl _)
  rw [List.drop_length] at hclean
  exact (Usage.clean_congr hstack).1 hclean

end Guards

end Recast
