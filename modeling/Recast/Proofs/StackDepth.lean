import Mathlib.Tactic.IntervalCases
import Recast.Code.Builder
import Recast.Proofs.AddressFlow

/-!
# The depth of the operand stack

A builder reads code from the first instruction to the last and follows one depth.  The machine
takes the ways that branches offer.  What falls through an unconditional branch is never executed,
though the builder counts on, and takes the depth at the next label from the branches to it.

* `Builder.Built` : code is emitted, while labels, texts and locals are given out;
* `Arrives` : the ways through code, each with the number of operands that are on the stack;
* `Joined` : each label that is branched to is placed once, further on, and all that meet there
  agree on the depth;
* `Arrives.startDepth_eq` : the builder starts an instruction at the depth of every way to it;
* `tracked_depth_exact` : **the depth that the builder follows is the real one** on every way.
-/

namespace Recast

/-- The number of operands after an instruction, if there were `depth` before it. -/
def Instr.depthAfter (C : Catalog) (depth : Nat) (i : Instr) : Nat :=
  depth - (i.effect C depth).1 + (i.effect C depth).2

namespace Builder

/-- Emit instructions in order. -/
def emitAll (C : Catalog) (b : Builder) (code : List Instr) : Except Fault Builder :=
  code.foldlM (fun b i => b.emit C i) b

/-- A builder that has emitted code from its start on.  In between it may have given out labels,
texts and locals. -/
inductive Built (C : Catalog) : List Instr → Builder → Prop
  /-- It is new. -/
  | new : Built C [] .empty
  /-- It emits one more instruction. -/
  | emitted {code : List Instr} {b b' : Builder} {i : Instr} (h : Built C code b)
      (hi : b.emit C i = .ok b') : Built C (code ++ [i]) b'
  /-- It gives out a label. -/
  | label {code : List Instr} {b : Builder} (h : Built C code b) : Built C code b.defineLabel.2
  /-- It gives out the index of a text. -/
  | text {code : List Instr} {b : Builder} (s : String) (h : Built C code b) :
      Built C code (b.intern s).2
  /-- It gives out a local. -/
  | declared {code : List Instr} {b b' : Builder} {r : Rep} {slot : Nat} (h : Built C code b)
      (hr : b.declare? r = some (slot, b')) : Built C code b'

/-- What the builder follows. -/
def tracking (b : Builder) : Nat × List (Label × Nat) × Nat :=
  (b.depth, b.branchDepths, b.maxDepth)

/-- The depth that a new builder has followed to when it has emitted the first `n` instructions of
code. -/
def trackedDepth? (C : Catalog) (code : List Instr) (n : Nat) : Option Nat :=
  (empty.emitAll C (code.take n)).toOption.map (·.depth)

end Builder

open Builder

/-- The ways through code from its start: a way gets to a position with so many operands on the
stack. -/
inductive Arrives (C : Catalog) (code : List Instr) : Nat → Nat → Prop
  /-- A way begins at the start, without operands. -/
  | start : Arrives C code 0 0
  /-- It goes on. -/
  | next {n depth : Nat} {i : Instr} (h : Arrives C code n depth) (hi : code[n]? = some i)
      (hgo : i.goesOn = true) : Arrives C code (n + 1) (i.depthAfter C depth)
  /-- It jumps to where a label is placed. -/
  | jump {n m depth : Nat} {i : Instr} {l : Label} (h : Arrives C code n depth)
      (hi : code[n]? = some i) (hl : i.target? = some l) (hm : code[m]? = some (.mark l)) :
      Arrives C code m (i.depthAfter C depth)

/-- There is a branch to a label at a position. -/
def BranchesAt (code : List Instr) (n : Nat) (l : Label) : Prop :=
  ∃ i, code[n]? = some i ∧ i.target? = some l

/-- A way falls into a position from the one before. -/
def FallsInto (C : Catalog) (code : List Instr) : Nat → Prop
  | 0 => False
  | n + 1 => ∃ depth i, Arrives C code n depth ∧ code[n]? = some i ∧ i.goesOn = true

/-- Each label that is branched to is placed once, after all branches to it, and the builder is as
deep at all of them, and where the label is placed, if a way falls into it. -/
structure Joined (C : Catalog) (code : List Instr) : Prop where
  /-- The label is placed further on. -/
  placed : ∀ n l, BranchesAt code n l → ∃ m, n < m ∧ code[m]? = some (Instr.mark l)
  /-- It is placed nowhere else. -/
  once : ∀ n l (m m' : Nat), BranchesAt code n l → code[m]? = some (Instr.mark l) →
    code[m']? = some (Instr.mark l) → m = m'
  /-- Two branches to the label agree. -/
  branches : ∀ n n' l, BranchesAt code n l → BranchesAt code n' l →
    trackedDepth? C code (n + 1) = trackedDepth? C code (n' + 1)
  /-- What falls into it agrees with the branches. -/
  falls : ∀ n m l, BranchesAt code n l → code[m]? = some (Instr.mark l) →
    FallsInto C code m → trackedDepth? C code m = trackedDepth? C code (n + 1)

section Tracking

variable {C : Catalog} {code : List Instr} {b b' b'' : Builder} {i : Instr} {l : Label}
  {n m d : Nat}

/-! ### One instruction -/

theorem Builder.emit_eq_ok (h : b.emit C i = .ok b') :
    (i.effect C (b.startDepth i)).1 ≤ b.startDepth i ∧
      b'.depth = i.depthAfter C (b.startDepth i) ∧
      b'.branchDepths = b.recordBranch (b.startDepth i - (i.effect C (b.startDepth i)).1) i ∧
      b'.maxDepth = max b.maxDepth b'.depth := by
  unfold emit at h
  dsimp only at h
  split_ifs at h with hlt
  cases h
  exact ⟨Nat.le_of_not_lt hlt, rfl, rfl, rfl⟩

theorem Instr.effect_of_target? (h : i.target? = some l) (depth : Nat) :
    (i.effect C depth).2 = 0 := by
  cases i <;> first | rfl | cases h

theorem Builder.branchDepth?_of_emit (h : b.emit C i = .ok b') (l : Label) :
    b'.branchDepth? l =
      (b.branchDepth? l).or (if i.target? = some l then some b'.depth else none) := by
  obtain ⟨-, hdepth, hrecord, -⟩ := emit_eq_ok h
  have hbranch : ∀ k, i.target? = some k → b'.branchDepths =
      if (b.branchDepth? k).isSome then b.branchDepths
      else (k, b'.depth) :: b.branchDepths := by
    intro k hk
    rw [hrecord, hdepth, Instr.depthAfter, Instr.effect_of_target? hk, Nat.add_zero]
    cases i <;> cases hk <;> rfl
  unfold branchDepth?
  cases htarget : i.target? with
  | none =>
    have hsame : b'.branchDepths = b.branchDepths := by
      rw [hrecord]
      cases i <;> first | rfl | cases htarget
    rw [hsame, if_neg (by simp), Option.or_none]
  | some k =>
    rw [hbranch k htarget]
    by_cases hl : k = l
    · subst hl
      cases hk : b.branchDepth? k with
      | some d =>
        unfold branchDepth? at hk
        simp [hk]
      | none =>
        unfold branchDepth? at hk
        simp [hk]
    · have hne : (l == k) = false := by simpa using Ne.symm hl
      simp only [Option.some.injEq, hl, if_false, Option.or_none]
      split
      · rfl
      · rw [List.lookup_cons, hne]

/-- What is followed decides whether an instruction is refused, and what is followed then. -/
theorem Builder.emit_of_tracking_eq (heq : b.tracking = b''.tracking) (h : b.emit C i = .ok b') :
    ∃ b₁, b''.emit C i = .ok b₁ ∧ b'.tracking = b₁.tracking := by
  simp only [tracking, Prod.mk.injEq] at heq
  obtain ⟨hdepth, hbranches, hmax⟩ := heq
  have hlookup : ∀ l, b''.branchDepth? l = b.branchDepth? l := fun l => by
    rw [branchDepth?, branchDepth?, hbranches]
  have hstart : b''.startDepth i = b.startDepth i := by
    cases i <;> simp [startDepth, hlookup, hdepth]
  have hrecord : ∀ d, b''.recordBranch d i = b.recordBranch d i := fun d => by
    cases i <;> simp [recordBranch, hlookup, hbranches]
  simp only [emit, hstart, hrecord, ← hmax] at h ⊢
  split_ifs at h ⊢
  cases h
  exact ⟨_, rfl, rfl⟩

/-! ### The first instructions -/

theorem Builder.emitAll_append (before after : List Instr) :
    b.emitAll C (before ++ after) = b.emitAll C before >>= fun b => b.emitAll C after :=
  List.foldlM_append

theorem Builder.Built.exists_emitAll (h : Built C code b) :
    ∃ b₁, empty.emitAll C code = .ok b₁ ∧ b.tracking = b₁.tracking := by
  induction h with
  | new => exact ⟨_, rfl, rfl⟩
  | emitted _ hi ih =>
    obtain ⟨b₀, hb₀, heq⟩ := ih
    obtain ⟨b₁, hemit, heq'⟩ := emit_of_tracking_eq heq hi
    refine ⟨b₁, ?_, heq'⟩
    rw [emitAll_append, hb₀]
    change b₀.emit C _ >>= pure = _
    rw [bind_pure, hemit]
  | label _ ih => exact ih
  | text s _ ih =>
    refine ih.imp fun _ hb => ⟨hb.1, ?_⟩
    rw [← hb.2, intern]
    split <;> rfl
  | declared _ hr ih =>
    refine ih.imp fun _ hb => ⟨hb.1, ?_⟩
    unfold declare? at hr
    split_ifs at hr
    cases hr
    exact hb.2

theorem Builder.exists_emitAll_take (h : b.emitAll C code = .ok b') (n : Nat) :
    ∃ b₁, b.emitAll C (code.take n) = .ok b₁ ∧ b₁.emitAll C (code.drop n) = .ok b' := by
  rw [← List.take_append_drop n code, emitAll_append] at h
  cases hb : b.emitAll C (code.take n) with
  | error f =>
    rw [hb] at h
    cases h
  | ok b₁ =>
    rw [hb] at h
    exact ⟨b₁, rfl, h⟩

theorem Builder.exists_emit (hi : code[n]? = some i)
    (h : b.emitAll C (code.take (n + 1)) = .ok b') :
    ∃ b₀, b.emitAll C (code.take n) = .ok b₀ ∧ b₀.emit C i = .ok b' := by
  obtain ⟨b₀, hb₀, hrest⟩ := exists_emitAll_take h n
  refine ⟨b₀, ?_, ?_⟩
  · rwa [List.take_take, Nat.min_eq_left (Nat.le_succ n)] at hb₀
  · have hone : (code.take (n + 1)).drop n = [i] := by
      rw [List.drop_take, Nat.add_sub_cancel_left, List.take_one, List.head?_drop, hi]
      rfl
    simpa [hone, emitAll] using hrest

theorem Builder.trackedDepth?_of_emitAll (h : empty.emitAll C (code.take n) = .ok b) :
    trackedDepth? C code n = some b.depth := by
  rw [trackedDepth?, h]
  rfl

/-- Any builder that has emitted the first instructions is as deep. -/
theorem Builder.Built.trackedDepth?_eq (h : Built C (code.take n) b) :
    trackedDepth? C code n = some b.depth := by
  obtain ⟨b₀, hb₀, heq⟩ := h.exists_emitAll
  rw [trackedDepth?_of_emitAll hb₀]
  exact congrArg some (congrArg Prod.fst heq).symm

/-! ### Labels -/

theorem exists_branchesAt (hb : empty.emitAll C (code.take n) = .ok b) (hn : n ≤ code.length)
    (hd : b.branchDepth? l = some d) :
    ∃ k < n, BranchesAt code k l ∧ trackedDepth? C code (k + 1) = some d := by
  induction n generalizing b with
  | zero =>
    cases hb
    cases hd
  | succ n ih =>
    have hi : code[n]? = some code[n] := List.getElem?_eq_getElem hn
    obtain ⟨b₀, hb₀, hemit⟩ := exists_emit hi hb
    rw [branchDepth?_of_emit hemit, Option.or_eq_some_iff] at hd
    rcases hd with hd | ⟨-, hd⟩
    · obtain ⟨k, hk, hbranch, htracked⟩ := ih hb₀ (Nat.le_of_succ_le hn) hd
      exact ⟨k, Nat.lt_succ_of_lt hk, hbranch, htracked⟩
    · split_ifs at hd with htarget
      refine ⟨n, Nat.lt_succ_self n, ⟨_, hi, htarget⟩, ?_⟩
      rw [trackedDepth?_of_emitAll hb, hd]

theorem branchDepth?_ne_none (hb : empty.emitAll C (code.take m) = .ok b) (hm : m ≤ code.length)
    (hn : n < m) (hbranch : BranchesAt code n l) : b.branchDepth? l ≠ none := by
  induction m generalizing b with
  | zero => omega
  | succ m ih =>
    have hi : code[m]? = some code[m] := List.getElem?_eq_getElem hm
    obtain ⟨b₀, hb₀, hemit⟩ := exists_emit hi hb
    rw [branchDepth?_of_emit hemit, ne_eq, Option.or_eq_none_iff, not_and_or]
    by_cases hnm : n = m
    · obtain ⟨j, hj, htarget⟩ := hbranch
      rw [hnm, hi, Option.some.injEq] at hj
      exact .inr (by simp [hj, htarget])
    · exact .inl (ih hb₀ (by omega) (by omega))

/-! ### Ways -/

/-- **The builder starts an instruction at the depth of every way to it.**  The induction is on the
way.  Where it falls into a label, the depth recorded for the label agrees with the one that the
builder has come with; where it jumps to one, with that of the branch. -/
theorem Arrives.startDepth_eq (h : empty.emitAll C code = .ok b') (hj : Joined C code)
    (harrives : Arrives C code n d) (hi : code[n]? = some i)
    (hb : empty.emitAll C (code.take n) = .ok b) : b.startDepth i = d := by
  induction harrives generalizing i b with
  | start =>
    cases hb
    cases i <;> rfl
  | @next n d j harrives hjn hgo ih =>
    obtain ⟨b₀, hb₀, hemit⟩ := exists_emit hjn hb
    have hdepth : b.depth = j.depthAfter C d := by
      rw [(emit_eq_ok hemit).2.1, ih hjn hb₀]
    cases i with
    | mark l =>
      change (b.branchDepth? l).getD b.depth = _
      cases hrecorded : b.branchDepth? l with
      | none => exact hdepth
      | some d₀ =>
        have hn : n + 1 ≤ code.length := Nat.le_of_lt (List.getElem?_eq_some_iff.1 hi).1
        obtain ⟨k, -, hbranch, htracked⟩ := exists_branchesAt hb hn hrecorded
        have hfalls := hj.falls k (n + 1) l hbranch hi ⟨d, j, harrives, hjn, hgo⟩
        rw [htracked, trackedDepth?_of_emitAll hb, Option.some.injEq] at hfalls
        rw [Option.getD_some, ← hfalls, hdepth]
    | _ => exact hdepth
  | @jump n m d j l harrives hjn hl hm ih =>
    obtain rfl : Instr.mark l = i := by simpa [hm] using hi
    have hbranch : BranchesAt code n l := ⟨j, hjn, hl⟩
    obtain ⟨m', hlt, hm'⟩ := hj.placed n l hbranch
    obtain rfl : m = m' := hj.once n l m m' hbranch hm hm'
    have hle : m ≤ code.length := Nat.le_of_lt (List.getElem?_eq_some_iff.1 hm).1
    obtain ⟨d₀, hrecorded⟩ :=
      Option.ne_none_iff_exists'.1 (branchDepth?_ne_none hb hle hlt hbranch)
    obtain ⟨k, -, hbranch', htracked⟩ := exists_branchesAt hb hle hrecorded
    -- the branch taken leaves the depth that the first branch has recorded
    obtain ⟨b₁, hb₁, -⟩ := exists_emitAll_take h (n + 1)
    obtain ⟨b₀, hb₀, hemit⟩ := exists_emit hjn hb₁
    have hagree := hj.branches n k l hbranch hbranch'
    rw [htracked, trackedDepth?_of_emitAll hb₁, Option.some.injEq] at hagree
    change (b.branchDepth? l).getD b.depth = _
    rw [hrecorded, Option.getD_some, ← hagree, (emit_eq_ok hemit).2.1, ih hjn hb₀]

/-! ### The greatest depth -/

/-- The greatest depth is that after some of the first instructions, and none of them is deeper. -/
theorem trackedDepth?_maxDepth (hb : empty.emitAll C (code.take n) = .ok b)
    (hn : n ≤ code.length) :
    (∀ k ≤ n, ∀ d, trackedDepth? C code k = some d → d ≤ b.maxDepth) ∧
      ∃ k ≤ n, trackedDepth? C code k = some b.maxDepth := by
  induction n generalizing b with
  | zero =>
    cases hb
    refine ⟨fun k hk d hd => ?_, 0, Nat.le_refl _, rfl⟩
    obtain rfl : k = 0 := by omega
    exact Nat.le_of_eq (Option.some.inj hd).symm
  | succ n ih =>
    obtain ⟨b₀, hb₀, hemit⟩ := exists_emit (List.getElem?_eq_getElem hn) hb
    obtain ⟨hle, k, hk, htracked⟩ := ih hb₀ (by omega)
    have htop := trackedDepth?_of_emitAll hb
    rw [(emit_eq_ok hemit).2.2.2]
    constructor
    · intro m hm d hd
      by_cases hmn : m = n + 1
      · subst hmn
        obtain rfl : b.depth = d := by simpa [htop] using hd
        omega
      · have := hle m (by omega) d hd
        omega
    · by_cases hmax : b₀.maxDepth ≤ b.depth
      · exact ⟨n + 1, Nat.le_refl _, by rw [htop, Nat.max_eq_right hmax]⟩
      · exact ⟨k, by omega, by rw [htracked, Nat.max_eq_left (by omega)]⟩

/-- Each instruction on a way finds its operands, and leaves the depth that the builder has right
after it. -/
theorem Arrives.trackedDepth?_succ (h : empty.emitAll C code = .ok b') (hj : Joined C code)
    (harrives : Arrives C code n d) (hi : code[n]? = some i) :
    (i.effect C d).1 ≤ d ∧ trackedDepth? C code (n + 1) = some (i.depthAfter C d) := by
  obtain ⟨b₁, hb₁, -⟩ := exists_emitAll_take h (n + 1)
  obtain ⟨b₀, hb₀, hemit⟩ := exists_emit hi hb₁
  obtain ⟨hpops, hdepth, -, -⟩ := emit_eq_ok hemit
  rw [harrives.startDepth_eq h hj hi hb₀] at hpops hdepth
  exact ⟨hpops, by rw [trackedDepth?_of_emitAll hb₁, hdepth]⟩

end Tracking

/-- **The depth that a builder follows is the real one.**  A builder emits code from its start on,
whatever labels, texts and locals it gives out in between, and each label branched to is placed
once, after all branches to it, where all agree on the depth that the builder follows.  Then on
every way through the code, wherever it branches, each instruction finds the operands that it
takes, leaves as many as the builder has followed to right after it, and never more than the
greatest depth.  That is the greatest of the depths after the first so many instructions. -/
theorem tracked_depth_exact {C : Catalog} {code : List Instr} {b : Builder}
    (h : Built C code b) (hj : Joined C code) :
    (∀ n d i, Arrives C code n d → code[n]? = some i →
      (i.effect C d).1 ≤ d ∧ trackedDepth? C code (n + 1) = some (i.depthAfter C d) ∧
        d ≤ b.maxDepth ∧ i.depthAfter C d ≤ b.maxDepth) ∧
    (∀ n b', Built C (code.take n) b' → trackedDepth? C code n = some b'.depth) ∧
    (∀ n ≤ code.length, ∃ d, trackedDepth? C code n = some d ∧ d ≤ b.maxDepth) ∧
    ∃ n ≤ code.length, trackedDepth? C code n = some b.maxDepth := by
  obtain ⟨b₀, hb₀, heq⟩ := h.exists_emitAll
  obtain ⟨-, -, hmax⟩ : b.depth = b₀.depth ∧ b.branchDepths = b₀.branchDepths ∧
      b.maxDepth = b₀.maxDepth := by simpa [tracking] using heq
  have hall : empty.emitAll C (code.take code.length) = .ok b₀ := by rwa [List.take_length]
  obtain ⟨hle, hattained⟩ := trackedDepth?_maxDepth hall (Nat.le_refl _)
  rw [hmax]
  have hafter : ∀ n d i, Arrives C code n d → code[n]? = some i →
      i.depthAfter C d ≤ b₀.maxDepth := by
    intro n d i harrives hi
    have hn : n < code.length := (List.getElem?_eq_some_iff.1 hi).1
    exact hle (n + 1) hn _ (harrives.trackedDepth?_succ hb₀ hj hi).2
  refine ⟨fun n d i harrives hi => ?_, fun n b' hb' => hb'.trackedDepth?_eq, fun n hn => ?_,
    hattained⟩
  · obtain ⟨hpops, htracked⟩ := harrives.trackedDepth?_succ hb₀ hj hi
    refine ⟨hpops, htracked, ?_, hafter n d i harrives hi⟩
    -- a way begins without operands, and gets on only by an instruction
    cases harrives with
    | start => exact Nat.zero_le _
    | next hbefore hj _ => exact hafter _ _ _ hbefore hj
    | jump hbefore hj _ _ => exact hafter _ _ _ hbefore hj
  · obtain ⟨b₁, hb₁, -⟩ := exists_emitAll_take hb₀ n
    have htracked := trackedDepth?_of_emitAll hb₁
    exact ⟨_, htracked, hle n hn _ htracked⟩

/-- Two branches that meet, of which the first is not always taken. -/
def branchingCode : List Instr :=
  [.ldcI4 1, .brFalse ⟨0⟩, .ldcI4 2, .br ⟨1⟩, .mark ⟨0⟩, .ldcI4 3, .mark ⟨1⟩]

theorem branchesAt_branchingCode {n : Nat} {l : Label} (h : BranchesAt branchingCode n l) :
    n = 1 ∧ l = ⟨0⟩ ∨ n = 3 ∧ l = ⟨1⟩ := by
  obtain ⟨i, hi, hl⟩ := h
  have hn : n < 7 := (List.getElem?_eq_some_iff.1 hi).1
  interval_cases n <;> cases hi <;> cases hl <;> simp

theorem mark_branchingCode {m : Nat} {l : Label} (h : branchingCode[m]? = some (.mark l)) :
    m = 4 ∧ l = ⟨0⟩ ∨ m = 6 ∧ l = ⟨1⟩ := by
  have hm : m < 7 := (List.getElem?_eq_some_iff.1 h).1
  interval_cases m <;> cases h <;> simp

theorem joined_branchingCode (C : Catalog) : Joined C branchingCode where
  placed n l h := by
    obtain ⟨rfl, rfl⟩ | ⟨rfl, rfl⟩ := branchesAt_branchingCode h
    · exact ⟨4, by decide, rfl⟩
    · exact ⟨6, by decide, rfl⟩
  once n l m m' _ hm hm' := by
    have h := mark_branchingCode hm
    have h' := mark_branchingCode hm'
    grind
  branches n n' l h h' := by
    have h := branchesAt_branchingCode h
    have h' := branchesAt_branchingCode h'
    grind
  falls n m l h hm hfalls := by
    obtain ⟨rfl, rfl⟩ | ⟨rfl, rfl⟩ := branchesAt_branchingCode h
    · obtain ⟨rfl, -⟩ | ⟨-, hl⟩ := mark_branchingCode hm
      · -- the branch before it does not go on
        obtain ⟨d, i, -, hi, hgo⟩ := hfalls
        cases hi
        cases hgo
      · cases hl
    · obtain ⟨-, hl⟩ | ⟨rfl, -⟩ := mark_branchingCode hm
      · cases hl
      · rfl

theorem built_branchingCode : ∃ b, Built .standard branchingCode b ∧ b.maxDepth = 1 := by
  have h : Built .standard [] empty.defineLabel.2.defineLabel.2 := Built.new.label.label
  exact ⟨_, ((((((h.emitted rfl).emitted rfl).emitted rfl).emitted rfl).emitted rfl).emitted
    rfl).emitted rfl, rfl⟩

/-- The way that takes the first branch comes without operands to where the label is placed, though
the branch before it leaves one; the builder has none there either. -/
theorem tracked_depth_exact_branches :
    ∃ b, Built .standard branchingCode b ∧ Joined .standard branchingCode ∧ b.maxDepth = 1 ∧
      Arrives .standard branchingCode 4 0 ∧ trackedDepth? .standard branchingCode 4 = some 1 ∧
      trackedDepth? .standard branchingCode 5 = some 0 := by
  obtain ⟨b, hb, hmax⟩ := built_branchingCode
  have hj := joined_branchingCode .standard
  have hbranch : Arrives .standard branchingCode 1 1 :=
    Arrives.start.next (i := .ldcI4 1) rfl rfl
  have harrives : Arrives .standard branchingCode 4 0 :=
    hbranch.jump (i := .brFalse ⟨0⟩) (l := ⟨0⟩) rfl rfl rfl
  obtain ⟨-, hdepth, -⟩ := (tracked_depth_exact hb hj).1 4 0 _ harrives rfl
  exact ⟨b, hb, hj, hmax, harrives, rfl, hdepth⟩

end Recast
