import Recast.Proofs.Numbering
import Recast.Proofs.Register
import Recast.Proofs.StackDepth

/-!
# Commands to a builder

A builder is told to emit instructions, to intern texts and to hand out locals and labels, in any
order.  An instruction that it refuses is caught, and work goes on.  So whatever a builder keeps has
to fit together after every command, and not only in code that is complete.

Code is written with more state than a builder has, and in smaller steps: texts are found by a map
that is kept beside them, and operands are counted one by one.  A `Draft` is a builder at work in
that way.

* `Builder.obey` : what comes of a command, and the builder after it;
* `Builder.Tidy.after` : the depth of the stack and the depths at branches stay below the greatest
  depth, and there are never too many locals;
* `Builder.emitInSteps_eq` : **an instruction that is refused midway changes nothing**;
* `Draft.runAll_eq` : **a draft does what a builder does**;
* `Builder.consistent_after` : **texts, locals, labels and depths are consistent**, whatever the
  builder is told.
-/

namespace Recast

/-! ### Commands -/

/-- What a builder may be told to do. -/
inductive Command where
  /-- Emit an instruction. -/
  | emit (i : Instr)
  /-- Intern a text. -/
  | intern (t : String)
  /-- Declare a local. -/
  | declare (r : Rep)
  /-- Define a label. -/
  | label

namespace Command

/-- What comes of a command. -/
inductive Result where
  /-- The instruction is emitted. -/
  | done
  /-- The instruction is refused. -/
  | refused (f : Fault)
  /-- The index of the text. -/
  | index (j : Nat)
  /-- The slot of the local. -/
  | slot (n : Nat)
  /-- There are too many locals. -/
  | full
  /-- The label. -/
  | label (l : Label)
  deriving DecidableEq

/-- The text that a command interns. -/
def text? : Command → Option String
  | intern t => some t
  | _ => none

/-- The instruction that has been emitted. -/
def emitted? : Command × Result → Option Instr
  | (emit i, .done) => some i
  | _ => none

/-- The local that has been declared. -/
def declared? : Command × Result → Option (Rep × Nat)
  | (declare r, .slot n) => some (r, n)
  | _ => none

/-- The label that has been defined. -/
def defined? : Command × Result → Option Label
  | (label, .label l) => some l
  | _ => none

variable {σ : Type}

/-- Obey commands one after another.  What comes of each is noted down. -/
def runAll (obey : Command → σ → Result × σ) : List Command → σ → List (Command × Result) × σ
  | [], x => ([], x)
  | c :: cs, x =>
    ((c, (obey c x).1) :: (runAll obey cs (obey c x).2).1, (runAll obey cs (obey c x).2).2)

end Command

namespace Builder

open Command

variable {C : Catalog} {b b' b'' : Builder} {c : Command} {cs ds : List Command} {i : Instr}
  {t : String} {r : Rep} {l : Label} {j n : Nat} {f : Fault}

/-- What comes of a command, and the builder after it.  Neither an instruction that is refused nor a
local too many changes the builder. -/
def obey (C : Catalog) : Command → Builder → Result × Builder
  | .emit i, b =>
    match b.emit C i with
    | .ok b' => (.done, b')
    | .error f => (.refused f, b)
  | .intern t, b => (.index (b.intern t).1, (b.intern t).2)
  | .declare r, b =>
    match b.declare? r with
    | some (n, b') => (.slot n, b')
    | none => (.full, b)
  | .label, b => (.label b.defineLabel.1, b.defineLabel.2)

/-- The builder after some commands. -/
def after (C : Catalog) (cs : List Command) (b : Builder) : Builder := (runAll (obey C) cs b).2

/-- What comes of some commands. -/
def log (C : Catalog) (cs : List Command) (b : Builder) : List (Command × Result) :=
  (runAll (obey C) cs b).1

theorem after_append : b.after C (cs ++ ds) = (b.after C cs).after C ds := by
  induction cs generalizing b with
  | nil => rfl
  | cons c cs ih => exact ih

theorem after_cons : b.after C (c :: cs) = (b.obey C c).2.after C cs := rfl

theorem log_cons : b.log C (c :: cs) = (c, (b.obey C c).1) :: (b.obey C c).2.log C cs := rfl

/-! ### All that a command can do -/

/-- All that a command can do. -/
inductive Obeys (C : Catalog) (b : Builder) : Command → Result → Builder → Prop
  /-- An instruction is emitted. -/
  | emitted {i : Instr} {b' : Builder} (h : b.emit C i = .ok b') : Obeys C b (.emit i) .done b'
  /-- An instruction is refused. -/
  | refused {i : Instr} {f : Fault} (h : b.emit C i = .error f) :
    Obeys C b (.emit i) (.refused f) b
  /-- A text is interned. -/
  | interned (t : String) :
    Obeys C b (.intern t) (.index (b.intern t).1) { b with texts := internInto b.texts t }
  /-- A local is declared. -/
  | declared {r : Rep} (h : b.locals.size < maxLocals) :
    Obeys C b (.declare r) (.slot b.locals.size) { b with locals := b.locals.push r }
  /-- A local is one too many. -/
  | full {r : Rep} (h : maxLocals ≤ b.locals.size) : Obeys C b (.declare r) .full b
  /-- A label is defined. -/
  | defined : Obeys C b .label (.label ⟨b.labels⟩) { b with labels := b.labels + 1 }

theorem obeys (C : Catalog) (b : Builder) (c : Command) :
    Obeys C b c (b.obey C c).1 (b.obey C c).2 := by
  cases c with
  | emit i =>
    simp only [obey]
    cases h : b.emit C i with
    | ok b' => exact .emitted h
    | error f => exact .refused h
  | intern t =>
    simp only [obey, intern_eq]
    exact .interned t
  | declare r =>
    simp only [obey, declare?]
    by_cases h : b.locals.size < maxLocals
    · rw [if_pos h]
      exact .declared h
    · rw [if_neg h]
      exact .full (Nat.le_of_not_lt h)
  | label => exact .defined

theorem after_induction {P : Builder → Prop}
    (h : ∀ {b c a b'}, Obeys C b c a b' → P b → P b') (hb : P b) (cs : List Command) :
    P (b.after C cs) := by
  induction cs generalizing b with
  | nil => exact hb
  | cons c cs ih => exact ih (h (b.obeys C c) hb)

theorem view_after {β : Type} (view : Builder → List β) {note : Command × Result → Option β}
    (h : ∀ {b c a b'}, Obeys C b c a b' → view b' = view b ++ (note (c, a)).toList)
    (b : Builder) (cs : List Command) :
    view (b.after C cs) = view b ++ (b.log C cs).filterMap note := by
  induction cs generalizing b with
  | nil => exact (List.append_nil _).symm
  | cons c cs ih =>
    rw [after_cons, ih, h (b.obeys C c), log_cons, List.append_assoc]
    cases hnote : note (c, (b.obey C c).1) with
    | none => simp [hnote]
    | some y => simp [hnote]

/-! ### What is handed out -/

/-- One builder has grown out of another: nothing that has been handed out is taken back. -/
structure Grows (b b' : Builder) : Prop where
  /-- Texts keep their index. -/
  texts : b.texts.toList <+: b'.texts.toList
  /-- Locals keep their slot and their representation. -/
  locals : b.locals.toList <+: b'.locals.toList
  /-- Labels stay defined. -/
  labels : b.labels ≤ b'.labels
  /-- The greatest depth does not decrease. -/
  maxDepth : b.maxDepth ≤ b'.maxDepth

theorem Grows.refl (b : Builder) : b.Grows b :=
  ⟨List.prefix_rfl, List.prefix_rfl, Nat.le_refl _, Nat.le_refl _⟩

theorem Grows.trans (h : b.Grows b') (h' : b'.Grows b'') : b.Grows b'' :=
  ⟨h.texts.trans h'.texts, h.locals.trans h'.locals, Nat.le_trans h.labels h'.labels,
    Nat.le_trans h.maxDepth h'.maxDepth⟩

/-- **Nothing that has been handed out is taken back** by a command. -/
theorem Obeys.grows {a : Result} (h : Obeys C b c a b') : b.Grows b' := by
  cases h with
  | emitted h =>
    obtain ⟨-, htexts, hlocals, hlabels⟩ := emit_frame h
    obtain ⟨-, -, -, hmax⟩ := emit_eq_ok h
    exact ⟨htexts ▸ List.prefix_rfl, hlocals ▸ List.prefix_rfl, Nat.le_of_eq hlabels.symm,
      hmax ▸ Nat.le_max_left _ _⟩
  | refused h => exact .refl b
  | interned t =>
    refine ⟨?_, List.prefix_rfl, Nat.le_refl _, Nat.le_refl _⟩
    unfold internInto
    split_ifs <;> simp
  | declared h => exact ⟨List.prefix_rfl, by simp, Nat.le_refl _, Nat.le_refl _⟩
  | full h => exact .refl b
  | defined => exact ⟨List.prefix_rfl, List.prefix_rfl, Nat.le_succ _, Nat.le_refl _⟩

theorem grows_after (b : Builder) (cs : List Command) : b.Grows (b.after C cs) :=
  after_induction (P := b.Grows) (fun h hb => hb.trans h.grows) (.refl b) cs

theorem Obeys.texts {a : Result} (h : Obeys C b c a b') :
    b'.texts = c.text?.toList.foldl internInto b.texts := by
  cases h with
  | emitted h => exact (emit_frame h).2.1
  | _ => rfl

theorem instrs_after (b : Builder) (cs : List Command) :
    (b.after C cs).instrs.toList = b.instrs.toList ++ (b.log C cs).filterMap emitted? := by
  refine view_after (fun b => b.instrs.toList) (fun h => ?_) b cs
  cases h with
  | emitted h => simp [(emit_frame h).1, emitted?]
  | _ => simp [emitted?]

/-- **Locals are numbered one after another**, each with the representation it was declared with. -/
theorem locals_after (b : Builder) (cs : List Command) : (b.after C cs).locals.toList.zipIdx =
    b.locals.toList.zipIdx ++ (b.log C cs).filterMap declared? := by
  refine view_after (fun b => b.locals.toList.zipIdx) (fun h => ?_) b cs
  cases h with
  | emitted h => simp [(emit_frame h).2.2.1, declared?]
  | declared h => simp [declared?, List.zipIdx_append]
  | _ => simp [declared?]

/-- **Labels are numbered one after another**, so that no label is defined twice. -/
theorem labels_after (b : Builder) (cs : List Command) :
    (List.range (b.after C cs).labels).map Label.mk =
      (List.range b.labels).map Label.mk ++ (b.log C cs).filterMap defined? := by
  refine view_after (fun b => (List.range b.labels).map Label.mk) (fun h => ?_) b cs
  cases h with
  | emitted h => simp [(emit_frame h).2.2.2, defined?]
  | defined => simp [defined?, List.range_succ]
  | _ => simp [defined?]

theorem Grows.getElem?_texts (h : b.Grows b') (ht : b.texts[j]? = some t) :
    b'.texts[j]? = some t := by
  obtain ⟨rest, hrest⟩ := h.texts
  obtain ⟨hj, -⟩ := Array.getElem?_eq_some_iff.1 ht
  rw [← Array.getElem?_toList, ← hrest, List.getElem?_append_left hj, Array.getElem?_toList, ht]

theorem index_of_mem_log {a : Result} (h : (.intern t, a) ∈ b.log C cs) :
    ∃ j, a = .index j ∧ (b.after C cs).texts[j]? = some t := by
  induction cs generalizing b with
  | nil => cases h
  | cons c cs ih =>
    rcases List.mem_cons.1 h with heq | hmem
    · obtain ⟨rfl, rfl⟩ := Prod.mk.inj heq
      have hfound := getElem?_of_idxOf? (b.idxOf?_intern t)
      exact ⟨_, rfl, ((b.intern t).2.grows_after cs).getElem?_texts hfound⟩
    · exact ih hmem

/-! ### The depth of the stack -/

/-- Nothing has got out of bounds. -/
structure Tidy (b : Builder) : Prop where
  /-- There are not too many locals. -/
  locals : b.locals.size ≤ maxLocals
  /-- The stack is not deeper than the greatest depth. -/
  depth : b.depth ≤ b.maxDepth
  /-- Nor has it been at a branch. -/
  branches : ∀ l d, b.branchDepth? l = some d → d ≤ b.maxDepth

theorem tidy_empty : empty.Tidy := by
  refine ⟨Nat.zero_le _, Nat.le_refl _, fun l d h => ?_⟩
  cases h

/-- **A command keeps everything within its bounds.** -/
theorem Obeys.tidy {a : Result} (h : Obeys C b c a b') (hb : b.Tidy) : b'.Tidy := by
  cases h with
  | emitted h =>
    obtain ⟨-, -, hlocals, -⟩ := emit_frame h
    obtain ⟨-, -, -, hmax⟩ := emit_eq_ok h
    refine ⟨hlocals ▸ hb.locals, hmax ▸ Nat.le_max_right _ _, fun l d hd => ?_⟩
    rw [branchDepth?_of_emit h, Option.or_eq_some_iff] at hd
    rcases hd with hd | ⟨-, hd⟩
    · have := hb.branches l d hd
      omega
    · -- the depth at a branch is the one that is left
      split_ifs at hd
      cases hd
      omega
  | refused h => exact hb
  | interned t => exact ⟨hb.locals, hb.depth, hb.branches⟩
  | declared h =>
    refine ⟨?_, hb.depth, hb.branches⟩
    rw [Array.size_push]
    exact h
  | full h => exact hb
  | defined => exact ⟨hb.locals, hb.depth, hb.branches⟩

theorem Tidy.after (hb : b.Tidy) (cs : List Command) : (b.after C cs).Tidy :=
  after_induction Obeys.tidy hb cs

/-! ### Small steps -/

/-- A step of work on a builder.  What it has changed by the time that it is refused stays
changed. -/
abbrev Work := EStateM Fault Builder

/-- Take operands from the stack, if there are so many. -/
def pop (n : Nat) : Work Unit := fun b =>
  if b.depth < n then .error (.underflow n b.depth) b
  else .ok () { b with depth := b.depth - n }

/-- Leave an operand on the stack. -/
def push : Work Unit := fun b =>
  let depth := b.depth + 1
  .ok () { b with depth := depth, maxDepth := if b.maxDepth < depth then depth else b.maxDepth }

/-- Leave a number of operands. -/
def pushMany : Nat → Work Unit
  | 0 => return
  | n + 1 => do
    push
    pushMany n

/-- Record the depth at a branch, unless there has been one to the label before. -/
def record (l : Label) : Work Unit := fun b =>
  match b.branchDepth? l with
  | some _ => .ok () b
  | none => .ok () { b with branchDepths := (l, b.depth) :: b.branchDepths }

/-- Go on at the depth of the branches to a label, if there are any. -/
def resume (l : Label) : Work Unit := fun b =>
  match b.branchDepth? l with
  | some depth => .ok () { b with depth := depth }
  | none => .ok () b

/-- Take and leave as many operands as an instruction does. -/
def exchange (C : Catalog) (i : Instr) : Work Unit := do
  let (pops, pushes) := i.effect C (← get).depth
  pop pops
  pushMany pushes

/-- Follow the depth through an instruction. -/
def follow (C : Catalog) : Instr → Work Unit
  | .br l => record l
  | .brFalse l => do
    pop 1
    record l
  | .mark l => resume l
  | i => exchange C i

/-- Emit an instruction step by step. -/
def emitInSteps (C : Catalog) (i : Instr) : Work Unit := do
  follow C i
  modify fun b => { b with instrs := b.instrs.push i }

section Work

variable {α β : Type} {w : Work α} {k : α → Work β} {x : α}

theorem work_bind_of_ok (h : w b = .ok x b') : (w >>= k) b = k x b' := by
  change EStateM.bind w k b = _
  rw [EStateM.bind, h]

theorem work_bind_of_error (h : w b = .error f b') : (w >>= k) b = .error f b' := by
  change EStateM.bind w k b = _
  rw [EStateM.bind, h]

end Work

theorem pop_of_lt (h : b.depth < n) : pop n b = .error (.underflow n b.depth) b := if_pos h

theorem pop_of_le (h : n ≤ b.depth) : pop n b = .ok () { b with depth := b.depth - n } :=
  if_neg (Nat.not_lt_of_le h)

theorem push_eq (b : Builder) : push b =
    .ok () { b with depth := b.depth + 1, maxDepth := max b.maxDepth (b.depth + 1) } := by
  unfold push
  dsimp only
  split_ifs with h
  · rw [Nat.max_eq_right (Nat.le_of_lt h)]
  · rw [Nat.max_eq_left (Nat.le_of_not_lt h)]

theorem pushMany_eq (n : Nat) (hb : b.depth ≤ b.maxDepth) : pushMany n b =
    .ok () { b with depth := b.depth + n, maxDepth := max b.maxDepth (b.depth + n) } := by
  induction n generalizing b with
  | zero =>
    rw [Nat.add_zero, Nat.max_eq_left hb]
    rfl
  | succ n ih =>
    rw [pushMany, work_bind_of_ok (push_eq b), ih (Nat.le_max_right _ _)]
    dsimp only
    congr 2 <;> omega

theorem record_eq (l : Label) (b : Builder) :
    record l b = .ok () { b with branchDepths := b.recordBranch b.depth (.br l) } := by
  simp only [record, recordBranch]
  cases b.branchDepth? l <;> simp

theorem resume_eq (l : Label) (b : Builder) :
    resume l b = .ok () { b with depth := b.startDepth (.mark l) } := by
  simp only [resume, startDepth]
  cases b.branchDepth? l <;> simp

/-- **An instruction that is refused midway changes nothing**, and one that is not is emitted as at
one stroke. -/
theorem emitInSteps_eq (C : Catalog) (hb : b.Tidy) (i : Instr) : emitInSteps C i b =
    match b.emit C i with
    | .ok b' => .ok () b'
    | .error f => .error f b := by
  -- an instruction that is neither a branch nor a label
  have plain : follow C i = exchange C i → b.startDepth i = b.depth →
      (∀ d, b.recordBranch d i = b.branchDepths) → emitInSteps C i b =
        match b.emit C i with
        | .ok b' => .ok () b'
        | .error f => .error f b := by
    intro hfollow hstart hrecord
    have hexchange : exchange C i b =
        (pop (i.effect C b.depth).1 >>= fun _ => pushMany (i.effect C b.depth).2) b := rfl
    rw [emitInSteps, hfollow, emit]
    dsimp only
    rw [hstart, hrecord]
    by_cases h : b.depth < (i.effect C b.depth).1
    · rw [if_pos h, work_bind_of_error (hexchange.trans (work_bind_of_error (pop_of_lt h)))]
    · have hpop := pop_of_le (Nat.le_of_not_lt h)
      have hpush := pushMany_eq (b := { b with depth := b.depth - (i.effect C b.depth).1 })
        (i.effect C b.depth).2 (Nat.le_trans (Nat.sub_le _ _) hb.depth)
      rw [if_neg h, work_bind_of_ok (hexchange.trans ((work_bind_of_ok hpop).trans hpush))]
      rfl
  have emitted : ∀ {b' : Builder}, follow C i b = .ok () b' →
      emitInSteps C i b = .ok () { b' with instrs := b'.instrs.push i } := fun h => by
    rw [emitInSteps, work_bind_of_ok h]
    rfl
  cases i with
  | br l =>
    rw [emitted (record_eq l b)]
    simp [emit, startDepth, Instr.effect, recordBranch, hb.depth]
  | brFalse l =>
    by_cases h : b.depth < 1
    · have hrefused : (pop 1 >>= fun _ => record l) b = .error (.underflow 1 b.depth) b :=
        work_bind_of_error (pop_of_lt h)
      rw [emitInSteps, follow, work_bind_of_error hrefused]
      simp [emit, startDepth, Instr.effect, h]
    · have hpop := pop_of_le (Nat.le_of_not_lt h)
      have hrecord : (pop 1 >>= fun _ => record l) b = _ :=
        (work_bind_of_ok hpop).trans (record_eq l _)
      rw [emitted hrecord]
      have hmax : max b.maxDepth (b.depth - 1) = b.maxDepth :=
        Nat.max_eq_left (Nat.le_trans (Nat.sub_le _ _) hb.depth)
      simp only [emit, startDepth, Instr.effect, if_neg h, Nat.add_zero, hmax]
      rfl
  | mark l =>
    rw [emitted (resume_eq l b)]
    have hstart : b.startDepth (.mark l) ≤ b.maxDepth := by
      simp only [startDepth]
      cases hd : b.branchDepth? l with
      | none => exact hb.depth
      | some d => exact hb.branches l d hd
    simp [emit, Instr.effect, recordBranch, hstart]
  | _ => exact plain rfl rfl fun _ => rfl

end Builder

/-! ### Drafts -/

/-- A builder at work, with a map beside its texts from each text to its index. -/
structure Draft where
  /-- The builder. -/
  builder : Builder
  /-- The index of each text. -/
  positions : Std.HashMap String Nat

namespace Draft

open Command

/-- Nothing has been built yet. -/
def empty : Draft := ⟨.empty, ∅⟩

/-- The texts together with their map. -/
def pool (d : Draft) : Register String := ⟨d.builder.texts, d.positions⟩

/-- What comes of a command, and the draft after it.  An instruction that is refused leaves what its
steps have left. -/
def obey (C : Catalog) : Command → Draft → Result × Draft
  | .emit i, d =>
    match Builder.emitInSteps C i d.builder with
    | .ok _ b => (.done, { d with builder := b })
    | .error f b => (.refused f, { d with builder := b })
  | .intern t, d =>
    let (j, R) := d.pool.enter id t
    (.index j, ⟨{ d.builder with texts := R.entries }, R.positions⟩)
  | c, d => ((d.builder.obey C c).1, { d with builder := (d.builder.obey C c).2 })

variable {C : Catalog} {d : Draft} {c : Command} {cs : List Command}

theorem enter_pool (hd : d.pool.Coherent id) (t : String) :
    (d.pool.enter id t).1 = (d.builder.intern t).1 ∧
      (d.pool.enter id t).2.entries = (d.builder.intern t).2.texts := by
  have hsearch : d.builder.texts.idxOf? t = d.builder.texts.findIdx? (id · == t) := by
    generalize d.builder.texts = texts
    obtain ⟨l⟩ := texts
    rw [List.idxOf?_toArray, List.findIdx?_toArray]
    rfl
  have hfind : d.pool.positions[id t]? = d.builder.texts.idxOf? t :=
    (hsearch.trans (hd.findIdx?_eq t)).symm
  unfold Register.enter Builder.intern
  rw [hfind]
  cases d.builder.texts.idxOf? t <;> exact ⟨rfl, rfl⟩

/-- **A draft does what a builder does**, and enters what is interned in its pool. -/
theorem obey_eq (hb : d.builder.Tidy) (hd : d.pool.Coherent id) (c : Command) :
    (d.obey C c).1 = (d.builder.obey C c).1 ∧
      (d.obey C c).2.builder = (d.builder.obey C c).2 ∧
      (d.obey C c).2.pool = (d.pool.enterAll id c.text?.toList).2 := by
  -- what does not intern a text leaves the pool as it is
  have kept : ∀ {a b'}, d.builder.Obeys C c a b' → c.text? = none →
      pool { d with builder := b' } = (d.pool.enterAll id c.text?.toList).2 := by
    intro a b' h hc
    rw [hc, pool, h.texts, hc]
    rfl
  cases c with
  | emit i =>
    simp only [obey, Builder.obey, Builder.emitInSteps_eq C hb i]
    cases h : d.builder.emit C i with
    | error f => exact ⟨rfl, rfl, kept (.refused h) rfl⟩
    | ok b' => exact ⟨rfl, rfl, kept (.emitted h) rfl⟩
  | intern t =>
    obtain ⟨hindex, htexts⟩ := enter_pool hd t
    refine ⟨congrArg _ hindex, ?_, rfl⟩
    rw [Builder.obey, Builder.intern_eq, ← Builder.texts_intern, ← htexts]
    rfl
  | declare r => exact ⟨rfl, rfl, kept (d.builder.obeys C (.declare r)) rfl⟩
  | label => exact ⟨rfl, rfl, kept .defined rfl⟩

/-- **An instruction that is refused leaves a draft as it is**, whatever its steps have done. -/
theorem eq_of_refused {i : Instr} {f : Fault} (hb : d.builder.Tidy)
    (h : (d.obey C (.emit i)).1 = .refused f) : (d.obey C (.emit i)).2 = d := by
  simp only [obey, Builder.emitInSteps_eq C hb i] at h ⊢
  cases hemit : d.builder.emit C i with
  | error f => rfl
  | ok b' =>
    rw [hemit] at h
    cases h

/-- **A draft has the texts of a builder and all that comes of commands in common with it**, and its
map is that of a register of what is interned. -/
theorem runAll_eq (hb : d.builder.Tidy) (hd : d.pool.Coherent id) (cs : List Command) :
    (runAll (obey C) cs d).1 = d.builder.log C cs ∧
      (runAll (obey C) cs d).2.builder = d.builder.after C cs ∧
      (runAll (obey C) cs d).2.pool = (d.pool.enterAll id (cs.filterMap text?)).2 := by
  induction cs generalizing d with
  | nil => exact ⟨rfl, rfl, rfl⟩
  | cons c cs ih =>
    obtain ⟨hresult, hbuilder, hpool⟩ := obey_eq (C := C) hb hd c
    have hb' : (d.obey C c).2.builder.Tidy := hbuilder ▸ (d.builder.obeys C c).tidy hb
    have hd' : (d.obey C c).2.pool.Coherent id := hpool ▸ hd.enterAll _
    obtain ⟨hlog, hafter, hpool'⟩ := ih hb' hd'
    refine ⟨?_, ?_, ?_⟩
    · rw [runAll, hlog, hresult, hbuilder, Builder.log_cons]
    · rw [runAll, hafter, hbuilder, Builder.after_cons]
    · rw [runAll, hpool', hpool]
      cases c <;> rfl

/-- A new draft has come to a builder whose texts are what has been interned, in the order of their
first coming. -/
theorem exists_runAll_empty (C : Catalog) (cs : List Command) :
    ∃ d, runAll (obey C) cs .empty = (Builder.empty.log C cs, d) ∧
      d.builder = Builder.empty.after C cs ∧ d.pool.Coherent id ∧
      d.builder.texts.toList = (cs.filterMap text?).eraseDups := by
  have hempty : empty.pool.Coherent id := Register.coherent_empty
  obtain ⟨hlog, hbuilder, hpool⟩ := runAll_eq (C := C) (d := .empty) Builder.tidy_empty hempty cs
  refine ⟨_, Prod.ext hlog rfl, hbuilder, hpool ▸ hempty.enterAll _, ?_⟩
  have hnames := hempty.names_enterAll (cs.filterMap text?)
  rw [← hpool] at hnames
  simpa [Register.names, pool, empty, Builder.empty] using hnames

end Draft

/-! ### Consistency -/

namespace Builder

open Command

/-- How what came of some commands fits with the builder that a new one has become. -/
structure Consistent (C : Catalog) (cs : List Command) (log : List (Command × Result))
    (b : Builder) : Prop where
  /-- The texts are those that have been interned, in the order of their first coming. -/
  texts : b.texts.toList = (cs.filterMap text?).eraseDups
  /-- No text is there twice. -/
  nodup : b.texts.toList.Nodup
  /-- Whenever a text was interned, it got an index at which it is found. -/
  index : ∀ t a, (.intern t, a) ∈ log → ∃ j, a = .index j ∧ b.texts[j]? = some t
  /-- A text that is found at an index is not interned again, but keeps the index. -/
  known : ∀ t j, b.texts[j]? = some t → b.obey C (.intern t) = (.index j, b)
  /-- The slots given out are consecutive, and hold the representations they were asked for. -/
  locals : log.filterMap declared? = b.locals.toList.zipIdx
  /-- There are too many locals exactly if there are as many as there may be. -/
  full : ∀ r, (b.obey C (.declare r)).1 = .full ↔ b.locals.size = maxLocals
  /-- The labels given out are consecutive. -/
  labels : log.filterMap defined? = (List.range b.labels).map Label.mk
  /-- No label is given out twice. -/
  distinct : (log.filterMap defined?).Nodup
  /-- The code is what has been emitted, without what has been refused. -/
  code : log.filterMap emitted? = b.instrs.toList
  /-- The stack is not deeper than the greatest depth. -/
  depth : b.depth ≤ b.maxDepth
  /-- What is refused changes nothing. -/
  refused : ∀ c, (b.obey C c).1 = .full ∨ (∃ f, (b.obey C c).1 = .refused f) →
    (b.obey C c).2 = b
  /-- Nothing that has been handed out is taken back, and the greatest depth does not decrease. -/
  grows : ∀ more, b.Grows (b.after C more)
  /-- A draft has come to the same builder, with a map that is inverse to the texts, and is left as
  it is by an instruction that it refuses. -/
  draft : ∃ d, runAll (Draft.obey C) cs .empty = (log, d) ∧ d.builder = b ∧
    (∀ (t : String) (j : Nat), d.positions[t]? = some j ↔ b.texts[j]? = some t) ∧
    ∀ i f, (d.obey C (.emit i)).1 = .refused f → (d.obey C (.emit i)).2 = d

variable {C : Catalog} {b : Builder} {c : Command} {t : String} {j : Nat}

theorem obey_intern (hb : b.texts.toList.Nodup) (ht : b.texts[j]? = some t) :
    b.obey C (.intern t) = (.index j, b) := by
  cases hfound : b.texts.idxOf? t with
  | none => exact absurd (Array.mem_of_getElem? ht) (Array.idxOf?_eq_none_iff.1 hfound)
  | some k =>
    have hk := getElem?_of_idxOf? hfound
    rw [← Array.getElem?_toList] at hk ht
    obtain ⟨hlt, -⟩ := List.getElem?_eq_some_iff.1 hk
    have hkj : k = j := (List.getElem?_inj hlt hb).1 (hk.trans ht.symm)
    rw [obey, intern, hfound, hkj]

theorem obey_declare_eq_full {r : Rep} :
    (b.obey C (.declare r)).1 = .full ↔ maxLocals ≤ b.locals.size := by
  by_cases h : b.locals.size < maxLocals <;> simp [obey, declare?, h]
  exact Nat.le_of_not_lt h

theorem Obeys.eq_of_refused {a : Result} {b' : Builder} (h : Obeys C b c a b')
    (ha : a = .full ∨ ∃ f, a = .refused f) : b' = b := by
  cases h with
  | refused h => rfl
  | full h => rfl
  | _ => simp at ha

/-- **A builder is consistent**, whatever it has been told to do. -/
theorem consistent_after (C : Catalog) (cs : List Command) :
    Consistent C cs (empty.log C cs) (empty.after C cs) := by
  have htidy := tidy_empty.after (C := C) cs
  obtain ⟨d, hrun, hbuilder, hcoherent, htexts⟩ := Draft.exists_runAll_empty C cs
  have hnames : d.pool.names id = (empty.after C cs).texts.toList := by
    rw [← hbuilder]
    exact List.map_id _
  have hnodup := hnames ▸ hcoherent.nodup
  have hlabels : (empty.log C cs).filterMap defined? =
      (List.range (empty.after C cs).labels).map Label.mk := (labels_after empty cs).symm
  rw [hbuilder] at htexts
  exact
    { texts := htexts
      nodup := hnodup
      index := fun t a => index_of_mem_log
      known := fun t j => obey_intern hnodup
      locals := (locals_after empty cs).symm
      full := fun r => obey_declare_eq_full.trans ⟨htidy.locals.antisymm, Nat.le_of_eq ∘ Eq.symm⟩
      labels := hlabels
      distinct := by
        rw [hlabels]
        exact List.nodup_range.map fun n m h => congrArg Label.index h
      code := (instrs_after empty cs).symm
      depth := htidy.depth
      refused := fun c => (obeys C _ c).eq_of_refused
      grows := grows_after _
      draft := ⟨d, hrun, hbuilder, fun t j => by
        rw [← Array.getElem?_toList, ← hnames]
        exact hcoherent t j, fun i f => Draft.eq_of_refused (hbuilder ▸ htidy)⟩ }

end Builder

end Recast
