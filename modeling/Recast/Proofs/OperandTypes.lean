import Mathlib.Tactic.SplitIfs
import Recast.Code.Builder
import Recast.ClassTable
import Recast.Convert.Scope

/-!
# Types of operands

Code is checked on a stack of operand types, as a verifier of the target machine would do it.
A type is a value of a representation, the address of one, null, the context or a type handle.
Truth values and 32-bit integers are one type on the stack, and references may stand for what
they are assignable to.

* `Instr.retype` : what an instruction makes of the operands, and which operands it refuses;
* `Flow.step` : the same with branches.  Both ways of a conditional branch are followed, and
  wherever ways meet their stacks have to agree;
* `Instr.effect_of_retype` : an instruction takes and leaves as many operands as its effect says;
* `Flow.emit_of_step` : **typed code never underflows**: a builder accepts every instruction
  that the checker accepts.
-/

namespace Recast

/-! ### Operands -/

/-- What is known of an operand. -/
inductive Operand where
  /-- A value of a representation. -/
  | value (rep : Rep)
  /-- The address of a value of a representation. -/
  | address (rep : Rep)
  /-- The null reference. -/
  | null
  /-- The ambient context. -/
  | context
  /-- A type handle. -/
  | typeHandle
  deriving DecidableEq

/-- On the operand stack a truth value is a 32-bit integer. -/
def Rep.stacked : Rep → Rep
  | .bool => .int32
  | r => r

namespace Operand

/-- The operand may stand where a value of the representation is wanted. -/
def fits (T : ClassTable) (r : Rep) : Operand → Bool
  | value q => q.stacked == r.stacked || T.assignable q r
  | null => r.isReference
  | _ => false

/-- The operand is a number that conversion instructions take. -/
def isScalar : Operand → Bool
  | value q => q.isNumericScalar
  | _ => false

/-- The operand is a reference, which may be null. -/
def isReference : Operand → Bool
  | value q => q.isReference
  | null => true
  | _ => false

/-- Two operands may be compared: two references, or two numbers of one type. -/
def comparable : Operand → Operand → Bool
  | value q, value r => (q.isNumericScalar && q.stacked == r.stacked) ||
    (q.isReference && r.isReference)
  | e, e' => e.isReference && e'.isReference

end Operand

/-- The operand may be passed for a parameter. -/
def Param.takes (T : ClassTable) : Param → Operand → Bool
  | .value r, e => e.fits T r
  | .context, e => e == .context
  | .typeHandle, e => e == .typeHandle

/-- Take the operands for parameters, the last one first. -/
def Param.takeAll (T : ClassTable) : List Param → List Operand → Option (List Operand)
  | [], σ => some σ
  | p :: ps, e :: σ => if p.takes T e then takeAll T ps σ else none
  | _ :: _, [] => none

/-- Take the receiver: the very address that is asked for, or a reference that fits. -/
def Receiver.take (T : ClassTable) : Receiver → List Operand → Option (List Operand)
  | .static, σ | .constructor _, σ => some σ
  | .address r, e :: σ => if e = .address r then some σ else none
  | .virtual r, e :: σ => if e.fits T r then some σ else none
  | _, [] => none

/-- The operands left by a call: the parameters are taken from the top down, then the receiver,
and the result is pushed. -/
def Method.retype (T : ClassTable) (m : Method) (σ : List Operand) : Option (List Operand) := do
  let σ ← Param.takeAll T m.params.reverse σ
  let σ ← m.receiver.take T σ
  return if m.returns = .void then σ else .value m.returns :: σ

/-- What operands are checked against. -/
structure Frame where
  /-- The signatures of run-time operations. -/
  catalog : Catalog
  /-- The classes, for references. -/
  classes : ClassTable
  /-- The representation of each local by slot. -/
  locals : Array Rep

/-- Put something in the place of the top operand, unless that is refused. -/
def replaceTop (accepts : Operand → Bool) (pushed : List Operand) :
    List Operand → Option (List Operand)
  | e :: σ => if accepts e then some (pushed ++ σ) else none
  | [] => none

theorem replaceTop_cons {accepts : Operand → Bool} {pushed σ : List Operand} {e : Operand}
    (h : accepts e = true) : replaceTop accepts pushed (e :: σ) = some (pushed ++ σ) := if_pos h

namespace Instr

/-- What an instruction makes of the operands, unless it refuses them.  Branches are left to
`Flow.step`, and an operand of which the code does not tell the type, such as the result of a
routine, is refused. -/
def retype (Γ : Frame) (i : Instr) (σ : List Operand) : Option (List Operand) :=
  match i with
  | nop => some σ
  | pop => replaceTop (fun _ => true) [] σ
  | dup => σ.head?.map (· :: σ)
  | ldNull => some (.null :: σ)
  | ldcI4 _ => some (.value .int32 :: σ)
  | ldcI8 _ => some (.value .int64 :: σ)
  | ldcR4 _ => some (.value .float32 :: σ)
  | ldcR8 _ => some (.value .float64 :: σ)
  | ldStr _ => some (.value .text :: σ)
  | ldLoc slot => Γ.locals[slot]?.map (.value · :: σ)
  | ldLocA slot => Γ.locals[slot]?.map (.address · :: σ)
  | stLoc slot => Γ.locals[slot]?.bind fun r => replaceTop (·.fits Γ.classes r) [] σ
  | ldContext => some (.context :: σ)
  | ldTypeHandle _ => some (.typeHandle :: σ)
  | convI4 => replaceTop (·.isScalar) [.value .int32] σ
  | convI8 => replaceTop (·.isScalar) [.value .int64] σ
  | convR4 => replaceTop (·.isScalar) [.value .float32] σ
  | convR8 => replaceTop (·.isScalar) [.value .float64] σ
  | ceq | cgtUn => σ.head?.bind fun e => replaceTop e.comparable [.value .bool] σ.tail
  | call op | callVirt op | newObj op =>
    (Γ.catalog.get? op).bind fun m =>
      if m.callInstr op = i then m.retype Γ.classes σ else none
  | box r => replaceTop (·.fits Γ.classes r) [.value .root] σ
  | castClass r | isInst r =>
    replaceTop (fun e => e.isReference && r.isReference) [.value r] σ
  | newNullable p => replaceTop (·.fits Γ.classes p.rep) [.value (.nullable p)] σ
  | hasValue p => replaceTop (· = .address (.nullable p)) [.value .bool] σ
  | getValue p => replaceTop (· = .address (.nullable p)) [.value p.rep] σ
  | ldArg _ | ldArgA _ | invoke .. | br _ | brFalse _ | mark _ | ret => none

end Instr

/-! ### Flow of control -/

/-- What the checker knows between two instructions. -/
structure Flow where
  /-- The operands, unless the point cannot be reached from what stands before it. -/
  stack : Option (List Operand)
  /-- The operands at the branches to each label branched to. -/
  joins : List (Label × List Operand)
  /-- The labels placed so far. -/
  placed : List Label

namespace Flow

/-- Start to check code on some operands. -/
def start (σ : List Operand) : Flow := ⟨some σ, [], []⟩

/-- A branch to a label with some operands.  Branches lead forward, and all branches to a label
have to agree. -/
def branch (f : Flow) (l : Label) (σ : List Operand) : Option (List (Label × List Operand)) :=
  if l ∈ f.placed then none
  else
    match f.joins.lookup l with
    | some σ' => if σ = σ' then some f.joins else none
    | none => some ((l, σ) :: f.joins)

/-- Place a label.  The branches to it have to agree with what falls through. -/
def place (f : Flow) (l : Label) : Option Flow :=
  if l ∈ f.placed then none
  else
    match f.joins.lookup l, f.stack with
    | some σ, some σ' => if σ = σ' then some { f with placed := l :: f.placed } else none
    | some σ, none => some { f with stack := some σ, placed := l :: f.placed }
    | none, _ => some { f with placed := l :: f.placed }

/-- Check one instruction.  One that cannot be reached is refused, unless it places a label. -/
def step (Γ : Frame) (f : Flow) (i : Instr) : Option Flow :=
  match i with
  | .mark l => f.place l
  | i =>
    f.stack.bind fun σ =>
      match i with
      | .br l => (f.branch l σ).map fun joins => { f with stack := none, joins := joins }
      | .brFalse l =>
        (replaceTop (·.fits Γ.classes .bool) [] σ).bind fun σ =>
          (f.branch l σ).map fun joins => { f with stack := some σ, joins := joins }
      | .ret => some { f with stack := none }
      | i => (i.retype Γ σ).map fun σ' => { f with stack := some σ' }

/-- Check code from the first instruction to the last. -/
def check (Γ : Frame) (code : List Instr) (f : Flow) : Option Flow := code.foldlM (step Γ) f

/-- All branches lead to labels that have been placed. -/
def Closed (f : Flow) : Prop := ∀ l, f.joins.lookup l ≠ none → l ∈ f.placed

end Flow

/-! ### Depth -/

section Depth

variable {Γ : Frame} {T : ClassTable} {i : Instr} {σ σ' : List Operand}

theorem Param.length_takeAll {ps : List Param} (h : Param.takeAll T ps σ = some σ') :
    σ.length = ps.length + σ'.length := by
  induction ps generalizing σ with
  | nil =>
    cases h
    exact (Nat.zero_add _).symm
  | cons p ps ih =>
    cases σ with
    | nil => cases h
    | cons e σ =>
      unfold takeAll at h
      split_ifs at h
      have := ih h
      simp only [List.length_cons]
      omega

theorem Method.pops_of_take {m : Method} (h : m.receiver.take T σ = some σ') :
    m.params.length + σ.length = m.pops + σ'.length := by
  unfold pops
  cases hr : m.receiver with
  | static | constructor =>
    rw [hr] at h
    cases h
    simp
  | address r | virtual r =>
    rw [hr] at h
    cases σ with
    | nil => cases h
    | cons e σ =>
      simp only [Receiver.take] at h
      split_ifs at h
      cases h
      simp only [List.length_cons]
      omega

theorem Method.length_retype {m : Method} (h : m.retype T σ = some σ') :
    m.pops ≤ σ.length ∧ σ'.length = σ.length - m.pops + m.pushes := by
  unfold retype at h
  obtain ⟨σ₁, hparams, h⟩ := Option.bind_eq_some_iff.1 h
  obtain ⟨σ₂, hreceiver, h⟩ := Option.bind_eq_some_iff.1 h
  have h₁ := Param.length_takeAll hparams
  have h₂ := Method.pops_of_take hreceiver
  rw [List.length_reverse] at h₁
  have hpops : σ.length = m.pops + σ₂.length := by omega
  refine ⟨by omega, ?_⟩
  cases h
  unfold pushes
  split_ifs
  · omega
  · rw [List.length_cons]
    omega

theorem length_replaceTop {accepts : Operand → Bool} {pushed : List Operand}
    (h : replaceTop accepts pushed σ = some σ') :
    1 ≤ σ.length ∧ σ'.length = σ.length - 1 + pushed.length := by
  cases σ with
  | nil => cases h
  | cons e σ =>
    simp only [replaceTop] at h
    split_ifs at h
    cases h
    simp only [List.length_cons, List.length_append]
    omega

theorem Instr.effect_of_retype (h : i.retype Γ σ = some σ') :
    (i.effect Γ.catalog σ.length).1 ≤ σ.length ∧
      σ'.length = σ.length - (i.effect Γ.catalog σ.length).1 +
        (i.effect Γ.catalog σ.length).2 := by
  have called : ∀ op j, (Γ.catalog.get? op).bind (fun m =>
        if m.callInstr op = j then m.retype Γ.classes σ else none) = some σ' →
      ∃ m, Γ.catalog.get? op = some m ∧ m.pops ≤ σ.length ∧
        σ'.length = σ.length - m.pops + m.pushes := by
    intro op j h
    obtain ⟨m, hm, h⟩ := Option.bind_eq_some_iff.1 h
    split_ifs at h
    exact ⟨m, hm, Method.length_retype h⟩
  cases i with
  | call op | callVirt op | newObj op =>
    obtain ⟨m, hm, hlength⟩ := called _ _ h
    simpa only [effect, hm] using hlength
  | ldLoc slot | ldLocA slot =>
    obtain ⟨r, -, rfl⟩ := Option.map_eq_some_iff.1 h
    exact ⟨Nat.zero_le _, rfl⟩
  | stLoc slot =>
    obtain ⟨r, -, h⟩ := Option.bind_eq_some_iff.1 h
    exact length_replaceTop h
  | dup =>
    obtain ⟨e, he, rfl⟩ := Option.map_eq_some_iff.1 h
    cases σ with
    | nil => cases he
    | cons e σ => exact ⟨Nat.le_add_left _ _, rfl⟩
  | ceq | cgtUn =>
    obtain ⟨e, he, h⟩ := Option.bind_eq_some_iff.1 h
    have hlength := length_replaceTop h
    rw [List.length_tail] at hlength
    simp only [effect, List.length_singleton] at hlength ⊢
    omega
  | nop | ldNull | ldcI4 | ldcI8 | ldcR4 | ldcR8 | ldStr | ldContext | ldTypeHandle =>
    cases h
    exact ⟨Nat.zero_le _, rfl⟩
  | ldArg | ldArgA | invoke | br | brFalse | mark | ret => cases h
  | pop | convI4 | convI8 | convR4 | convR8 | box | castClass | isInst | newNullable | hasValue
    | getValue =>
    exact length_replaceTop h

end Depth

/-! ### Typed code never underflows -/

theorem Builder.emit_of_le {b : Builder} {C : Catalog} {i : Instr}
    (h : (i.effect C (b.startDepth i)).1 ≤ b.startDepth i) :
    ∃ b', b.emit C i = .ok b' ∧
      b'.depth = b.startDepth i - (i.effect C (b.startDepth i)).1 +
        (i.effect C (b.startDepth i)).2 ∧
      b'.branchDepths = b.recordBranch (b.startDepth i - (i.effect C (b.startDepth i)).1) i := by
  unfold emit
  dsimp only
  rw [if_neg (Nat.not_lt.2 h)]
  exact ⟨_, rfl, rfl, rfl⟩

namespace Flow

variable {Γ : Frame} {f f' : Flow} {b : Builder} {i : Instr} {l : Label} {σ σ' : List Operand}

theorem check_cons {code : List Instr} :
    check Γ (i :: code) f = (f.step Γ i).bind (check Γ code) := List.foldlM_cons

theorem check_append {code code' : List Instr} :
    check Γ (code ++ code') f = (check Γ code f).bind (check Γ code') := List.foldlM_append

/-- An instruction that is no branch acts on the operands alone. -/
theorem step_of_retype (hf : f.stack = some σ) (h : i.retype Γ σ = some σ') :
    f.step Γ i = some { f with stack := some σ' } := by
  unfold step
  cases i with
  | mark | br | brFalse | ret => cases h
  | _ => simp only [hf, Option.bind_some, h, Option.map_some]

theorem branch_of_lookup_eq_none (hl : l ∉ f.placed) (hj : f.joins.lookup l = none) :
    f.branch l σ = some ((l, σ) :: f.joins) := by
  unfold branch
  rw [if_neg hl, hj]

theorem step_br (hf : f.stack = some σ) (hl : l ∉ f.placed) (hj : f.joins.lookup l = none) :
    f.step Γ (.br l) = some ⟨none, (l, σ) :: f.joins, f.placed⟩ := by
  simp only [step, hf, Option.bind_some, branch_of_lookup_eq_none hl hj, Option.map_some]

theorem step_brFalse {e : Operand} (hf : f.stack = some (e :: σ))
    (he : e.fits Γ.classes .bool = true) (hl : l ∉ f.placed) (hj : f.joins.lookup l = none) :
    f.step Γ (.brFalse l) = some ⟨some σ, (l, σ) :: f.joins, f.placed⟩ := by
  simp only [step, hf, Option.bind_some, replaceTop, he, ↓reduceIte, List.nil_append,
    branch_of_lookup_eq_none hl hj, Option.map_some]

theorem step_mark_of_lookup (hf : f.stack = none ∨ f.stack = some σ) (hl : l ∉ f.placed)
    (hj : f.joins.lookup l = some σ) :
    f.step Γ (.mark l) = some ⟨some σ, f.joins, l :: f.placed⟩ := by
  rcases hf with hf | hf <;> simp only [step, place, hl, hj, hf, ↓reduceIte]

/-- A builder is where the checker is: as deep as the stack that is known, and with the depths
of the branches that the checker has followed. -/
structure Tracks (f : Flow) (b : Builder) : Prop where
  /-- The depth is that of the stack. -/
  depth : ∀ σ, f.stack = some σ → b.depth = σ.length
  /-- Branches to labels not placed yet have been recorded. -/
  joins : ∀ l, l ∉ f.placed → b.branchDepth? l = (f.joins.lookup l).map List.length

theorem Tracks.recordBranch (h : f.Tracks b) {joins : List (Label × List Operand)}
    (hbranch : f.branch l σ = some joins) (k : Label) (hk : k ∉ f.placed) :
    (b.recordBranch σ.length (.br l)).lookup k = (joins.lookup k).map List.length := by
  unfold branch at hbranch
  split_ifs at hbranch with hl
  have hlookup := h.joins l hl
  have hrecorded := h.joins k hk
  unfold Builder.recordBranch
  dsimp only
  rw [hlookup]
  cases hjoin : f.joins.lookup l with
  | some σ₀ =>
    rw [hjoin] at hbranch
    dsimp only at hbranch
    split_ifs at hbranch
    cases hbranch
    rw [Option.map_some, Option.isSome_some, if_pos rfl]
    exact hrecorded
  | none =>
    rw [hjoin] at hbranch
    cases hbranch
    rw [Option.map_none, Option.isSome_none, if_neg (by decide), List.lookup_cons,
      List.lookup_cons]
    cases k == l
    · exact hrecorded
    · rfl

/-- A label is placed once, and all ways to it agree on the stack. -/
theorem step_mark_eq_some (h : f.step Γ (.mark l) = some f') :
    l ∉ f.placed ∧ f'.joins = f.joins ∧ f'.placed = l :: f.placed ∧
      f'.stack = (f.joins.lookup l).or f.stack := by
  change f.place l = some f' at h
  unfold place at h
  split_ifs at h with hl
  refine ⟨hl, ?_⟩
  cases hjoin : f.joins.lookup l with
  | none =>
    rw [hjoin] at h
    cases h
    exact ⟨rfl, rfl, rfl⟩
  | some σ =>
    rw [hjoin] at h
    cases hf : f.stack with
    | none =>
      rw [hf] at h
      cases h
      exact ⟨rfl, rfl, rfl⟩
    | some σ₀ =>
      rw [hf] at h
      dsimp only at h
      split_ifs at h with heq
      cases h
      exact ⟨rfl, rfl, by rw [heq]; rfl⟩

/-- A label keeps the builder where the checker is: the depth recorded for it is that of the
stack that all ways to it agree on. -/
theorem Tracks.mark (hb : f.Tracks b) (h : f.step Γ (.mark l) = some f') :
    ∃ b', b.emit Γ.catalog (.mark l) = .ok b' ∧ f'.Tracks b' := by
  obtain ⟨b', hb', hdepth, hrecord⟩ :=
    b.emit_of_le (C := Γ.catalog) (i := .mark l) (Nat.zero_le _)
  obtain ⟨hl, hjoins, hplaced, hstack⟩ := step_mark_eq_some h
  change b'.depth = (b.branchDepth? l).getD b.depth at hdepth
  change b'.branchDepths = b.branchDepths at hrecord
  refine ⟨b', hb', fun σ hσ => ?_, fun k hk => ?_⟩
  · rw [hdepth, hb.joins l hl]
    rw [hstack] at hσ
    cases hjoin : f.joins.lookup l with
    | none =>
      rw [hjoin] at hσ
      exact hb.depth σ hσ
    | some σ₀ =>
      rw [hjoin] at hσ
      cases hσ
      rfl
  · rw [hplaced, List.mem_cons, not_or] at hk
    rw [Builder.branchDepth?, hrecord, hjoins]
    exact hb.joins k hk.2

theorem Tracks.retype (hb : f.Tracks b) (hf : f.stack = some σ) (h : i.retype Γ σ = some σ') :
    ∃ b', b.emit Γ.catalog i = .ok b' ∧ { f with stack := some σ' }.Tracks b' := by
  have hplain : b.startDepth i = b.depth ∧ ∀ d, b.recordBranch d i = b.branchDepths := by
    cases i with
    | mark | br | ret | brFalse => cases h
    | _ => exact ⟨rfl, fun _ => rfl⟩
  obtain ⟨hle, hlength⟩ := Instr.effect_of_retype h
  rw [← hb.depth σ hf, ← hplain.1] at hle hlength
  obtain ⟨b', hb', hdepth, hrecord⟩ := Builder.emit_of_le hle
  refine ⟨b', hb', fun σ₀ hσ₀ => ?_, fun k hk => ?_⟩
  · cases hσ₀
    exact hdepth.trans hlength.symm
  · rw [Builder.branchDepth?, hrecord, hplain.2]
    exact hb.joins k hk

/-- **Typed code never underflows**: a builder that is where the checker is accepts the
instruction, and is where the checker is again. -/
theorem emit_of_step (h : f.step Γ i = some f') (hb : f.Tracks b) :
    ∃ b', b.emit Γ.catalog i = .ok b' ∧ f'.Tracks b' := by
  cases i with
  | mark l => exact hb.mark h
  | br l =>
    obtain ⟨σ, hf, h⟩ := Option.bind_eq_some_iff.1 h
    obtain ⟨joins, hjoins, rfl⟩ := Option.map_eq_some_iff.1 h
    obtain ⟨b', hb', -, hrecord⟩ := b.emit_of_le (C := Γ.catalog) (i := .br l) (Nat.zero_le _)
    refine ⟨b', hb', fun _ hσ => by (cases hσ), fun k hk => ?_⟩
    rw [Builder.branchDepth?, hrecord]
    have := hb.recordBranch hjoins k hk
    rwa [← hb.depth σ hf] at this
  | brFalse l =>
    obtain ⟨σ₀, hf, h⟩ := Option.bind_eq_some_iff.1 h
    obtain ⟨σ, htop, h⟩ := Option.bind_eq_some_iff.1 h
    obtain ⟨joins, hjoins, rfl⟩ := Option.map_eq_some_iff.1 h
    obtain ⟨hpos, hlength⟩ := length_replaceTop htop
    rw [← hb.depth σ₀ hf] at hpos hlength
    have hleft : b.depth - 1 = σ.length := hlength.symm
    obtain ⟨b', hb', hdepth, hrecord⟩ :=
      b.emit_of_le (C := Γ.catalog) (i := .brFalse l) hpos
    change b'.depth = b.depth - 1 at hdepth
    change b'.branchDepths = b.recordBranch (b.depth - 1) (.br l) at hrecord
    rw [hleft] at hdepth hrecord
    refine ⟨b', hb', fun σ' hσ' => ?_, fun k hk => ?_⟩
    · cases hσ'
      exact hdepth
    · rw [Builder.branchDepth?, hrecord]
      exact hb.recordBranch hjoins k hk
  | ret =>
    obtain ⟨σ, -, h⟩ := Option.bind_eq_some_iff.1 h
    cases h
    obtain ⟨b', hb', -, hrecord⟩ := b.emit_of_le (C := Γ.catalog) (i := .ret) (Nat.le_refl _)
    refine ⟨b', hb', fun _ hσ => by (cases hσ), fun k hk => ?_⟩
    rw [Builder.branchDepth?, hrecord]
    exact hb.joins k hk
  | _ =>
    obtain ⟨σ, hf, h⟩ := Option.bind_eq_some_iff.1 h
    obtain ⟨σ', hσ', rfl⟩ := Option.map_eq_some_iff.1 h
    exact hb.retype hf hσ'

end Flow

end Recast
