import Recast.Proofs.Numbering
import Recast.Proofs.OperandTypes
import Recast.Proofs.Outcome

/-!
# Types of plans

A plan is typed if its code is accepted by the checker of operand types under every numbering,
on top of any operands, and leaves those below as they were.

* `Holds` : the operands that a value of a representation is held in, none for no value;
* `Scope.Typed` : the typing of steps, which composes;
* `Scope.Yields` : the typing of a plan, with what is known of the operands if it succeeds;
* `Scope.Typed.ways` : two ways that agree are typed where they meet again;
* `Scope.leaves_call` : **a call is typed** if its demand is met.
-/

namespace Recast

/-! ### Operands that fit -/

/-- The operands that hold a value of a representation. -/
inductive Holds (T : ClassTable) : Rep → List Operand → Prop
  /-- No value is held in no operand. -/
  | void : Holds T .void []
  /-- A value is held in one operand, which fits. -/
  | one {r : Rep} {e : Operand} (hr : r ≠ .void) (he : e.fits T r = true) : Holds T r [e]

section Fits

variable {T : ClassTable} {e : Operand} {r : Rep} {top : List Operand}

@[simp]
theorem Rep.isNumericScalar_stacked (r : Rep) : r.stacked.isNumericScalar = r.isNumericScalar := by
  cases r <;> rfl

@[simp]
theorem Rep.isReference_stacked (r : Rep) : r.stacked.isReference = r.isReference := by
  cases r <;> rfl

namespace Operand

@[simp]
theorem fits_self (r : Rep) : (value r).fits T r = true := by
  simp only [fits, BEq.rfl, Bool.true_or]

theorem fits_value {q : Rep} :
    (value q).fits T r = true ↔ q.stacked = r.stacked ∨ T.assignable q r = true := by
  simp only [fits, Bool.or_eq_true, beq_iff_eq]

/-- Operands of a value type are exactly of that type, but for truth values and 32-bit
integers. -/
theorem eq_of_fits (hr : r.isReference = false) (h : e.fits T r = true) :
    ∃ q, e = value q ∧ q.stacked = r.stacked := by
  cases e with
  | value q =>
    refine ⟨q, rfl, ?_⟩
    rcases fits_value.1 h with h | h
    · exact h
    · rw [ClassTable.eq_of_assignable h hr]
  | null => exact absurd h (by simp [fits, hr])
  | _ => cases h

theorem isScalar_of_fits (hr : r.isNumericScalar = true) (h : e.fits T r = true) :
    e.isScalar = true := by
  have href : r.isReference = false := by cases r <;> first | rfl | cases hr
  obtain ⟨q, rfl, hq⟩ := eq_of_fits href h
  rw [isScalar, ← Rep.isNumericScalar_stacked, hq, Rep.isNumericScalar_stacked, hr]

theorem comparable_of_fits (hr : r.isNumericScalar = true) (h : e.fits T r = true) :
    (value r).comparable e = true := by
  have href : r.isReference = false := by cases r <;> first | rfl | cases hr
  obtain ⟨q, rfl, hq⟩ := eq_of_fits href h
  simp only [comparable, hr, hq, BEq.rfl, Bool.and_self, Bool.true_or]

theorem isReference_of_fits (hr : r.isReference = true) (h : e.fits T r = true) :
    e.isReference = true := by
  cases e with
  | value q =>
    rcases fits_value.1 h with h | h
    · rw [isReference, ← Rep.isReference_stacked, h, Rep.isReference_stacked, hr]
    · by_cases hne : q = r
      · rw [hne]
        exact hr
      · exact (ClassTable.isReference_of_assignable h hne).1
  | null => rfl
  | _ => cases h

theorem fits_root (hr : r.isReference = true) (h : e.fits T r = true) :
    e.fits T .root = true := by
  have href := isReference_of_fits hr h
  cases e with
  | value q => exact fits_value.2 (.inr (ClassTable.assignable_root href))
  | null => rfl
  | _ => cases href

theorem comparable_null (hr : r.isReference = true) (h : e.fits T r = true) :
    null.comparable e = true := by
  have href := isReference_of_fits hr h
  cases e <;> exact href

end Operand

theorem Holds.fits (h : Holds T r top) (hr : r ≠ .void) :
    ∃ e, top = [e] ∧ e.fits T r = true := by
  cases h with
  | void => exact absurd rfl hr
  | one _ he => exact ⟨_, rfl, he⟩

theorem holds_value (hr : r ≠ .void) : Holds T r [.value r] := .one hr (Operand.fits_self r)

end Fits

/-! ### Operands of calls -/

/-- The operand that a parameter implies, if it implies one. -/
def Param.implicit? : Param → Option Operand
  | .value _ => none
  | .context => some .context
  | .typeHandle => some .typeHandle

/-- What a call demands, apart from what its signature implies. -/
inductive Demand where
  /-- Nothing. -/
  | nothing
  /-- A value, for a parameter or a virtual receiver. -/
  | value (rep : Rep)
  /-- The address of the receiver. -/
  | address (rep : Rep)
  deriving DecidableEq

/-- What a call demands, if it is at most one operand. -/
def Method.demand? (m : Method) : Option Demand :=
  match m.receiver, m.params with
  | .static, [] => some .nothing
  | .static, .value r :: ps | .constructor _, .value r :: ps =>
    if ps.all (·.implicit?.isSome) then some (.value r) else none
  | .virtual r, ps => if ps.all (·.implicit?.isSome) then some (.value r) else none
  | .address r, ps => if ps.all (·.implicit?.isSome) then some (.address r) else none
  | _, _ => none

/-- Operands meet a demand. -/
inductive Demand.Met (T : ClassTable) : Demand → List Operand → Prop
  /-- Nothing is needed. -/
  | nothing : Met T .nothing []
  /-- A value is held. -/
  | value {r : Rep} {top : List Operand} (hr : r ≠ .void) (h : Holds T r top) :
      Met T (.value r) top
  /-- The address is there. -/
  | address {r : Rep} : Met T (.address r) [.address r]

/-- The operands that the signature implies, the last one on top. -/
def Method.implicit (m : Method) : List Operand := (m.params.filterMap Param.implicit?).reverse

/-- What a call leaves. -/
def Method.pushed (m : Method) : List Operand :=
  if m.returns = .void then [] else [.value m.returns]

section Calls

variable {T : ClassTable} {m : Method} {σ top : List Operand}

theorem Method.holds_pushed (T : ClassTable) (m : Method) : Holds T m.returns m.pushed := by
  unfold pushed
  split_ifs with h
  · rw [h]
    exact .void
  · exact holds_value h

theorem Param.takeAll_append (ps qs : List Param) (σ : List Operand) :
    takeAll T (ps ++ qs) σ = (takeAll T ps σ).bind (takeAll T qs) := by
  induction ps generalizing σ with
  | nil => rfl
  | cons p ps ih =>
    cases σ with
    | nil => rfl
    | cons e σ =>
      simp only [List.cons_append, takeAll]
      split_ifs
      · exact ih σ
      · rfl

theorem Param.takeAll_implicit {ps : List Param} (h : ps.all (·.implicit?.isSome) = true) :
    takeAll T ps (ps.filterMap implicit? ++ σ) = some σ := by
  induction ps with
  | nil => rfl
  | cons p ps ih =>
    cases p with
    | value r => cases h
    | context | typeHandle => exact ih h

theorem Param.takeAll_reverse {ps : List Param} (h : ps.all (·.implicit?.isSome) = true) :
    takeAll T ps.reverse ((ps.filterMap implicit?).reverse ++ σ) = some σ := by
  rw [← List.filterMap_reverse]
  exact takeAll_implicit (by rw [List.all_reverse, h])

/-- A call whose demand is met takes what it needs, and leaves its result. -/
theorem Method.retype_of_demand {d : Demand} (hd : m.demand? = some d) (h : d.Met T top) :
    m.retype T (m.implicit ++ (top ++ σ)) = some (m.pushed ++ σ) := by
  have pushed : ∀ σ' : List Operand, Param.takeAll T m.params.reverse
        (m.implicit ++ (top ++ σ)) = some σ' → m.receiver.take T σ' = some σ →
      m.retype T (m.implicit ++ (top ++ σ)) = some (m.pushed ++ σ) := by
    intro σ' hparams hreceiver
    unfold Method.retype Method.pushed
    rw [hparams, Option.bind_eq_bind, Option.bind_some, hreceiver]
    split_ifs <;> rfl
  have argument : ∀ {r : Rep} {ps : List Param}, m.params = .value r :: ps →
      ps.all (·.implicit?.isSome) = true → (∀ σ', m.receiver.take T σ' = some σ') →
      d = .value r → m.retype T (m.implicit ++ (top ++ σ)) = some (m.pushed ++ σ) := by
    rintro r ps hp hps htake rfl
    cases h with | value hr hheld
    obtain ⟨e, rfl, he⟩ := hheld.fits hr
    refine pushed σ ?_ (htake σ)
    rw [implicit, hp, List.reverse_cons, Param.takeAll_append, List.filterMap_cons_none rfl,
      Param.takeAll_reverse hps, Option.bind_some]
    exact if_pos he
  unfold demand? at hd
  split at hd
  case h_1 hv hp =>
    cases hd
    cases h
    refine pushed σ ?_ ?_
    · rw [implicit, hp]
      rfl
    · rw [hv]
      rfl
  case h_2 hv hp =>
    split_ifs at hd with hps
    exact argument hp hps (fun _ => by rw [hv]; rfl) (Option.some.inj hd).symm
  case h_3 hv hp =>
    split_ifs at hd with hps
    exact argument hp hps (fun _ => by rw [hv]; rfl) (Option.some.inj hd).symm
  case h_4 r hv =>
    split_ifs at hd with hps
    cases hd
    cases h with | value hr hheld
    obtain ⟨e, rfl, he⟩ := hheld.fits hr
    refine pushed (e :: σ) (Param.takeAll_reverse hps) ?_
    rw [hv]
    exact if_pos he
  case h_5 r hv =>
    split_ifs at hd with hps
    cases hd
    cases h
    refine pushed (.address r :: σ) (Param.takeAll_reverse hps) ?_
    rw [hv]
    exact if_pos rfl
  case h_6 => cases hd

end Calls

/-! ### Steps -/

/-- Between two points of some code, the labels that are numbered from `n` up to `m` have been
placed, and no others have been used. -/
structure Flow.Extends (f f' : Flow) (n m : Nat) : Prop where
  /-- Other labels have not been branched to. -/
  joins : ∀ l : Label, ¬(n ≤ l.index ∧ l.index < m) → f'.joins.lookup l = f.joins.lookup l
  /-- Other labels have not been placed. -/
  placed : ∀ l : Label, ¬(n ≤ l.index ∧ l.index < m) → (l ∈ f'.placed ↔ l ∈ f.placed)
  /-- These labels have been placed. -/
  landed : ∀ l : Label, n ≤ l.index → l.index < m → l ∈ f'.placed

/-- Labels from a number on have not been used. -/
def Flow.Fresh (f : Flow) (n : Nat) : Prop :=
  ∀ l : Label, n ≤ l.index → f.joins.lookup l = none ∧ l ∉ f.placed

namespace Flow

variable {f f' f'' : Flow} {n m k : Nat} {σ : List Operand}

theorem fresh_start (σ : List Operand) (n : Nat) : (start σ).Fresh n :=
  fun _ _ => ⟨rfl, List.not_mem_nil⟩

theorem extends_stack (f : Flow) (stack : Option (List Operand)) (n : Nat) :
    f.Extends { f with stack := stack } n n :=
  ⟨fun _ _ => rfl, fun _ _ => .rfl, fun _ _ _ => by omega⟩

theorem Extends.trans (h : f.Extends f' n m) (h' : f'.Extends f'' m k) (hnm : n ≤ m)
    (hmk : m ≤ k) : f.Extends f'' n k where
  joins l hl := (h'.joins l (by omega)).trans (h.joins l (by omega))
  placed l hl := (h'.placed l (by omega)).trans (h.placed l (by omega))
  landed l hn hk := by
    by_cases hm : l.index < m
    · rw [h'.placed l (by omega)]
      exact h.landed l hn hm
    · exact h'.landed l (by omega) hk

theorem Extends.lookup_eq (h : f.Extends f' n n) (l : Label) :
    f'.joins.lookup l = f.joins.lookup l := h.joins l (by omega)

theorem Extends.mem_placed (h : f.Extends f' n n) (l : Label) : l ∈ f'.placed ↔ l ∈ f.placed :=
  h.placed l (by omega)

/-- Branches to labels that had not been used before lead to labels that have been placed. -/
theorem Extends.closed (h : f.Extends f' n m) (hf : ∀ l, f.joins.lookup l = none) :
    f'.Closed := by
  intro l hl
  by_cases hnm : n ≤ l.index ∧ l.index < m
  · exact h.landed l hnm.1 hnm.2
  · exact absurd ((h.joins l hnm).trans (hf l)) hl

theorem Fresh.mono (hf : f.Fresh n) (hnm : n ≤ m) : f.Fresh m :=
  fun l hl => hf l (Nat.le_trans hnm hl)

theorem Fresh.extends (hf : f.Fresh n) (h : f.Extends f' n m) (hnm : n ≤ m) : f'.Fresh m := by
  intro l hl
  rw [h.joins l (by omega), h.placed l (by omega)]
  exact hf l (by omega)

end Flow

theorem Numbering.labels_le_afterAll (N : Numbering) (ts : List Step) :
    N.labels ≤ (N.afterAll ts).labels := by
  induction ts generalizing N with
  | nil => exact Nat.le_refl _
  | cons t ts ih =>
    have hafter : N.labels ≤ (N.after t).labels := by
      cases t <;> first | exact Nat.le_refl _ | exact Nat.le_add_right _ _
    exact Nat.le_trans hafter (ih _)

theorem Numbering.afterAll_eq_self {ts : List Step} (h : Step.fork ∉ ts) (N : Numbering) :
    N.afterAll ts = N := by
  induction ts with
  | nil => rfl
  | cons t ts ih =>
    rw [List.mem_cons, not_or] at h
    have hafter : N.after t = N := by
      cases t <;> first | rfl | exact absurd rfl h.1
    rw [afterAll_cons, hafter, ih h.2]

theorem lookup_cons_ne {α β : Type} [BEq α] [LawfulBEq α] {a b : α} {c : β} {l : List (α × β)}
    (h : a ≠ b) : ((b, c) :: l).lookup a = l.lookup a := by
  rw [List.lookup_cons, beq_false_of_ne h]

namespace Scope

variable (S : Scope)

/-- What code in the scope is checked against, given its locals. -/
def frame (locals : Array Rep) : Frame := ⟨S.catalog, S.classes, locals⟩

/-- The code of some steps takes the operands `σ` to the operands `σ'`, if its slots stand for
what they are declared with and its labels have not been used. -/
def Typed (ts : List Step) (σ σ' : List Operand) : Prop :=
  ∀ (N : Numbering) (locals : Array Rep) (f : Flow),
    (∀ t ∈ ts, ∀ r, t.scratch? = some r → locals[N.slot r]? = some r) →
    f.stack = some σ → f.Fresh N.labels →
    ∃ f', Flow.check (S.frame locals) (N.code ts) f = some f' ∧ f'.stack = some σ' ∧
      f.Extends f' N.labels (N.afterAll ts).labels

variable {S} {ts us : List Step} {σ σ' σ'' : List Operand}

theorem Typed.nil (σ : List Operand) : S.Typed [] σ σ :=
  fun _ _ f _ hf _ => ⟨f, rfl, hf, f.extends_stack f.stack _⟩

theorem Typed.append (h : S.Typed ts σ σ') (h' : S.Typed us σ' σ'') :
    S.Typed (ts ++ us) σ σ'' := by
  intro N locals f hslots hf hfresh
  obtain ⟨f', hcheck, hf', hext⟩ :=
    h N locals f (fun t ht => hslots t (List.mem_append_left _ ht)) hf hfresh
  obtain ⟨f'', hcheck', hf'', hext'⟩ :=
    h' (N.afterAll ts) locals f'
      (fun t ht => by simpa using hslots t (List.mem_append_right _ ht)) hf'
      (hfresh.extends hext (N.labels_le_afterAll ts))
  refine ⟨f'', ?_, hf'', ?_⟩
  · rw [Numbering.code_append, Flow.check_append, hcheck, Option.bind_some, hcheck']
  · rw [Numbering.afterAll_append]
    exact hext.trans hext' (N.labels_le_afterAll ts) ((N.afterAll ts).labels_le_afterAll us)

/-- A step that becomes an instruction other than a branch acts on the operands alone. -/
theorem Typed.instr {t : Step} {i : Numbering → Instr} (hi : ∀ N, N.instr? t = some (i N))
    (hafter : ∀ N : Numbering, N.after t = N)
    (h : ∀ (N : Numbering) (locals : Array Rep),
      (∀ r, t.scratch? = some r → locals[N.slot r]? = some r) →
      (i N).retype (S.frame locals) σ = some σ') :
    S.Typed [t] σ σ' := by
  intro N locals f hslots hf _
  refine ⟨{ f with stack := some σ' }, ?_, rfl, ?_⟩
  · have hretype := h N locals fun r hr => hslots t List.mem_cons_self r hr
    rw [Numbering.code_cons, hi, Numbering.code_nil, List.append_nil, Option.toList_some,
      Flow.check_cons, Flow.step_of_retype hf hretype]
    rfl
  · rw [Numbering.afterAll_cons, Numbering.afterAll_nil, hafter]
    exact f.extends_stack _ _

theorem Typed.emit {i : Instr} (h : ∀ locals, i.retype (S.frame locals) σ = some σ') :
    S.Typed [.emit i] σ σ' :=
  .instr (fun _ => rfl) (fun _ => rfl) fun _ locals _ => h locals

theorem Typed.text (s : String) : S.Typed [.text s] σ (.value .text :: σ) :=
  .instr (fun _ => rfl) (fun _ => rfl) fun _ _ _ => rfl

theorem Typed.store {r : Rep} {e : Operand} (he : e.fits S.classes r = true) :
    S.Typed [.store r] (e :: σ) σ :=
  .instr (fun _ => rfl) (fun _ => rfl) fun N locals hslots => by
    simp only [Instr.retype, frame, hslots r rfl, Option.bind_some]
    exact replaceTop_cons he

theorem Typed.address (r : Rep) : S.Typed [.address r] σ (.address r :: σ) :=
  .instr (fun _ => rfl) (fun _ => rfl) fun N locals hslots => by
    simp only [Instr.retype, frame, hslots r rfl, Option.map_some]

theorem Typed.reserve (r : Rep) : S.Typed [.reserve r] σ σ :=
  fun _ _ f _ hf _ => ⟨f, rfl, hf, f.extends_stack f.stack _⟩

/-- A test that may branch, what is done if it does not, and what is done if it does. -/
def ways (test present absent : List Step) : List Step :=
  .fork :: test ++ .brAbsent :: present ++ .brEnd :: .markAbsent :: absent ++ [.markEnd]

section Ways

variable {test present absent : List Step}

theorem labels_ways (hforks : ∀ ts ∈ [test, present, absent], Step.fork ∉ ts) (N : Numbering) :
    (N.afterAll (ways test present absent)).labels = N.labels + 2 := by
  simp only [List.forall_mem_cons] at hforks
  obtain ⟨h₁, h₂, h₃, -⟩ := hforks
  simp only [ways, Numbering.afterAll_append, Numbering.afterAll_cons, Numbering.afterAll_nil,
    Numbering.afterAll_eq_self h₁, Numbering.afterAll_eq_self h₂,
    Numbering.afterAll_eq_self h₃, Numbering.after]

theorem code_ways (hforks : ∀ ts ∈ [test, present, absent], Step.fork ∉ ts) (N : Numbering) :
    N.code (ways test present absent) = (N.after .fork).code test ++
      .brFalse ⟨N.labels⟩ :: ((N.after .fork).code present ++
        .br ⟨N.labels + 1⟩ :: .mark ⟨N.labels⟩ :: ((N.after .fork).code absent ++
          [.mark ⟨N.labels + 1⟩])) := by
  simp only [List.forall_mem_cons] at hforks
  obtain ⟨h₁, h₂, h₃, -⟩ := hforks
  simp only [ways, Numbering.code_append, Numbering.code_cons, Numbering.code_nil,
    Numbering.afterAll_eq_self h₁, Numbering.afterAll_eq_self h₂, Numbering.afterAll_eq_self h₃,
    Numbering.after, Numbering.instr?, Option.toList_some, Option.toList_none,
    List.cons_append, List.nil_append, List.append_assoc, Nat.add_sub_cancel]
  rfl

/-- **Two ways that agree**: where a test may branch, and both ways leave the same operands, the
code is typed from before the branch to where the ways meet. -/
theorem Typed.ways (htest : S.Typed test σ (.value .bool :: σ'))
    (hpresent : S.Typed present σ' σ'') (habsent : S.Typed absent σ' σ'')
    (hforks : ∀ ts ∈ [test, present, absent], Step.fork ∉ ts) :
    S.Typed (ways test present absent) σ σ'' := by
  intro N locals f hslots hf hfresh
  rw [code_ways hforks, labels_ways hforks]
  simp only [List.forall_mem_cons] at hforks
  obtain ⟨h₁, h₂, h₃, -⟩ := hforks
  -- the numbering once the two labels are defined
  let M := N.after .fork
  let start : Label := ⟨N.labels⟩
  let last : Label := ⟨N.labels + 1⟩
  have hne : last ≠ start := by simp [start, last]
  have hle : N.labels ≤ M.labels := Nat.le_add_right _ _
  obtain ⟨hjoin, hplaced⟩ := hfresh start (Nat.le_refl _)
  obtain ⟨hjoin', hplaced'⟩ := hfresh last (Nat.le_add_right _ _)
  -- the test and the branch
  obtain ⟨f₁, hcheck₁, hf₁, hext₁⟩ := htest M locals f
    (fun t ht => hslots t (by simp [Scope.ways, ht])) hf (hfresh.mono hle)
  rw [Numbering.afterAll_eq_self h₁] at hext₁
  let f₂ : Flow := ⟨some σ', (start, σ') :: f₁.joins, f₁.placed⟩
  have hbranch : f₁.step (S.frame locals) (.brFalse start) = some f₂ :=
    Flow.step_brFalse hf₁ rfl (by rwa [hext₁.mem_placed]) (by rwa [hext₁.lookup_eq])
  have hfresh₂ : f₂.Fresh M.labels := by
    intro l hl
    have hlne : l ≠ start := by
      rintro rfl
      exact absurd hl (by simp [M, start, Numbering.after])
    obtain ⟨hlookup, hmem⟩ := (hfresh.mono hle).extends hext₁ (Nat.le_refl _) l hl
    exact ⟨(lookup_cons_ne hlne).trans hlookup, hmem⟩
  -- one way, which ends in a branch
  obtain ⟨f₃, hcheck₃, hf₃, hext₃⟩ := hpresent M locals f₂
    (fun t ht => hslots t (by simp [Scope.ways, ht])) rfl hfresh₂
  rw [Numbering.afterAll_eq_self h₂] at hext₃
  have hplaced₃ : ∀ l, l ∈ f₃.placed ↔ l ∈ f.placed := fun l =>
    (hext₃.mem_placed l).trans (hext₁.mem_placed l)
  have hjoins₃ : ∀ l, l ≠ start → f₃.joins.lookup l = f.joins.lookup l := fun l hl => by
    rw [hext₃.lookup_eq, lookup_cons_ne hl, hext₁.lookup_eq]
  let f₄ : Flow := ⟨none, (last, σ'') :: f₃.joins, f₃.placed⟩
  have hend : f₃.step (S.frame locals) (.br last) = some f₄ :=
    Flow.step_br hf₃ (by rwa [hplaced₃]) (by rwa [hjoins₃ _ hne])
  -- the other way, which starts at a label
  let f₅ : Flow := ⟨some σ', f₄.joins, start :: f₄.placed⟩
  have hmark : f₄.step (S.frame locals) (.mark start) = some f₅ := by
    refine Flow.step_mark_of_lookup (.inl rfl) (by rwa [hplaced₃]) ?_
    rw [lookup_cons_ne hne.symm, hext₃.lookup_eq, List.lookup_cons_self]
  have hfresh₅ : f₅.Fresh M.labels := by
    intro l hl
    have hlne : l ≠ last ∧ l ≠ start := by
      constructor <;> rintro rfl <;>
        exact absurd hl (by simp [M, start, last, Numbering.after])
    obtain ⟨hlookup, hmem⟩ := hfresh l (Nat.le_trans hle hl)
    refine ⟨?_, ?_⟩
    · rw [lookup_cons_ne hlne.1, hjoins₃ l hlne.2, hlookup]
    · rw [List.mem_cons, hplaced₃]
      exact not_or.2 ⟨hlne.2, hmem⟩
  obtain ⟨f₆, hcheck₆, hf₆, hext₆⟩ := habsent M locals f₅
    (fun t ht => hslots t (by simp [Scope.ways, ht])) rfl hfresh₅
  rw [Numbering.afterAll_eq_self h₃] at hext₆
  -- where the ways meet
  have hplaced₆ : ∀ l, l ∈ f₆.placed ↔ l = start ∨ l ∈ f.placed := fun l => by
    rw [hext₆.mem_placed, List.mem_cons, hplaced₃]
  let f₇ : Flow := ⟨some σ'', f₆.joins, last :: f₆.placed⟩
  have hmeet : f₆.step (S.frame locals) (.mark last) = some f₇ := by
    refine Flow.step_mark_of_lookup (.inr hf₆) ?_ ?_
    · rw [hplaced₆]
      exact not_or.2 ⟨hne, hplaced'⟩
    · rw [hext₆.lookup_eq, List.lookup_cons_self]
  refine ⟨f₇, ?_, rfl, fun l hl => ?_, fun l hl => ?_, fun l hn hm => ?_⟩
  · simp only [Flow.check_append, Flow.check_cons, Option.bind_eq_some_iff]
    exact ⟨f₁, hcheck₁, f₂, hbranch, f₃, hcheck₃, f₄, hend, f₅, hmark, f₆, hcheck₆, f₇, hmeet,
      rfl⟩
  · have hlne : l ≠ last ∧ l ≠ start := by
      constructor <;> rintro rfl <;> exact hl (by simp [start, last])
    rw [hext₆.lookup_eq, lookup_cons_ne hlne.1, hjoins₃ l hlne.2]
  · have hlne : l ≠ last ∧ l ≠ start := by
      constructor <;> rintro rfl <;> exact hl (by simp [start, last])
    rw [List.mem_cons, hplaced₆]
    simp only [hlne.1, hlne.2, false_or]
  · rw [List.mem_cons, hplaced₆]
    have hl : l.index = N.labels + 1 ∨ l.index = N.labels := by omega
    rcases hl with hl | hl
    · exact .inl (congrArg Label.mk hl)
    · exact .inr (.inl (congrArg Label.mk hl))

end Ways

/-! ### Plans -/

section Yields

variable {α β : Type}

variable (S) in
/-- The steps of a plan take some operands to others, whatever lies below, and if the plan
succeeds, its result and these operands are related. -/
def Yields (p : Script α) (top : List Operand) (Q : α → List Operand → Prop) : Prop :=
  ∃ top', (∀ σ, S.Typed p.steps (top ++ σ) (top' ++ σ)) ∧ ∀ a, p.result = .ok a → Q a top'

variable (S) in
/-- A plan that succeeds leaves a value of a representation. -/
def Leaves (p : Script α) (top : List Operand) (r : Rep) : Prop :=
  S.Yields p top fun _ => Holds S.classes r

variable {p : Script α} {f : α → Script β} {top : List Operand} {Q : α → List Operand → Prop}
  {Q' : β → List Operand → Prop} {r : Rep} {a : α}

theorem Yields.pure (h : Q a top) : S.Yields (pure a : Script α) top Q :=
  ⟨top, fun _ => .nil _, fun _ ha => by cases ha; exact h⟩

theorem Yields.fail (e : ConvertError) : S.Yields (Script.fail e : Script α) top Q :=
  ⟨top, fun _ => .nil _, fun _ ha => by cases ha⟩

theorem Yields.bind (h : S.Yields p top Q) (hf : ∀ a top', Q a top' → S.Yields (f a) top' Q') :
    S.Yields (p >>= f) top Q' := by
  obtain ⟨top', htyped, hQ⟩ := h
  cases hp : p.result with
  | error e =>
    refine ⟨top', fun σ => ?_, fun b hb => ?_⟩
    · rw [Script.steps_bind, hp, List.append_nil]
      exact htyped σ
    · rw [Script.result_bind, hp] at hb
      cases hb
  | ok a =>
    obtain ⟨top'', htyped', hQ'⟩ := hf a top' (hQ a hp)
    refine ⟨top'', fun σ => ?_, fun b hb => hQ' b ?_⟩
    · rw [Script.steps_bind, hp]
      exact (htyped σ).append (htyped' σ)
    · rw [Script.result_bind, hp] at hb
      exact hb

theorem Yields.mono {Q₁ : α → List Operand → Prop} (h : S.Yields p top Q)
    (hQ : ∀ a top', p.result = .ok a → Q a top' → Q₁ a top') : S.Yields p top Q₁ := by
  obtain ⟨top', htyped, hleft⟩ := h
  exact ⟨top', htyped, fun a ha => hQ a top' ha (hleft a ha)⟩

theorem Leaves.bind (h : S.Leaves p top r)
    (hf : ∀ a top', Holds S.classes r top' → S.Yields (f a) top' Q') :
    S.Yields (p >>= f) top Q' :=
  Yields.bind h hf

theorem Leaves.returning (h : S.Leaves p top r) (b : β) :
    S.Leaves (do let _ ← p; return b) top r :=
  h.bind fun _ _ h => .pure h

theorem leaves_pure (h : Holds S.classes r top) : S.Leaves (pure a : Script α) top r := .pure h

theorem leaves_emit {i : Instr} (top' : List Operand)
    (hi : ∀ locals σ, i.retype (S.frame locals) (top ++ σ) = some (top' ++ σ))
    (h : Holds S.classes r top') : S.Leaves (.emit i) top r :=
  ⟨top', fun σ => .emit fun locals => hi locals σ, fun _ _ => h⟩

theorem leaves_push {i : Instr} {e : Operand} (hi : ∀ Γ σ, i.retype Γ σ = some (e :: σ))
    (hr : r ≠ .void) (he : e.fits S.classes r = true) : S.Leaves (.emit i) [] r :=
  leaves_emit [e] (fun _ σ => hi _ σ) (.one hr he)

theorem leaves_text (s : String) : S.Leaves (.text s) [] .text :=
  ⟨[.value .text], fun _ => .text s, fun _ _ => holds_value (by decide)⟩

theorem leaves_conv {i : Instr} {q : Rep}
    (hi : ∀ Γ e σ, i.retype Γ (e :: σ) = if e.isScalar then some (.value q :: σ) else none)
    (hq : q ≠ .void) (hr : r.isNumericScalar = true) (h : Holds S.classes r top) :
    S.Leaves (.emit i) top q := by
  obtain ⟨e, rfl, he⟩ := h.fits (by rintro rfl; cases hr)
  refine leaves_emit [.value q] (fun locals σ => ?_) (holds_value hq)
  rw [List.singleton_append, hi, if_pos (Operand.isScalar_of_fits hr he)]
  rfl

theorem leaves_compare {i : Instr} {e e' : Operand} (hi : ∀ Γ σ, i.retype Γ σ = some (e :: σ))
    (h : e.comparable e' = true) (a : α) :
    S.Leaves (do Script.emit i; Script.emit .cgtUn; return a) [e'] .bool := by
  refine ⟨[.value .bool], fun σ => ?_, fun _ _ => holds_value (by decide)⟩
  have hpush : S.Typed [.emit i] (e' :: σ) (e :: e' :: σ) := .emit fun _ => hi _ _
  exact hpush.append (.emit fun _ => if_pos h)

theorem yields_spill (hr : r ≠ .void) (h : Holds S.classes r top) :
    S.Yields (.spill r) top fun _ top' => top' = [.address r] := by
  obtain ⟨e, rfl, he⟩ := h.fits hr
  exact ⟨[.address r], fun σ => (Typed.store he).append (.address r), fun _ _ => rfl⟩

theorem leaves_drop (h : Holds S.classes r top) : S.Leaves (.drop r) top .void := by
  refine ⟨[], fun σ => ?_, fun _ _ => .void⟩
  cases h with
  | void => exact .nil σ
  | one hr he =>
    rw [Script.steps_drop, if_neg hr]
    exact .emit fun _ => rfl

theorem Typed.implicit (ps : List Param) (σ : List Operand) :
    S.Typed ((ps.filterMap S.implicitArg?).map .emit) σ
      ((ps.filterMap Param.implicit?).reverse ++ σ) := by
  induction ps generalizing σ with
  | nil => exact .nil σ
  | cons p ps ih =>
    have pushes : ∀ (i : Instr) (e : Operand), (∀ Γ σ, i.retype Γ σ = some (e :: σ)) →
        S.Typed (.emit i :: (ps.filterMap S.implicitArg?).map .emit) σ
          ((e :: ps.filterMap Param.implicit?).reverse ++ σ) := by
      intro i e hi
      rw [List.reverse_cons, List.append_assoc]
      exact Typed.append (.emit fun _ => hi _ _) (ih (e :: σ))
    cases p with
    | value r => exact ih σ
    | context => exact pushes .ldContext .context fun _ _ => rfl
    | typeHandle => exact pushes (.ldTypeHandle S.caller) .typeHandle fun _ _ => rfl

/-- **A call is typed** if its demand is met. -/
theorem leaves_call {op : Op} {m : Method} {d : Demand} (hm : S.catalog.get? op = some m)
    (hd : m.demand? = some d) (h : d.Met S.classes top) :
    S.Leaves (S.call op) top m.returns := by
  refine ⟨m.pushed, fun σ => ?_, fun _ _ => m.holds_pushed _⟩
  have hcall : (S.call op).steps =
      (m.params.filterMap S.implicitArg?).map .emit ++ [.emit (m.callInstr op)] := by
    simp only [call, hm, List.map_append, List.map_cons, List.map_nil]
  rw [hcall]
  refine (Typed.implicit m.params _).append (.emit fun locals => ?_)
  have hretype : (S.catalog.get? op).bind (fun m' => if m'.callInstr op = m.callInstr op then
      m'.retype S.classes (m.implicit ++ (top ++ σ)) else none) = some (m.pushed ++ σ) := by
    rw [hm, Option.bind_some, if_pos rfl, Method.retype_of_demand hd h]
  unfold Method.callInstr at hretype ⊢
  split <;> rename_i hv <;> simp only [hv] at hretype <;> exact hretype

theorem leaves_callByAddress {op : Op} {m : Method} (hm : S.catalog.get? op = some m)
    (hd : m.demand? = some (.address r)) (hr : r ≠ .void) (h : Holds S.classes r top) :
    S.Leaves (S.callByAddress r op) top m.returns :=
  (yields_spill hr h).bind fun _ _ htop => by
    rw [htop]
    exact leaves_call hm hd .address

end Yields

end Scope

end Recast
