import Recast.Proofs.ScratchUse
import Recast.Proofs.TypedRequests

/-!
# Closed code

The two labels with which a nullable is converted are new, so no branch of one conversion ends up in
the code of another one, and both are placed further on in the same plan.  This need not be told
from the plans again: the checker of operand types accepts no code of which it does not hold.

* `Closes` : code that places the labels it branches to, further on and once;
* `Closes.append` : closed code composes;
* `Flow.closes_of_check` : **the checker of operand types only accepts closed code**;
* `Request.closes_plan?` : so the code of every request is closed.
-/

namespace Recast

/-! ### Labels of code -/

namespace Instr

/-- The label that an instruction places. -/
def placed? : Instr → Option Label
  | mark l => some l
  | _ => none

/-- The label that an instruction places or branches to. -/
def label? : Instr → Option Label
  | br l | brFalse l | mark l => some l
  | _ => none

variable {i : Instr} {l : Label}

theorem placed?_eq_some : i.placed? = some l ↔ i = mark l := by
  cases i <;> simp [placed?]

theorem label?_of_target? (h : i.target? = some l) : i.label? = some l := by
  cases i <;> first | exact h | cases h

theorem placed?_of_target? (h : i.target? = some l) : i.placed? = none := by
  cases i <;> first | rfl | cases h

theorem placed?_or_target? (h : i.label? = some l) : i.placed? = some l ∨ i.target? = some l := by
  cases i <;> first | exact .inl h | exact .inr h

end Instr

/-- The labels that code places, in order. -/
def marks (code : List Instr) : List Label := code.filterMap Instr.placed?

/-- All labels of some code are numbered from `n` up to `m`; it places none of them twice, and
those that it branches to further on. -/
structure Closes (n m : Nat) (code : List Instr) : Prop where
  /-- All labels are numbered so. -/
  labels : ∀ i ∈ code, ∀ l, i.label? = some l → n ≤ l.index ∧ l.index < m
  /-- No label is placed twice. -/
  once : (marks code).Nodup
  /-- A branch leads forward, to a label that is placed. -/
  lands : ∀ pre i rest l, code = pre ++ i :: rest → i.target? = some l → l ∈ marks rest

section Code

variable {code code' pre rest : List Instr} {i : Instr} {l : Label} {n m k : Nat}

@[simp]
theorem marks_nil : marks [] = [] := rfl

@[simp]
theorem marks_append (code code' : List Instr) :
    marks (code ++ code') = marks code ++ marks code' := List.filterMap_append

theorem marks_cons (i : Instr) (code : List Instr) :
    marks (i :: code) = i.placed?.toList ++ marks code := by
  rw [← List.singleton_append, marks_append]
  cases h : i.placed? <;> simp [marks, h]

theorem mem_marks : l ∈ marks code ↔ Instr.mark l ∈ code := by
  simp [marks, Instr.placed?_eq_some]

theorem append_eq_append_cons (h : code ++ code' = pre ++ i :: rest) :
    (∃ mid, code = pre ++ i :: mid ∧ rest = mid ++ code') ∨
      ∃ mid, pre = code ++ mid ∧ code' = mid ++ i :: rest := by
  rcases List.append_eq_append_iff.1 h with ⟨mid, rfl, hrest⟩ | ⟨mid, rfl, hrest⟩
  · exact .inr ⟨mid, rfl, hrest⟩
  · cases mid with
    | nil => exact .inr ⟨[], by simp, hrest.symm⟩
    | cons j mid =>
      cases hrest
      exact .inl ⟨mid, rfl, rfl⟩

namespace Closes

theorem of_unlabelled (h : ∀ i ∈ code, i.label? = none) : Closes n m code where
  labels i hi l hl := by
    rw [h i hi] at hl
    cases hl
  once := by
    have hnil : marks code = [] := List.filterMap_eq_nil_iff.2 fun i hi => by
      have hlabel := h i hi
      cases i <;> first | rfl | cases hlabel
    rw [hnil]
    exact List.nodup_nil
  lands pre i rest l heq hl := by
    have hi : i ∈ code := by simp [heq]
    exact absurd (Instr.label?_of_target? hl) (by simp [h i hi])

theorem mono (h : Closes n m code) {n' m' : Nat} (hn : n' ≤ n) (hm : m ≤ m') :
    Closes n' m' code where
  labels i hi l hl := by
    obtain ⟨hle, hlt⟩ := h.labels i hi l hl
    exact ⟨Nat.le_trans hn hle, Nat.lt_of_lt_of_le hlt hm⟩
  once := h.once
  lands := h.lands

theorem of_mem_marks (h : Closes n m code) (hl : l ∈ marks code) : n ≤ l.index ∧ l.index < m :=
  h.labels _ (mem_marks.1 hl) l rfl

/-- **Closed code composes**, where later labels have later numbers. -/
theorem append (h : Closes n m code) (h' : Closes m k code') (hnm : n ≤ m) (hmk : m ≤ k) :
    Closes n k (code ++ code') where
  labels i hi l hl := by
    rcases List.mem_append.1 hi with hi | hi
    · exact (h.mono (Nat.le_refl n) hmk).labels i hi l hl
    · exact (h'.mono hnm (Nat.le_refl k)).labels i hi l hl
  once := by
    rw [marks_append]
    refine List.nodup_append.2 ⟨h.once, h'.once, ?_⟩
    rintro l hl l' hl' rfl
    exact absurd (h.of_mem_marks hl).2 (Nat.not_lt.2 (h'.of_mem_marks hl').1)
  lands pre i rest l heq hl := by
    rcases append_eq_append_cons heq with ⟨mid, hcode, rfl⟩ | ⟨mid, -, hcode⟩
    · rw [marks_append]
      exact List.mem_append_left _ (h.lands pre i mid l hcode hl)
    · exact h'.lands mid i rest l hcode hl

end Closes

/-! ### What the checker accepts -/

namespace Flow

variable {Γ : Frame} {f f' : Flow} {σ : List Operand}

theorem branch_eq_some {joins : List (Label × List Operand)} (h : f.branch l σ = some joins) :
    l ∉ f.placed ∧ joins.lookup l ≠ none ∧
      ∀ k, f.joins.lookup k ≠ none → joins.lookup k ≠ none := by
  unfold branch at h
  split_ifs at h with hl
  refine ⟨hl, ?_⟩
  cases hjoin : f.joins.lookup l with
  | some σ' =>
    simp only [hjoin] at h
    split_ifs at h
    cases h
    exact ⟨by simp [hjoin], fun k hk => hk⟩
  | none =>
    simp only [hjoin] at h
    cases h
    refine ⟨by simp [List.lookup_cons_self], fun k hk => ?_⟩
    rw [List.lookup_cons]
    cases k == l
    · exact hk
    · simp

/-- What the checker keeps of labels: an instruction places none twice, and branches to none that
has been placed. -/
theorem step_eq_some (h : f.step Γ i = some f') :
    f'.placed = i.placed?.toList ++ f.placed ∧ (∀ l, i.placed? = some l → l ∉ f.placed) ∧
      (∀ l, i.target? = some l → l ∉ f.placed ∧ f'.joins.lookup l ≠ none) ∧
      ∀ l, f.joins.lookup l ≠ none → f'.joins.lookup l ≠ none := by
  cases i with
  | mark l =>
    obtain ⟨hl, hjoins, hplaced, -⟩ := step_mark_eq_some h
    refine ⟨hplaced, fun k hk => ?_, fun k hk => (by cases hk), fun k hk => ?_⟩
    · cases hk
      exact hl
    · rwa [hjoins]
  | br l =>
    obtain ⟨σ, -, h⟩ := Option.bind_eq_some_iff.1 h
    obtain ⟨joins, hjoins, rfl⟩ := Option.map_eq_some_iff.1 h
    obtain ⟨hl, hlookup, hkeep⟩ := branch_eq_some hjoins
    refine ⟨rfl, fun k hk => (by cases hk), fun k hk => ?_, hkeep⟩
    cases hk
    exact ⟨hl, hlookup⟩
  | brFalse l =>
    obtain ⟨σ₀, -, h⟩ := Option.bind_eq_some_iff.1 h
    obtain ⟨σ, -, h⟩ := Option.bind_eq_some_iff.1 h
    obtain ⟨joins, hjoins, rfl⟩ := Option.map_eq_some_iff.1 h
    obtain ⟨hl, hlookup, hkeep⟩ := branch_eq_some hjoins
    refine ⟨rfl, fun k hk => (by cases hk), fun k hk => ?_, hkeep⟩
    cases hk
    exact ⟨hl, hlookup⟩
  | ret =>
    obtain ⟨σ, -, h⟩ := Option.bind_eq_some_iff.1 h
    cases h
    exact ⟨rfl, fun k hk => (by cases hk), fun k hk => (by cases hk), fun _ => id⟩
  | _ =>
    obtain ⟨σ, -, h⟩ := Option.bind_eq_some_iff.1 h
    obtain ⟨σ', -, rfl⟩ := Option.map_eq_some_iff.1 h
    exact ⟨rfl, fun k hk => (by cases hk), fun k hk => (by cases hk), fun _ => id⟩

/-- The labels that code places have been placed, none of them twice, and what it branches to is
known and had not been placed. -/
theorem check_eq_some (h : check Γ code f = some f') (hf : f.placed.Nodup) :
    f'.placed = (marks code).reverse ++ f.placed ∧ f'.placed.Nodup ∧
      (∀ l, f.joins.lookup l ≠ none → f'.joins.lookup l ≠ none) ∧
      ∀ pre i rest l, code = pre ++ i :: rest → i.target? = some l →
        l ∉ f.placed ∧ l ∉ marks pre ∧ f'.joins.lookup l ≠ none := by
  induction code generalizing f with
  | nil =>
    cases h
    exact ⟨rfl, hf, fun _ => id, fun pre i rest l heq => absurd heq (by simp)⟩
  | cons j code ih =>
    rw [check_cons] at h
    obtain ⟨f₁, hstep, hrest⟩ := Option.bind_eq_some_iff.1 h
    obtain ⟨hplaced, hfresh, htarget, hkeep⟩ := step_eq_some hstep
    have hf₁ : f₁.placed.Nodup := by
      rw [hplaced]
      cases hj : j.placed? with
      | none => exact hf
      | some l => exact List.nodup_cons.2 ⟨hfresh l hj, hf⟩
    obtain ⟨hplaced', hnodup, hkeep', hbranch⟩ := ih hrest hf₁
    refine ⟨?_, hnodup, fun l hl => hkeep' l (hkeep l hl), ?_⟩
    · rw [hplaced', hplaced, marks_cons, List.reverse_append]
      cases j.placed? <;> simp
    · intro pre i rest l heq hl
      cases pre with
      | nil =>
        cases heq
        exact ⟨(htarget l hl).1, by simp, hkeep' l (htarget l hl).2⟩
      | cons j' pre =>
        cases heq
        obtain ⟨hl₁, hpre, hlookup⟩ := hbranch pre i rest l rfl hl
        rw [hplaced, List.mem_append, not_or] at hl₁
        refine ⟨hl₁.2, ?_, hlookup⟩
        rw [marks_cons, List.mem_append, not_or]
        exact ⟨hl₁.1, hpre⟩

/-- **The checker only accepts closed code**, if the labels that are used in it are those that have
been defined in between. -/
theorem closes_of_check (h : check Γ code (start σ) = some f')
    (hext : (start σ).Extends f' n m) : Closes n m code := by
  obtain ⟨heq, hnodup, -, hbranch⟩ := check_eq_some h List.nodup_nil
  change f'.placed = (marks code).reverse ++ [] at heq
  rw [List.append_nil] at heq
  have hplaced : ∀ l, l ∈ f'.placed ↔ l ∈ marks code := fun l => by
    rw [heq, List.mem_reverse]
  -- what has been placed or branched to is known to the checker
  have numbered : ∀ l : Label, l ∈ f'.placed ∨ f'.joins.lookup l ≠ none →
      n ≤ l.index ∧ l.index < m := by
    intro l hl
    by_contra hout
    rcases hl with hl | hl
    · exact List.not_mem_nil ((hext.placed l hout).1 hl)
    · exact hl (hext.joins l hout)
  refine ⟨fun i hi l hl => ?_, ?_, fun pre i rest l heq hl => ?_⟩
  · rcases Instr.placed?_or_target? hl with hplace | htarget
    · rw [Instr.placed?_eq_some.1 hplace] at hi
      exact numbered l (.inl ((hplaced l).2 (mem_marks.2 hi)))
    · obtain ⟨pre, rest, heq⟩ := List.append_of_mem hi
      exact numbered l (.inr (hbranch pre i rest l heq htarget).2.2)
  · rw [heq] at hnodup
    exact List.pairwise_reverse.1 (hnodup.imp Ne.symm)
  · obtain ⟨-, hpre, hlookup⟩ := hbranch pre i rest l heq hl
    obtain ⟨hle, hlt⟩ := numbered l (.inr hlookup)
    have hmem : l ∈ marks code := (hplaced l).1 (hext.landed l hle hlt)
    rw [heq, marks_append, marks_cons, Instr.placed?_of_target? hl] at hmem
    simpa [hpre] using hmem

end Flow

end Code

/-! ### Plans -/

/-- A step neither places a label nor branches to one.  It may define labels. -/
def Step.isUnlabelled : Step → Bool
  | .emit i => i.label?.isNone
  | .brAbsent | .brEnd | .markAbsent | .markEnd => false
  | _ => true

section Plans

variable {T : ClassTable} {k : Option ClassId} {o : Options} {q : Request} {N : Numbering}
  {locals : Array Rep} {ts : List Step} {n m : Nat}

theorem Numbering.closes_of_isUnlabelled (h : ∀ t ∈ ts, t.isUnlabelled = true) :
    Closes n m (N.code ts) := by
  refine .of_unlabelled fun i hi => ?_
  obtain ⟨t, ht, M, -, hinstr⟩ := Numbering.exists_of_mem_code hi
  have ht := h t ht
  cases t with
  | emit j =>
    cases hinstr
    exact Option.isNone_iff_eq_none.1 ht
  | brAbsent | brEnd | markAbsent | markEnd => cases ht
  | reserve | fork => cases hinstr
  | _ =>
    cases hinstr
    rfl

/-- Typed code is closed, over the labels that are defined in it. -/
theorem Scope.Typed.closes {S : Scope} {σ σ' : List Operand} (h : S.Typed ts σ σ')
    (hslots : ∀ t ∈ ts, ∀ r, t.scratch? = some r → locals[N.slot r]? = some r) :
    Closes N.labels (N.afterAll ts).labels (N.code ts) := by
  obtain ⟨f', hcheck, -, hext⟩ := h N locals (.start σ) hslots rfl (Flow.fresh_start σ _)
  exact Flow.closes_of_check hcheck hext

theorem Request.Opens.exists_left {first : Script Rep} {left : List Operand → Prop}
    (h : q.Opens T first left) : ∃ top, left top := by
  have held : ∀ r, ∃ top, Holds T r top := by
    intro r
    by_cases hr : r = .void
    · exact ⟨[], hr ▸ .void⟩
    · exact ⟨_, holds_value hr⟩
  cases h with
  | operand h => exact held _
  | kind h hopen =>
    cases hopen with
    | nothing => exact ⟨_, rfl⟩
    | @load p =>
      cases p.load.result with
      | ok r =>
        obtain ⟨top, htop⟩ := held r
        refine ⟨top, fun r' hr' => ?_⟩
        cases hr'
        exact htop
      | error e => exact ⟨[], fun r hr => by cases hr⟩
    | address => exact ⟨_, rfl⟩
    | invoke => exact held _

/-- **The code of every request is closed**, if what is emitted of its own accord has no labels. -/
theorem Request.closes_plan? {plan : Script Reply}
    (hplan : q.plan? (.standard T k) o = some plan)
    (hown : ∀ first ∈ q.own, ∀ t ∈ first.steps, t.isUnlabelled = true)
    (hslots : ∀ t ∈ plan.steps, ∀ r, t.scratch? = some r → locals[N.slot r]? = some r) :
    Closes N.labels (N.afterAll plan.steps).labels (N.code plan.steps) := by
  obtain ⟨first, left, hopen, rest, hsteps, -, hrest⟩ := q.supplies_plan? hplan
  obtain ⟨top, htop⟩ := hopen.exists_left
  obtain ⟨top', htyped, -⟩ := hrest top htop
  rw [hsteps] at hslots
  have hclosed : Closes (N.afterAll first.steps).labels
      ((N.afterAll first.steps).afterAll rest.steps).labels
      ((N.afterAll first.steps).code rest.steps) :=
    (htyped []).closes fun t ht r hr => by
      rw [Numbering.slot_afterAll]
      exact hslots t (List.mem_append_right _ ht) r hr
  rw [hsteps, Numbering.code_append, Numbering.afterAll_append]
  exact (Numbering.closes_of_isUnlabelled (hown first hopen.mem_own)).append hclosed
    (N.labels_le_afterAll _) ((N.afterAll _).labels_le_afterAll _)

end Plans

end Recast
