import Mathlib.Logic.Relation
import Mathlib.Order.Defs.Unbundled
import Recast.Proofs.Outcome

/-!
# The hierarchy of classes

A class is declared under a base that is there already.  So bases have smaller numbers, and every
way up ends at the root class, which has no base and no capability and can be given neither: its
name is taken.

* `ClassTable.Declared` : the tables that declarations lead to;
* `ClassTable.Rooted` : what all of them have in common;
* `ClassTable.climb_iff` : **a search up the bases ends**, and with the answer of the chain;
* `ClassTable.derives_iff` : a class derives from its ancestors and from nothing else;
* `ClassTable.assignable_iff` : the four ways of being assignable;
* `assignability_partial_order` : **assignability is a partial order**.
-/

namespace Recast

namespace ClassTable

variable (T : ClassTable)

/-! ### Tables and ways up -/

/-- The tables that declarations lead to, and the classes that a base may be taken from: the root
class and those that have been handed out. -/
inductive Declared : List ClassId → ClassTable → Prop
  /-- A new table. -/
  | new : Declared [.root] .new
  /-- A class is declared, under a base that has been handed out or under none. -/
  | declare {handed : List ClassId} {T : ClassTable} (h : Declared handed T) (name : String)
      (base : Option ClassId) (flags : ClassFlags) (hbase : ∀ b, base = some b → b ∈ handed) :
      Declared ((T.declare name base flags).1 :: handed) (T.declare name base flags).2

/-- One class is the base of another. -/
def Extends (c b : ClassId) : Prop := T.base? c = some b

/-- A class declares capabilities itself. -/
def declares (flags : ClassFlags) (c : ClassId) : Bool :=
  match T.get? c with
  | some info => info.flags.contains flags
  | none => false

/-- A search that asks class after class, up from one along the bases, ends with an answer. -/
inductive Climb (asked : ClassId → Bool) : ClassId → Bool → Prop
  /-- The class is one that is looked for. -/
  | found {c : ClassId} (h : asked c = true) : Climb asked c true
  /-- It is not, and there is no way up. -/
  | top {c : ClassId} (h : asked c = false) (hb : T.base? c = none) : Climb asked c false
  /-- It is not, and the search goes on at its base. -/
  | up {c b : ClassId} {answer : Bool} (h : asked c = false) (hb : T.base? c = some b)
      (hrest : Climb asked b answer) : Climb asked c answer

/-- The root class has no base and no capability, and all others have a base declared before
them. -/
structure Rooted : Prop where
  /-- The root class. -/
  root : ∃ name, T.get? .root = some ⟨name, none, .empty⟩
  /-- The other classes. -/
  base : ∀ c info, T.get? c = some info → c ≠ .root → ∃ b < c, info.base = some b

/-- The way up from a class has no more than a number of classes above it. -/
def EndsWithin (n : Nat) (c : ClassId) : Prop := c ≤ n ∨ T.base? c = none

variable {T}

/-! ### Declarations -/

theorem get?_eq_some_lt {c : ClassId} {info : ClassInfo} (h : T.get? c = some info) :
    c < T.classes.size :=
  (Array.getElem?_eq_some_iff.1 h).1

theorem lookup?_lt {name : String} {c : ClassId} (h : T.lookup? name = some c) :
    c < T.classes.size :=
  (Array.findIdx?_eq_some_iff_getElem.1 h).1

theorem declare_cases (name : String) (base : Option ClassId) (flags : ClassFlags) :
    (∃ c < T.classes.size, T.declare name base flags = (c, T)) ∨
      T.declare name base flags =
        (T.classes.size, ⟨T.classes.push ⟨name, some (base.getD .root), flags⟩⟩) := by
  unfold declare
  cases h : T.lookup? name with
  | some c => exact .inl ⟨c, lookup?_lt h, rfl⟩
  | none => exact .inr rfl

/-- **Declarations keep the table rooted**, and hand out classes of the table. -/
theorem Declared.rooted {handed : List ClassId} (h : Declared handed T) :
    T.Rooted ∧ ∀ c ∈ handed, c < T.classes.size := by
  induction h with
  | new =>
    refine ⟨⟨⟨_, rfl⟩, fun c info hc hroot => ?_⟩, fun c hc => ?_⟩
    · have hlt : c < 1 := get?_eq_some_lt hc
      exact absurd (Nat.lt_one_iff.1 hlt) hroot
    · rw [List.mem_singleton.1 hc]
      exact Nat.one_pos
  | @declare handed T h name base flags hbase ih =>
    obtain ⟨hT, hhanded⟩ := ih
    rcases T.declare_cases name base flags with ⟨c, hc, heq⟩ | heq
    · rw [heq]
      exact ⟨hT, List.forall_mem_cons.2 ⟨hc, hhanded⟩⟩
    · obtain ⟨root, hroot⟩ := hT.root
      have hpos := get?_eq_some_lt hroot
      rw [heq]
      refine ⟨⟨⟨root, ?_⟩, fun c info hc hne => ?_⟩, List.forall_mem_cons.2 ⟨?_, fun c hc => ?_⟩⟩
      · rw [get?, Array.getElem?_push, if_neg (Nat.ne_of_lt hpos)]
        exact hroot
      · rw [get?, Array.getElem?_push] at hc
        split_ifs at hc with hnew
        · cases hc
          refine ⟨base.getD .root, ?_, rfl⟩
          rw [hnew]
          cases base with
          | none => exact hpos
          | some b => exact hhanded b (hbase b rfl)
        · exact hT.base c info hc hne
      · simp only [Array.size_push, Nat.lt_succ_self]
      · rw [Array.size_push]
        exact Nat.lt_succ_of_lt (hhanded c hc)

/-! ### Ways up -/

/-- A class that is not in the table has no way up. -/
theorem endsWithin_size (c : ClassId) : T.EndsWithin T.classes.size c := by
  cases hc : T.base? c with
  | none => exact .inr hc
  | some b =>
    obtain ⟨info, hinfo, -⟩ := Option.bind_eq_some_iff.1 hc
    exact .inl (Nat.le_of_lt (get?_eq_some_lt hinfo))

section Rooted

variable (hT : T.Rooted) {n : Nat} {a b c : ClassId}

include hT

theorem Rooted.base?_root : T.base? .root = none := by
  obtain ⟨name, hroot⟩ := hT.root
  rw [base?, hroot]
  rfl

theorem Rooted.lt_of_extends (h : T.Extends c b) : b < c := by
  obtain ⟨info, hinfo, hb⟩ := Option.bind_eq_some_iff.1 h
  have hne : c ≠ .root := by
    rintro rfl
    rw [Extends, hT.base?_root] at h
    cases h
  obtain ⟨b', hlt, hb'⟩ := hT.base c info hinfo hne
  rw [hb] at hb'
  cases hb'
  exact hlt

theorem Rooted.le_of_reaches (h : Relation.ReflTransGen T.Extends c a) : a ≤ c := by
  induction h with
  | refl => exact Nat.le_refl c
  | tail _ hstep ih => exact Nat.le_trans (Nat.le_of_lt (hT.lt_of_extends hstep)) ih

theorem Rooted.endsWithin_zero (h : T.EndsWithin 0 c) : T.base? c = none := by
  rcases h with h | h
  · rw [Nat.le_zero.1 h]
    exact hT.base?_root
  · exact h

theorem Rooted.endsWithin_base (h : T.EndsWithin (n + 1) c) (hb : T.base? c = some b) :
    T.EndsWithin n b := by
  rcases h with h | h
  · exact .inl (Nat.le_of_lt_succ (Nat.lt_of_lt_of_le (hT.lt_of_extends hb) h))
  · rw [hb] at h
    cases h

/-- The classes met on the way up are those that bases lead to. -/
theorem mem_ancestors (h : T.EndsWithin n c) :
    a ∈ T.ancestors n c ↔ Relation.ReflTransGen T.Extends c a := by
  induction n generalizing c with
  | zero =>
    have hb : T.base? c = none := hT.endsWithin_zero h
    rw [ancestors, List.mem_singleton, Relation.ReflTransGen.cases_head_iff]
    simp [Extends, hb, eq_comm]
  | succ n ih =>
    rw [ancestors, List.mem_cons, Relation.ReflTransGen.cases_head_iff]
    cases hb : T.base? c with
    | none => simp [Extends, hb, eq_comm]
    | some b => simp [Extends, hb, eq_comm, ih (hT.endsWithin_base h hb)]

/-- A search ends, with the answer that the classes on the way up give. -/
theorem climb_ancestors (asked : ClassId → Bool) (h : T.EndsWithin n c) :
    T.Climb asked c ((T.ancestors n c).any asked) := by
  induction n generalizing c with
  | zero =>
    have hb : T.base? c = none := hT.endsWithin_zero h
    cases hasked : asked c with
    | true => simpa [ancestors, hasked] using Climb.found hasked
    | false => simpa [ancestors, hasked] using Climb.top hasked hb
  | succ n ih =>
    cases hasked : asked c with
    | true => simpa [ancestors, hasked] using Climb.found hasked
    | false =>
      cases hb : T.base? c with
      | none => simpa [ancestors, hasked, hb] using Climb.top hasked hb
      | some b =>
        simpa [ancestors, hasked, hb] using Climb.up hasked hb (ih (hT.endsWithin_base h hb))

end Rooted

theorem Climb.unique {asked : ClassId → Bool} {c : ClassId} {r r' : Bool}
    (h : T.Climb asked c r) (h' : T.Climb asked c r') : r = r' := by
  induction h with
  | found hasked =>
    cases h' with
    | found => rfl
    | top h | up h => cases hasked.symm.trans h
  | top hasked hb =>
    cases h' with
    | found h => cases hasked.symm.trans h
    | top => rfl
    | up _ hb' => cases hb.symm.trans hb'
  | up hasked hb _ ih =>
    cases h' with
    | found h => cases hasked.symm.trans h
    | top _ hb' => cases hb.symm.trans hb'
    | up _ hb' hrest =>
      cases hb.symm.trans hb'
      exact ih hrest

theorem hasFlags_iff {c : ClassId} {flags : ClassFlags} :
    T.hasFlags c flags = true ↔
      ∃ a info, T.derives c a = true ∧ T.get? a = some info ∧ info.flags.contains flags = true := by
  rw [hasFlags, List.any_eq_true]
  refine exists_congr fun a => ?_
  rw [derives, List.contains_iff_mem]
  cases T.get? a <;> simp

section Rooted

variable (hT : T.Rooted) {a b c d : ClassId} {flags : ClassFlags}

include hT

/-- **A search up the bases ends**, and the chain has its answer. -/
theorem climb_iff {asked : ClassId → Bool} {r : Bool} :
    T.Climb asked c r ↔ r = (T.chain c).any asked := by
  have hclimb := climb_ancestors hT asked (endsWithin_size c)
  constructor
  · exact fun h => h.unique hclimb
  · rintro rfl
    exact hclimb

/-- **A class derives from those that bases lead to**, and from itself. -/
theorem derives_iff : T.derives c a = true ↔ Relation.ReflTransGen T.Extends c a := by
  rw [derives, List.contains_iff_mem, chain, mem_ancestors hT (endsWithin_size c)]

theorem derives_trans (hcb : T.derives c b = true) (hba : T.derives b a = true) :
    T.derives c a = true :=
  (derives_iff hT).2 (((derives_iff hT).1 hcb).trans ((derives_iff hT).1 hba))

theorem derives_antisymm (hca : T.derives c a = true) (hac : T.derives a c = true) : c = a :=
  Nat.le_antisymm (hT.le_of_reaches ((derives_iff hT).1 hac))
    (hT.le_of_reaches ((derives_iff hT).1 hca))

/-- Deriving is a partial order, also on classes that are in no table. -/
theorem isPartialOrder_derives : IsPartialOrder ClassId fun c a => T.derives c a = true where
  refl _ := (derives_iff hT).2 .refl
  trans _ _ _ := derives_trans hT
  antisymm _ _ := derives_antisymm hT

theorem derives_root (h : T.get? c ≠ none) : T.derives c .root = true := by
  induction c using Nat.strong_induction_on with
  | _ c ih =>
    by_cases hroot : c = ClassId.root
    · rw [hroot]
      exact (derives_iff hT).2 .refl
    · obtain ⟨info, hinfo⟩ := Option.ne_none_iff_exists'.1 h
      obtain ⟨b, hlt, hb⟩ := hT.base c info hinfo hroot
      have hknown : T.get? b ≠ none := by
        rw [get?, ne_eq, Array.getElem?_eq_none_iff, Nat.not_le]
        exact Nat.lt_trans hlt (get?_eq_some_lt hinfo)
      have hstep : T.Extends c b := by
        rw [Extends, base?, hinfo]
        exact hb
      exact derives_trans hT ((derives_iff hT).2 (.single hstep)) (ih b hlt hknown)

theorem eq_root_of_derives (h : T.derives .root a = true) : a = .root :=
  Nat.le_zero.1 (hT.le_of_reaches ((derives_iff hT).1 h))

theorem hasFlags_root : T.hasFlags .root .callable = false := by
  rw [← Bool.not_eq_true, hasFlags_iff]
  rintro ⟨a, info, ha, hinfo, hflags⟩
  obtain ⟨name, hroot⟩ := hT.root
  rw [eq_root_of_derives hT ha, hroot] at hinfo
  cases hinfo
  have hnone : ClassFlags.empty.contains .callable = false := by decide
  exact absurd hflags (by simp [hnone])

theorem hasFlags_of_derives (h : T.derives c d = true) (hd : T.hasFlags d flags = true) :
    T.hasFlags c flags = true := by
  obtain ⟨a, info, ha, hinfo, hflags⟩ := hasFlags_iff.1 hd
  exact hasFlags_iff.2 ⟨a, info, derives_trans hT h ha, hinfo, hflags⟩

end Rooted

/-! ### Assignability -/

/-- A value may be used as another representation if that is the same one, if it is a reference
and an instance of the root class is wanted, along bases, and if it can be called. -/
theorem assignable_iff {source target : Rep} :
    T.assignable source target = true ↔
      source = target ∨ (source.isReference = true ∧ target = .root) ∨
        (∃ a b, source = .object a ∧ target = .object b ∧ T.derives a b = true) ∨
        ∃ a, source = .object a ∧ target = .callable ∧ T.hasFlags a .callable = true := by
  have hroot : Rep.root.isReference = true := rfl
  by_cases heq : source = target
  · simp [heq]
  by_cases ht : target = .root
  · subst ht
    by_cases hr : source.isReference = true
    · simp [assignable, hr, hroot]
    · have hobject : ∀ a, source ≠ .object a := by
        rintro a rfl
        exact hr rfl
      simp [assignable, heq, hr, hobject]
  · unfold assignable
    rw [if_neg heq, if_neg ht]
    cases source <;> cases target <;> simp_all [Rep.isReference]

variable {s t u : Rep}

section Rooted

variable (hT : T.Rooted)

include hT

theorem eq_root_of_assignable (h : T.assignable .root t = true) : t = .root := by
  rcases assignable_iff.1 h with heq | ⟨-, ht⟩ | ⟨a, b, ha, rfl, hab⟩ | ⟨a, ha, rfl, hflags⟩
  · exact heq.symm
  · exact ht
  · cases ha
    rw [eq_root_of_derives hT hab]
    rfl
  · cases ha
    rw [hasFlags_root hT] at hflags
    cases hflags

theorem assignable_trans (hst : T.assignable s t = true) (htu : T.assignable t u = true) :
    T.assignable s u = true := by
  by_cases heq : s = t
  · rw [heq]
    exact htu
  have href := (isReference_of_assignable hst heq).1
  -- what is above an instance is so by its class
  rcases assignable_iff.1 hst with h | ⟨-, rfl⟩ | ⟨a, b, rfl, rfl, hab⟩ | ⟨a, rfl, rfl, hflags⟩
  · exact absurd h heq
  · rw [eq_root_of_assignable hT htu]
    exact assignable_root href
  · rcases assignable_iff.1 htu with rfl | ⟨-, rfl⟩ | ⟨b', c, hb, rfl, hbc⟩ | ⟨b', hb, rfl, hflags⟩
    · exact hst
    · exact assignable_root href
    · cases hb
      exact assignable_iff.2 (.inr (.inr (.inl ⟨a, c, rfl, rfl, derives_trans hT hab hbc⟩)))
    · cases hb
      exact assignable_iff.2 (.inr (.inr (.inr ⟨a, rfl, rfl, hasFlags_of_derives hT hab hflags⟩)))
  · rcases assignable_iff.1 htu with rfl | ⟨-, rfl⟩ | ⟨_, _, h, -⟩ | ⟨_, h, -⟩
    · exact hst
    · exact assignable_root href
    · cases h
    · cases h

theorem assignable_antisymm (hst : T.assignable s t = true) (hts : T.assignable t s = true) :
    s = t := by
  rcases assignable_iff.1 hst with h | ⟨-, rfl⟩ | ⟨a, b, rfl, rfl, hab⟩ | ⟨a, rfl, rfl, hflags⟩
  · exact h
  · exact eq_root_of_assignable hT hts
  · rcases assignable_iff.1 hts with h | ⟨-, h⟩ | ⟨b', a', hb, ha, hba⟩ | ⟨_, _, h, -⟩
    · exact h.symm
    · cases h
      exact (eq_root_of_assignable hT hst).symm
    · cases hb
      cases ha
      rw [derives_antisymm hT hab hba]
    · cases h
  · rcases assignable_iff.1 hts with h | ⟨-, h⟩ | ⟨_, _, h, -⟩ | ⟨_, h, -⟩
    · cases h
    · cases h
      rw [hasFlags_root hT] at hflags
      cases hflags
    · cases h
    · cases h

theorem isPartialOrder_assignable : IsPartialOrder Rep fun s t => T.assignable s t = true where
  refl := assignable_self
  trans _ _ _ := assignable_trans hT
  antisymm _ _ := assignable_antisymm hT

end Rooted

end ClassTable

open ClassTable

/-- **Assignability is a partial order.**  In every table that declarations lead to, under bases
that have been handed out before:

* the search of an ancestor and the search of capabilities end, from every class, and with the
  answers of `derives` and `hasFlags`;
* deriving is the reflexive and transitive closure of the base links and a partial order, and all
  classes of the table derive from the root class;
* a class has the capabilities that an ancestor of it in the table declares, or that it declares
  itself, so it inherits those of its base;
* assignability is a partial order on all representations.  Distinct ones take part only if both
  are references, and the root class is the greatest reference. -/
theorem assignability_partial_order {T : ClassTable} {handed : List ClassId}
    (h : Declared handed T) :
    ((∀ c a r, T.Climb (· == a) c r ↔ r = T.derives c a) ∧
      ∀ c f r, T.Climb (T.declares f) c r ↔ r = T.hasFlags c f) ∧
    ((∀ c a, T.derives c a = true ↔ Relation.ReflTransGen T.Extends c a) ∧
      IsPartialOrder ClassId (fun c a => T.derives c a = true) ∧
      ∀ c, T.get? c ≠ none → T.derives c .root = true) ∧
    ((∀ c f, T.hasFlags c f = true ↔ ∃ a info, T.derives c a = true ∧ T.get? a = some info ∧
        info.flags.contains f = true) ∧
      ∀ c b f, T.derives c b = true → T.hasFlags b f = true → T.hasFlags c f = true) ∧
    IsPartialOrder Rep (fun s t => T.assignable s t = true) ∧
    (∀ s t, T.assignable s t = true → s ≠ t → s.isReference = true ∧ t.isReference = true) ∧
    Rep.root.isReference = true ∧ ∀ s, s.isReference = true → T.assignable s .root = true := by
  obtain ⟨hT, -⟩ := h.rooted
  refine ⟨⟨fun c a r => ?_, fun c f r => climb_iff hT⟩,
    ⟨fun c a => derives_iff hT, isPartialOrder_derives hT, fun c => derives_root hT⟩,
    ⟨fun c f => hasFlags_iff, fun c b f => hasFlags_of_derives hT⟩,
    isPartialOrder_assignable hT, fun s t => isReference_of_assignable, rfl,
    fun s => assignable_root⟩
  rw [climb_iff hT, derives, List.contains_eq_any_beq]
  simp only [BEq.comm]

/-- A dog is an animal, and can be called although an animal cannot; the name of the root class is
taken, so nobody makes it callable. -/
theorem assignability_partial_order_dog : ∃ handed T, Declared handed T ∧
    T.assignable (.object 2) (.object 1) = true ∧ T.assignable (.object 2) .callable = true ∧
    T.assignable (.object 1) .callable = false ∧ T.hasFlags .root .callable = false ∧
    T.assignable (.object 1) (.object 2) = false := by
  let animal := (ClassTable.new.declare "object" none .callable).2.declare "Animal" none .empty
  let dog := animal.2.declare "Dog" (some 1) .callable
  have hid : animal.1 = 1 := by decide +kernel
  have hanimal : Declared [animal.1, _, .root] animal.2 :=
    .declare (.declare .new "object" none .callable (by simp)) "Animal" none .empty (by simp)
  have hdog : Declared _ dog.2 :=
    .declare hanimal "Dog" (some 1) .callable (by simp [hid])
  obtain ⟨-, -, -, hpartial, -⟩ := assignability_partial_order hdog
  have hup : dog.2.assignable (.object 2) (.object 1) = true := by decide +kernel
  refine ⟨_, dog.2, hdog, hup, by decide +kernel, by decide +kernel, by decide +kernel, ?_⟩
  -- a dog is no less than an animal: otherwise both were the same
  rw [← Bool.not_eq_true]
  exact fun hdown => absurd (hpartial.antisymm _ _ hup hdown) (by decide)

end Recast
