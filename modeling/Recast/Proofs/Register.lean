import Mathlib.Data.List.Nodup

/-!
# Registers

A register keeps entries in the order in which they came, and beside them a map from the name of
each to its position.  An entry is looked for in the map alone, and when it is not found it is
written to both.  Nobody ever compares the two: that they agree is an invariant of the writing.

* `Register.enter` : an entry is found under its name, or appended;
* `Register.Coherent` : map and entries are inverse;
* `Register.Coherent.enterAll` : **they stay inverse**, whatever is entered;
* `Register.Coherent.names_enterAll` : the names are those entered, in the order of their first
  coming;
* `Register.Coherent.fst_enterAll` : **the answer is the position of the name** among them;
* `Register.Coherent.findIdx?_eq` : to ask the map is to search the entries.
-/

namespace Recast

/-- Entries in order, and a map beside them from names to positions. -/
structure Register (α : Type) where
  /-- The entries in order. -/
  entries : Array α
  /-- The position of each name. -/
  positions : Std.HashMap String Nat

namespace Register

variable {α : Type} (nameOf : α → String)

/-- Nothing has been entered yet. -/
def empty : Register α := ⟨#[], ∅⟩

/-- Append an entry.  Nothing is looked up, so its name should be new. -/
def push (R : Register α) (x : α) : Register α :=
  ⟨R.entries.push x, R.positions.insert (nameOf x) R.entries.size⟩

/-- The position of an entry's name; a name that is new gets the next one. -/
def enter (R : Register α) (x : α) : Nat × Register α :=
  match R.positions[nameOf x]? with
  | some i => (i, R)
  | none => (R.entries.size, R.push nameOf x)

/-- Enter one after another. -/
def enterAll (R : Register α) : List α → List Nat × Register α
  | [] => ([], R)
  | x :: xs =>
    let (i, R') := R.enter nameOf x
    let (is, R'') := enterAll R' xs
    (i :: is, R'')

/-- The names of the entries in order. -/
def names (R : Register α) : List String := R.entries.toList.map nameOf

/-- The map has the position of each name, and no other names. -/
def Coherent (R : Register α) : Prop :=
  ∀ (name : String) (i : Nat), R.positions[name]? = some i ↔ (R.names nameOf)[i]? = some name

variable {nameOf} {R : Register α} {x : α} {xs : List α} {name : String}

theorem coherent_empty : Coherent nameOf empty := by
  intro name i
  simp [empty, names]

@[simp]
theorem names_push : (R.push nameOf x).names nameOf = R.names nameOf ++ [nameOf x] := by
  simp [push, names]

theorem length_names : (R.names nameOf).length = R.entries.size := by
  simp [names]

theorem eraseDups_of_nodup {l : List String} (h : l.Nodup) : l.eraseDups = l := by
  induction l with
  | nil => rfl
  | cons a l ih =>
    obtain ⟨ha, hl⟩ := List.nodup_cons.1 h
    have hfilter : l.filter (fun b => !b == a) = l := by
      rw [List.filter_eq_self]
      intro b hb
      have hne : b ≠ a := fun heq => ha (heq ▸ hb)
      simpa using hne
    rw [List.eraseDups_cons, hfilter, ih hl]

theorem enterAll_cons : R.enterAll nameOf (x :: xs) =
    ((R.enter nameOf x).1 :: ((R.enter nameOf x).2.enterAll nameOf xs).1,
      ((R.enter nameOf x).2.enterAll nameOf xs).2) := rfl

namespace Coherent

theorem notMem (h : Coherent nameOf R) (hnew : R.positions[name]? = none) :
    name ∉ R.names nameOf := by
  intro hmem
  obtain ⟨i, hi⟩ := List.mem_iff_getElem?.1 hmem
  rw [(h name i).2 hi] at hnew
  cases hnew

/-- No name is there twice, as the map has one position for each. -/
theorem nodup (h : Coherent nameOf R) : (R.names nameOf).Nodup := by
  rw [List.nodup_iff_getElem?_ne_getElem?]
  intro i j hij hj heq
  have hname : (R.names nameOf)[j]? = some (R.names nameOf)[j] := List.getElem?_eq_getElem hj
  have hi := (h _ i).2 (heq.trans hname)
  rw [(h _ j).2 hname, Option.some.injEq] at hi
  omega

theorem push (h : Coherent nameOf R) (hnew : R.positions[nameOf x]? = none) :
    Coherent nameOf (R.push nameOf x) := by
  intro name i
  have hmem := h.notMem hnew
  rw [names_push, List.getElem?_append, length_names]
  simp only [Register.push, Std.HashMap.getElem?_insert, beq_iff_eq]
  by_cases hname : nameOf x = name
  · subst hname
    rw [if_pos rfl]
    split_ifs with hi
    · refine ⟨fun heq => ?_, fun heq => absurd (List.mem_of_getElem? heq) hmem⟩
      cases heq
      exact absurd hi (Nat.lt_irrefl _)
    · rw [List.getElem?_singleton]
      simp only [Option.some.injEq]
      split_ifs <;> simp <;> omega
  · rw [if_neg hname, h name i]
    split_ifs with hi
    · rfl
    · have hlen : (R.names nameOf).length ≤ i := by rw [length_names]; omega
      rw [List.getElem?_eq_none hlen, List.getElem?_singleton]
      split_ifs <;> simp [hname]

theorem enter (h : Coherent nameOf R) (x : α) : Coherent nameOf (R.enter nameOf x).2 := by
  unfold Register.enter
  split
  · exact h
  · exact h.push ‹_›

theorem names_enter (h : Coherent nameOf R) (x : α) : (R.enter nameOf x).2.names nameOf =
    if nameOf x ∈ R.names nameOf then R.names nameOf else R.names nameOf ++ [nameOf x] := by
  unfold Register.enter
  cases hx : R.positions[nameOf x]? with
  | some i => rw [if_pos (List.mem_of_getElem? ((h _ i).1 hx))]
  | none => rw [if_neg (h.notMem hx), names_push]

theorem getElem?_enter (h : Coherent nameOf R) (x : α) :
    ((R.enter nameOf x).2.names nameOf)[(R.enter nameOf x).1]? = some (nameOf x) := by
  unfold Register.enter
  cases hx : R.positions[nameOf x]? with
  | some i => exact (h _ i).1 hx
  | none =>
    rw [names_push, ← @length_names _ nameOf R]
    exact List.getElem?_concat_length

/-- **Map and entries stay inverse**, whatever is entered. -/
theorem enterAll (h : Coherent nameOf R) (xs : List α) :
    Coherent nameOf (R.enterAll nameOf xs).2 := by
  induction xs generalizing R with
  | nil => exact h
  | cons x xs ih => exact ih (h.enter x)

theorem findIdx?_eq (h : Coherent nameOf R) (name : String) :
    R.entries.findIdx? (nameOf · == name) = R.positions[name]? := by
  apply Option.ext
  intro i
  rw [h name i, Array.findIdx?_eq_some_iff_getElem]
  constructor
  · rintro ⟨hi, hname, -⟩
    simpa [names, hi] using hname
  · intro hi
    obtain ⟨hlt, hname⟩ := List.getElem?_eq_some_iff.1 hi
    rw [length_names] at hlt
    refine ⟨hlt, by simpa [names] using hname, fun j hj hfound => ?_⟩
    have hj' : (R.names nameOf)[j]? = some name := by
      simpa [names, Nat.lt_trans hj hlt] using hfound
    -- the map has one position for the name
    have heq := ((h name j).2 hj').symm.trans ((h name i).2 hi)
    cases heq
    exact Nat.lt_irrefl _ hj

/-! ### The order of coming -/

theorem prefix_enter (h : Coherent nameOf R) (x : α) :
    R.names nameOf <+: (R.enter nameOf x).2.names nameOf := by
  rw [h.names_enter]
  split_ifs
  · exact List.prefix_rfl
  · exact List.prefix_append _ _

theorem prefix_enterAll (h : Coherent nameOf R) (xs : List α) :
    R.names nameOf <+: (R.enterAll nameOf xs).2.names nameOf := by
  induction xs generalizing R with
  | nil => exact List.prefix_rfl
  | cons x xs ih => exact (h.prefix_enter x).trans (ih (h.enter x))

/-- **The names are those entered**, after those that were there, in the order of their first
coming. -/
theorem names_enterAll (h : Coherent nameOf R) (xs : List α) :
    (R.enterAll nameOf xs).2.names nameOf = (R.names nameOf ++ xs.map nameOf).eraseDups := by
  induction xs generalizing R with
  | nil => simp [Register.enterAll, eraseDups_of_nodup h.nodup]
  | cons x xs ih =>
    rw [enterAll_cons, ih (h.enter x), h.names_enter x]
    by_cases hmem : nameOf x ∈ R.names nameOf
    · -- the name comes again, and makes no difference
      simp [hmem, List.eraseDups_append, List.cons_removeAll]
    · simp [hmem]

/-- **The answer is the position of the name** among all that are entered. -/
theorem fst_enterAll (h : Coherent nameOf R) (xs : List α) :
    (R.enterAll nameOf xs).1 =
      xs.map fun x => ((R.enterAll nameOf xs).2.names nameOf).idxOf (nameOf x) := by
  induction xs generalizing R with
  | nil => rfl
  | cons x xs ih =>
    have h' := h.enter x
    rw [enterAll_cons, List.map_cons, ← ih h']
    -- the position stays that of the name, as names are only added
    obtain ⟨hi, hx⟩ := List.getElem?_eq_some_iff.1 (h.getElem?_enter x)
    have hfirst := List.prefix_iff_getElem?.1 (h'.prefix_enterAll xs) _ hi
    rw [hx] at hfirst
    obtain ⟨hlt, hname⟩ := List.getElem?_eq_some_iff.1 hfirst
    have hpos := (h'.enterAll xs).nodup.idxOf_getElem _ hlt
    rw [hname] at hpos
    rw [hpos]

end Coherent

end Register

end Recast
