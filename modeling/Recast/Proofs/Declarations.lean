import Mathlib.Data.List.Induction
import Recast.Proofs.Hierarchy
import Recast.Proofs.Register

/-!
# Declarations

Classes are declared one after another, while others already ask questions of the table and keep the
answers.  They may: a class that is there has all its bases there, so the way up from it never gets
to one that is declared later.

* `ClassTable.after` and `ClassTable.returned` : declarations, and the classes that they return;
* `ClassTable.register` : a new table kept as a register, where names are looked up in a map;
* `ClassTable.enterAll_register` : **the map does not matter**: it has the answers of the table;
* `ClassTable.chain_eq` : **the way up from a class stays the same**, whatever is declared later;
* `declarations_disturb_nothing` : names are unique, classes are numbered in the order of their
  first declaration, and nothing that is known changes.
-/

namespace Recast

/-- What is said when a class is declared. -/
structure Declaration where
  /-- The name of the class. -/
  name : String
  /-- The class that it derives from, the root class if there is none. -/
  base : Option ClassId
  /-- The capabilities that it declares itself. -/
  flags : ClassFlags

/-- What a table says of the class, if the name is new. -/
def Declaration.info (d : Declaration) : ClassInfo := ⟨d.name, some (d.base.getD .root), d.flags⟩

namespace ClassTable

/-! ### Declarations in order -/

/-- Make a declaration. -/
def make (T : ClassTable) (d : Declaration) : ClassId × ClassTable :=
  T.declare d.name d.base d.flags

/-- The table after some declarations. -/
def after (T : ClassTable) (ds : List Declaration) : ClassTable :=
  ds.foldl (fun T d => (T.make d).2) T

/-- What some declarations return. -/
def returned : ClassTable → List Declaration → List ClassId
  | _, [] => []
  | T, d :: ds => (T.make d).1 :: returned (T.make d).2 ds

/-- The names that are declared in a new table, each where it comes first.  The root class has got
its name before. -/
def firstNames (ds : List Declaration) : List String :=
  ("object" :: ds.map (·.name)).eraseDups

/-- A base is the root class, or has been returned by a declaration before. -/
def Based (ds : List Declaration) : Prop :=
  ∀ n, (hn : n < ds.length) → ∀ b ∈ ds[n].base, b = .root ∨ b ∈ new.returned (ds.take n)

instance (ds : List Declaration) : Decidable (Based ds) :=
  inferInstanceAs (Decidable (∀ n, (hn : n < ds.length) →
    ∀ b ∈ ds[n].base, b = .root ∨ b ∈ new.returned (ds.take n)))

/-- A new table, kept as a register of names. -/
def register : Register ClassInfo :=
  Register.push ClassInfo.name .empty ⟨"object", none, .empty⟩

variable {T T' : ClassTable} {d : Declaration} {ds es : List Declaration} {a b c : ClassId}
  {name : String} {R : Register ClassInfo}

theorem after_append : T.after (ds ++ es) = (T.after ds).after es := List.foldl_append

theorem returned_append : T.returned (ds ++ es) = T.returned ds ++ (T.after ds).returned es := by
  induction ds generalizing T with
  | nil => rfl
  | cons d ds ih => exact congrArg _ ih

theorem Based.declared (h : Based ds) :
    Declared ((new.returned ds).reverse ++ [.root]) (new.after ds) := by
  induction ds using List.reverseRecOn with
  | nil => exact .new
  | append_singleton ds d ih =>
    have hbefore : Based ds := by
      intro n hn b hb
      have hlt : n < (ds ++ [d]).length := by
        rw [List.length_append]
        exact Nat.lt_add_right _ hn
      have htake : (ds ++ [d]).take n = ds.take n :=
        List.take_append_of_le_length (Nat.le_of_lt hn)
      rw [← htake]
      exact h n hlt b (by rwa [List.getElem_append_left hn])
    have hlast : ∀ b, d.base = some b → b ∈ (new.returned ds).reverse ++ [.root] := by
      intro b hb
      have hlt : ds.length < (ds ++ [d]).length := by simp
      have hmem := h ds.length hlt b (by simpa using hb)
      rw [List.take_left] at hmem
      simpa [or_comm] using hmem
    rw [returned_append, after_append, List.reverse_append]
    exact (ih hbefore).declare d.name d.base d.flags hlast

/-! ### The map of names -/

theorem coherent_register : Register.Coherent ClassInfo.name register :=
  Register.coherent_empty.push Std.HashMap.getElem?_empty

/-- A declaration finds what is entered in the register, or appends it to both. -/
theorem enter_eq (h : Register.Coherent ClassInfo.name R) (hR : R.entries = T.classes)
    (d : Declaration) : (R.enter ClassInfo.name d.info).1 = (T.make d).1 ∧
      (R.enter ClassInfo.name d.info).2.entries = (T.make d).2.classes := by
  have hlookup : T.lookup? d.name = R.positions[d.name]? := by
    rw [lookup?, ← hR, h.findIdx?_eq]
  have hname : d.info.name = d.name := rfl
  unfold Register.enter make declare
  rw [hname, hlookup]
  cases R.positions[d.name]? with
  | some c => exact ⟨rfl, hR⟩
  | none => exact ⟨by simp [hR], by simp [Register.push, hR, Declaration.info]⟩

/-- **Declarations agree with a register**: they return the same classes, and lead to the same
entries. -/
theorem enterAll_eq (h : Register.Coherent ClassInfo.name R) (hR : R.entries = T.classes)
    (ds : List Declaration) :
    (R.enterAll ClassInfo.name (ds.map Declaration.info)).1 = T.returned ds ∧
      (R.enterAll ClassInfo.name (ds.map Declaration.info)).2.entries = (T.after ds).classes := by
  induction ds generalizing T R with
  | nil => exact ⟨rfl, hR⟩
  | cons d ds ih =>
    obtain ⟨hfirst, hentries⟩ := enter_eq h hR d
    obtain ⟨hrest, hlast⟩ := ih (h.enter d.info) hentries
    rw [List.map_cons, Register.enterAll_cons]
    exact ⟨by rw [hfirst, hrest, returned], hlast⟩

/-- **The map of names does not matter.**  It has the answers that a search of the table has. -/
theorem enterAll_register (ds : List Declaration) :
    (register.enterAll ClassInfo.name (ds.map Declaration.info)).1 = new.returned ds ∧
      (register.enterAll ClassInfo.name (ds.map Declaration.info)).2.entries =
        (new.after ds).classes ∧
      ∀ name, (register.enterAll ClassInfo.name (ds.map Declaration.info)).2.positions[name]? =
        (new.after ds).lookup? name := by
  obtain ⟨hreturned, hentries⟩ := enterAll_eq (T := new) coherent_register rfl ds
  refine ⟨hreturned, hentries, fun name => ?_⟩
  rw [lookup?, ← hentries, (coherent_register.enterAll _).findIdx?_eq]

theorem names_after (ds : List Declaration) :
    (new.after ds).classes.toList.map (·.name) = firstNames ds := by
  have h := coherent_register.names_enterAll (ds.map Declaration.info)
  rw [Register.names, (enterAll_register ds).2.1, List.map_map] at h
  exact h

theorem nodup_firstNames (ds : List Declaration) : (firstNames ds).Nodup := by
  have h := (coherent_register.enterAll (ds.map Declaration.info)).nodup
  rwa [Register.names, (enterAll_register ds).2.1, names_after] at h

theorem returned_eq (ds : List Declaration) :
    new.returned ds = ds.map fun d => (firstNames ds).idxOf d.name := by
  have h := coherent_register.fst_enterAll (ds.map Declaration.info)
  rw [Register.names, (enterAll_register ds).1, (enterAll_register ds).2.1, names_after,
    List.map_map] at h
  exact h

/-- **Names and classes determine each other.** -/
theorem lookup?_after (ds : List Declaration) : (new.after ds).lookup? name = some c ↔
    ∃ info, (new.after ds).get? c = some info ∧ info.name = name := by
  obtain ⟨-, hentries, hpositions⟩ := enterAll_register ds
  rw [← hpositions, coherent_register.enterAll _ name c, Register.names, hentries,
    List.getElem?_map, Option.map_eq_some_iff, get?, Array.getElem?_toList]

theorem mem_firstNames : name ∈ firstNames ds ↔ ∃ c, (new.after ds).lookup? name = some c := by
  simp [lookup?_after, ← names_after, List.mem_iff_getElem?, get?]

theorem make_of_mem (h : d.name ∈ firstNames ds) :
    (new.after ds).make d = ((firstNames ds).idxOf d.name, new.after ds) := by
  obtain ⟨c, hc⟩ := mem_firstNames.1 h
  obtain ⟨info, hinfo, hname⟩ := (lookup?_after ds).1 hc
  have hpos : (firstNames ds)[c]? = some d.name := by
    rw [← names_after, List.getElem?_map, Array.getElem?_toList]
    exact Option.map_eq_some_iff.2 ⟨info, hinfo, hname⟩
  obtain ⟨hlt, heq⟩ := List.getElem?_eq_some_iff.1 hpos
  rw [make, declare, hc, ← heq, (nodup_firstNames ds).idxOf_getElem]

theorem make_of_notMem (h : d.name ∉ firstNames ds) : (new.after ds).make d =
    ((new.after ds).classes.size, ⟨(new.after ds).classes.push d.info⟩) := by
  rw [mem_firstNames, not_exists] at h
  rw [make, declare, Option.eq_none_iff_forall_ne_some.2 h]
  rfl

/-- **Classes are numbered one after another**, in the order of their first declaration. -/
theorem eraseDups_returned (ds : List Declaration) :
    (.root :: new.returned ds).eraseDups = List.range (new.after ds).classes.size := by
  induction ds using List.reverseRecOn with
  | nil => rfl
  | append_singleton ds d ih =>
    have hmem : ∀ c, c ∈ ClassId.root :: new.returned ds ↔ c < (new.after ds).classes.size := by
      intro c
      rw [← List.mem_eraseDups, ih, List.mem_range]
    rw [returned_append, after_append, ← List.cons_append, List.eraseDups_append, ih]
    change _ ++ (List.removeAll [((new.after ds).make d).1] _).eraseDups =
      List.range ((new.after ds).make d).2.classes.size
    rcases (new.after ds).declare_cases d.name d.base d.flags with ⟨c, hc, heq⟩ | heq
    · -- the class has been returned before
      simp [make, heq, List.removeAll, hmem, hc]
    · simp [make, heq, List.removeAll, hmem, List.range_succ, List.eraseDups_cons]

/-! ### What is there stays as it is -/

/-- All classes of a table are in another one, with the same numbers. -/
def Keeps (T T' : ClassTable) : Prop := T.classes.toList <+: T'.classes.toList

theorem keeps_make (T : ClassTable) (d : Declaration) : T.Keeps (T.make d).2 := by
  unfold Keeps make
  rcases T.declare_cases d.name d.base d.flags with ⟨c, -, heq⟩ | heq
  · simp [heq]
  · rw [heq, Array.toList_push]
    exact List.prefix_append _ _

theorem keeps_after (T : ClassTable) (ds : List Declaration) : T.Keeps (T.after ds) := by
  induction ds generalizing T with
  | nil => exact List.prefix_rfl
  | cons d ds ih => exact (T.keeps_make d).trans (ih (T.make d).2)

theorem Keeps.get?_eq_some {info : ClassInfo} (h : T.Keeps T') (hc : T.get? c = some info) :
    T'.get? c = some info := by
  obtain ⟨rest, hrest⟩ := h
  have hlt : c < T.classes.toList.length := get?_eq_some_lt hc
  rw [get?, ← Array.getElem?_toList, ← hrest, List.getElem?_append_left hlt,
    Array.getElem?_toList]
  exact hc

theorem Keeps.size_le (h : T.Keeps T') : T.classes.size ≤ T'.classes.size := by
  simpa using h.length_le

theorem Keeps.get?_eq (h : T.Keeps T') (hc : T.get? c ≠ none) : T'.get? c = T.get? c := by
  obtain ⟨info, hinfo⟩ := Option.ne_none_iff_exists'.1 hc
  rw [hinfo, h.get?_eq_some hinfo]

section Rooted

variable (hT : T.Rooted)

include hT

theorem Rooted.get?_base_ne_none (hb : T.base? c = some b) : T.get? b ≠ none := by
  obtain ⟨info, hinfo, -⟩ := Option.bind_eq_some_iff.1 hb
  have hlt := Nat.lt_trans (hT.lt_of_extends hb) (get?_eq_some_lt hinfo)
  rw [get?, Array.getElem?_eq_getElem hlt]
  exact Option.some_ne_none _

theorem Rooted.get?_ne_none_of_derives (hc : T.get? c ≠ none) (h : T.derives c a = true) :
    T.get? a ≠ none := by
  induction (derives_iff hT).1 h with
  | refl => exact hc
  | tail _ hstep _ => exact hT.get?_base_ne_none hstep

/-- The way up does not get longer where it has come to its end. -/
theorem Rooted.ancestors_eq {n m : Nat} (h : T.EndsWithin n c) (hnm : n ≤ m) :
    T.ancestors m c = T.ancestors n c := by
  induction n generalizing c m with
  | zero =>
    have hb := hT.endsWithin_zero h
    cases m with
    | zero => rfl
    | succ m => simp [ancestors, hb]
  | succ n ih =>
    obtain ⟨m, rfl⟩ : ∃ k, m = k + 1 := ⟨m - 1, by omega⟩
    cases hb : T.base? c with
    | none => simp [ancestors, hb]
    | some b =>
      have hrest := ih (hT.endsWithin_base h hb) (Nat.le_of_succ_le_succ hnm)
      simp [ancestors, hb, hrest]

/-- The way up leads through classes that are there, and these have the bases they had. -/
theorem ancestors_of_keeps (h : T.Keeps T') (n : Nat) (hc : T.get? c ≠ none) :
    T'.ancestors n c = T.ancestors n c := by
  induction n generalizing c with
  | zero => rfl
  | succ n ih =>
    have hbase : T'.base? c = T.base? c := by rw [base?, base?, h.get?_eq hc]
    cases hb : T.base? c with
    | none => simp [ancestors, hbase, hb]
    | some b =>
      have hrest := ih (hT.get?_base_ne_none hb)
      simp [ancestors, hbase, hb, hrest]

/-- **The way up from a class stays the same**, whatever else a table gets. -/
theorem chain_eq (h : T.Keeps T') (hc : T.get? c ≠ none) : T'.chain c = T.chain c := by
  rw [chain, chain, ancestors_of_keeps hT h _ hc,
    hT.ancestors_eq (endsWithin_size c) h.size_le]

theorem derives_eq (h : T.Keeps T') (hc : T.get? c ≠ none) (a : ClassId) :
    T'.derives c a = T.derives c a := by
  rw [derives, derives, chain_eq hT h hc]

theorem hasFlags_eq (h : T.Keeps T') (hc : T.get? c ≠ none) (flags : ClassFlags) :
    T'.hasFlags c flags = T.hasFlags c flags := by
  rw [Bool.eq_iff_iff, hasFlags_iff, hasFlags_iff]
  refine exists_congr fun a => exists_congr fun info => ?_
  rw [derives_eq hT h hc]
  refine and_congr_right fun ha => ?_
  rw [h.get?_eq (hT.get?_ne_none_of_derives hc ha)]

theorem assignable_eq (h : T.Keeps T') {s t : Rep} (hs : ∀ c, s = .object c → T.get? c ≠ none) :
    T'.assignable s t = T.assignable s t := by
  have hderives : ∀ a b, s = .object a → T'.derives a b = T.derives a b := by
    intro a b ha
    exact derives_eq hT h (hs a ha) b
  have hflags : ∀ a, s = .object a → T'.hasFlags a .callable = T.hasFlags a .callable := by
    intro a ha
    exact hasFlags_eq hT h (hs a ha) .callable
  rw [Bool.eq_iff_iff, assignable_iff, assignable_iff]
  refine or_congr_right (or_congr_right (or_congr ?_ ?_))
  · refine exists_congr fun a => exists_congr fun b => and_congr_right fun ha => ?_
    rw [hderives a b ha]
  · refine exists_congr fun a => and_congr_right fun ha => ?_
    rw [hflags a ha]

end Rooted

end ClassTable

open ClassTable

/-- **Declarations disturb nothing.**  After any declarations in a new table, under bases that have
been returned before:

* classes are numbered one after another, in the order of their first declaration, and each
  declaration returns the number of its name.  A name that is known keeps its class, and nothing
  changes; the root class has its name from the start;
* a name leads to a class exactly if the class carries that name, so names are unique.  A map that
  is written beside the table has the same answers;
* whatever is declared after that, what the table says of a class stays, and so do the classes that
  it derives from, the capabilities that it has and what its instances are assignable to. -/
theorem declarations_disturb_nothing {ds : List Declaration} {T : ClassTable} (hds : Based ds)
    (hT : T = new.after ds) :
    (T.classes.toList.map (·.name) = firstNames ds ∧
      new.returned ds = ds.map (fun d => (firstNames ds).idxOf d.name) ∧
      (.root :: new.returned ds).eraseDups = List.range T.classes.size) ∧
    ((∀ d, d.name ∈ firstNames ds → T.make d = ((firstNames ds).idxOf d.name, T)) ∧
      (∀ d, d.name ∉ firstNames ds →
        T.make d = (T.classes.size, ⟨T.classes.push d.info⟩)) ∧
      T.lookup? "object" = some .root) ∧
    ((∀ name c, T.lookup? name = some c ↔ ∃ info, T.get? c = some info ∧ info.name = name) ∧
      (∀ a b infoA infoB, T.get? a = some infoA → T.get? b = some infoB →
        infoA.name = infoB.name → a = b) ∧
      ∃ R, register.enterAll ClassInfo.name (ds.map Declaration.info) = (new.returned ds, R) ∧
        R.entries = T.classes ∧ ∀ name, R.positions[name]? = T.lookup? name) ∧
    ∀ later T', T' = T.after later →
      (∀ c, T.get? c ≠ none → T'.get? c = T.get? c ∧ (∀ a, T'.derives c a = T.derives c a) ∧
        ∀ flags, T'.hasFlags c flags = T.hasFlags c flags) ∧
      ∀ s t, (∀ c, s = .object c → T.get? c ≠ none) → T'.assignable s t = T.assignable s t := by
  subst hT
  have hrooted := hds.declared.rooted.1
  have hobject : ((firstNames ds)[0]?) = some "object" := by
    rw [firstNames, List.eraseDups_cons]
    rfl
  refine ⟨⟨names_after ds, returned_eq ds, eraseDups_returned ds⟩,
    ⟨fun d => make_of_mem, fun d => make_of_notMem, ?_⟩,
    ⟨fun name c => lookup?_after ds, fun a b infoA infoB ha hb hname => ?_, ?_⟩,
    fun later T' hT' => ?_⟩
  · rw [← names_after, List.getElem?_map, Option.map_eq_some_iff] at hobject
    obtain ⟨info, hinfo, hname⟩ := hobject
    exact (lookup?_after ds).2 ⟨info, by rwa [get?, ← Array.getElem?_toList], hname⟩
  · -- both are what the name leads to
    have hleft := (lookup?_after ds).2 ⟨infoA, ha, hname⟩
    have hright := (lookup?_after ds).2 ⟨infoB, hb, rfl⟩
    exact Option.some.inj (hleft.symm.trans hright)
  · obtain ⟨hreturned, hentries, hpositions⟩ := enterAll_register ds
    exact ⟨_, Prod.ext hreturned rfl, hentries, hpositions⟩
  · subst hT'
    have hkeeps := (new.after ds).keeps_after later
    exact ⟨fun c hc => ⟨hkeeps.get?_eq hc, derives_eq hrooted hkeeps hc,
      hasFlags_eq hrooted hkeeps hc⟩, fun s t hs => assignable_eq hrooted hkeeps hs⟩

/-- A dog is declared under an animal.  Neither a second declaration of the animal, under the dog,
nor a class under one that nobody has declared makes the animal callable. -/
theorem declarations_disturb_nothing_dog : ∃ (ds later : List Declaration) (T T' : ClassTable),
    Based ds ∧ T = new.after ds ∧ T' = T.after later ∧
    new.returned ds = [0, 1, 2, 1] ∧ T.returned later = [3, 1] ∧
    T'.get? 1 = some ⟨"Animal", some .root, .empty⟩ ∧
    T'.assignable (.object 2) (.object 1) = true ∧
    T'.assignable (.object 1) .callable = false := by
  let ds : List Declaration := [⟨"object", none, .callable⟩, ⟨"Animal", none, .empty⟩,
    ⟨"Dog", some 1, .callable⟩, ⟨"Animal", some 2, .callable⟩]
  let later : List Declaration := [⟨"Cat", some 7, .callable⟩, ⟨"Animal", some 3, .callable⟩]
  have hds : Based ds := by decide +kernel
  obtain ⟨-, -, -, hframe⟩ := declarations_disturb_nothing hds rfl
  obtain ⟨hclasses, hassignable⟩ := hframe later _ rfl
  have hanimal : (new.after ds).get? 1 = some ⟨"Animal", some .root, .empty⟩ := by decide +kernel
  have hdog : (new.after ds).get? 2 ≠ none := by decide +kernel
  refine ⟨ds, later, _, _, hds, rfl, rfl, by decide +kernel, by decide +kernel, ?_, ?_, ?_⟩
  · rw [(hclasses 1 (by simp [hanimal])).1, hanimal]
  · rw [hassignable _ _ (by rintro c ⟨⟩; exact hdog)]
    decide +kernel
  · rw [hassignable _ _ (by rintro c ⟨⟩; simp [hanimal])]
    decide +kernel

end Recast
