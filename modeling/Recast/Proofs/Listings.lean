import Mathlib
import Recast.Catalog.Standard
import Recast.Code.Listing
import Recast.Proofs.QuotedText

/-!
# A listing tells all of the code

An instruction is written as a mnemonic and an operand.  No mnemonic starts another one, so the
text of an instruction tells its mnemonic, and with it the form of the operand; and each form of
operand is written so that it can be told from its text.  An operand never ends a line, whatever
an interned text holds, so that a listing has its instructions one on each line.

* `Form.Writes` : how the operands of one form are written;
* `Instr.exists_form` : every instruction has a form, and is written by it;
* `Form.Writes.unique` : an operand is told by its text;
* `listing_faithful` : **two codes over the same texts have the same listing only if they have the
  same instructions, and a listing has one numbered line for each instruction**.
-/

namespace Recast

open Lines (OneLine)

/-! ### Operands that are written apart -/

theorem oneLine_natRepr (n : Nat) : OneLine n.repr.toList := by
  rw [Nat.toList_repr]
  exact oneLine_toDigits (by omega) (by omega)

theorem oneLine_intRepr (k : Int) : OneLine k.repr.toList := by
  rw [Int.repr_eq_if]
  split
  · exact oneLine_natRepr _
  · rw [String.toList_append, Lines.oneLine_append]
    exact ⟨by decide, oneLine_natRepr _⟩

theorem Label.index_inj {l l' : Label} : l.index = l'.index ↔ l = l' := by
  cases l
  cases l'
  simp

theorem blank_notMem_natRepr (n : Nat) : ' ' ∉ n.repr.toList := by
  rw [Nat.toList_repr]
  intro h
  simpa using Nat.isDigit_of_mem_toDigits (by omega) (by omega) h

namespace Rep

/-- The representations that name no class. -/
def classless : List Rep :=
  [.void, .bool, .int32, .int64, .float32, .float64, .char, .text, .mutText, .number, .value,
    .key, .array, .alias, .resource, .callable, .bytes, .nullable .bool, .nullable .int32,
    .nullable .int64, .nullable .float32, .nullable .float64, .nullable .char, .nullable .number,
    .nullable .key]

theorem mem_classless_or (r : Rep) : r ∈ classless ∨ ∃ c, r = .object c := by
  cases r with
  | object c => exact .inr ⟨c, rfl⟩
  | nullable p => cases p <;> exact .inl (by decide)
  | _ => exact .inl (by decide)

/-- No two signatures or representations are written alike. -/
theorem nodup_written :
    (Op.all.map (fun op => op.standard.toString) ++ classless.map toString).Nodup := by
  decide +kernel

theorem toString_ne_object {r : Rep} (hr : r ∈ classless) (c : ClassId) :
    r.toString ≠ (Rep.object c).toString := by
  have happart : ∀ r ∈ classless, ¬ "object#".toList <+: r.toString.toList := by decide +kernel
  intro h
  refine happart r hr ?_
  rw [h, toString, String.toList_append]
  exact List.prefix_append _ _

theorem toString_inj {r t : Rep} : r.toString = t.toString ↔ r = t := by
  refine ⟨fun h => ?_, fun h => by rw [h]⟩
  rcases mem_classless_or r with hr | ⟨c, rfl⟩ <;> rcases mem_classless_or t with ht | ⟨d, rfl⟩
  · exact List.inj_on_of_nodup_map (List.nodup_append.1 nodup_written).2.1 hr ht h
  · exact absurd h (toString_ne_object hr d)
  · exact absurd h.symm (toString_ne_object ht c)
  · rw [toString, toString, String.append_right_inj, Nat.repr_inj] at h
    rw [h]

theorem oneLine_toString (r : Rep) : OneLine r.toString.toList := by
  rcases mem_classless_or r with hr | ⟨c, rfl⟩
  · have hbasic : ∀ r ∈ classless, r.toString.toList.all Lines.isBasic := by decide +kernel
    exact Lines.oneLine_of_all_isBasic (hbasic r hr)
  · rw [toString, String.toList_append, Lines.oneLine_append]
    exact ⟨by decide, oneLine_natRepr c⟩

end Rep

theorem Param.oneLine_toString (p : Param) : OneLine p.toString.toList := by
  cases p with
  | value r => exact r.oneLine_toString
  | context => decide
  | typeHandle => decide

theorem Method.oneLine_toString {m : Method} (ho : OneLine m.owner.toList)
    (hn : OneLine m.name.toList) : OneLine m.toString.toList := by
  have hparams : OneLine (", ".toList.intercalate ((m.params.map Param.toString).map
      String.toList)) := by
    refine Lines.oneLine_intercalate (by decide) ?_
    simpa using fun p _ => p.oneLine_toString
  have hreturns := m.returns.oneLine_toString
  simp only [Method.toString, String.toList_append, String.toList_intercalate,
    Lines.oneLine_append, ho, hn, hparams, hreturns]
  decide

namespace Op

theorem oneLine_standard (op : Op) : OneLine op.standard.toString.toList := by
  have hbasic : ∀ op ∈ all, op.standard.owner.toList.all Lines.isBasic ∧
      op.standard.name.toList.all Lines.isBasic := by decide +kernel
  obtain ⟨ho, hn⟩ := hbasic op op.mem_all
  exact Method.oneLine_toString (Lines.oneLine_of_all_isBasic ho) (Lines.oneLine_of_all_isBasic hn)

theorem standard_toString_inj {op op' : Op} :
    op.standard.toString = op'.standard.toString ↔ op = op' := by
  refine ⟨fun h => ?_, fun h => by rw [h]⟩
  exact List.inj_on_of_nodup_map (List.nodup_append.1 Rep.nodup_written).1 op.mem_all op'.mem_all h

theorem standard_toString_ne (op : Op) (p : Payload) :
    op.standard.toString ≠ (Rep.nullable p).toString := by
  have hp : Rep.nullable p ∈ Rep.classless := by cases p <;> decide
  exact (List.nodup_append.1 Rep.nodup_written).2.2 _ (List.mem_map_of_mem op.mem_all) _
    (List.mem_map_of_mem hp)

end Op

/-! ### Floats -/

namespace Decimal

variable (d : Decimal)

theorem oneLine_digitChars : OneLine d.digitChars := oneLine_toDigits (by omega) (by omega)

theorem oneLine_positional : OneLine d.positional := by
  have hds := d.oneLine_digitChars
  have hzeros (n : Nat) : OneLine (List.replicate n '0') := Lines.oneLine_replicate n (by decide)
  simp only [positional]
  split_ifs
  · simp [hds, hzeros, Lines.terminators]
  · simp [hds.sublist (List.take_sublist _ _), hds.sublist (List.drop_sublist _ _),
      Lines.terminators]
  · simp [hds, hzeros, Lines.terminators]

theorem oneLine_scientific : OneLine d.scientific := by
  have hds := d.oneLine_digitChars
  have hpower : OneLine ('e' :: (toString (d.magnitude - 1)).toList) :=
    Lines.oneLine_cons.2 ⟨by decide, oneLine_intRepr _⟩
  unfold scientific
  split
  · exact hpower
  next c hc =>
    rw [hc] at hds
    exact Lines.oneLine_cons.2 ⟨(Lines.oneLine_cons.1 hds).1, hpower⟩
  next c cs _ hc =>
    rw [hc] at hds
    obtain ⟨hfirst, hrest⟩ := Lines.oneLine_cons.1 hds
    exact Lines.oneLine_cons.2 ⟨hfirst, Lines.oneLine_cons.2 ⟨by decide,
      Lines.oneLine_append.2 ⟨hrest, hpower⟩⟩⟩

theorem oneLine_write : OneLine d.write := by
  unfold write
  split
  · exact d.oneLine_positional
  · exact d.oneLine_scientific

end Decimal

theorem Binary.Format.oneLine_write (F : Format) (x : Decoded) : OneLine (F.write x) := by
  cases x with
  | nan => exact (by decide : OneLine ['N', 'a', 'N'])
  | infinite negative =>
    cases negative with
    | true => exact (by decide : OneLine ['-', 'i', 'n', 'f'])
    | false => exact (by decide : OneLine ['i', 'n', 'f'])
  | finite negative m e =>
    have hmagnitude (b : Bool) : OneLine (if m = 0 then ['0', '.', '0']
        else (Decimal.shortest (.ofDyadic m e b)).write) := by
      split
      · decide
      · exact Decimal.oneLine_write _
    unfold write
    cases negative with
    | true => exact Lines.oneLine_cons.2 ⟨by decide, hmagnitude _⟩
    | false => exact hmagnitude _

/-! ### Forms of instructions -/

/-- The operand that goes with a mnemonic, and the instruction that is made of it. -/
inductive Form where
  /-- There is none. -/
  | plain (i : Instr)
  /-- A 32-bit integer. -/
  | int32
  /-- A 64-bit integer. -/
  | int64
  /-- A 32-bit float. -/
  | float32
  /-- A 64-bit float. -/
  | float64
  /-- An interned text. -/
  | text
  /-- The number of a local or an argument. -/
  | number (make : Nat → Instr)
  /-- A class, or none. -/
  | cls
  /-- A member. -/
  | member (make : Op → Instr)
  /-- What is made: an instance by its constructor, or a nullable. -/
  | made
  /-- A routine of the program, and whether it returns a value. -/
  | routine
  /-- A representation. -/
  | rep (make : Rep → Instr)
  /-- A nullable. -/
  | nullable (make : Payload → Instr)
  /-- A label that is branched to. -/
  | target (make : Label → Instr)
  /-- A label that is placed. -/
  | mark

/-- The mnemonics of all instructions, up to where the operand starts. -/
def Instr.forms : List (String × Form) :=
  [("nop", .plain .nop), ("pop", .plain .pop), ("dup", .plain .dup), ("ldnull", .plain .ldNull),
    ("ldc.i4 ", .int32), ("ldc.i8 ", .int64), ("ldc.r4 ", .float32), ("ldc.r8 ", .float64),
    ("ldstr ", .text), ("ldloc ", .number .ldLoc), ("ldloca ", .number .ldLocA),
    ("stloc ", .number .stLoc), ("ldarg ", .number .ldArg), ("ldarga ", .number .ldArgA),
    ("ldctx", .plain .ldContext), ("ldtoken ", .cls), ("conv.i4", .plain .convI4),
    ("conv.i8", .plain .convI8), ("conv.r4", .plain .convR4), ("conv.r8", .plain .convR8),
    ("ceq", .plain .ceq), ("cgt.un", .plain .cgtUn), ("call ", .member .call),
    ("callvirt ", .member .callVirt), ("newobj ", .made), ("invoke #", .routine),
    ("box ", .rep .box), ("castclass ", .rep .castClass), ("isinst ", .rep .isInst),
    ("has_value ", .nullable .hasValue), ("get_value ", .nullable .getValue),
    ("br ", .target .br), ("brfalse ", .target .brFalse), ("L", .mark), ("ret", .plain .ret)]

/-- How the operand of an instruction of a form is written, over given texts. -/
inductive Form.Writes (texts : Array String) : Form → String → Instr → Prop
  | plain (i : Instr) : Writes texts (.plain i) "" i
  | int32 (k : Int32) : Writes texts .int32 k.toInt.repr (.ldcI4 k)
  | int64 (k : Int64) : Writes texts .int64 k.toInt.repr (.ldcI8 k)
  | float32 (x : Binary32) : Writes texts .float32 x.toString (.ldcR4 x)
  | float64 (x : Binary64) : Writes texts .float64 x.toString (.ldcR8 x)
  | quoted {n : Nat} {s : String} (h : texts[n]? = some s) :
    Writes texts .text (.ofList (Quoted.encode s.toList)) (.ldStr n)
  | unquoted {n : Nat} (h : texts[n]? = none) : Writes texts .text ("#" ++ n.repr) (.ldStr n)
  | number (make : Nat → Instr) (n : Nat) : Writes texts (.number make) n.repr (make n)
  | cls (c : ClassId) : Writes texts .cls ("class#" ++ c.repr) (.ldTypeHandle (some c))
  | noClass : Writes texts .cls "<global>" (.ldTypeHandle none)
  | member (make : Op → Instr) (op : Op) :
    Writes texts (.member make) op.standard.toString (make op)
  | instance (op : Op) : Writes texts .made op.standard.toString (.newObj op)
  | wrapped (p : Payload) : Writes texts .made (Rep.nullable p).toString (.newNullable p)
  | routine (n : Nat) (returnsValue : Bool) :
    Writes texts .routine (n.repr ++ if returnsValue then " (true)" else " (false)")
      (.invoke n returnsValue)
  | rep (make : Rep → Instr) (r : Rep) : Writes texts (.rep make) r.toString (make r)
  | nullable (make : Payload → Instr) (p : Payload) :
    Writes texts (.nullable make) (Rep.nullable p).toString (make p)
  | target (make : Label → Instr) (l : Label) : Writes texts (.target make) l.toString (make l)
  | mark (l : Label) : Writes texts .mark (l.index.repr ++ ":") (.mark l)

namespace Instr

/-- The instruction pushes a float. -/
def loadsFloat : Instr → Bool
  | ldcR4 _ | ldcR8 _ => true
  | _ => false

variable {texts : Array String}

/-- Every instruction has a form, and is written by it. -/
theorem exists_form (texts : Array String) (i : Instr) :
    ∃ m f t, (m, f) ∈ forms ∧ f.Writes texts t i ∧ Code.showInstr .standard texts i = m ++ t := by
  cases i with
  | nop => exact ⟨"nop", .plain .nop, _, by simp [forms], .plain _, rfl⟩
  | pop => exact ⟨"pop", .plain .pop, _, by simp [forms], .plain _, rfl⟩
  | dup => exact ⟨"dup", .plain .dup, _, by simp [forms], .plain _, rfl⟩
  | ldNull => exact ⟨"ldnull", .plain .ldNull, _, by simp [forms], .plain _, rfl⟩
  | ldcI4 k => exact ⟨"ldc.i4 ", .int32, _, by simp [forms], .int32 k, rfl⟩
  | ldcI8 k => exact ⟨"ldc.i8 ", .int64, _, by simp [forms], .int64 k, rfl⟩
  | ldcR4 x => exact ⟨"ldc.r4 ", .float32, _, by simp [forms], .float32 x, rfl⟩
  | ldcR8 x => exact ⟨"ldc.r8 ", .float64, _, by simp [forms], .float64 x, rfl⟩
  | ldStr n =>
    cases h : texts[n]? with
    | some s => exact ⟨"ldstr ", .text, _, by simp [forms], .quoted h, by simp [Code.showInstr, h]⟩
    | none =>
      refine ⟨"ldstr ", .text, _, by simp [forms], .unquoted h, ?_⟩
      rw [← String.append_assoc]
      simp [Code.showInstr, h, toString]
  | ldLoc n => exact ⟨"ldloc ", .number .ldLoc, _, by simp [forms], .number _ n, rfl⟩
  | ldLocA n => exact ⟨"ldloca ", .number .ldLocA, _, by simp [forms], .number _ n, rfl⟩
  | stLoc n => exact ⟨"stloc ", .number .stLoc, _, by simp [forms], .number _ n, rfl⟩
  | ldArg n => exact ⟨"ldarg ", .number .ldArg, _, by simp [forms], .number _ n, rfl⟩
  | ldArgA n => exact ⟨"ldarga ", .number .ldArgA, _, by simp [forms], .number _ n, rfl⟩
  | ldContext => exact ⟨"ldctx", .plain .ldContext, _, by simp [forms], .plain _, rfl⟩
  | ldTypeHandle c =>
    cases c with
    | some c =>
      refine ⟨"ldtoken ", .cls, _, by simp [forms], .cls c, ?_⟩
      rw [← String.append_assoc]
      rfl
    | none => exact ⟨"ldtoken ", .cls, _, by simp [forms], .noClass, rfl⟩
  | convI4 => exact ⟨"conv.i4", .plain .convI4, _, by simp [forms], .plain _, rfl⟩
  | convI8 => exact ⟨"conv.i8", .plain .convI8, _, by simp [forms], .plain _, rfl⟩
  | convR4 => exact ⟨"conv.r4", .plain .convR4, _, by simp [forms], .plain _, rfl⟩
  | convR8 => exact ⟨"conv.r8", .plain .convR8, _, by simp [forms], .plain _, rfl⟩
  | ceq => exact ⟨"ceq", .plain .ceq, _, by simp [forms], .plain _, rfl⟩
  | cgtUn => exact ⟨"cgt.un", .plain .cgtUn, _, by simp [forms], .plain _, rfl⟩
  | call op => exact ⟨"call ", .member .call, _, by simp [forms], .member _ op, rfl⟩
  | callVirt op => exact ⟨"callvirt ", .member .callVirt, _, by simp [forms], .member _ op, rfl⟩
  | newObj op => exact ⟨"newobj ", .made, _, by simp [forms], .instance op, rfl⟩
  | invoke n b =>
    refine ⟨"invoke #", .routine, _, by simp [forms], .routine n b, ?_⟩
    rw [← String.append_assoc]
    rfl
  | box r => exact ⟨"box ", .rep .box, _, by simp [forms], .rep _ r, rfl⟩
  | castClass r => exact ⟨"castclass ", .rep .castClass, _, by simp [forms], .rep _ r, rfl⟩
  | isInst r => exact ⟨"isinst ", .rep .isInst, _, by simp [forms], .rep _ r, rfl⟩
  | newNullable p => exact ⟨"newobj ", .made, _, by simp [forms], .wrapped p, rfl⟩
  | hasValue p => exact ⟨"has_value ", .nullable .hasValue, _, by simp [forms], .nullable _ p, rfl⟩
  | getValue p => exact ⟨"get_value ", .nullable .getValue, _, by simp [forms], .nullable _ p, rfl⟩
  | br l => exact ⟨"br ", .target .br, _, by simp [forms], .target _ l, rfl⟩
  | brFalse l => exact ⟨"brfalse ", .target .brFalse, _, by simp [forms], .target _ l, rfl⟩
  | mark l =>
    refine ⟨"L", .mark, _, by simp [forms], .mark l, ?_⟩
    rw [← String.append_assoc]
    rfl
  | ret => exact ⟨"ret", .plain .ret, _, by simp [forms], .plain _, rfl⟩

/-- Neither text starts the other one. -/
def Apart (m m' : String) : Prop := ¬ m.toList <+: m'.toList ∧ ¬ m'.toList <+: m.toList

instance : DecidableRel Apart := fun m m' =>
  inferInstanceAs (Decidable (¬ m.toList <+: m'.toList ∧ ¬ m'.toList <+: m.toList))

instance : Std.Symm fun x y : String × Form => Apart x.1 y.1 := ⟨fun _ _ h => h.symm⟩

/-- No mnemonic starts another one. -/
theorem forms_apart : forms.Pairwise fun x y => Apart x.1 y.1 := by
  have hmnemonics : (forms.map Prod.fst).Pairwise Apart := by decide +kernel
  exact List.pairwise_map.1 hmnemonics

/-- The text of an instruction tells its mnemonic, and with it the form and the operand. -/
theorem form_inj {x y : String × Form} (hx : x ∈ forms) (hy : y ∈ forms) {t u : String}
    (h : x.1 ++ t = y.1 ++ u) : x = y ∧ t = u := by
  have hlists : x.1.toList ++ t.toList = y.1.toList ++ u.toList := by
    rw [← String.toList_append, h, String.toList_append]
  have hprefix := List.prefix_or_prefix_of_prefix (List.prefix_append x.1.toList t.toList)
    (hlists ▸ List.prefix_append y.1.toList u.toList)
  have hxy : x = y := by
    by_contra hne
    exact hprefix.elim (forms_apart.forall hx hy hne).1 (forms_apart.forall hx hy hne).2
  subst hxy
  exact ⟨rfl, (String.append_right_inj _).1 h⟩

end Instr

namespace Form.Writes

variable {texts : Array String} {f : Form} {t u : String} {i j : Instr}

/-- A routine and whether it returns a value are told by how the operand is written: the number ends
at the only blank. -/
theorem routine_inj {n m : Nat} {b c : Bool}
    (h : (n.repr ++ if b then " (true)" else " (false)") =
      m.repr ++ if c then " (true)" else " (false)") : n = m ∧ b = c := by
  have hblank (n : Nat) (b : Bool) :
      (n.repr ++ if b then " (true)" else " (false)").toList =
        n.repr.toList ++ ' ' :: (if b then "(true)" else "(false)").toList := by
    cases b <;> simp
  have hlast (b : Bool) : ' ' ∉ (if b then "(true)" else "(false)").toList := by
    cases b <;> decide
  rw [← String.toList_inj, hblank, hblank,
    List.append_cons_inj_of_notMem (blank_notMem_natRepr n) (hlast b), String.toList_inj,
    Nat.repr_inj] at h
  obtain ⟨rfl, -, hb⟩ := h
  refine ⟨rfl, ?_⟩
  cases b <;> cases c <;> simp_all

/-- Over texts without duplicates, the operand of an instruction that loads no float is told by
how it is written. -/
theorem unique (hn : texts.toList.Nodup) (hi : f.Writes texts t i) (hj : f.Writes texts u j)
    (hf : i.loadsFloat = false) (hu : t = u) : i = j := by
  cases hi with
  | plain => cases hj; rfl
  | int32 k =>
    cases hj with
    | int32 k' => rw [Int32.toInt_inj.1 (Int.repr_inj.1 hu)]
  | int64 k =>
    cases hj with
    | int64 k' => rw [Int64.toInt_inj.1 (Int.repr_inj.1 hu)]
  | float32 => contradiction
  | float64 => contradiction
  | @quoted n s h =>
    cases hj with
    | @quoted m s' h' =>
      have hs : s = s' := String.toList_inj.1 (Quoted.encode_inj.1 (String.ofList_inj.1 hu))
      subst hs
      obtain ⟨hlt, -⟩ := Array.getElem?_eq_some_iff.1 h
      rw [← Array.getElem?_toList] at h h'
      rw [(List.getElem?_inj hlt hn).1 (h.trans h'.symm)]
    | unquoted h' =>
      rw [← String.toList_inj] at hu
      simp [Quoted.encode] at hu
  | @unquoted n h =>
    cases hj with
    | quoted h' =>
      rw [← String.toList_inj] at hu
      simp [Quoted.encode] at hu
    | @unquoted m h' => rw [Nat.repr_inj.1 ((String.append_right_inj _).1 hu)]
  | number make n =>
    cases hj with
    | number _ m => rw [Nat.repr_inj.1 hu]
  | cls c =>
    cases hj with
    | cls d => rw [Nat.repr_inj.1 ((String.append_right_inj _).1 hu)]
    | noClass =>
      rw [← String.toList_inj] at hu
      simp at hu
  | noClass =>
    cases hj with
    | cls d =>
      rw [← String.toList_inj] at hu
      simp at hu
    | noClass => rfl
  | member make op =>
    cases hj with
    | member _ op' => rw [Op.standard_toString_inj.1 hu]
  | «instance» op =>
    cases hj with
    | «instance» op' => rw [Op.standard_toString_inj.1 hu]
    | wrapped p => exact absurd hu (op.standard_toString_ne p)
  | wrapped p =>
    cases hj with
    | «instance» op => exact absurd hu.symm (op.standard_toString_ne p)
    | wrapped p' => rw [Rep.nullable.inj (Rep.toString_inj.1 hu)]
  | routine n b =>
    cases hj with
    | routine m b' =>
      obtain ⟨rfl, rfl⟩ := routine_inj hu
      rfl
  | rep make r =>
    cases hj with
    | rep _ r' => rw [Rep.toString_inj.1 hu]
  | nullable make p =>
    cases hj with
    | nullable _ p' => rw [Rep.nullable.inj (Rep.toString_inj.1 hu)]
  | target make l =>
    cases hj with
    | target _ l' => rw [Label.index_inj.1 (Nat.repr_inj.1 ((String.append_right_inj _).1 hu))]
  | mark l =>
    cases hj with
    | mark l' => rw [Label.index_inj.1 (Nat.repr_inj.1 ((String.append_left_inj _).1 hu))]

theorem oneLine (h : f.Writes texts t i) : OneLine t.toList := by
  cases h with
  | plain => exact Lines.oneLine_nil
  | int32 k => exact oneLine_intRepr _
  | int64 k => exact oneLine_intRepr _
  | float32 x => exact String.toList_ofList ▸ Binary.Format.oneLine_write _ _
  | float64 x => exact String.toList_ofList ▸ Binary.Format.oneLine_write _ _
  | quoted h => exact String.toList_ofList ▸ Quoted.oneLine_encode _
  | @unquoted n h =>
    rw [String.toList_append, Lines.oneLine_append]
    exact ⟨by decide, oneLine_natRepr n⟩
  | number make n => exact oneLine_natRepr n
  | cls c =>
    rw [String.toList_append, Lines.oneLine_append]
    exact ⟨by decide, oneLine_natRepr c⟩
  | noClass => decide
  | member make op => exact op.oneLine_standard
  | «instance» op => exact op.oneLine_standard
  | wrapped p => exact Rep.oneLine_toString _
  | routine n b =>
    rw [String.toList_append, Lines.oneLine_append]
    exact ⟨oneLine_natRepr n, by cases b <;> decide⟩
  | rep make r => exact r.oneLine_toString
  | nullable make p => exact Rep.oneLine_toString _
  | target make l =>
    rw [Label.toString, String.toList_append, Lines.oneLine_append]
    exact ⟨by decide, oneLine_natRepr _⟩
  | mark l =>
    rw [String.toList_append, Lines.oneLine_append]
    exact ⟨oneLine_natRepr _, by decide⟩

end Form.Writes

namespace Code

variable {texts : Array String} {i j : Instr}

theorem showInstr_inj (hn : texts.toList.Nodup) (hi : i.loadsFloat = false) :
    showInstr .standard texts i = showInstr .standard texts j ↔ i = j := by
  refine ⟨fun h => ?_, fun h => by rw [h]⟩
  obtain ⟨m, f, t, hf, ht, hshow⟩ := Instr.exists_form texts i
  obtain ⟨m', f', t', hf', ht', hshow'⟩ := Instr.exists_form texts j
  rw [hshow, hshow'] at h
  obtain ⟨hform, htext⟩ := Instr.form_inj hf hf' h
  obtain ⟨-, rfl⟩ := Prod.mk.inj hform
  exact ht.unique hn ht' hi htext

theorem oneLine_showInstr (texts : Array String) (i : Instr) :
    OneLine (showInstr .standard texts i).toList := by
  obtain ⟨m, f, t, hf, ht, hshow⟩ := Instr.exists_form texts i
  have hmnemonics : ∀ m ∈ Instr.forms.map Prod.fst, m.toList.all Lines.isBasic := by
    decide +kernel
  have hm := hmnemonics m (List.mem_map_of_mem hf)
  rw [hshow, String.toList_append, Lines.oneLine_append]
  exact ⟨Lines.oneLine_of_all_isBasic hm, ht.oneLine⟩

/-! ### Numbered lines -/

theorem lineNumber_eq (k : Nat) :
    lineNumber k = .ofList (List.replicate (4 - k.repr.length) '0') ++ k.repr := by
  rw [← String.toList_inj]
  simp [lineNumber, ← String.length_toList]

theorem oneLine_lineNumber (k : Nat) : OneLine (lineNumber k).toList := by
  rw [lineNumber_eq, String.toList_append, String.toList_ofList, Lines.oneLine_append]
  exact ⟨Lines.oneLine_replicate _ (by decide), oneLine_natRepr k⟩

variable (c d : Code) (C : Catalog)

@[simp]
theorem length_lines : (c.lines C).length = c.instrs.size := by
  simp [lines]

theorem getElem?_lines (k : Nat) :
    (c.lines C)[k]? = c.instrs[k]?.map fun i => lineNumber k ++ " " ++ showInstr C c.texts i := by
  simp [lines, Function.comp_def]

/-- The listing is read as the lines of the instructions. -/
theorem split_listing :
    Lines.split (c.listing .standard).toList =
      (c.lines .standard).map fun l => l.toList ++ ['\n'] := by
  have hlines : ∀ l ∈ (c.lines .standard).map String.toList, OneLine l := by
    intro l hl
    obtain ⟨s, hs, rfl⟩ := List.mem_map.1 hl
    obtain ⟨k, hk⟩ := List.mem_iff_getElem?.1 hs
    rw [getElem?_lines, Option.map_eq_some_iff] at hk
    obtain ⟨i, -, rfl⟩ := hk
    simp [oneLine_lineNumber, oneLine_showInstr, Lines.terminators]
  rw [listing, String.toList_join, List.flatMap_map]
  simpa [List.flatMap_map, Function.comp_def] using Lines.split_lines hlines

variable {c d}

theorem lines_eq_of_listing_eq (h : c.listing .standard = d.listing .standard) :
    c.lines .standard = d.lines .standard := by
  have hsplit := congrArg (fun s : String => Lines.split s.toList) h
  rw [split_listing, split_listing] at hsplit
  refine (List.map_injective_iff.2 fun l l' hl => ?_) hsplit
  exact String.toList_inj.1 (List.append_cancel_right hl)

theorem instrs_eq_of_lines_eq (ht : c.texts = d.texts) (hn : c.texts.toList.Nodup)
    (hc : ∀ i ∈ c.instrs, i.loadsFloat = false) (h : c.lines .standard = d.lines .standard) :
    c.instrs = d.instrs := by
  refine Array.ext_getElem? fun k => ?_
  have hk := congrArg (fun ls : List String => ls[k]?) h
  simp only [getElem?_lines, ← ht] at hk
  cases hck : c.instrs[k]? with
  | none =>
    rw [hck, Option.map_none, eq_comm, Option.map_eq_none_iff] at hk
    exact hk.symm
  | some i =>
    rw [hck, Option.map_some, eq_comm, Option.map_eq_some_iff] at hk
    obtain ⟨j, hdk, hline⟩ := hk
    have hshow := (String.append_right_inj _).1 hline.symm
    rw [hdk, (showInstr_inj hn (hc i (Array.mem_of_getElem? hck))).1 hshow]

end Code

/-! ### Faithful listings -/

/-- Over the same texts, none of them twice, two codes, the first of which loads no floats, have
the same listing exactly if they have the same instructions.  And every listing, read as lines,
has one line for each instruction: its number, in at least four digits, and how it is shown,
whatever characters the texts have and whether or not their indices are in range. -/
theorem listing_faithful :
    (∀ c d : Code, c.texts = d.texts → c.texts.toList.Nodup →
      (∀ i ∈ c.instrs, i.loadsFloat = false) →
      (c.listing .standard = d.listing .standard ↔ c.instrs = d.instrs)) ∧
    ∀ c : Code,
      (Lines.split (c.listing .standard).toList).length = c.instrs.size ∧
      ∀ (k : Nat) (i : Instr), c.instrs[k]? = some i →
        (Lines.split (c.listing .standard).toList)[k]? =
          some (.replicate (4 - k.repr.length) '0' ++ k.repr.toList ++ [' '] ++
            (Code.showInstr .standard c.texts i).toList ++ ['\n']) := by
  refine ⟨fun c d ht hn hc => ⟨fun h => ?_, fun h => ?_⟩, fun c => ⟨?_, fun k i hk => ?_⟩⟩
  · exact Code.instrs_eq_of_lines_eq ht hn hc (Code.lines_eq_of_listing_eq h)
  · simp only [Code.listing, Code.lines, ht, h]
  · rw [Code.split_listing, List.length_map, Code.length_lines]
  · rw [Code.split_listing, List.getElem?_map, Code.getElem?_lines, hk, Code.lineNumber_eq]
    simp

/-- Two codes over one text that would break a line, with an index out of range. -/
theorem listing_faithful_quoted :
    let texts := #["a\n\"b\\"]
    let c : Code := ⟨#[.ldStr 0, .ldStr 1, .call .numberLong], texts, #[], 1⟩
    let d : Code := ⟨#[.ldStr 0, .ldStr 1, .call .valueLong], texts, #[.value], 2⟩
    (c.texts = d.texts ∧ c.texts.toList.Nodup ∧ ∀ i ∈ c.instrs, i.loadsFloat = false) ∧
      c.listing .standard ≠ d.listing .standard ∧
      (Lines.split (c.listing .standard).toList).length = 3 := by
  intro texts c d
  have hfloat : ∀ i ∈ c.instrs, i.loadsFloat = false := by decide
  refine ⟨⟨rfl, by decide, hfloat⟩, fun h => ?_, (listing_faithful.2 c).1⟩
  exact absurd ((listing_faithful.1 c d rfl (by decide) hfloat).1 h) (by decide)

end Recast
