import Mathlib.Data.List.Basic
import Recast.Text.Lines
import Recast.Text.Quoted

/-!
# Quoted text can be read back, and stays on its line

Every character has an escape of its own, so a text can be read back from its quoted form; and
none of the characters that end a line is ever shown as it is.

* `Quoted.readChar_encodeChar` : the escape of a character is read back, whatever follows;
* `Quoted.encode_inj` : **two texts with the same quoted form are the same text**;
* `Quoted.oneLine_encode` : **a quoted text is on one line**, whatever characters it has.
-/

namespace Recast

/-! ### Texts on one line -/

namespace Lines

/-- No character of the text ends a line. -/
def OneLine (cs : List Char) : Prop := ∀ c ∈ cs, c ∉ terminators

instance : DecidablePred OneLine := fun cs => List.decidableBAll (· ∉ terminators) cs

variable {cs ds : List Char}

@[simp]
theorem oneLine_nil : OneLine [] := by simp [OneLine]

@[simp]
theorem oneLine_cons {c : Char} : OneLine (c :: cs) ↔ c ∉ terminators ∧ OneLine cs := by
  simp [OneLine]

@[simp]
theorem oneLine_append : OneLine (cs ++ ds) ↔ OneLine cs ∧ OneLine ds := by
  simp only [OneLine, List.mem_append, or_imp, forall_and]

theorem oneLine_flatMap {α : Type} {f : α → List Char} {xs : List α}
    (h : ∀ x ∈ xs, OneLine (f x)) : OneLine (xs.flatMap f) := by
  intro c hc
  obtain ⟨x, hx, hcx⟩ := List.mem_flatMap.1 hc
  exact h x hx c hcx

/-- The character is a visible one of the basic alphabet, or a blank. -/
def isBasic (c : Char) : Bool := Nat.ble ' '.toNat c.toNat && Nat.ble c.toNat '~'.toNat

theorem oneLine_of_all_isBasic (h : cs.all isBasic) : OneLine cs := by
  have hterminators : terminators.any isBasic = false := by decide
  intro c hc hct
  exact List.any_eq_false.1 hterminators c hct (List.all_eq_true.1 h c hc)

theorem oneLine_intercalate {ls : List (List Char)} (hcs : OneLine cs)
    (h : ∀ l ∈ ls, OneLine l) : OneLine (cs.intercalate ls) := by
  induction ls with
  | nil => exact oneLine_nil
  | cons l ls ih =>
    obtain ⟨hl, hls⟩ := List.forall_mem_cons.1 h
    cases ls with
    | nil => simpa using hl
    | cons k ls => simpa [hl, hcs] using ih hls

theorem OneLine.sublist (h : OneLine ds) (hs : cs.Sublist ds) : OneLine cs :=
  fun c hc => h c (hs.subset hc)

theorem oneLine_replicate {c : Char} (n : Nat) (hc : c ∉ terminators) :
    OneLine (List.replicate n c) := by
  intro d hd
  rwa [List.eq_of_mem_replicate hd]

/-- A text on one line, and its end, are the first line of what they start. -/
theorem split_line (h : OneLine cs) (rest : List Char) :
    split (cs ++ '\n' :: rest) = (cs ++ ['\n']) :: split rest := by
  induction cs with
  | nil => simp [split, terminators]
  | cons c cs ih =>
    obtain ⟨hc, hcs⟩ := oneLine_cons.1 h
    have hr : c ≠ '\r' := by
      rintro rfl
      simp [terminators] at hc
    simp [split, hr, hc, ih hcs]

/-- Lines with their ends are read as these lines. -/
theorem split_lines {ls : List (List Char)} (h : ∀ l ∈ ls, OneLine l) :
    split (ls.flatMap (· ++ ['\n'])) = ls.map (· ++ ['\n']) := by
  induction ls with
  | nil => rfl
  | cons l ls ih =>
    rw [List.flatMap_cons, List.append_assoc, List.singleton_append,
      split_line (h l List.mem_cons_self), ih fun k hk => h k (List.mem_cons_of_mem l hk),
      List.map_cons]

end Lines

/-! ### Digits -/

section Digits

variable {b n : Nat} {c : Char}

theorem mem_toDigits (hb : 1 < b) (h : c ∈ Nat.toDigits b n) : ∃ k < b, c = Nat.digitChar k := by
  induction n using Nat.strongRecOn with
  | ind n ih =>
    by_cases hn : n < b
    · rw [Nat.toDigits_of_lt_base hn, List.mem_singleton] at h
      exact ⟨n, hn, h⟩
    · rw [Nat.toDigits_of_base_le hb (by omega), List.mem_append, List.mem_singleton] at h
      rcases h with h | rfl
      · exact ih _ (Nat.div_lt_self (by omega) hb) h
      · exact ⟨n % b, Nat.mod_lt n (by omega), rfl⟩

theorem oneLine_toDigits (hb : 1 < b) (hb' : b ≤ 16) : Lines.OneLine (Nat.toDigits b n) := by
  have hdigits : ∀ k < 16, Nat.digitChar k ∉ Lines.terminators := by decide
  intro c hc
  obtain ⟨k, hk, rfl⟩ := mem_toDigits hb hc
  exact hdigits k (by omega)

/-- The value of a hexadecimal digit. -/
def hexDigit (c : Char) : Nat := if c.isDigit then c.toNat - '0'.toNat else c.toNat - 'a'.toNat + 10

/-- The number that hexadecimal digits stand for. -/
def hexValue (cs : List Char) : Nat := cs.foldl (fun n c => 16 * n + hexDigit c) 0

theorem hexDigit_digitChar : ∀ k < 16, hexDigit (Nat.digitChar k) = k := by decide

theorem hexValue_toDigits (n : Nat) : hexValue (Nat.toDigits 16 n) = n := by
  induction n using Nat.strongRecOn with
  | ind n ih =>
    by_cases hn : n < 16
    · rw [Nat.toDigits_of_lt_base hn]
      simp [hexValue, hexDigit_digitChar n hn]
    · have hdiv := ih (n / 16) (Nat.div_lt_self (by omega) (by omega))
      have hmod := hexDigit_digitChar (n % 16) (Nat.mod_lt n (by omega))
      rw [Nat.toDigits_of_base_le (by omega) (by omega), hexValue, List.foldl_append, ← hexValue,
        hdiv, List.foldl_cons, hmod, List.foldl_nil, Nat.div_add_mod]

end Digits

namespace Quoted

/-! ### Reading a quoted text -/

/-- Read the escape of one character, and what follows it. -/
def readChar : List Char → Option (Char × List Char)
  | [] => none
  | '\\' :: '0' :: cs => some ('\x00', cs)
  | '\\' :: 't' :: cs => some ('\t', cs)
  | '\\' :: 'n' :: cs => some ('\n', cs)
  | '\\' :: 'r' :: cs => some ('\r', cs)
  | '\\' :: 'u' :: '{' :: cs =>
    some (.ofNat (hexValue (cs.takeWhile (· ≠ '}'))), (cs.dropWhile (· ≠ '}')).drop 1)
  | '\\' :: c :: cs => some (c, cs)
  | c :: cs => some (c, cs)

theorem readChar_codePoint (c : Char) (cs : List Char) :
    readChar (codePoint c ++ cs) = some (c, cs) := by
  -- the closing brace is the first one, since no digit is a brace
  have hdigits : ∀ d ∈ Nat.toDigits 16 c.toNat, decide (d ≠ '}') = true := by
    have hbrace : ∀ k < 16, Nat.digitChar k ≠ '}' := by decide
    intro d hd
    obtain ⟨k, hk, rfl⟩ := mem_toDigits (by omega) hd
    exact decide_eq_true (hbrace k hk)
  simp only [codePoint, List.append_assoc, List.cons_append, List.nil_append, readChar,
    List.takeWhile_append_of_pos hdigits, List.dropWhile_append_of_pos hdigits]
  simp [hexValue_toDigits]

/-- The escape of a character is read back, whatever follows. -/
theorem readChar_encodeChar (c : Char) (cs : List Char) :
    readChar (encodeChar c ++ cs) = some (c, cs) := by
  unfold encodeChar
  by_cases h0 : c = '\x00'
  · simp [h0, readChar]
  by_cases ht : c = '\t'
  · simp [ht, readChar]
  by_cases hn : c = '\n'
  · simp [hn, readChar]
  by_cases hr : c = '\r'
  · simp [hr, readChar]
  by_cases hq : c = '"'
  · simp [hq, readChar]
  by_cases hb : c = '\\'
  · simp [hb, readChar]
  simp only [h0, ht, hn, hr, hq, hb, if_false]
  split
  · exact readChar_codePoint c cs
  · simp [readChar, hb]

theorem encodeChar_ne_nil (c : Char) : encodeChar c ≠ [] := by
  intro h
  simpa [h, readChar] using readChar_encodeChar c []

theorem flatMap_encodeChar_inj {s t : List Char}
    (h : s.flatMap encodeChar = t.flatMap encodeChar) : s = t := by
  induction s generalizing t with
  | nil =>
    cases t with
    | nil => rfl
    | cons d t => simp [encodeChar_ne_nil] at h
  | cons c s ih =>
    cases t with
    | nil => simp [encodeChar_ne_nil] at h
    | cons d t =>
      rw [List.flatMap_cons, List.flatMap_cons] at h
      have hread := readChar_encodeChar c (s.flatMap encodeChar)
      rw [h, readChar_encodeChar] at hread
      obtain ⟨rfl, hrest⟩ := Prod.mk.inj (Option.some.inj hread)
      rw [ih hrest.symm]

/-- Two texts with the same quoted form are the same text. -/
theorem encode_inj {s t : List Char} : encode s = encode t ↔ s = t := by
  refine ⟨fun h => ?_, fun h => by rw [h]⟩
  simp only [encode, List.cons.injEq, true_and, List.append_cancel_right_eq] at h
  exact flatMap_encodeChar_inj h

/-! ### Quoted texts and lines -/

/-- A character that ends a line cannot be shown as it is. -/
theorem isUnprintable_of_mem_terminators :
    ∀ c ∈ Lines.terminators, Unprintable.isUnprintable c = true := by
  have hall : Lines.terminators.all Unprintable.isUnprintable = true := by decide +kernel
  exact List.all_eq_true.1 hall

theorem oneLine_encodeChar (c : Char) : Lines.OneLine (encodeChar c) := by
  unfold encodeChar
  repeat' split
  case isTrue => decide
  case isTrue => decide
  case isTrue => decide
  case isTrue => decide
  case isTrue => decide
  case isTrue => decide
  case isTrue => simp [codePoint, oneLine_toDigits, Lines.terminators]
  case isFalse h =>
    simp only [Lines.oneLine_cons, Lines.oneLine_nil, and_true]
    exact fun hc => h (isUnprintable_of_mem_terminators c hc)

/-- A quoted text is on one line. -/
theorem oneLine_encode (s : List Char) : Lines.OneLine (encode s) := by
  have hs : Lines.OneLine (s.flatMap encodeChar) :=
    Lines.oneLine_flatMap fun c _ => oneLine_encodeChar c
  simp [encode, hs, Lines.terminators]

end Quoted

end Recast
