import Mathlib.Tactic.Ring
import Recast.Proofs.Machine

/-!
# Widening floats

A 32-bit float is a 64-bit float as well: to widen it is exact, and to narrow it again gives it
back.  Only the payload of what is no number is lost.

* `Binary.Format.round_mul_two_pow` : rounding depends on the number, not on how it is scaled;
* `Binary.Format.round_of_normal` : **what a format can represent is not rounded**;
* `Binary.Format.decode_withSign` : a pattern that is put together is read as it was meant;
* `Binary32.toBinary32_toBinary64` : **to widen a float and narrow it again changes nothing**.
-/

namespace Recast

namespace Binary

/-! ### Rounding -/

section Rounding

variable {m j k : Nat}

theorem shiftRound_zero (m : Nat) : shiftRound m 0 = m := by
  simp [shiftRound, Nat.mod_one]

/-- To shift by more places what has been scaled up by as many changes nothing. -/
theorem shiftRound_mul_two_pow (m k j : Nat) :
    shiftRound (m * 2 ^ j) (k + j) = shiftRound m k := by
  have hpos : 0 < 2 ^ j := Nat.two_pow_pos j
  have hquotient : m * 2 ^ j / (2 ^ k * 2 ^ j) = m / 2 ^ k := Nat.mul_div_mul_right _ _ hpos
  have hremainder : 2 * (m * 2 ^ j % (2 ^ k * 2 ^ j)) = 2 * (m % 2 ^ k) * 2 ^ j := by
    rw [Nat.mul_mod_mul_right, Nat.mul_assoc]
  simp only [shiftRound, Nat.pow_eq, Nat.pow_add, hquotient, hremainder,
    Nat.mul_lt_mul_right hpos, Nat.mul_left_inj hpos.ne']

theorem log2_mul_two_pow (hm : m ≠ 0) (j : Nat) : (m * 2 ^ j).log2 = m.log2 + j := by
  have hscaled : m * 2 ^ j ≠ 0 := Nat.mul_ne_zero hm (Nat.two_pow_pos j).ne'
  rw [Nat.log2_eq_iff hscaled, Nat.pow_add, Nat.add_right_comm, Nat.pow_add 2 (m.log2 + 1)]
  exact ⟨Nat.mul_le_mul_right _ (Nat.log2_self_le hm),
    Nat.mul_lt_mul_of_pos_right Nat.lt_log2_self (Nat.two_pow_pos j)⟩

end Rounding

namespace Format

variable {F : Format} {negative : Bool} {m n a bits : Nat} {e : Int}

/-- **Rounding depends on the number**, not on how it is scaled. -/
theorem round_mul_two_pow (F : Format) (m j : Nat) (e : Int) :
    F.round (m * 2 ^ j) (e - j) = F.round m e := by
  by_cases hm : m = 0
  · simp [round, hm]
  have hscaled : m * 2 ^ j ≠ 0 := Nat.mul_ne_zero hm (Nat.two_pow_pos j).ne'
  -- the last place is the same for both
  have hplace : max (e - j + ↑(m * 2 ^ j).log2 - F.fractionBits) F.minExponent =
      max (e + m.log2 - F.fractionBits) F.minExponent := by
    rw [log2_mul_two_pow hm, Int.natCast_add]
    congr 1
    omega
  simp only [round, hm, hscaled, hplace, ↓reduceIte, Nat.pow_eq]
  generalize max (e + m.log2 - F.fractionBits) F.minExponent = place
  congr 2
  by_cases hexact : place ≤ e
  · rw [if_pos hexact]
    by_cases hboth : place ≤ e - j
    · obtain ⟨k, hk⟩ : ∃ k : Nat, e - j - place = k := ⟨_, (Int.toNat_of_nonneg (by omega)).symm⟩
      have hsum : (e - place).toNat = j + k := by omega
      rw [if_pos hboth, hk, hsum, Nat.pow_add, Int.toNat_natCast, Nat.mul_assoc]
    · -- all that is shifted out was shifted in before
      obtain ⟨k, hk⟩ : ∃ k : Nat, e - place = k := ⟨_, (Int.toNat_of_nonneg (by omega)).symm⟩
      obtain ⟨l, hl⟩ : ∃ l : Nat, place - (e - j) = l :=
        ⟨_, (Int.toNat_of_nonneg (by omega)).symm⟩
      have hsum : j = k + l := by omega
      have hshift : shiftRound (m * 2 ^ k * 2 ^ l) l = m * 2 ^ k := by
        simpa only [Nat.zero_add, shiftRound_zero] using shiftRound_mul_two_pow (m * 2 ^ k) 0 l
      rw [if_neg hboth, hk, hl, Int.toNat_natCast, Int.toNat_natCast, hsum, Nat.pow_add,
        ← Nat.mul_assoc, hshift]
  · obtain ⟨k, hk⟩ : ∃ k : Nat, place - e = k := ⟨_, (Int.toNat_of_nonneg (by omega)).symm⟩
    have hsum : (place - (e - j)).toNat = k + j := by omega
    rw [if_neg hexact, if_neg (by omega), hk, hsum, Int.toNat_natCast, shiftRound_mul_two_pow]

/-- A significand of a format, counted from its smallest exponent: full, or with the smallest
exponent. -/
structure IsNormal (F : Format) (m n : Nat) : Prop where
  /-- It is no longer than a full one. -/
  lt : m < 2 ^ (F.fractionBits + 1)
  /-- It is shorter for the smallest exponent only. -/
  full : n = 0 ∨ 2 ^ F.fractionBits ≤ m
  /-- It is in range. -/
  finite : n * 2 ^ F.fractionBits + m < F.infinity

/-- **What a format can represent is not rounded.** -/
theorem round_of_normal (h : F.IsNormal m n) :
    F.round m (F.minExponent + n) = n * 2 ^ F.fractionBits + m := by
  by_cases hm : m = 0
  · have hn : n = 0 := h.full.resolve_right fun hfull => by
      have := Nat.two_pow_pos F.fractionBits
      omega
    simp [round, hm, hn]
  have hplace : max (F.minExponent + n + m.log2 - F.fractionBits) F.minExponent =
      F.minExponent + n := by
    have hlog : m.log2 < F.fractionBits + 1 := (Nat.log2_lt hm).2 h.lt
    rcases h.full with hn | hfull
    · omega
    · have := (Nat.le_log2 hm).2 hfull
      omega
  have hn : (F.minExponent + n - F.minExponent).toNat = n := by omega
  simp only [round, hm, hplace, hn, ↓reduceIte, Nat.pow_eq, Int.le_refl, Int.sub_self,
    Int.toNat_zero, Nat.pow_zero, Nat.mul_one]
  exact Nat.min_eq_right h.finite.le

/-! ### Patterns -/

theorem infinity_lt_signBit : F.infinity < 2 ^ F.signBit := by
  rw [infinity, signBit, Nat.pow_add]
  exact Nat.mul_lt_mul_of_pos_right
    (Nat.sub_lt (Nat.two_pow_pos _) Nat.one_pos) (Nat.two_pow_pos _)

theorem isNegative_withSign (h : a < 2 ^ F.signBit) :
    F.isNegative (F.withSign negative a) = negative := by
  cases negative with
  | false => exact Nat.testBit_lt_two_pow h
  | true =>
    rw [isNegative, withSign, if_pos rfl, Nat.pow_eq, Nat.testBit_two_pow_add_eq,
      Nat.testBit_lt_two_pow h]
    rfl

theorem magnitude_withSign (h : a < 2 ^ F.signBit) :
    F.magnitude (F.withSign negative a) = a := by
  cases negative with
  | false => exact Nat.mod_eq_of_lt h
  | true =>
    rw [magnitude, withSign, if_pos rfl, Nat.pow_eq, Nat.add_mod_left, Nat.mod_eq_of_lt h]

theorem withSign_lt (h : a < 2 ^ F.signBit) : F.withSign negative a < 2 ^ (F.signBit + 1) := by
  rw [withSign, Nat.pow_eq, Nat.pow_succ]
  split <;> omega

theorem withSign_magnitude (h : bits < 2 ^ (F.signBit + 1)) :
    F.withSign (F.isNegative bits) (F.magnitude bits) = bits := by
  rw [isNegative, magnitude, withSign, Nat.pow_eq, Nat.testBit_eq_decide_div_mod_eq]
  have hdiv : bits / 2 ^ F.signBit < 2 := by
    rw [Nat.div_lt_iff_lt_mul (Nat.two_pow_pos _), Nat.mul_comm, ← Nat.pow_succ]
    exact h
  have hsplit := Nat.div_add_mod bits (2 ^ F.signBit)
  rcases Nat.le_one_iff_eq_zero_or_eq_one.1 (Nat.le_of_lt_succ hdiv) with hzero | hone
  · rw [hzero] at hsplit ⊢
    simpa using hsplit
  · rw [hone] at hsplit ⊢
    simpa using hsplit

theorem of_decode_eq_infinite (h : F.decode bits = .infinite negative) :
    negative = F.isNegative bits ∧ F.magnitude bits = F.infinity := by
  simp only [decode] at h
  split_ifs at h with hnan hinfinite
  cases h
  exact ⟨rfl, hinfinite⟩

theorem of_decode_eq_finite (h : F.decode bits = .finite negative m e) :
    negative = F.isNegative bits ∧ ∃ n : Nat, e = F.minExponent + n ∧ F.IsNormal m n ∧
      F.magnitude bits = n * 2 ^ F.fractionBits + m := by
  have hsplit := Nat.div_add_mod (F.magnitude bits) (2 ^ F.fractionBits)
  have hfraction := Nat.mod_lt (F.magnitude bits) (Nat.two_pow_pos F.fractionBits)
  rw [Nat.mul_comm] at hsplit
  simp only [decode, Nat.pow_eq] at h
  split_ifs at h with hnan hinfinite hsmall
  · cases h
    rw [hsmall] at hsplit
    refine ⟨rfl, 0, by simp, ⟨?_, .inl rfl, ?_⟩, hsplit.symm⟩
    · rw [Nat.pow_succ]
      omega
    · omega
  · cases h
    generalize F.magnitude bits / 2 ^ F.fractionBits = biased at *
    obtain ⟨n, rfl⟩ := Nat.exists_eq_succ_of_ne_zero hsmall
    rw [Nat.succ_mul] at hsplit
    refine ⟨rfl, n, rfl, ⟨?_, .inr (Nat.le_add_right _ _), ?_⟩, ?_⟩
    · rw [Nat.pow_succ]
      omega
    · omega
    · omega

/-- **A pattern that is put together is read as it was meant**: a full significand. -/
theorem decode_withSign (h : F.IsNormal m n) (hfull : 2 ^ F.fractionBits ≤ m) :
    F.decode (F.withSign negative (n * 2 ^ F.fractionBits + m)) =
      .finite negative m (F.minExponent + n) := by
  obtain ⟨f, rfl⟩ := Nat.exists_eq_add_of_le hfull
  have hf : f < 2 ^ F.fractionBits := by
    have := h.lt
    rw [Nat.pow_succ] at this
    omega
  have hmagnitude : n * 2 ^ F.fractionBits + (2 ^ F.fractionBits + f) =
      2 ^ F.fractionBits * (n + 1) + f := by ring
  have hbits := h.finite.trans infinity_lt_signBit
  have hdiv : (2 ^ F.fractionBits * (n + 1) + f) / 2 ^ F.fractionBits = n + 1 := by
    rw [Nat.mul_add_div (Nat.two_pow_pos _), Nat.div_eq_of_lt hf, Nat.add_zero]
  have hmod : (2 ^ F.fractionBits * (n + 1) + f) % 2 ^ F.fractionBits = f := by
    rw [Nat.mul_add_mod, Nat.mod_eq_of_lt hf]
  have hfinite := h.finite
  rw [decode, isNegative_withSign hbits, magnitude_withSign hbits]
  rw [hmagnitude] at hfinite ⊢
  simp only [Nat.pow_eq, hdiv, hmod, Nat.not_lt_of_gt hfinite, hfinite.ne, ↓reduceIte,
    Nat.succ_ne_zero, Nat.add_sub_cancel]

end Format

end Binary

/-! ### Both formats -/

open Binary

/-- What all patterns of no number are narrowed to. -/
def Binary32.nan : Binary32 := ⟨.ofNat single.quietNaN⟩

/-- The significand of a narrow float, made full, is one of the wider format. -/
theorem Binary.isNormal_double {m n : Nat} (h : single.IsNormal m n) (hm : m ≠ 0) :
    ∃ N : Nat, double.minExponent + N = single.minExponent + n - (52 - m.log2 : Nat) ∧
      double.IsNormal (m * 2 ^ (52 - m.log2)) N ∧ 2 ^ 52 ≤ m * 2 ^ (52 - m.log2) := by
  have hlog : m.log2 < 24 := (Nat.log2_lt hm).2 h.lt
  have hsum : m.log2 + (52 - m.log2) = 52 := by omega
  have hle : 2 ^ 52 ≤ m * 2 ^ (52 - m.log2) := by
    rw [← hsum, Nat.pow_add, Nat.add_sub_cancel_left]
    exact Nat.mul_le_mul_right _ (Nat.log2_self_le hm)
  have hlt : m * 2 ^ (52 - m.log2) < 2 ^ 53 := by
    have hscaled := Nat.mul_lt_mul_of_pos_right (Nat.lt_log2_self (n := m))
      (Nat.two_pow_pos (52 - m.log2))
    rw [← Nat.pow_add] at hscaled
    rwa [Nat.add_right_comm, hsum] at hscaled
  have hn : n < 255 := by
    have hfinite : n * 2 ^ 23 + m < 255 * 2 ^ 23 := h.finite
    omega
  have hmin : double.minExponent = -1074 ∧ single.minExponent = -149 := ⟨rfl, rfl⟩
  refine ⟨n + m.log2 + 873, ?_, ⟨hlt, .inr hle, ?_⟩, hle⟩
  · rw [hmin.1, hmin.2]
    omega
  · have hinfinity : double.infinity = 2047 * 2 ^ 52 := rfl
    have hbits : double.fractionBits = 52 := rfl
    rw [hinfinity, hbits]
    omega

/-- A number is widened to a pattern of the number, which is narrowed to the one it was. -/
theorem Binary.round_double_round_single {m n : Nat} (negative : Bool) (h : single.IsNormal m n) :
    double.round m (single.minExponent + n) < 2 ^ 63 ∧ ∃ (m' : Nat) (e' : Int),
      double.decode (double.withSign negative (double.round m (single.minExponent + n))) =
        .finite negative m' e' ∧
      single.round m' e' = n * 2 ^ single.fractionBits + m := by
  by_cases hm : m = 0
  · subst hm
    have hn : n = 0 := h.full.resolve_right (by decide)
    subst hn
    exact ⟨by decide, 0, double.minExponent, by cases negative <;> rfl, rfl⟩
  · obtain ⟨N, hN, hnormal, hfull⟩ := isNormal_double h hm
    have hround : double.round m (single.minExponent + n) =
        N * 2 ^ double.fractionBits + m * 2 ^ (52 - m.log2) := by
      rw [← Format.round_mul_two_pow _ m (52 - m.log2), ← hN, Format.round_of_normal hnormal]
    refine ⟨?_, m * 2 ^ (52 - m.log2), double.minExponent + N, ?_, ?_⟩
    · rw [hround]
      exact hnormal.finite.trans Format.infinity_lt_signBit
    · rw [hround, Format.decode_withSign hnormal hfull]
    · rw [hN, Format.round_mul_two_pow, Format.round_of_normal h]

namespace Binary32

/-- **To widen a float and narrow it again changes nothing**, except that there is one pattern of no
number afterwards. -/
theorem toBinary32_toBinary64 {x : Binary32} (h : x.decode = .nan → x = .nan) :
    x.toBinary64.toBinary32 = x := by
  have hparts : (⟨.ofNat (single.withSign (single.isNegative x.bits.toNat)
      (single.magnitude x.bits.toNat))⟩ : Binary32) = x := by
    rw [Format.withSign_magnitude (F := single) x.bits.toNat_lt, UInt32.ofNat_toNat]
  cases hx : x.decode with
  | nan =>
    rw [h hx]
    rfl
  | infinite negative =>
    obtain ⟨rfl, hmagnitude⟩ := Format.of_decode_eq_infinite hx
    rw [hmagnitude] at hparts
    rw [← hparts]
    cases single.isNegative x.bits.toNat <;> rfl
  | finite negative m e =>
    obtain ⟨rfl, n, rfl, hnormal, hmagnitude⟩ := Format.of_decode_eq_finite hx
    obtain ⟨hlt, m', e', hdecode, hround⟩ :=
      round_double_round_single (single.isNegative x.bits.toNat) hnormal
    have hwide : x.toBinary64.decode = .finite (single.isNegative x.bits.toNat) m' e' := by
      rw [Binary64.decode, toBinary64, hx]
      change double.decode (UInt64.ofNat _).toNat = _
      rw [UInt64.toNat_ofNat_of_lt' (Format.withSign_lt hlt), hdecode]
    rw [Binary64.toBinary32, hwide]
    change (⟨.ofNat (single.withSign _ (single.round m' e'))⟩ : Binary32) = x
    rw [hround, ← hmagnitude, hparts]

/-- No other pattern of no number is given back. -/
theorem toBinary32_toBinary64_iff {x : Binary32} :
    x.toBinary64.toBinary32 = x ↔ (x.decode = .nan → x = .nan) := by
  refine ⟨fun hexact hnan => ?_, toBinary32_toBinary64⟩
  rw [← hexact, toBinary64, hnan]
  rfl

end Binary32

end Recast
