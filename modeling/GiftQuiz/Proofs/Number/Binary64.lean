import GiftQuiz.Number.Binary64
import GiftQuiz.Proofs.Number.Magnitude
import Mathlib.Tactic.NormNum

/-!
# Nearest floating-point numbers

The bits of a number are its sign and a magnitude, and the magnitudes below the infinite one are
the finite numbers (`value?_ofMagnitude`). `nearest` rounds a significand of 53 bits, or of fewer
below the normal range. So a rational that is neither too large nor smaller than the least positive
number has a nearest number that is finite, is not zero and has its sign (`exists_value?_nearest`).
-/

namespace GiftQuiz

namespace Binary64

theorem exponentPlace_eq : exponentPlace = 4503599627370496 := rfl

theorem signPlace_eq : signPlace = 9223372036854775808 := rfl

theorem specialExponent_eq : specialExponent = 2047 := rfl

/-! ## Magnitudes -/

/-- The significand of a magnitude; the normal ones have a leading bit that is not written. -/
def significand (m : Nat) : Nat :=
  if m / exponentPlace = 0 then m % exponentPlace else exponentPlace + m % exponentPlace

/-- The value of a number without a sign, by its bits. -/
def magnitudeValue (m : Nat) : Rat :=
  (significand m : Rat) * (2 : Rat) ^ ((max (m / exponentPlace) 1 : Nat) - 1075 : Int)

theorem magnitudeValue_pos {m : Nat} (h : 0 < m) : 0 < magnitudeValue m := by
  have hsignificand : 0 < significand m := by
    unfold significand
    rw [exponentPlace_eq]
    split <;> omega
  exact mul_pos (Nat.cast_pos.mpr hsignificand) (zpow_pos two_pos _)

def ofMagnitude (negative : Bool) (m : Nat) : UInt64 :=
  UInt64.ofNat (if negative then signPlace + m else m)

/-- Magnitudes below the one of the infinities are those of the finite numbers. -/
theorem value?_ofMagnitude (negative : Bool) {m : Nat}
    (h : m < specialExponent * exponentPlace) :
    value? (ofMagnitude negative m) =
      some (if negative then -magnitudeValue m else magnitudeValue m) := by
  have hfinite : m / exponentPlace ≠ specialExponent := by
    rw [specialExponent_eq, exponentPlace_eq] at *
    omega
  have hbits : (ofMagnitude negative m).toNat = if negative then signPlace + m else m := by
    unfold ofMagnitude
    rw [UInt64.toNat_ofNat', Nat.mod_eq_of_lt]
    rw [specialExponent_eq, exponentPlace_eq] at h
    rw [signPlace_eq]
    split <;> omega
  have hm : m < signPlace := by
    rw [specialExponent_eq, exponentPlace_eq] at h
    rw [signPlace_eq]
    omega
  have hunsigned : (ofMagnitude negative m).toNat % signPlace = m := by
    rw [hbits]
    split
    · rw [Nat.add_mod_left, Nat.mod_eq_of_lt hm]
    · exact Nat.mod_eq_of_lt hm
  have hsign : (ofMagnitude negative m).toNat < signPlace ↔ ¬ negative = true := by
    rw [hbits]
    split <;> simp_all
  unfold value?
  simp only [hunsigned, hsign]
  rw [if_neg hfinite]
  cases negative <;> rfl

/-! ## The nearest magnitude -/

/-- The exponent of the nearest number: that of the rational itself, or the least one. -/
def nearestExponent (q : Rat) : Int :=
  max (floorLog 2 q.abs) (-1022)

def nearestSignificand (q : Rat) : Int :=
  roundHalfEven (q.abs * (2 : Rat) ^ (52 - nearestExponent q))

variable {q : Rat}

theorem nearest_eq (hq : q ≠ 0) :
    nearest q = ofMagnitude (q < 0)
      (min ((nearestExponent q + 1022).toNat * exponentPlace + (nearestSignificand q).toNat)
        (specialExponent * exponentPlace)) := by
  unfold nearest ofMagnitude
  rw [if_neg hq]
  simp only [decide_eq_true_eq]
  rfl

/-- A significand has at most 53 bits, or is the next power of two. -/
theorem nearestSignificand_le (q : Rat) : nearestSignificand q ≤ 2 ^ 53 := by
  refine roundHalfEven_le ?_
  have hexponent : floorLog 2 q.abs + 1 ≤ nearestExponent q + 1 :=
    Int.add_le_add_right (le_max_left ..) 1
  calc q.abs * (2 : Rat) ^ (52 - nearestExponent q)
      ≤ (2 : Rat) ^ (nearestExponent q + 1) * (2 : Rat) ^ (52 - nearestExponent q) := by
        refine mul_le_mul_of_nonneg_right ?_ (zpow_pos two_pos _).le
        exact (lt_pow_floorLog_succ one_lt_two _).le.trans
          (zpow_le_zpow_right₀ one_le_two hexponent)
    _ = (2 : Rat) ^ (53 : Int) := by
        rw [← zpow_add₀ two_ne_zero]
        congr 1
        omega
    _ = ((2 ^ 53 : Int) : Rat) := by norm_num

theorem nearestSignificand_pos (hlow : (2 : Rat) ^ (-1074 : Int) ≤ |q|) :
    0 < nearestSignificand q := by
  have hpos : 0 < |q| := (zpow_pos two_pos _).trans_le hlow
  have hunit : (2 : Rat) ^ (nearestExponent q - 52) ≤ |q| := by
    unfold nearestExponent
    rw [ratAbs_eq]
    rcases max_choice (floorLog 2 |q|) (-1022) with hmax | hmax
    · rw [hmax]
      have hpower : (2 : Rat) ^ floorLog 2 |q| ≤ |q| := pow_floorLog_le one_lt_two hpos
      exact (zpow_le_zpow_right₀ one_le_two (Int.sub_le_self _ (by decide))).trans hpower
    · rw [hmax]
      exact hlow
  refine Int.lt_of_lt_of_le Int.zero_lt_one (le_roundHalfEven ?_)
  calc ((1 : Int) : Rat)
      = (2 : Rat) ^ (nearestExponent q - 52) * (2 : Rat) ^ (52 - nearestExponent q) := by
        rw [← zpow_add₀ two_ne_zero]
        simp
    _ ≤ q.abs * (2 : Rat) ^ (52 - nearestExponent q) := by
        rw [ratAbs_eq]
        exact mul_le_mul_of_nonneg_right hunit (zpow_pos two_pos _).le

theorem nearestExponent_le (hq : q ≠ 0) (hhigh : |q| < (2 : Rat) ^ (1023 : Int)) :
    nearestExponent q ≤ 1022 := by
  have hpower : (2 : Rat) ^ floorLog 2 |q| < (2 : Rat) ^ (1023 : Int) :=
    (pow_floorLog_le one_lt_two (abs_pos.mpr hq)).trans_lt hhigh
  have hexponent := (zpow_lt_zpow_iff_right₀ one_lt_two).mp hpower
  unfold nearestExponent
  rw [ratAbs_eq]
  omega

/-- Neither overflow nor underflow takes anything but precision from a rational in this range. -/
theorem exists_value?_nearest (hlow : (2 : Rat) ^ (-1074 : Int) ≤ |q|)
    (hhigh : |q| < (2 : Rat) ^ (1023 : Int)) :
    ∃ v, value? (nearest q) = some v ∧ v ≠ 0 ∧ (v < 0 ↔ q < 0) := by
  have hq : q ≠ 0 := abs_pos.mp ((zpow_pos two_pos _).trans_le hlow)
  have hpos := nearestSignificand_pos hlow
  have hle := nearestSignificand_le q
  have hexponent := nearestExponent_le hq hhigh
  obtain ⟨m, hm⟩ : ∃ m, (nearestExponent q + 1022).toNat * exponentPlace +
      (nearestSignificand q).toNat = m := ⟨_, rfl⟩
  have hmpos : 0 < m := by omega
  have hfinite : m < specialExponent * exponentPlace := by
    rw [exponentPlace_eq] at hm
    rw [specialExponent_eq, exponentPlace_eq]
    omega
  have hvalue := magnitudeValue_pos hmpos
  rw [nearest_eq hq, hm, Nat.min_eq_left hfinite.le, value?_ofMagnitude _ hfinite]
  refine ⟨_, rfl, ?_⟩
  by_cases hsign : q < 0
  · simp only [hsign, decide_true, if_true]
    exact ⟨neg_ne_zero.mpr hvalue.ne', iff_of_true (neg_neg_of_pos hvalue) trivial⟩
  · simp only [hsign, decide_false, Bool.false_eq_true, if_false]
    exact ⟨hvalue.ne', iff_of_false hvalue.le.not_gt not_false⟩

/-! ## The other sign -/

/-- The bits with the other sign: adding the sign bit flips it, as the carry is lost. -/
def opposite (bits : UInt64) : UInt64 :=
  bits + UInt64.ofNat signPlace

theorem value?_opposite (bits : UInt64) : value? (opposite bits) = (value? bits).map (- ·) := by
  have hword : bits.toNat < 18446744073709551616 := bits.toNat_lt
  have hsum : (opposite bits).toNat = (bits.toNat + signPlace) % 18446744073709551616 := by
    unfold opposite
    rw [UInt64.toNat_add]
    rfl
  have hunsigned : (opposite bits).toNat % signPlace = bits.toNat % signPlace := by
    rw [hsum, signPlace_eq]
    omega
  have hsign : (opposite bits).toNat < signPlace ↔ ¬ bits.toNat < signPlace := by
    rw [hsum, signPlace_eq]
    omega
  unfold value?
  simp only [hunsigned, hsign]
  split
  · rfl
  · by_cases h : bits.toNat < signPlace <;> simp [h]

end Binary64

end GiftQuiz
