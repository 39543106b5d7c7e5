import GiftQuiz.Proofs.Number.Nearest
import GiftQuiz.Proofs.Number.Numeral
import Mathlib.Analysis.SpecialFunctions.Log.Base

/-!
# Estimated orders of magnitude

How many places a numeral needs is a matter of the integer part of a logarithm, which jumps at the
powers of ten. A logarithm that is computed approximately may fall on the wrong side of one of them.
That does no harm to a numeral of at most seven digits: so near to a power of ten both numbers of
places give the power itself (`rounded_estimate`).
-/

namespace GiftQuiz

/-! ## The integer part of a logarithm -/

theorem floor_logb_eq {x : Rat} (hx : 0 < x) : ⌊Real.logb 10 x⌋ = floorLog 10 x := by
  have hx' : (0 : ℝ) < x := Rat.cast_pos.mpr hx
  have hbelow : ((((10 : Nat) : Rat) ^ floorLog 10 x : Rat) : ℝ) ≤ x :=
    Rat.cast_le.mpr (pow_floorLog_le (by decide) hx)
  have habove : (x : ℝ) < (((10 : Nat) : Rat) ^ (floorLog 10 x + 1) : Rat) :=
    Rat.cast_lt.mpr (lt_pow_floorLog_succ (by decide) x)
  push_cast at hbelow habove
  rw [Int.floor_eq_iff, Real.le_logb_iff_rpow_le (by norm_num) hx',
    Real.logb_lt_iff_lt_rpow (by norm_num) hx']
  constructor
  · rw [Real.rpow_intCast]
    exact hbelow
  · rw [← Int.cast_one, ← Int.cast_add, Real.rpow_intCast]
    exact habove

/-- Two numbers that are near to each other have one integer part, or are near to an integer and on
both sides of it. -/
theorem floor_eq_or_near {l m ε : ℝ} (h : |l - m| ≤ ε) (hε : ε < 1) :
    ⌊l⌋ = ⌊m⌋ ∨ ∃ k : Int, |m - k| ≤ ε ∧
      (⌊l⌋ = k - 1 ∧ ⌊m⌋ = k ∨ ⌊l⌋ = k ∧ ⌊m⌋ = k - 1) := by
  obtain ⟨hlow, hhigh⟩ := abs_le.mp h
  have hl : (⌊l⌋ : ℝ) ≤ l := Int.floor_le l
  have hl' : l < ⌊l⌋ + 1 := Int.lt_floor_add_one l
  have hm : (⌊m⌋ : ℝ) ≤ m := Int.floor_le m
  have hm' : m < ⌊m⌋ + 1 := Int.lt_floor_add_one m
  have hnear : ⌊l⌋ < ⌊m⌋ + 2 ∧ ⌊m⌋ < ⌊l⌋ + 2 := by
    constructor
    · have hlt : (⌊l⌋ : ℝ) < ⌊m⌋ + 2 := by linarith
      exact_mod_cast hlt
    · have hlt : (⌊m⌋ : ℝ) < ⌊l⌋ + 2 := by linarith
      exact_mod_cast hlt
  rcases lt_trichotomy ⌊l⌋ ⌊m⌋ with hlt | heq | hgt
  · have hstep : ⌊m⌋ = ⌊l⌋ + 1 := by omega
    have hcast : (⌊m⌋ : ℝ) = ⌊l⌋ + 1 := by exact_mod_cast hstep
    refine Or.inr ⟨⌊m⌋, ?_, Or.inl ⟨by omega, rfl⟩⟩
    rw [abs_of_nonneg (sub_nonneg.mpr hm)]
    linarith
  · exact Or.inl heq
  · have hstep : ⌊l⌋ = ⌊m⌋ + 1 := by omega
    have hcast : (⌊l⌋ : ℝ) = ⌊m⌋ + 1 := by exact_mod_cast hstep
    refine Or.inr ⟨⌊l⌋, ?_, Or.inr ⟨rfl, by omega⟩⟩
    rw [abs_of_nonpos (by linarith)]
    linarith

/-- Where the logarithm is near to an integer, the number is near to the power. -/
theorem abs_div_pow_sub_one_le {x : Rat} (hx : 0 < x) {k : Int}
    (h : |Real.logb 10 x - k| ≤ 1 / 10 ^ 9) : |x / 10 ^ k - 1| ≤ 2 / 10 ^ 8 := by
  have hx' : (0 : ℝ) < x := Rat.cast_pos.mpr hx
  have hpower : (x : ℝ) / 10 ^ k = Real.exp (Real.log 10 * (Real.logb 10 x - k)) := by
    rw [← Real.rpow_def_of_pos (by norm_num), Real.rpow_sub (by norm_num),
      Real.rpow_logb (by norm_num) (by norm_num) hx', Real.rpow_intCast]
  have hlog : Real.log 10 ≤ 9 := by
    have hle := Real.log_le_sub_one_of_pos (show (0 : ℝ) < 10 by norm_num)
    linarith
  have hlog' : 0 ≤ Real.log 10 := Real.log_nonneg (by norm_num)
  have hexponent : |Real.log 10 * (Real.logb 10 x - k)| ≤ 1 / 10 ^ 8 := by
    rw [abs_mul, abs_of_nonneg hlog']
    calc Real.log 10 * |Real.logb 10 x - k| ≤ 9 * (1 / 10 ^ 9) :=
          mul_le_mul hlog h (abs_nonneg _) (by norm_num)
      _ ≤ 1 / 10 ^ 8 := by norm_num
  have hexp := Real.abs_exp_sub_one_le (hexponent.trans (by norm_num))
  rw [← hpower] at hexp
  have hreal : ((|x / 10 ^ k - 1| : Rat) : ℝ) ≤ (2 / 10 ^ 8 : Rat) := by
    push_cast
    linarith
  exact Rat.cast_le.mp hreal

/-! ## Numerals near a power of ten -/

/-- Rounding a number near to a power of ten gives the power, up to the seventh digit. -/
theorem roundHalfEven_of_near {v : Rat} {k : Int} (h : |(|v| : Rat) / 10 ^ k - 1| ≤ 2 / 10 ^ 8)
    {n : Nat} (hn : n ≤ 7) :
    roundHalfEven (v * 10 ^ (n - k : Int)) = if v < 0 then -10 ^ n else 10 ^ n := by
  have hscale : |v| * 10 ^ (n - k : Int) - 10 ^ n = (|v| / 10 ^ k - 1) * 10 ^ n := by
    rw [zpow_sub₀ (by norm_num), zpow_natCast]
    ring
  have hpower : (10 : Rat) ^ n ≤ 10 ^ 7 := pow_le_pow_right₀ (by norm_num) hn
  have hnear : |(10 : Rat) ^ n - |v| * 10 ^ (n - k : Int)| < 1 / 2 := by
    rw [abs_sub_comm, hscale, abs_mul, abs_of_pos (pow_pos (by norm_num : (0 : Rat) < 10) n)]
    calc |(|v| : Rat) / 10 ^ k - 1| * 10 ^ n ≤ 2 / 10 ^ 8 * 10 ^ 7 :=
          mul_le_mul h hpower (by positivity) (by norm_num)
      _ < 1 / 2 := by norm_num
  have hround : roundHalfEven (|v| * 10 ^ (n - k : Int)) = 10 ^ n := by
    refine eq_roundHalfEven ?_ fun htie => ?_
    · push_cast
      exact hnear.le
    · push_cast at htie
      exact absurd htie hnear.ne
  by_cases hv : v < 0
  · rw [if_pos hv, ← hround, ← roundHalfEven_neg, abs_of_neg hv, neg_mul, neg_neg]
  · rw [if_neg hv, ← hround, abs_of_nonneg (not_lt.mp hv)]

namespace Decimal

/-- A rational rounded to a number of places, without zeros at the end of its fraction. -/
def rounded (places : Nat) (q : Rat) : Decimal :=
  (ofScaled (roundHalfEven (q * 10 ^ places)) places).shorten

theorem significant_eq_rounded (digits : Nat) (q : Rat) :
    significant digits q = rounded (placesFor digits q) q := by
  unfold rounded
  rw [← zpow_natCast]
  rfl

/-- Near to a power of ten the places for the power and for the one below give the same numeral. -/
theorem rounded_of_near {v : Rat} {k : Int} (h : |(|v| : Rat) / 10 ^ k - 1| ≤ 2 / 10 ^ 8)
    {digits : Nat} (hpos : 0 < digits) (hdigits : digits ≤ 7) :
    rounded (digits - 1 - k : Int).toNat v = rounded (digits - 1 - (k - 1) : Int).toNat v := by
  obtain ⟨n, rfl⟩ := Nat.exists_eq_succ_of_ne_zero hpos.ne'
  by_cases hk : (n : Int) < k
  · -- There are no places either way.
    have hnone :
        ((n + 1 : Nat) - 1 - k : Int).toNat = ((n + 1 : Nat) - 1 - (k - 1) : Int).toNat := by
      omega
    rw [hnone]
  · obtain ⟨places, hplaces⟩ : ∃ places : Nat, (places : Int) = n - k :=
      ⟨(n - k).toNat, Int.toNat_of_nonneg (by omega)⟩
    have hfew : ((n + 1 : Nat) - 1 - k : Int).toNat = places := by omega
    have hmany : ((n + 1 : Nat) - 1 - (k - 1) : Int).toNat = places + 1 := by omega
    have hshort := roundHalfEven_of_near h (n := n) (by omega)
    have hlong := roundHalfEven_of_near h hdigits
    have hexponent : ((n + 1 : Nat) - k : Int) = (places + 1 : Nat) := by omega
    have htimes : (if v < 0 then -10 ^ (n + 1) else 10 ^ (n + 1) : Int) =
        (if v < 0 then -10 ^ n else 10 ^ n) * 10 := by
      split <;> ring
    rw [← hplaces, zpow_natCast] at hshort
    rw [hexponent, zpow_natCast, htimes] at hlong
    rw [hfew, hmany, rounded, rounded, hshort, hlong, shorten_ofScaled_mul_ten]

/-- An estimate of the logarithm will do, even if it is on the wrong side of a power of ten. -/
theorem rounded_estimate {v : Rat} (hv : v ≠ 0) {l : ℝ}
    (h : |l - Real.logb 10 (|v| : Rat)| ≤ 1 / 10 ^ 9) {digits : Nat} (hdigits : 0 < digits)
    (hseven : digits ≤ 7) : rounded (digits - 1 - ⌊l⌋).toNat v = significant digits v := by
  have hpos : 0 < |v| := abs_pos.mpr hv
  have hexact : significant digits v =
      rounded (digits - 1 - ⌊Real.logb 10 (|v| : Rat)⌋).toNat v := by
    rw [significant_eq_rounded, floor_logb_eq hpos, placesFor, ratAbs_eq]
  rw [hexact]
  rcases floor_eq_or_near h (by norm_num) with heq | ⟨k, hk, ⟨hl, hm⟩ | ⟨hl, hm⟩⟩
  · rw [heq]
  · rw [hl, hm]
    exact (rounded_of_near (abs_div_pow_sub_one_le hpos hk) hdigits hseven).symm
  · rw [hl, hm]
    exact rounded_of_near (abs_div_pow_sub_one_le hpos hk) hdigits hseven

end Decimal

end GiftQuiz
