import GiftQuiz.Proofs.Number.Binary64
import GiftQuiz.Proofs.Number.Estimate
import GiftQuiz.Quiz.Weight

/-!
# Written percentages

A percentage is written as a plain numeral, whose value is the nearest multiple of the power of ten
that its seventh digit stands for, or of one. So it is neither zero nor of the other sign, and a
change of sign puts a minus sign in front and changes nothing else. It makes no difference whether
that power comes from the exact logarithm or from an estimate (`percentageOfBits_nearest`).
-/

namespace GiftQuiz

namespace Decimal

theorem text_of_negative {d : Decimal} (h : d.negative = true) :
    d.text = "-" ++ { d with negative := false }.text := by
  unfold text
  rw [h]
  simp [String.append_assoc]

theorem significant_neg {digits : Nat} (hdigits : 0 < digits) {q : Rat} (hq : 0 < q) :
    significant digits (-q) = { significant digits q with negative := true } := by
  have hscaled : 0 < scaled digits q := by
    rcases scaled_cases hdigits hq.ne' with ⟨hneg, -⟩ | ⟨-, hpos⟩
    · exact absurd hneg hq.not_gt
    · exact hpos
  have hplaces : placesFor digits (-q) = placesFor digits q := by
    rw [placesFor, placesFor, ratAbs_eq, ratAbs_eq, abs_neg]
  have hopposite : scaled digits (-q) = -scaled digits q := by
    rw [scaled, scaled, hplaces, neg_mul, roundHalfEven_neg]
  have heq : ∀ q, significant digits q =
      (ofScaled (scaled digits q) (placesFor digits q)).shorten := fun _ => rfl
  rw [heq, heq, hplaces, hopposite, ofScaled, Int.natAbs_neg, decide_eq_true (by omega)]
  rfl

theorem value_significant_neg_iff {digits : Nat} (hdigits : 0 < digits) {q : Rat} (hq : q ≠ 0) :
    (significant digits q).value < 0 ↔ q < 0 := by
  have hpower : (0 : Rat) < 10 ^ placesFor digits q := pow_pos (by norm_num) _
  rw [value_significant, div_lt_iff₀ hpower, zero_mul, Int.cast_lt_zero]
  rcases scaled_cases hdigits hq with ⟨hneg, hscaled⟩ | ⟨hpos, hscaled⟩
  · exact iff_of_true hscaled hneg
  · exact iff_of_false (by omega) hpos.not_gt

end Decimal

namespace Weight

theorem percentageOfBits_eq {bits : UInt64} {v : Rat} (hv : Binary64.value? bits = some v)
    (hne : v ≠ 0) :
    percentageOfBits bits = (Decimal.significant significantDigits v).text := by
  unfold percentageOfBits
  rw [hv]
  exact if_neg hne

/-- For the opposite of a positive number there is a minus sign in front. -/
theorem percentageOfBits_opposite {bits : UInt64} {v : Rat} (hv : Binary64.value? bits = some v)
    (hpos : 0 < v) :
    Binary64.value? (Binary64.opposite bits) = some (-v) ∧
      percentageOfBits (Binary64.opposite bits) = "-" ++ percentageOfBits bits := by
  have hdigits : 0 < significantDigits := by decide
  have hopposite : Binary64.value? (Binary64.opposite bits) = some (-v) := by
    rw [Binary64.value?_opposite, hv]
    rfl
  have hsign : (Decimal.significant significantDigits v).negative = false := by
    rw [Decimal.negative_significant hdigits hpos.ne']
    exact decide_eq_false hpos.not_gt
  refine ⟨hopposite, ?_⟩
  rw [percentageOfBits_eq hopposite (neg_ne_zero.mpr hpos.ne'), percentageOfBits_eq hv hpos.ne',
    Decimal.significant_neg hdigits hpos, Decimal.text_of_negative rfl, ← hsign]

/-- The percentage of a finite number that is not zero is a plain numeral. Its value is the nearest
multiple of the power of ten six places behind the first digit of the number, or the nearest integer
if that place is in front of the point, and it has the sign of the number. For the other sign there
is a minus sign in front. An estimate of the logarithm gives the same numeral. -/
theorem percentageOfBits_nearest {bits : UInt64} {v : Rat} (hv : Binary64.value? bits = some v)
    (hne : v ≠ 0) :
    let places := (6 - ⌊Real.logb 10 (|v| : Rat)⌋).toNat
    (∃ d, Decimal.read? (percentageOfBits bits).toList = some d ∧
        IsNearestMultiple places v d.value ∧ |d.value - v| ≤ 1 / (2 * 10 ^ places) ∧
        d.value ≠ 0 ∧ (d.value < 0 ↔ v < 0)) ∧
      (0 < v → Binary64.value? (Binary64.opposite bits) = some (-v) ∧
        percentageOfBits (Binary64.opposite bits) = "-" ++ percentageOfBits bits) ∧
      ∀ l : ℝ, |l - Real.logb 10 (|v| : Rat)| ≤ 1 / 10 ^ 9 →
        (Decimal.rounded (6 - ⌊l⌋).toNat v).text = percentageOfBits bits := by
  intro places
  have hdigits : 0 < significantDigits := by decide
  have hplaces : Decimal.placesFor significantDigits v = places := by
    rw [Decimal.placesFor, ratAbs_eq, ← floor_logb_eq (abs_pos.mpr hne)]
    rfl
  have hvalue : (Decimal.significant significantDigits v).value =
      roundHalfEven (v * 10 ^ places) / 10 ^ places := by
    rw [Decimal.value_significant, Decimal.scaled, hplaces, zpow_natCast]
  have htext := percentageOfBits_eq hv hne
  refine ⟨⟨Decimal.significant significantDigits v, ?_, ?_, ?_, ?_, ?_⟩,
    percentageOfBits_opposite hv, fun l hl => ?_⟩
  · rw [htext]
    exact Decimal.read?_text (Decimal.isShort_shorten_ofScaled _ _)
  · rw [hvalue]
    exact isNearestMultiple_round places v
  · rw [hvalue]
    exact abs_round_div_sub_le places v
  · exact Decimal.value_significant_ne_zero hdigits hne
  · exact Decimal.value_significant_neg_iff hdigits hne
  · have hestimate := Decimal.rounded_estimate hne hl hdigits (by decide)
    rw [htext, ← hestimate]
    rfl

def belowMillion : Rat := 8589934591999999 / 8589934592

theorem abs_sub_logb_belowMillion : |6 - Real.logb 10 (|belowMillion| : Rat)| ≤ 1 / 10 ^ 9 := by
  have hcast : ((|belowMillion| : Rat) : ℝ) = 8589934591999999 / 8589934592 := by
    norm_num [belowMillion, abs_of_pos]
  have hquotient : Real.logb 10 (10 ^ 6 / (8589934591999999 / 8589934592)) =
      6 - Real.logb 10 (8589934591999999 / 8589934592) := by
    rw [Real.logb_div (by norm_num) (by norm_num), Real.logb_pow,
      Real.logb_self_eq_one (by norm_num)]
    norm_num
  have hbase : 1 / 2 ≤ Real.log 10 := by
    have hle := Real.one_sub_inv_le_log_of_pos (show (0 : ℝ) < 10 by norm_num)
    norm_num at hle
    linarith
  have hlog : Real.log (10 ^ 6 / (8589934591999999 / 8589934592)) ≤ 1 / 10 ^ 10 :=
    (Real.log_le_sub_one_of_pos (by norm_num)).trans (by norm_num)
  have hlog' : 0 ≤ Real.log (10 ^ 6 / (8589934591999999 / 8589934592)) :=
    Real.log_nonneg (by norm_num)
  rw [hcast, ← hquotient, Real.logb, abs_of_nonneg (div_nonneg hlog' (by linarith)),
    div_le_iff₀ (by linarith)]
  linarith

/-- It has six digits in front of the point, and is written as the million, with one place as with
none: an estimate of its logarithm may well be six. -/
theorem belowMillion_nearest :
    let bits : UInt64 := 4696837146684686335
    Binary64.value? bits = some belowMillion ∧ belowMillion ≠ 0 ∧ 0 < belowMillion ∧
      (∃ d, Decimal.read? (percentageOfBits bits).toList = some d ∧
        IsNearestMultiple 1 belowMillion d.value ∧ d.value = 1000000) ∧
      percentageOfBits (Binary64.opposite bits) = "-" ++ percentageOfBits bits ∧
      (Decimal.rounded 0 belowMillion).text = percentageOfBits bits := by
  intro bits
  have hvalue : Binary64.value? bits = some belowMillion := by decide +kernel
  have hpos : 0 < belowMillion := by norm_num [belowMillion]
  have hplaces : (6 - ⌊Real.logb 10 (|belowMillion| : Rat)⌋).toNat = 1 := by
    rw [floor_logb_eq (abs_pos.mpr hpos.ne'), abs_of_pos hpos]
    decide +kernel
  have hread : Decimal.read? (percentageOfBits bits).toList = some ⟨false, 1000000, []⟩ := by
    decide +kernel
  obtain ⟨⟨d, hd, hnearest, -⟩, hopposite, hestimate⟩ := percentageOfBits_nearest hvalue hpos.ne'
  obtain rfl : ⟨false, 1000000, []⟩ = d := Option.some.inj (hread.symm.trans hd)
  rw [hplaces] at hnearest
  refine ⟨hvalue, hpos.ne', hpos, ⟨_, hd, hnearest, ?_⟩, (hopposite hpos).2, ?_⟩
  · norm_num [Decimal.value]
  · have hsix := hestimate 6 abs_sub_logb_belowMillion
    norm_num at hsix
    exact hsix

end Weight

end GiftQuiz
