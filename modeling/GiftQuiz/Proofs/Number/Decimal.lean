import GiftQuiz.Number.Decimal
import GiftQuiz.Proofs.Number.Magnitude
import GiftQuiz.Text.Digit
import Mathlib.Data.List.DropRight
import Mathlib.Tactic.FieldSimp
import Mathlib.Tactic.Ring

/-!
# Decimal numerals and their values

A numeral with all its places has the value that its digits make, and dropping zeros at the end
leaves it (`value_ofScaled`, `value_shorten`). A rational that is rounded to significant digits
keeps at least the first of them, so it keeps its sign and is not zero (`negative_significant`,
`value_significant_ne_zero`).

A written numeral has nothing in it but a sign, digits and a point (`forall_mem_text`), begins with
the sign of the numeral (`head?_text`), and is written as zero only if that is its value
(`value_eq_zero_of_text`).
-/

namespace GiftQuiz

namespace Decimal

/-! ## Values -/

def fractionValue (digits : List Nat) : Rat :=
  digits.foldr (fun (digit : Nat) (rest : Rat) => (digit + rest) / 10) 0

theorem value_eq (d : Decimal) :
    d.value = (if d.negative then -1 else 1) * (d.whole + fractionValue d.fraction) := by
  show (if d.negative then -(_ : Rat) else _) = _
  cases d.negative <;> simp [fractionValue]

theorem fractionValue_lastDigits (places n : Nat) (digits : List Nat) :
    fractionValue (lastDigits places n digits) =
      ((n % 10 ^ places : Nat) + fractionValue digits) / 10 ^ places := by
  induction places generalizing n digits with
  | zero => simp [lastDigits, Nat.mod_one]
  | succ places ih =>
      have hsplit : n % 10 ^ (places + 1) = n % 10 + 10 * (n / 10 % 10 ^ places) := by
        rw [pow_succ', Nat.mod_mul]
      have hdigits : fractionValue (n % 10 :: digits) =
          ((n % 10 : Nat) + fractionValue digits) / 10 := rfl
      rw [lastDigits, ih, hdigits, hsplit]
      push_cast
      field_simp
      ring

theorem value_ofScaled (n : Int) (places : Nat) :
    (ofScaled n places).value = n / 10 ^ places := by
  have hdivision : (n.natAbs : Rat) =
      10 ^ places * (n.natAbs / 10 ^ places : Nat) + (n.natAbs % 10 ^ places : Nat) := by
    exact_mod_cast (Nat.div_add_mod n.natAbs (10 ^ places)).symm
  have hmagnitude : ((n.natAbs / 10 ^ places : Nat) : Rat) +
      fractionValue (lastDigits places n.natAbs []) = n.natAbs / 10 ^ places := by
    rw [fractionValue_lastDigits, hdivision]
    simp only [fractionValue, List.foldr_nil]
    field_simp
    ring
  have hsign : (if decide (n < 0) then -1 else 1) * (n.natAbs : Rat) = n := by
    rw [Nat.cast_natAbs]
    by_cases hn : n < 0
    · simp [hn, abs_of_neg hn]
    · simp [hn, abs_of_nonneg (not_lt.mp hn)]
  rw [value_eq]
  show (if decide (n < 0) then -1 else 1) * (((n.natAbs / 10 ^ places : Nat) : Rat) +
    fractionValue (lastDigits places n.natAbs [])) = _
  rw [hmagnitude, mul_div_assoc', hsign]

theorem fractionValue_rdropWhile (digits : List Nat) :
    fractionValue (digits.rdropWhile (· == 0)) = fractionValue digits := by
  induction digits using List.reverseRecOn with
  | nil => rfl
  | append_singleton digits digit ih =>
      rw [List.rdropWhile_concat]
      split
      · rename_i hzero
        rw [ih, beq_iff_eq.mp hzero]
        simp [fractionValue]
      · rfl

theorem value_shorten (d : Decimal) : d.shorten.value = d.value := by
  rw [value_eq, value_eq]
  show _ * (_ + fractionValue (d.fraction.rdropWhile (· == 0))) = _
  rw [fractionValue_rdropWhile]
  rfl

/-! ## Rounding to significant digits -/

/-- A rational as an integer of its last place. -/
def scaled (digits : Nat) (q : Rat) : Int :=
  roundHalfEven (q * (10 : Rat) ^ (placesFor digits q : Int))

theorem value_significant (digits : Nat) (q : Rat) :
    (significant digits q).value = scaled digits q / 10 ^ placesFor digits q := by
  rw [significant, value_shorten, value_ofScaled]
  rfl

/-- The places that are kept take the first digit in front of the point. -/
theorem one_le_abs_mul {digits : Nat} (hdigits : 0 < digits) {q : Rat} (hq : q ≠ 0) :
    1 ≤ |q| * (10 : Rat) ^ (placesFor digits q : Int) := by
  have hpower : (10 : Rat) ^ floorLog 10 |q| ≤ |q| :=
    pow_floorLog_le (by decide) (abs_pos.mpr hq)
  have hplaces : 0 ≤ floorLog 10 |q| + (placesFor digits q : Int) := by
    unfold placesFor
    rw [ratAbs_eq]
    omega
  calc (1 : Rat) ≤ (10 : Rat) ^ (floorLog 10 |q| + (placesFor digits q : Int)) :=
        one_le_zpow₀ (by norm_num) hplaces
    _ = (10 : Rat) ^ floorLog 10 |q| * (10 : Rat) ^ (placesFor digits q : Int) :=
        zpow_add₀ (by norm_num) _ _
    _ ≤ |q| * (10 : Rat) ^ (placesFor digits q : Int) :=
        mul_le_mul_of_nonneg_right hpower (zpow_pos (by norm_num) _).le

theorem scaled_cases {digits : Nat} (hdigits : 0 < digits) {q : Rat} (hq : q ≠ 0) :
    (q < 0 ∧ scaled digits q < 0) ∨ (0 < q ∧ 0 < scaled digits q) := by
  have hone := one_le_abs_mul hdigits hq
  rcases lt_or_gt_of_ne hq with hneg | hpos
  · left
    rw [abs_of_neg hneg] at hone
    refine ⟨hneg, Int.lt_of_le_of_lt (roundHalfEven_le (n := -1) ?_) (by decide)⟩
    push_cast
    linarith
  · right
    rw [abs_of_pos hpos] at hone
    refine ⟨hpos, Int.lt_of_lt_of_le (by decide) (le_roundHalfEven (n := 1) ?_)⟩
    exact_mod_cast hone

theorem negative_significant {digits : Nat} (hdigits : 0 < digits) {q : Rat} (hq : q ≠ 0) :
    (significant digits q).negative = decide (q < 0) := by
  show decide (scaled digits q < 0) = decide (q < 0)
  rcases scaled_cases hdigits hq with ⟨hneg, hscaled⟩ | ⟨hpos, hscaled⟩
  · rw [decide_eq_true hneg, decide_eq_true hscaled]
  · rw [decide_eq_false hpos.not_gt, decide_eq_false (by omega)]

theorem value_significant_ne_zero {digits : Nat} (hdigits : 0 < digits) {q : Rat} (hq : q ≠ 0) :
    (significant digits q).value ≠ 0 := by
  have hscaled : scaled digits q ≠ 0 := by
    rcases scaled_cases hdigits hq with ⟨-, h⟩ | ⟨-, h⟩ <;> omega
  rw [value_significant]
  exact div_ne_zero (Int.cast_ne_zero.mpr hscaled) (pow_ne_zero _ (by norm_num))

/-! ## Written numerals -/

theorem toList_text (d : Decimal) :
    d.text.toList = (if d.negative then ['-'] else []) ++ Nat.toDigits 10 d.whole ++
      (if d.fraction.isEmpty then [] else '.' :: d.fraction.map Nat.digitChar) := by
  unfold text
  rw [String.toList_append, String.toList_append, Nat.toString_eq_repr, Nat.toList_repr]
  cases d.negative <;> cases d.fraction <;> simp

theorem forall_mem_text {P : Char → Prop} (minus : P '-') (point : P '.')
    (digit : ∀ c, c.isDigit = true → P c) (digitChar : ∀ n : Nat, P n.digitChar) (d : Decimal) :
    ∀ c ∈ d.text.toList, P c := by
  intro c hc
  rw [toList_text, List.mem_append, List.mem_append] at hc
  rcases hc with (hsign | hwhole) | hfraction
  · split at hsign
    · rw [List.mem_singleton.mp hsign]
      exact minus
    · cases hsign
  · exact digit c (Digit.isDigit_of_mem_toDigits c hwhole)
  · split at hfraction
    · cases hfraction
    · rcases List.mem_cons.mp hfraction with rfl | hdigit
      · exact point
      · obtain ⟨n, -, rfl⟩ := List.mem_map.mp hdigit
        exact digitChar n

/-- A numeral begins with a minus sign exactly if it is negative. -/
theorem head?_text (d : Decimal) : d.text.toList.head? = some '-' ↔ d.negative = true := by
  rw [toList_text]
  cases d.negative with
  | true => simp
  | false =>
      cases hwhole : Nat.toDigits 10 d.whole with
      | nil => exact absurd hwhole Nat.toDigits_ne_nil
      | cons c digits =>
          have hdigit : c.isDigit = true := by
            refine Digit.isDigit_of_mem_toDigits (n := d.whole) c ?_
            rw [hwhole]
            exact List.mem_cons_self ..
          have hminus : c ≠ '-' := by
            rintro rfl
            cases hdigit
          simp [hminus]

/-- Only zero is written as one digit zero. -/
theorem value_eq_zero_of_text {d : Decimal} (h : d.text = "0" ∨ d.text = "-0") : d.value = 0 := by
  have hchars : d.text.toList = ['0'] ∨ d.text.toList = ['-', '0'] :=
    h.imp (congrArg String.toList) (congrArg String.toList)
  rw [toList_text] at hchars
  have hfraction : d.fraction = [] := by
    by_contra hne
    have hempty : d.fraction.isEmpty = false := by simpa using hne
    rw [hempty, if_neg Bool.false_ne_true] at hchars
    have hpoint := List.mem_append_right ((if d.negative then ['-'] else []) ++
      Nat.toDigits 10 d.whole) (List.mem_cons_self (a := '.') (l := d.fraction.map Nat.digitChar))
    rcases hchars with hchars | hchars <;> rw [hchars] at hpoint <;> revert hpoint <;> decide
  have hwhole : d.whole = 0 := by
    have hdigits : Nat.toDigits 10 d.whole = ['0'] := by
      rw [hfraction] at hchars
      cases hnegative : d.negative with
      | true => simpa [hnegative] using hchars
      | false =>
          rcases hchars with hchars | hchars
          · simpa [hnegative] using hchars
          · have hminus : '-' ∈ Nat.toDigits 10 d.whole := by
              have : Nat.toDigits 10 d.whole = ['-', '0'] := by simpa [hnegative] using hchars
              simp [this]
            cases Digit.isDigit_of_mem_toDigits _ hminus
    rw [← Nat.ofDigitChars_ten_toDigits (n := d.whole), hdigits]
    rfl
  rw [value_eq, hwhole, hfraction]
  simp [fractionValue]

end Decimal

end GiftQuiz
