import GiftQuiz.Proofs.Number.Decimal
import GiftQuiz.Text.Split

/-!
# Reading numerals

`Decimal.read?` reads plain decimal numerals and nothing else: an optional minus sign, digits, and
then perhaps a point and digits of which the last is not zero. A short numeral is read back from its
text (`read?_text`), so its text is a plain numeral of its value.
-/

namespace GiftQuiz

namespace Decimal

/-- What stands behind the whole part: nothing, or a point and digits that do not end in zero. -/
def readFraction? : List Char → Option (List Nat)
  | [] => some []
  | point :: digits =>
    if point = '.' ∧ digits ≠ [] ∧ digits.all Char.isDigit ∧
        digits.getLast? ≠ some '0' then
      some (digits.map fun c => c.toNat - '0'.toNat)
    else none

/-- The numeral that a text is: without an exponent, a plus sign or zeros at the end. -/
def read? (s : List Char) : Option Decimal :=
  let unsigned := if s.head? = some '-' then s.tail else s
  let whole := unsigned.takeWhile Char.isDigit
  if whole = [] then none
  else
    (readFraction? (unsigned.dropWhile Char.isDigit)).map fun fraction =>
      { negative := s.head? = some '-', whole := Nat.ofDigitChars 10 whole 0, fraction }

/-- The fraction has digits only, and none at its end is superfluous. -/
structure IsShort (d : Decimal) : Prop where
  digits : ∀ n ∈ d.fraction, n < 10
  last : d.fraction.getLast? ≠ some 0

/-! ## Short numerals -/

theorem lastDigits_append (places n : Nat) (digits : List Nat) :
    lastDigits places n digits = lastDigits places n [] ++ digits := by
  induction places generalizing n digits with
  | zero => rfl
  | succ places ih =>
      rw [lastDigits, lastDigits, ih (n / 10) (n % 10 :: digits), ih (n / 10) [n % 10],
        List.append_assoc, List.singleton_append]

theorem lt_of_mem_lastDigits {places n : Nat} {digits : List Nat} (h : ∀ k ∈ digits, k < 10) :
    ∀ k ∈ lastDigits places n digits, k < 10 := by
  induction places generalizing n digits with
  | zero => exact h
  | succ places ih =>
      refine ih fun k hk => ?_
      rcases List.mem_cons.mp hk with rfl | hk
      · exact Nat.mod_lt n (by decide)
      · exact h k hk

theorem isShort_shorten_ofScaled (n : Int) (places : Nat) :
    (ofScaled n places).shorten.IsShort where
  digits := by
    intro k hk
    have hmem : k ∈ (ofScaled n places).fraction :=
      (List.rdropWhile_prefix (· == 0) (ofScaled n places).fraction).sublist.mem hk
    exact lt_of_mem_lastDigits (by simp) k hmem
  last := by
    intro hlast
    obtain ⟨hne, heq⟩ := List.mem_getLast?_eq_getLast hlast
    have hzero := List.rdropWhile_last_not (· == 0) (ofScaled n places).fraction hne
    exact hzero (beq_iff_eq.mpr heq.symm)

/-- One more place makes no difference where it holds a zero. -/
theorem shorten_ofScaled_mul_ten (n : Int) (places : Nat) :
    (ofScaled (n * 10) (places + 1)).shorten = (ofScaled n places).shorten := by
  have hwhole : (n * 10).natAbs / 10 ^ (places + 1) = n.natAbs / 10 ^ places := by
    rw [Int.natAbs_mul, pow_succ]
    exact Nat.mul_div_mul_right _ _ (by decide)
  have hfraction :
      lastDigits (places + 1) (n * 10).natAbs [] = lastDigits places n.natAbs [] ++ [0] := by
    rw [Int.natAbs_mul, lastDigits, lastDigits_append]
    show lastDigits places (n.natAbs * 10 / 10) [] ++ [n.natAbs * 10 % 10] = _
    rw [Nat.mul_div_cancel _ (by decide), Nat.mul_mod_left]
  have hnegative : decide (n * 10 < 0) = decide (n < 0) := by
    rw [decide_eq_decide]
    omega
  show Decimal.mk (decide (n * 10 < 0)) ((n * 10).natAbs / 10 ^ (places + 1))
      ((lastDigits (places + 1) (n * 10).natAbs []).rdropWhile (· == 0)) =
    Decimal.mk (decide (n < 0)) (n.natAbs / 10 ^ places)
      ((lastDigits places n.natAbs []).rdropWhile (· == 0))
  rw [hnegative, hwhole, hfraction, List.rdropWhile_concat_pos _ _ _ rfl]

/-! ## Reading back -/

theorem isDigit_digitChar {n : Nat} (h : n < 10) : n.digitChar.isDigit = true := by
  revert n
  decide

theorem toNat_digitChar {n : Nat} (h : n < 10) : n.digitChar.toNat - '0'.toNat = n := by
  revert n
  decide

theorem readFraction?_digits {digits : List Nat} (hdigits : ∀ n ∈ digits, n < 10)
    (hlast : digits.getLast? ≠ some 0) :
    readFraction? (if digits.isEmpty then [] else '.' :: digits.map Nat.digitChar) =
      some digits := by
  cases hempty : digits.isEmpty with
  | true =>
      rw [List.isEmpty_iff.mp hempty]
      rfl
  | false =>
      have hne : digits.map Nat.digitChar ≠ [] := by
        rw [Ne, List.map_eq_nil_iff]
        rintro rfl
        cases hempty
      have hall : ∀ c ∈ digits.map Nat.digitChar, c.isDigit = true := by
        intro c hc
        obtain ⟨n, hn, rfl⟩ := List.mem_map.mp hc
        exact isDigit_digitChar (hdigits n hn)
      have hzero : (digits.map Nat.digitChar).getLast? ≠ some '0' := by
        intro h
        rw [List.getLast?_map] at h
        obtain ⟨n, hn, hchar⟩ := Option.map_eq_some_iff.mp h
        have hvalue := toNat_digitChar (hdigits n (List.mem_of_getLast? hn))
        rw [hchar] at hvalue
        rw [hn, ← hvalue] at hlast
        exact hlast rfl
      have hread : (digits.map Nat.digitChar).map (fun c => c.toNat - '0'.toNat) = digits := by
        rw [List.map_map]
        refine (List.map_congr_left fun n hn => ?_).trans (List.map_id digits)
        exact toNat_digitChar (hdigits n hn)
      rw [if_neg Bool.false_ne_true, readFraction?,
        if_pos ⟨rfl, hne, List.all_eq_true.mpr hall, hzero⟩, hread]

/-- A short numeral is read back from its text. -/
theorem read?_text {d : Decimal} (h : d.IsShort) : read? d.text.toList = some d := by
  obtain ⟨tail, htail⟩ : ∃ tail, tail =
      if d.fraction.isEmpty then [] else '.' :: d.fraction.map Nat.digitChar := ⟨_, rfl⟩
  have htext := toList_text d
  rw [← htail] at htext
  have hsign := head?_text d
  have hunsigned : (if d.text.toList.head? = some '-' then d.text.toList.tail else d.text.toList) =
      Nat.toDigits 10 d.whole ++ tail := by
    cases hnegative : d.negative with
    | true =>
        rw [if_pos (hsign.mpr hnegative), htext, hnegative]
        rfl
    | false =>
        rw [if_neg fun hminus => Bool.false_ne_true (hnegative.symm.trans (hsign.mp hminus)), htext,
          hnegative]
        rfl
  have hdigits : ∀ c ∈ Nat.toDigits 10 d.whole, c.isDigit = true := Digit.isDigit_of_mem_toDigits
  have hstop : ∀ c, tail.head? = some c → c.isDigit = false := by
    intro c hc
    rw [htail] at hc
    split at hc
    · cases hc
    · cases hc
      rfl
  have hfraction : readFraction? tail = some d.fraction := by
    rw [htail]
    exact readFraction?_digits h.digits h.last
  unfold read?
  simp only [hunsigned, takeWhile_append_eq hdigits hstop, dropWhile_append_eq hdigits hstop]
  rw [if_neg Nat.toDigits_ne_nil, hfraction, Option.map_some, Nat.ofDigitChars_ten_toDigits]
  simp [hsign]

example : read? "-12.5".toList = some ⟨true, 12, [5]⟩ ∧ read? "12.50".toList = none := by
  decide +kernel

end Decimal

end GiftQuiz
