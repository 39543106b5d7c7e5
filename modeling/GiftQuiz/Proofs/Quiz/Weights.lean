import GiftQuiz.Proofs.Number.Binary64
import GiftQuiz.Proofs.Number.Decimal
import GiftQuiz.Quiz.Weight

/-!
# Written weights

A weight is a share of the credit in percent, as the nearest floating-point number with seven
digits. It is written with a sign, digits and a point only (`Weight.forall_mem_text`). A share is
far from the least and the greatest of these numbers as long as a machine word counts the choices,
so that a weight has the sign of its share and is not zero (`Weight.sign_text`).
-/

namespace GiftQuiz

namespace Weight

theorem forall_mem_text {P : Char → Prop} (minus : P '-') (point : P '.')
    (digit : ∀ c, c.isDigit = true → P c) (digitChar : ∀ n : Nat, P n.digitChar) (share : Rat) :
    ∀ c ∈ (text share).toList, P c := by
  have hzero : ∀ c ∈ "0".toList, P c := by
    intro c hc
    rw [List.mem_singleton.mp hc]
    exact digit '0' rfl
  unfold text percentageOfBits
  split
  · unfold percentage
    split
    · exact hzero
    · exact Decimal.forall_mem_text minus point digit digitChar _
  · exact hzero

theorem not_mem_text {c : Char} (minus : '-' ≠ c) (point : '.' ≠ c) (digit : c.isDigit = false)
    (digitChar : ∀ n : Nat, n.digitChar ≠ c) (share : Rat) : c ∉ (text share).toList := by
  intro hc
  refine forall_mem_text (P := (· ≠ c)) minus point ?_ digitChar share c hc rfl
  rintro _ hdigit rfl
  rw [digit] at hdigit
  cases hdigit

/-- The written share has a minus sign exactly if it is negative, and is not zero. -/
theorem sign_text {share : Rat} (hlow : (2 : Rat) ^ (-1074 : Int) ≤ |share|)
    (hhigh : |share| < (2 : Rat) ^ (1023 : Int)) :
    ((text share).toList.head? = some '-' ↔ share < 0) ∧ text share ≠ "0" ∧
      text share ≠ "-0" := by
  obtain ⟨v, hv, hne, hsign⟩ := Binary64.exists_value?_nearest hlow hhigh
  have htext : text share = (Decimal.significant significantDigits v).text := by
    unfold text percentageOfBits
    rw [hv]
    exact if_neg hne
  have hdigits : 0 < significantDigits := by decide
  have hvalue := Decimal.value_significant_ne_zero hdigits hne
  rw [htext]
  refine ⟨?_, fun h => hvalue (Decimal.value_eq_zero_of_text (Or.inl h)),
    fun h => hvalue (Decimal.value_eq_zero_of_text (Or.inr h))⟩
  rw [Decimal.head?_text, Decimal.negative_significant hdigits hne, decide_eq_true_iff, hsign]

/-- One of fewer than 2^64 equal parts of the credit is in the range of the numbers. -/
theorem share_bounds {share : Rat} {n : Nat} (habs : |share| = 100 / n) (hpos : 0 < n)
    (hn : n < UInt64.size) :
    (2 : Rat) ^ (-1074 : Int) ≤ |share| ∧ |share| < (2 : Rat) ^ (1023 : Int) := by
  have hn' : (n : Rat) ≤ 2 ^ 64 := by exact_mod_cast hn.le
  have hpos' : (1 : Rat) ≤ n := by exact_mod_cast hpos
  rw [habs]
  constructor
  · calc (2 : Rat) ^ (-1074 : Int) ≤ (2 : Rat) ^ (-64 : Int) :=
          zpow_le_zpow_right₀ one_le_two (by decide)
      _ ≤ 100 / n := by
          rw [le_div_iff₀ (by linarith)]
          calc (2 : Rat) ^ (-64 : Int) * n ≤ (2 : Rat) ^ (-64 : Int) * 2 ^ 64 :=
                mul_le_mul_of_nonneg_left hn' (zpow_pos two_pos _).le
            _ ≤ 100 := by norm_num
  · calc (100 : Rat) / n ≤ 100 := div_le_self (by norm_num) hpos'
      _ < (2 : Rat) ^ (7 : Int) := by norm_num
      _ ≤ (2 : Rat) ^ (1023 : Int) := zpow_le_zpow_right₀ one_le_two (by decide)

end Weight

end GiftQuiz
