import GiftQuiz.Number.Magnitude
import Mathlib.Data.Int.Log
import Mathlib.Data.Rat.Floor
import Mathlib.Tactic.Linarith

/-!
# Orders of magnitude and the nearest integer

`floorLog` is the logarithm of the library for integers, so a positive rational lies between the
power that it gives and the next one (`pow_floorLog_le`, `lt_pow_floorLog_succ`). `roundHalfEven`
stays between the same integers as the number that is rounded (`le_roundHalfEven`,
`roundHalfEven_le`), which is all that signs and bounds of rounded numbers need.
-/

namespace GiftQuiz

variable {b : Nat} {q : Rat}

theorem ratAbs_eq (q : Rat) : q.abs = |q| := by
  unfold Rat.abs
  split_ifs with h
  · exact (abs_of_nonneg h).symm
  · exact (abs_of_neg (not_le.mp h)).symm

/-! ## Logarithms -/

theorem natLog_eq (hb : 1 < b) (n : Nat) : natLog b n = Nat.log b n := by
  induction n using Nat.strong_induction_on with
  | _ n ih =>
      rw [natLog]
      by_cases hn : b ≤ n
      · have hsmaller : n / b < n := Nat.div_lt_self (by omega) hb
        rw [dif_pos ⟨hb, hn⟩, ih _ hsmaller, Nat.log_of_one_lt_of_le hb hn]
      · rw [dif_neg fun h => hn h.2, Nat.log_of_lt (by omega)]

/-- The least power that reaches a number is the first one above its predecessor. -/
theorem natCeilLog_le_iff (hb : 1 < b) (n k : Nat) : natCeilLog b n ≤ k ↔ n ≤ b ^ k := by
  unfold natCeilLog
  by_cases hn : n ≤ 1
  · rw [if_pos hn]
    have hpow : 0 < b ^ k := Nat.pow_pos (by omega)
    exact iff_of_true (Nat.zero_le k) (by omega)
  · rw [if_neg hn, natLog_eq hb, Nat.add_one_le_iff, Nat.log_lt_iff_lt_pow hb (by omega)]
    omega

theorem natCeilLog_eq (hb : 1 < b) (n : Nat) : natCeilLog b n = Nat.clog b n :=
  eq_of_forall_ge_iff fun k => by rw [natCeilLog_le_iff hb, Nat.clog_le_iff_le_pow hb]

theorem floorLog_eq (hb : 1 < b) (q : Rat) : floorLog b q = Int.log b q := by
  have hfloor : q.floor.toNat = ⌊q⌋₊ := rfl
  have hceil : q⁻¹.ceil.toNat = ⌈q⁻¹⌉₊ := by
    rw [Rat.ceil_eq_neg_floor_neg]
    rfl
  unfold floorLog Int.log
  rw [natLog_eq hb, natCeilLog_eq hb, hfloor, hceil]

theorem pow_floorLog_le (hb : 1 < b) (hq : 0 < q) : (b : Rat) ^ floorLog b q ≤ q := by
  rw [floorLog_eq hb]
  exact Int.zpow_log_le_self hb hq

theorem lt_pow_floorLog_succ (hb : 1 < b) (q : Rat) : q < (b : Rat) ^ (floorLog b q + 1) := by
  rw [floorLog_eq hb]
  exact Int.lt_zpow_succ_log_self hb q

/-! ## The nearest integer -/

/-- The nearest integer is one of the two neighbours, and at most one half away. -/
theorem roundHalfEven_cases (q : Rat) :
    (roundHalfEven q = ⌊q⌋ ∧ q - ⌊q⌋ ≤ 1 / 2) ∨
      (roundHalfEven q = ⌊q⌋ + 1 ∧ 1 / 2 ≤ q - ⌊q⌋) := by
  have heq : roundHalfEven q = if q - ⌊q⌋ < 1 / 2 then ⌊q⌋ else if 1 / 2 < q - ⌊q⌋ then ⌊q⌋ + 1
      else if ⌊q⌋ % 2 = 0 then ⌊q⌋ else ⌊q⌋ + 1 := rfl
  rw [heq]
  split_ifs with hbelow habove heven
  · exact Or.inl ⟨rfl, hbelow.le⟩
  · exact Or.inr ⟨rfl, habove.le⟩
  · exact Or.inl ⟨rfl, not_lt.mp habove⟩
  · exact Or.inr ⟨rfl, not_lt.mp hbelow⟩

theorem le_roundHalfEven {n : Int} (h : (n : Rat) ≤ q) : n ≤ roundHalfEven q := by
  have hfloor : n ≤ ⌊q⌋ := Int.le_floor.mpr h
  rcases roundHalfEven_cases q with ⟨heq, -⟩ | ⟨heq, -⟩
  · rw [heq]
    exact hfloor
  · rw [heq]
    omega

theorem roundHalfEven_le {n : Int} (h : q ≤ n) : roundHalfEven q ≤ n := by
  rcases roundHalfEven_cases q with ⟨heq, -⟩ | ⟨heq, hexcess⟩
  · rw [heq]
    exact Int.floor_le_iff.mpr (by linarith)
  · -- The number is above its floor, so the next integer is at most `n`.
    have hbelow : (⌊q⌋ : Rat) < n := by linarith
    rw [heq]
    exact_mod_cast hbelow

end GiftQuiz
