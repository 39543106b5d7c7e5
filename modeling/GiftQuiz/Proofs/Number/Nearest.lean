import GiftQuiz.Proofs.Number.Magnitude
import Mathlib.Algebra.Order.Round
import Mathlib.Tactic.FieldSimp

/-!
# The nearest multiple of a power of ten

`roundHalfEven` is the only integer that is at most one half away and even where it is exactly one
half away (`eq_roundHalfEven`), so it is nearest to the number that is rounded, and changes its sign
with it (`roundHalfEven_neg`).

`IsNearestMultiple` says the same of multiples of a negative power of ten, by their distances alone.
-/

namespace GiftQuiz

variable {q : Rat}

/-! ## The nearest integer -/

theorem abs_roundHalfEven_sub_le (q : Rat) : |(roundHalfEven q : Rat) - q| ≤ 1 / 2 := by
  have hbelow : (⌊q⌋ : Rat) ≤ q := Int.floor_le q
  have habove : q < ⌊q⌋ + 1 := Int.lt_floor_add_one q
  rw [abs_le]
  rcases roundHalfEven_cases q with ⟨heq, hexcess⟩ | ⟨heq, hexcess⟩
  · rw [heq]
    constructor <;> linarith
  · rw [heq]
    push_cast
    constructor <;> linarith

theorem even_roundHalfEven (h : |(roundHalfEven q : Rat) - q| = 1 / 2) :
    Even (roundHalfEven q) := by
  have hexcess : q - ⌊q⌋ = 1 / 2 := by
    rcases roundHalfEven_cases q with ⟨heq, -⟩ | ⟨heq, -⟩
    · rw [heq, abs_sub_comm, abs_of_nonneg (sub_nonneg.mpr (Int.floor_le q))] at h
      exact h
    · have habove : q < ⌊q⌋ + 1 := Int.lt_floor_add_one q
      rw [heq, abs_of_nonneg (by push_cast; linarith)] at h
      push_cast at h
      linarith
  have heq : roundHalfEven q = if ⌊q⌋ % 2 = 0 then ⌊q⌋ else ⌊q⌋ + 1 := by
    show (if q - ⌊q⌋ < 1 / 2 then ⌊q⌋ else if 1 / 2 < q - ⌊q⌋ then ⌊q⌋ + 1
      else if ⌊q⌋ % 2 = 0 then ⌊q⌋ else ⌊q⌋ + 1) = _
    rw [hexcess, if_neg (lt_irrefl _), if_neg (lt_irrefl _)]
  rw [heq, Int.even_iff]
  split <;> omega

/-- Two integers are not both nearer than one half. -/
theorem one_le_abs_sub_add {m n : Int} (h : m ≠ n) (q : Rat) :
    1 ≤ |(m : Rat) - q| + |(n : Rat) - q| := by
  have hapart : (1 : Rat) ≤ |(m : Rat) - n| := by
    exact_mod_cast Int.one_le_abs (sub_ne_zero.mpr h)
  calc (1 : Rat) ≤ |(m : Rat) - n| := hapart
    _ ≤ |(m : Rat) - q| + |q - n| := abs_sub_le _ _ _
    _ = |(m : Rat) - q| + |(n : Rat) - q| := by rw [abs_sub_comm q]

/-- No other integer is as near as one half and even if it is that far. -/
theorem eq_roundHalfEven {n : Int} (h : |(n : Rat) - q| ≤ 1 / 2)
    (heven : |(n : Rat) - q| = 1 / 2 → Even n) : roundHalfEven q = n := by
  by_contra hne
  have hround := abs_roundHalfEven_sub_le q
  have hsum := one_le_abs_sub_add hne q
  -- Both are exactly one half away, so both are even, and yet neighbours.
  have hfar : |(n : Rat) - q| = 1 / 2 := by linarith
  have hfar' : |(roundHalfEven q : Rat) - q| = 1 / 2 := by linarith
  have hnear : |((roundHalfEven q - n : Int) : Rat)| ≤ 1 := by
    push_cast
    have htriangle := abs_sub_le (roundHalfEven q : Rat) q n
    rw [abs_sub_comm q] at htriangle
    linarith
  have hnear' : |roundHalfEven q - n| ≤ 1 := by exact_mod_cast hnear
  obtain ⟨k, hk⟩ := (even_roundHalfEven hfar').sub (heven hfar)
  rw [abs_le] at hnear'
  omega

theorem roundHalfEven_neg (q : Rat) : roundHalfEven (-q) = -roundHalfEven q := by
  have hdistance : |((-roundHalfEven q : Int) : Rat) - -q| = |(roundHalfEven q : Rat) - q| := by
    rw [Int.cast_neg, neg_sub_neg, abs_sub_comm]
  refine eq_roundHalfEven ?_ fun h => ?_
  · rw [hdistance]
    exact abs_roundHalfEven_sub_le q
  · rw [hdistance] at h
    exact (even_roundHalfEven h).neg

theorem abs_roundHalfEven_sub_le_abs (q : Rat) (m : Int) :
    |(roundHalfEven q : Rat) - q| ≤ |(m : Rat) - q| := by
  by_cases hm : m = roundHalfEven q
  · rw [hm]
  · have hround := abs_roundHalfEven_sub_le q
    have hsum := one_le_abs_sub_add hm q
    linarith

/-- Of two integers that are equally near the even one is taken. -/
theorem even_roundHalfEven_of_tie {m : Int} (hm : m ≠ roundHalfEven q)
    (h : |(m : Rat) - q| = |(roundHalfEven q : Rat) - q|) : Even (roundHalfEven q) := by
  have hround := abs_roundHalfEven_sub_le q
  have hsum := one_le_abs_sub_add hm q
  exact even_roundHalfEven (by linarith)

/-! ## Multiples of a negative power of ten -/

/-- The multiple of `10 ^ -places` that is nearest to `v`; of two that are equally near, the even
one. -/
def IsNearestMultiple (places : Nat) (v q : Rat) : Prop :=
  ∃ n : Int, q = n / 10 ^ places ∧ (∀ m : Int, |q - v| ≤ |m / 10 ^ places - v|) ∧
    ∀ m : Int, m ≠ n → |m / 10 ^ places - v| = |q - v| → Even n

theorem abs_div_sub (places : Nat) (v : Rat) (m : Int) :
    |m / 10 ^ places - v| = |(m : Rat) - v * 10 ^ places| / 10 ^ places := by
  have hpower : (0 : Rat) < 10 ^ places := pow_pos (by norm_num) places
  rw [← abs_of_pos hpower, ← abs_div, abs_of_pos hpower]
  congr 1
  field_simp

theorem isNearestMultiple_round (places : Nat) (v : Rat) :
    IsNearestMultiple places v (roundHalfEven (v * 10 ^ places) / 10 ^ places) := by
  have hpower : (0 : Rat) < 10 ^ places := pow_pos (by norm_num) places
  refine ⟨roundHalfEven (v * 10 ^ places), rfl, fun m => ?_, fun m hm h => ?_⟩
  · rw [abs_div_sub, abs_div_sub]
    exact div_le_div_of_nonneg_right (abs_roundHalfEven_sub_le_abs _ m) hpower.le
  · rw [abs_div_sub, abs_div_sub, div_left_inj' hpower.ne'] at h
    exact even_roundHalfEven_of_tie hm h

theorem abs_round_div_sub_le (places : Nat) (v : Rat) :
    |roundHalfEven (v * 10 ^ places) / 10 ^ places - v| ≤ 1 / (2 * 10 ^ places) := by
  have hpower : (0 : Rat) < 10 ^ places := pow_pos (by norm_num) places
  rw [abs_div_sub, ← div_div]
  exact div_le_div_of_nonneg_right (abs_roundHalfEven_sub_le _) hpower.le

end GiftQuiz
