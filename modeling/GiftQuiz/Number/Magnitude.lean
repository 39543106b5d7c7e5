/-!
# Order of magnitude and rounding

Exact arithmetic on rationals behind every number that is written: `floorLog b q` is the greatest
exponent `k` with `b ^ k ≤ q`, for positive `q`, and `roundHalfEven q` the integer nearest to `q`,
the even one of two that are equally near.
-/

namespace GiftQuiz

/-- The greatest `k` with `b ^ k ≤ n`; zero below the base, and for a base below two. -/
def natLog (b n : Nat) : Nat :=
  if h : 2 ≤ b ∧ b ≤ n then natLog b (n / b) + 1 else 0
termination_by n
decreasing_by exact Nat.div_lt_self (by omega) (by omega)

/-- The least `k` with `n ≤ b ^ k`. -/
def natCeilLog (b n : Nat) : Nat :=
  if n ≤ 1 then 0 else natLog b (n - 1) + 1

/-- The greatest `k` with `b ^ k ≤ q`, for positive `q`. -/
def floorLog (b : Nat) (q : Rat) : Int :=
  if 1 ≤ q then natLog b q.floor.toNat else -(natCeilLog b q⁻¹.ceil.toNat : Int)

/-- The nearest integer; a half goes to the even neighbour. -/
def roundHalfEven (q : Rat) : Int :=
  let low := q.floor
  let excess := q - low
  if excess < 1 / 2 then low
  else if 1 / 2 < excess then low + 1
  else if low % 2 = 0 then low
  else low + 1

end GiftQuiz
