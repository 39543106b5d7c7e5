/-!
# Digits

The values of decimal and hexadecimal digits, and the numbers that sequences of them write.
-/

namespace GiftQuiz

namespace Digit

/-- The value of a decimal or hexadecimal digit, in either case. -/
def value? (c : Char) : Option Nat :=
  if '0' ≤ c ∧ c ≤ '9' then some (c.toNat - '0'.toNat)
  else if 'a' ≤ c ∧ c ≤ 'f' then some (c.toNat - 'a'.toNat + 10)
  else if 'A' ≤ c ∧ c ≤ 'F' then some (c.toNat - 'A'.toNat + 10)
  else none

/-- The value of a digit below a radix. -/
def below? (radix : Nat) (c : Char) : Option Nat :=
  (value? c).filter (· < radix)

/-- The number that at least one decimal digit writes. -/
def natural? (digits : List Char) : Option Nat :=
  if digits.isEmpty then none
  else digits.foldlM (fun n c => (below? 10 c).map (n * 10 + ·)) 0

/-- Numbers are written in digits. -/
theorem isDigit_of_mem_toDigits {n : Nat} : ∀ c ∈ Nat.toDigits 10 n, c.isDigit = true :=
  fun _ => Nat.isDigit_of_mem_toDigits (by decide) (by decide)

end Digit

end GiftQuiz
