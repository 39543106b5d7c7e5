import GiftQuiz.Number.Binary64
import GiftQuiz.Number.Decimal

/-!
# Weights of checkbox choices

The correct choices of a checkbox question share +100 percent of the credit evenly, the others
share -100 percent. `shares` gives the exact share of every choice; what is written is the
nearest floating-point number, rounded once more to seven significant digits.
-/

namespace GiftQuiz

namespace Weight

def significantDigits : Nat := 7

/-- The percentage of every choice, in the order of the choices. A side without choices divides
by one, which no choice sees. -/
def shares (correct : List Bool) : List Rat :=
  let right := correct.count true
  let wrong := correct.length - right
  let reward : Rat := 100 / (max right 1 : Nat)
  let penalty : Rat := -100 / (max wrong 1 : Nat)
  correct.map fun c => if c then reward else penalty

/-- A percentage as it is written. Zero has no significant digit and is written as itself. -/
def percentage (q : Rat) : String :=
  if q = 0 then "0" else (Decimal.significant significantDigits q).text

/-- The percentage of a floating-point number; what is not finite is written as zero. -/
def percentageOfBits (bits : UInt64) : String :=
  match Binary64.value? bits with
  | some q => percentage q
  | none => "0"

def text (share : Rat) : String :=
  percentageOfBits (Binary64.nearest share)

end Weight

end GiftQuiz
