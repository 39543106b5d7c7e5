import GiftQuiz.Number.Magnitude

/-!
# Decimal numerals

A numeral in positional notation: a sign, a whole part and the digits behind the point.
`Decimal.ofScaled n places` is `n / 10 ^ places` with all its places, `Decimal.shorten` drops the
zeros at the end, and `Decimal.text` writes the point only where digits follow it.

`significant` rounds a rational to a number of significant digits in this notation.
-/

namespace GiftQuiz

/-- A decimal numeral; the digits of the fraction are below ten, the most significant first. -/
structure Decimal where
  negative : Bool
  whole : Nat
  fraction : List Nat
deriving Repr, DecidableEq

namespace Decimal

/-- The last `places` digits of `n`, in front of `digits`. -/
def lastDigits : (places n : Nat) → (digits : List Nat) → List Nat
  | 0, _, digits => digits
  | places + 1, n, digits => lastDigits places (n / 10) (n % 10 :: digits)

/-- The numeral of `n / 10 ^ places`, with exactly that many digits behind the point. -/
def ofScaled (n : Int) (places : Nat) : Decimal where
  negative := n < 0
  whole := n.natAbs / Nat.pow 10 places
  fraction := lastDigits places n.natAbs []

def shorten (d : Decimal) : Decimal :=
  { d with fraction := (d.fraction.reverse.dropWhile (· == 0)).reverse }

/-- A minus sign for negative numerals, the whole part, and the point with its digits if there
are any. -/
def text (d : Decimal) : String :=
  (if d.negative then "-" else "") ++ toString d.whole ++
    if d.fraction.isEmpty then ""
    else "." ++ String.ofList (d.fraction.map Nat.digitChar)

def value (d : Decimal) : Rat :=
  let magnitude : Rat :=
    (d.whole : Rat) + d.fraction.foldr (fun (digit : Nat) (rest : Rat) => (digit + rest) / 10) 0
  if d.negative then -magnitude else magnitude

/-- The number of places that leave `digits` significant digits of a nonzero `q`; none are
dropped before the point. -/
def placesFor (digits : Nat) (q : Rat) : Nat :=
  (digits - 1 - floorLog 10 q.abs : Int).toNat

/-- A nonzero rational rounded to the given number of significant digits, half to even, without
zeros at the end of its fraction. -/
def significant (digits : Nat) (q : Rat) : Decimal :=
  let places := placesFor digits q
  (ofScaled (roundHalfEven (q * (10 : Rat) ^ (places : Int))) places).shorten

end Decimal

end GiftQuiz
