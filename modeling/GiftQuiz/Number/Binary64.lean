import GiftQuiz.Number.Magnitude

/-!
# Binary floating point

The interchange format of 64 bits: a sign, eleven bits of exponent and 52 bits of fraction. The
bits are read as an exact rational by `value?`, which is undefined on infinities and on values
that are no numbers; `nearest` goes back, from any rational to the bits of the nearest number,
ties to the even significand.
-/

namespace GiftQuiz

namespace Binary64

def fractionBits : Nat := 52

/-- The place of the exponent field: two to the power of `fractionBits`. -/
def exponentPlace : Nat := 1 <<< fractionBits

def signPlace : Nat := 1 <<< 63

/-- The exponent field of infinities and of values that are no numbers. -/
def specialExponent : Nat := 2047

/-- The exact value of a finite number. -/
def value? (bits : UInt64) : Option Rat :=
  let unsigned := bits.toNat % signPlace
  let exponent := unsigned / exponentPlace
  let fraction := unsigned % exponentPlace
  if exponent = specialExponent then none
  else
    let significand := if exponent = 0 then fraction else exponentPlace + fraction
    let magnitude := (significand : Rat) * (2 : Rat) ^ ((max exponent 1 : Nat) - 1075 : Int)
    some (if bits.toNat < signPlace then magnitude else -magnitude)

/-- The bits of the number nearest to `q`. Below the normal range the exponent stays at its
least value and the significand shrinks; a significand that is rounded up to the next power of
two carries into the exponent; what is too large becomes an infinity. -/
def nearest (q : Rat) : UInt64 :=
  if q = 0 then 0
  else
    let exponent := max (floorLog 2 q.abs) (-1022)
    let significand := (roundHalfEven (q.abs * (2 : Rat) ^ (52 - exponent))).toNat
    let magnitude :=
      min ((exponent + 1022).toNat * exponentPlace + significand) (specialExponent * exponentPlace)
    UInt64.ofNat (if q < 0 then signPlace + magnitude else magnitude)

end Binary64

end GiftQuiz
