/-!
# Base64

The standard alphabet with required padding. Three bytes are written as four digits of six bits;
a last group of two bytes is written as three digits and `=`, one of a single byte as two digits
and `==`.

`decode` is strict: every group has four places, padding stands only in the last group, and the
bits of the last digit that belong to no byte are zero. A byte sequence therefore has exactly one
written form, the one of `encode`.
-/

namespace GiftQuiz

namespace Base64

/-- The 64 digits, in the order of their values. -/
def alphabet : List Char :=
  "ABCDEFGHIJKLMNOPQRSTUVWXYZabcdefghijklmnopqrstuvwxyz0123456789+/".toList

def digit (n : Nat) : Char :=
  alphabet[n]?.getD 'A'

def value? (c : Char) : Option Nat :=
  if 'A' ≤ c ∧ c ≤ 'Z' then some (c.toNat - 'A'.toNat)
  else if 'a' ≤ c ∧ c ≤ 'z' then some (c.toNat - 'a'.toNat + 26)
  else if '0' ≤ c ∧ c ≤ '9' then some (c.toNat - '0'.toNat + 52)
  else if c = '+' then some 62
  else if c = '/' then some 63
  else none

/-- The canonical written form of a byte sequence. -/
def encode : List UInt8 → List Char
  | [] => []
  | [a] =>
    let n := a.toNat
    [digit (n / 4), digit (n % 4 * 16), '=', '=']
  | [a, b] =>
    let n := a.toNat * 256 + b.toNat
    [digit (n / 1024), digit (n / 16 % 64), digit (n % 16 * 4), '=']
  | a :: b :: c :: bytes =>
    let n := a.toNat * 65536 + b.toNat * 256 + c.toNat
    digit (n / 262144) :: digit (n / 4096 % 64) :: digit (n / 64 % 64) :: digit (n % 64) ::
      encode bytes

/-- The one byte of a group with two digits; the last four bits are padding. -/
def oneByte? (p q : Char) : Option (List UInt8) := do
  let n := (← value? p) * 64 + (← value? q)
  guard (n % 16 = 0)
  return [UInt8.ofNat (n / 16)]

/-- The two bytes of a group with three digits; the last two bits are padding. -/
def twoBytes? (p q r : Char) : Option (List UInt8) := do
  let n := ((← value? p) * 64 + (← value? q)) * 64 + (← value? r)
  guard (n % 4 = 0)
  return [UInt8.ofNat (n / 1024), UInt8.ofNat (n / 4)]

/-- The three bytes of a full group. -/
def threeBytes? (p q r s : Char) : Option (List UInt8) := do
  let n := (((← value? p) * 64 + (← value? q)) * 64 + (← value? r)) * 64 + (← value? s)
  return [UInt8.ofNat (n / 65536), UInt8.ofNat (n / 256), UInt8.ofNat n]

/-- The bytes of a written form, or nothing for a text that is no written form. -/
def decode : List Char → Option (List UInt8)
  | [] => some []
  | [p, q, '=', '='] => oneByte? p q
  | [p, q, r, '='] => twoBytes? p q r
  | p :: q :: r :: s :: t => do
    let bytes ← threeBytes? p q r s
    return bytes ++ (← decode t)
  | _ => none

end Base64

end GiftQuiz
