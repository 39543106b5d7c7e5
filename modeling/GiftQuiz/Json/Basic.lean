/-!
# JSON values

The values of JSON, as far as they have to be told apart: a number without a fraction and an
exponent is an integer, any other number is kept as it is written. Fields of an object keep
their order.
-/

namespace GiftQuiz

inductive Json where
  | null
  | bool (b : Bool)
  /-- A number without fraction and exponent. -/
  | integer (n : Int)
  /-- Any other number, as written. -/
  | decimal (text : String)
  | string (s : String)
  | array (items : List Json)
  | object (fields : List (String × Json))
deriving Repr

namespace Json

def natural (n : UInt64) : Json :=
  .integer n.toNat

/-- The number, if the value is one of 64 bits without sign. -/
def toUInt64? : Json → Option UInt64
  | .integer n =>
    if h : 0 ≤ n ∧ n.toNat < UInt64.size then some (UInt64.ofNatLT n.toNat h.2) else none
  | _ => none

/-- The text, if the value is one. -/
def toString? : Json → Option String
  | .string s => some s
  | _ => none

/-- The value of a field; a later field of one name replaces an earlier one. -/
def field? (fields : List (String × Json)) (name : String) : Option Json :=
  fields.reverse.lookup name

end Json

end GiftQuiz
