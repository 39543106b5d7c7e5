import GiftQuiz.Text.Digit
import GiftQuiz.Text.Split
import GiftQuiz.Text.Utf8

/-!
# Forms

The fields of a submitted form are pairs of a name and a value, separated by ampersands, with an
equals sign between the two. Inside them a plus sign is a space and `%` with two hexadecimal
digits is a byte; the bytes are read as UTF-8, and what is none becomes a replacement character.
-/

namespace GiftQuiz

namespace Form

/-- The byte that two hexadecimal digits write. -/
def hexPair? (high low : UInt8) : Option UInt8 := do
  let high ← Digit.value? (Char.ofUInt8 high)
  let low ← Digit.value? (Char.ofUInt8 low)
  return UInt8.ofNat (high * 16 + low)

/-- Reads on behind the bytes `done`, which are held latest first. A percent sign without two
digits behind it stands for itself. -/
def percentDecodeFrom (done : List UInt8) : List UInt8 → List UInt8
  | 0x25 :: high :: low :: bytes =>
    match hexPair? high low with
    | some b => percentDecodeFrom (b :: done) bytes
    | none => percentDecodeFrom (0x25 :: done) (high :: low :: bytes)
  | b :: bytes => percentDecodeFrom (b :: done) bytes
  | [] => done.reverse

/-- The bytes that percent-encoded bytes stand for. -/
def percentDecode (bytes : List UInt8) : List UInt8 :=
  percentDecodeFrom [] bytes

def decodeText (bytes : List UInt8) : String :=
  let spaced := bytes.map fun b => if b = 0x2B then 0x20 else b
  String.ofList (Utf8.decodeLossy (percentDecode spaced))

/-- The name and the value of a field; without an equals sign the value is empty. -/
def decodeField (bytes : List UInt8) : String × String :=
  match splitOnce 0x3D bytes with
  | some (name, value) => (decodeText name, decodeText value)
  | none => (decodeText bytes, "")

/-- The fields of a form, in order. Nothing between two ampersands is no field. -/
def fields (body : List UInt8) : List (String × String) :=
  ((body.splitOn 0x26).filter (!·.isEmpty)).map decodeField

end Form

inductive FormError where
  /-- The request does not say that it carries a form. -/
  | notAForm
  /-- A field that is demanded is missing. -/
  | missing (field : String)
  /-- A field that may be given once is given again. -/
  | duplicate (field : String)
deriving Repr, DecidableEq

namespace FormError

def message : FormError → String
  | .notAForm => "Form requests must have `Content-Type: application/x-www-form-urlencoded`"
  | .missing field => "Failed to deserialize form body: missing field `" ++ field ++ "`"
  | .duplicate field => "Failed to deserialize form body: duplicate field `" ++ field ++ "`"

end FormError

namespace Form

/-- The value of a field that has to be given exactly once. -/
def required (name : String) (fields : List (String × String)) : Except FormError String :=
  match fields.filter (·.1 == name) with
  | [] => .error (.missing name)
  | [field] => .ok field.2
  | _ => .error (.duplicate name)

end Form

end GiftQuiz
