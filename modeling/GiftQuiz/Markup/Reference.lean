import GiftQuiz.Text.Digit
import GiftQuiz.Text.Utf8

/-!
# Character references

In character data and attribute values an ampersand begins a reference: one of five names, or
the number of a character in decimal or, after `x`, hexadecimal digits, closed by a semicolon.
`unescape` replaces every reference by its character. The first reference that cannot be
replaced decides the error; offsets in errors count bytes inside the text that is read.
-/

namespace GiftQuiz

namespace Markup

inductive ReferenceError where
  /-- No semicolon before the next ampersand; the range runs to the end of the text. -/
  | unterminated (start stop : Nat)
  /-- A name that is none of the predefined ones, with the range it stands at. -/
  | unrecognized (start stop : Nat) (name : String)
  /-- A number with a sign. -/
  | sign
  /-- A number without digits. -/
  | noDigits
  /-- A number with a character that is no digit. -/
  | badDigit
  /-- A number that does not fit in 32 bits. -/
  | tooLarge
  /-- Character zero. -/
  | zero
  /-- A number that no character has. -/
  | noCharacter (code : Nat)
deriving Repr, DecidableEq

namespace ReferenceError

/-- The text of an error about a number. -/
def ofNumber (text : String) : String :=
  "invalid character reference: " ++ text

def message : ReferenceError → String
  | .unterminated start stop =>
    "Error while escaping character at range " ++ toString start ++ ".." ++ toString stop ++
      ": Cannot find ';' after '&'"
  | .unrecognized start stop name =>
    "at " ++ toString start ++ ".." ++ toString stop ++ ": unrecognized entity `" ++ name ++ "`"
  | .sign => ofNumber "unexpected number sign"
  | .noDigits => ofNumber "cannot parse integer from empty string"
  | .badDigit => ofNumber "invalid digit found in string"
  | .tooLarge => ofNumber "number too large to fit in target type"
  | .zero => ofNumber "0x0 character is not permitted in XML"
  | .noCharacter code => ofNumber ("`" ++ toString code ++ "` is not a valid codepoint")

end ReferenceError

namespace Reference

def maxCode : Nat := 0xFFFFFFFF

/-- The characters with a name. -/
def predefined : List (List Char × Char) :=
  [("lt".toList, '<'), ("gt".toList, '>'), ("amp".toList, '&'), ("apos".toList, '\''),
    ("quot".toList, '"')]

/-- One more digit of a number. -/
def extend (radix code : Nat) (c : Char) : Except ReferenceError Nat :=
  match Digit.below? radix c with
  | none => .error .badDigit
  | some d =>
    if maxCode < code * radix + d then .error .tooLarge else .ok (code * radix + d)

def number (radix : Nat) (digits : List Char) : Except ReferenceError Nat :=
  match digits with
  | [] => .error .noDigits
  | c :: _ => if c = '+' ∨ c = '-' then .error .sign else digits.foldlM (extend radix) 0

def ofCode (code : Nat) : Except ReferenceError Char :=
  if code = 0 then .error .zero
  else if code.isValidChar then .ok (Char.ofNat code)
  else .error (.noCharacter code)

/-- The character of the reference whose text between `&` and `;` is `name` and starts at byte
`start`. -/
def resolve (start : Nat) (name : List Char) : Except ReferenceError Char :=
  match name with
  | '#' :: 'x' :: digits => number 16 digits >>= ofCode
  | '#' :: digits => number 10 digits >>= ofCode
  | name =>
    match predefined.lookup name with
    | some c => .ok c
    | none => .error (.unrecognized start (start + Utf8.size name) (String.ofList name))

end Reference

/-- The text of a reference runs up to the next ampersand or semicolon. -/
def inReference (c : Char) : Bool :=
  c != '&' && c != ';'

/-- Reads on at byte `position` of a text of `total` bytes, behind the characters `done`, which
are held latest first. -/
def unescapeFrom (total position : Nat) (done : List Char) :
    List Char → Except ReferenceError (List Char)
  | [] => .ok done.reverse
  | c :: t =>
    if c = '&' then
      let name := t.takeWhile inReference
      match _h : t.dropWhile inReference with
      | ';' :: rest =>
        match Reference.resolve (position + 1) name with
        | .ok c => unescapeFrom total (position + Utf8.size name + 2) (c :: done) rest
        | .error e => .error e
      | _ => .error (.unterminated position total)
    else unescapeFrom total (position + c.utf8Size) (c :: done) t
termination_by t => t.length
decreasing_by
  · have := (List.dropWhile_suffix (l := t) inReference).length_le
    simp [_h] at this
    simp; omega
  · simp

/-- The text with every reference replaced by its character. -/
def unescape (t : List Char) : Except ReferenceError (List Char) :=
  unescapeFrom (Utf8.size t) 0 [] t

end Markup

end GiftQuiz
