import GiftQuiz.Json.Basic
import GiftQuiz.Text.Digit

/-!
# Reading JSON

`Json.parse` accepts the texts of the JSON grammar. A surrogate that is not paired stands for no
character and is refused, as is anything but white space behind the value.

Every value takes at least one character, so the length of the text bounds the depth of the
recursion; the readers of values, items and fields count that bound down.
-/

namespace GiftQuiz

namespace Json

def isSpace (c : Char) : Bool :=
  c == ' ' || c == '\t' || c == '\r' || c == '\n'

def skipSpace (t : List Char) : List Char :=
  t.dropWhile isSpace

/-! ## Strings -/

/-- The number that four hexadecimal digits write. -/
def unit? (a b c d : Char) : Option Nat := do
  let high := (← Digit.value? a) * 16 + (← Digit.value? b)
  let low := (← Digit.value? c) * 16 + (← Digit.value? d)
  return high * 256 + low

/-- The characters that a single letter behind a backslash stands for. -/
def shortEscape? (c : Char) : Option Char :=
  match c with
  | '"' => some '"'
  | '\\' => some '\\'
  | '/' => some '/'
  | 'b' => some '\x08'
  | 'f' => some '\x0c'
  | 'n' => some '\n'
  | 'r' => some '\r'
  | 't' => some '\t'
  | _ => none

/-- The first half of a pair of surrogates. -/
def isHighSurrogate (n : Nat) : Bool :=
  0xD800 ≤ n && n < 0xDC00

/-- The second half of a pair of surrogates. -/
def isLowSurrogate (n : Nat) : Bool :=
  0xDC00 ≤ n && n < 0xE000

/-- The character of a code unit that is no surrogate. -/
def ofUnit? (n : Nat) : Option Char :=
  if n.isValidChar then some (Char.ofNat n) else none

/-- The character behind `\u` and what follows it. -/
def readUnit (t : List Char) : Option (Char × List Char) :=
  match t with
  | a :: b :: c :: d :: t =>
    match unit? a b c d with
    | none => none
    | some high =>
      if isHighSurrogate high then
        match t with
        | '\\' :: 'u' :: a :: b :: c :: d :: t =>
          match unit? a b c d with
          | none => none
          | some low =>
            if isLowSurrogate low then
              some (Char.ofNat (0x10000 + (high - 0xD800) * 0x400 + (low - 0xDC00)), t)
            else none
        | _ => none
      else (ofUnit? high).map (·, t)
  | _ => none

/-- The character at the front of the inside of a string and what follows it. -/
def readChar (c : Char) (t : List Char) : Option (Char × List Char) :=
  if c = '\\' then
    match t with
    | 'u' :: t => readUnit t
    | e :: t => (shortEscape? e).map (·, t)
    | [] => none
  else if c.toNat < 0x20 then none
  else some (c, t)

theorem length_readUnit_le {t rest : List Char} {c : Char} (h : readUnit t = some (c, rest)) :
    rest.length ≤ t.length := by
  simp only [readUnit] at h
  repeat' split at h
  all_goals first | contradiction | skip
  · simp only [Option.some.injEq, Prod.mk.injEq] at h
    simp only [← h.2, List.length_cons]
    omega
  · obtain ⟨d, -, hd⟩ := Option.map_eq_some_iff.1 h
    cases hd
    simp only [List.length_cons]
    omega

theorem length_readChar_le {c d : Char} {t rest : List Char}
    (h : readChar c t = some (d, rest)) : rest.length ≤ t.length := by
  simp only [readChar] at h
  repeat' split at h
  · have := length_readUnit_le h
    simp only [List.length_cons]
    omega
  · obtain ⟨e, -, he⟩ := Option.map_eq_some_iff.1 h
    cases he
    simp only [List.length_cons]
    omega
  · cases h
  · cases h
  · cases h
    exact Nat.le_refl _

/-- Reads on inside a string, behind the characters `done`, which are held latest first. -/
def readStringFrom (done : List Char) : List Char → Option (String × List Char)
  | [] => none
  | c :: t =>
    if c = '"' then some (String.ofList done.reverse, t)
    else
      match _h : readChar c t with
      | some (d, rest) => readStringFrom (d :: done) rest
      | none => none
termination_by t => t.length
decreasing_by exact Nat.lt_succ_of_le (length_readChar_le _h)

/-- Behind the opening quote of a string. -/
def readString (t : List Char) : Option (String × List Char) :=
  readStringFrom [] t

/-! ## Numbers -/

def inNumber (c : Char) : Bool :=
  c.isDigit || c == '-' || c == '+' || c == '.' || c == 'e' || c == 'E'

def isDigits (t : List Char) : Bool :=
  !t.isEmpty && t.all Char.isDigit

/-- Whether a text is the digits of an integer: without a zero in front of other digits. -/
def isWhole (t : List Char) : Bool :=
  isDigits t && (t.head? != some '0' || t.length == 1)

/-- Whether a text is an exponent or nothing. -/
def isExponent (t : List Char) : Bool :=
  match t with
  | [] => true
  | e :: '+' :: digits => (e == 'e' || e == 'E') && isDigits digits
  | e :: '-' :: digits => (e == 'e' || e == 'E') && isDigits digits
  | e :: digits => (e == 'e' || e == 'E') && isDigits digits

/-- Whether a text is a fraction and an exponent, where either may be missing. -/
def isTail (t : List Char) : Bool :=
  match t with
  | '.' :: t => isDigits (t.takeWhile Char.isDigit) && isExponent (t.dropWhile Char.isDigit)
  | t => isExponent t

/-- The value of a number. Minus zero is no integer. -/
def number? (lexeme : List Char) : Option Json :=
  let negative := lexeme.head? == some '-'
  let unsigned := if negative then lexeme.drop 1 else lexeme
  let whole := unsigned.takeWhile Char.isDigit
  let tail := unsigned.dropWhile Char.isDigit
  if isWhole whole && isTail tail then
    match tail, negative, Digit.natural? whole with
    | [], false, some n => some (.integer n)
    | [], true, some (n + 1) => some (.integer (Int.negSucc n))
    | _, _, _ => some (.decimal (String.ofList lexeme))
  else none

/-! ## Values -/

mutual

/-- The value at the front of a text and what follows it. -/
def readValue (fuel : Nat) (t : List Char) : Option (Json × List Char) :=
  match fuel with
  | 0 => none
  | fuel + 1 =>
    match skipSpace t with
    | 'n' :: 'u' :: 'l' :: 'l' :: t => some (.null, t)
    | 't' :: 'r' :: 'u' :: 'e' :: t => some (.bool true, t)
    | 'f' :: 'a' :: 'l' :: 's' :: 'e' :: t => some (.bool false, t)
    | '"' :: t => (readString t).map fun (s, t) => (.string s, t)
    | '[' :: t =>
      match skipSpace t with
      | ']' :: t => some (.array [], t)
      | t => (readItems fuel t).map fun (items, t) => (.array items, t)
    | '{' :: t =>
      match skipSpace t with
      | '}' :: t => some (.object [], t)
      | t => (readFields fuel t).map fun (fields, t) => (.object fields, t)
    | t => (number? (t.takeWhile inNumber)).map (·, t.dropWhile inNumber)

/-- The items up to the end of an array, of which there is at least one. -/
def readItems (fuel : Nat) (t : List Char) : Option (List Json × List Char) :=
  match fuel with
  | 0 => none
  | fuel + 1 =>
    match readValue fuel t with
    | none => none
    | some (item, t) =>
      match skipSpace t with
      | ']' :: t => some ([item], t)
      | ',' :: t => (readItems fuel t).map fun (items, t) => (item :: items, t)
      | _ => none

/-- The fields up to the end of an object, of which there is at least one. -/
def readFields (fuel : Nat) (t : List Char) : Option (List (String × Json) × List Char) :=
  match fuel with
  | 0 => none
  | fuel + 1 =>
    match skipSpace t with
    | '"' :: t =>
      match readString t with
      | none => none
      | some (name, t) =>
        match skipSpace t with
        | ':' :: t =>
          match readValue fuel t with
          | none => none
          | some (value, t) =>
            match skipSpace t with
            | '}' :: t => some ([(name, value)], t)
            | ',' :: t => (readFields fuel t).map fun (fields, t) => ((name, value) :: fields, t)
            | _ => none
        | _ => none
    | _ => none

end

def parse (s : String) : Option Json :=
  let t := s.toList
  match readValue (t.length + 1) t with
  | some (value, rest) => if (skipSpace rest).isEmpty then some value else none
  | none => none

end Json

end GiftQuiz
