import GiftQuiz.Json.Basic

/-!
# Writing JSON

Two layouts of the same tokens: `compact` has no white space at all, `pretty` puts every item
and every field on a line of its own, indented by two spaces a level, and leaves empty arrays
and objects on one line. Strings escape quotes, backslashes and the control characters below
U+0020; every other character stands for itself.
-/

namespace GiftQuiz

namespace Json

/-- Four hexadecimal digits of a code below 65536. -/
def hex4 (n : Nat) : List Char :=
  [Nat.digitChar (n / 4096 % 16), Nat.digitChar (n / 256 % 16), Nat.digitChar (n / 16 % 16),
    Nat.digitChar (n % 16)]

/-- A character as it is written inside a string. -/
def escapeChar (c : Char) : List Char :=
  if c = '"' then ['\\', '"']
  else if c = '\\' then ['\\', '\\']
  else if c = '\x08' then ['\\', 'b']
  else if c = '\t' then ['\\', 't']
  else if c = '\n' then ['\\', 'n']
  else if c = '\x0c' then ['\\', 'f']
  else if c = '\r' then ['\\', 'r']
  else if c.toNat < 0x20 then '\\' :: 'u' :: hex4 c.toNat
  else [c]

def quote (s : String) : List Char :=
  '"' :: (s.toList.flatMap escapeChar ++ ['"'])

def writeInt (n : Int) : List Char :=
  (toString n).toList

/-! ## Without white space -/

mutual

/-- The compact layout. -/
def write : Json → List Char
  | .null => "null".toList
  | .bool b => (if b then "true" else "false").toList
  | .integer n => writeInt n
  | .decimal text => text.toList
  | .string s => quote s
  | .array items => '[' :: (writeItems items ++ [']'])
  | .object fields => '{' :: (writeFields fields ++ ['}'])

/-- Items with commas between them. -/
def writeItems : List Json → List Char
  | [] => []
  | item :: items =>
    write item ++ (if items.isEmpty then [] else ',' :: writeItems items)

/-- Fields with commas between them. -/
def writeFields : List (String × Json) → List Char
  | [] => []
  | (name, value) :: fields =>
    quote name ++ ':' :: write value ++ (if fields.isEmpty then [] else ',' :: writeFields fields)

end

def compact (j : Json) : String :=
  String.ofList (write j)

/-! ## One item a line -/

def newline (depth : Nat) : List Char :=
  '\n' :: List.replicate (2 * depth) ' '

mutual

/-- The indented layout of a value at a depth. -/
def writeAt (depth : Nat) : Json → List Char
  | .array (item :: items) =>
    '[' :: (writeItemsAt (depth + 1) (item :: items) ++ newline depth ++ [']'])
  | .object (field :: fields) =>
    '{' :: (writeFieldsAt (depth + 1) (field :: fields) ++ newline depth ++ ['}'])
  | .null => write .null
  | .bool b => write (.bool b)
  | .integer n => write (.integer n)
  | .decimal text => write (.decimal text)
  | .string s => write (.string s)
  | .array [] => write (.array [])
  | .object [] => write (.object [])

def writeItemsAt (depth : Nat) : List Json → List Char
  | [] => []
  | item :: items =>
    newline depth ++ writeAt depth item ++
      (if items.isEmpty then [] else ',' :: writeItemsAt depth items)

/-- Fields on lines of their own. -/
def writeFieldsAt (depth : Nat) : List (String × Json) → List Char
  | [] => []
  | (name, value) :: fields =>
    newline depth ++ quote name ++ ':' :: ' ' :: writeAt depth value ++
      (if fields.isEmpty then [] else ',' :: writeFieldsAt depth fields)

end

def pretty (j : Json) : String :=
  String.ofList (writeAt 0 j)

end Json

end GiftQuiz
