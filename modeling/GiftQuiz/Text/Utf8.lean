/-!
# UTF-8

Documents, forms and credentials arrive as bytes. `pieces` cuts any byte sequence into the
longest well-formed prefix of characters, the sequences that cannot begin a character, and a
character that the end of the input cuts short. Both readings of bytes as text are views of
those pieces:

- `decode` accepts a sequence of characters only and otherwise says where the first other piece
  stands,
- `decodeLossy` writes U+FFFD for every piece that is not a character.

`encode` is the inverse, and `size` the number of bytes it produces; byte offsets into a
document are sizes of prefixes.
-/

namespace GiftQuiz

namespace Utf8

/-! ## Writing -/

def encode (t : List Char) : List UInt8 :=
  t.flatMap String.utf8EncodeChar

def size (t : List Char) : Nat :=
  t.foldr (fun c n => c.utf8Size + n) 0

@[simp] theorem size_nil : size [] = 0 := rfl

@[simp] theorem size_cons (c : Char) (t : List Char) : size (c :: t) = c.utf8Size + size t :=
  rfl

@[simp] theorem size_append (t u : List Char) : size (t ++ u) = size t + size u := by
  induction t with
  | nil => simp
  | cons c t ih => simp [ih, Nat.add_assoc]

/-! ## Reading -/

/-- A stretch of a byte sequence. -/
inductive Piece where
  /-- The encoding of a character. -/
  | character (c : Char)
  /-- Bytes that begin no character; the byte after them cannot continue them. -/
  | invalid (length : Nat)
  /-- The beginning of a character, cut off by the end of the input. -/
  | incomplete
deriving Repr, DecidableEq

namespace Piece

def char? : Piece → Option Char
  | .character c => some c
  | _ => none

/-- The character, or the replacement character for a piece that is none. -/
def charOrReplacement (p : Piece) : Char :=
  p.char?.getD '\uFFFD'

end Piece

/-- The continuation of a character of which `seen` bytes are read and `missing` are still to
come: the next one lies between `low` and `high`, the ones after it between 0x80 and 0xBF. -/
def continuation (seen missing : Nat) (low high : UInt8) (code : Nat) :
    List UInt8 → Piece × List UInt8 :=
  match missing with
  | 0 => fun bytes => (.character (Char.ofNat code), bytes)
  | missing + 1 => fun
    | [] => (.incomplete, [])
    | b :: bytes =>
      if low ≤ b ∧ b ≤ high then
        continuation (seen + 1) missing 0x80 0xBF (code * 64 + (b.toNat - 0x80)) bytes
      else
        (.invalid seen, b :: bytes)

/-- The piece that begins with the byte `b`, and the bytes behind it. The bounds on the second
byte leave out overlong forms, surrogates and code points above U+10FFFF. -/
def front (b : UInt8) (bytes : List UInt8) : Piece × List UInt8 :=
  if b < 0x80 then (.character (Char.ofNat b.toNat), bytes)
  else if b < 0xC2 then (.invalid 1, bytes)
  else if b < 0xE0 then continuation 1 1 0x80 0xBF (b.toNat - 0xC0) bytes
  else if b = 0xE0 then continuation 1 2 0xA0 0xBF (b.toNat - 0xE0) bytes
  else if b = 0xED then continuation 1 2 0x80 0x9F (b.toNat - 0xE0) bytes
  else if b < 0xF0 then continuation 1 2 0x80 0xBF (b.toNat - 0xE0) bytes
  else if b = 0xF0 then continuation 1 3 0x90 0xBF (b.toNat - 0xF0) bytes
  else if b < 0xF4 then continuation 1 3 0x80 0xBF (b.toNat - 0xF0) bytes
  else if b = 0xF4 then continuation 1 3 0x80 0x8F (b.toNat - 0xF0) bytes
  else (.invalid 1, bytes)

theorem length_continuation_le (seen missing : Nat) (low high : UInt8) (code : Nat)
    (bytes : List UInt8) :
    (continuation seen missing low high code bytes).2.length ≤ bytes.length := by
  induction missing generalizing seen low high code bytes with
  | zero => simp [continuation]
  | succ missing ih =>
    cases bytes with
    | nil => simp [continuation]
    | cons b bytes =>
      simp only [continuation]
      split
      · exact Nat.le_trans (ih ..) (by simp)
      · simp

theorem length_front_le (b : UInt8) (bytes : List UInt8) :
    (front b bytes).2.length ≤ bytes.length := by
  unfold front
  repeat' split
  all_goals first | exact length_continuation_le .. | exact Nat.le_refl _

/-- The pieces read so far, latest first, and the bytes still to read. -/
def piecesFrom (done : List Piece) : List UInt8 → List Piece
  | [] => done.reverse
  | b :: bytes => piecesFrom ((front b bytes).1 :: done) (front b bytes).2
termination_by bytes => bytes.length
decreasing_by exact Nat.lt_succ_of_le (length_front_le b bytes)

/-- The pieces of a byte sequence, in order. -/
def pieces (bytes : List UInt8) : List Piece :=
  piecesFrom [] bytes

/-- Why bytes are not a text: the index of the first piece that is no character, and its length
unless the end of the input cuts it short. -/
structure Fault where
  index : Nat
  length : Option Nat
deriving Repr, DecidableEq

namespace Fault

def message (f : Fault) : String :=
  match f.length with
  | some n => "invalid utf-8 sequence of " ++ toString n ++ " bytes from index " ++ toString f.index
  | none => "incomplete utf-8 byte sequence from index " ++ toString f.index

end Fault

/-- The text that the bytes encode. -/
def decode (bytes : List UInt8) : Except Fault (List Char) :=
  let ps := pieces bytes
  let text := (ps.takeWhile fun p => p.char?.isSome).filterMap Piece.char?
  match ps.dropWhile fun p => p.char?.isSome with
  | [] => .ok text
  | .invalid n :: _ => .error ⟨size text, some n⟩
  | _ :: _ => .error ⟨size text, none⟩

/-- The text of the bytes, with a replacement character for every piece that is none. -/
def decodeLossy (bytes : List UInt8) : List Char :=
  (pieces bytes).map Piece.charOrReplacement

end Utf8

end GiftQuiz
