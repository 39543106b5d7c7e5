import GiftQuiz.Markup.Reference

/-!
# Attributes of a tag

The text between the angle brackets of a tag is its name, up to the first white space, and then
its attributes: a key, an equals sign and a quoted value each, with white space allowed around
them. `Attribute.readTag` reads all of it; attributes are read, compared with the keys before
them and unescaped one after the other, so the first problem in the order of the text decides
the error.

Offsets in errors count bytes from the character behind the `<`.
-/

namespace GiftQuiz

namespace Markup

def isSpace (c : Char) : Bool :=
  c == ' ' || c == '\t' || c == '\r' || c == '\n'

structure Attribute where
  key : String
  value : String
deriving Repr, DecidableEq

inductive AttributeError where
  /-- Something other than an equals sign behind a key. -/
  | expectedEquals (position : Nat)
  /-- The tag ends behind an equals sign. -/
  | expectedValue (position : Nat)
  /-- A value without quotes. -/
  | unquoted (position : Nat)
  /-- The tag ends inside a value. -/
  | expectedQuote (position : Nat) (quote : Char)
  /-- A key that stands at `previous` already. -/
  | duplicate (position previous : Nat)
  /-- A value with a bad reference. -/
  | reference (error : ReferenceError)
deriving Repr, DecidableEq

namespace AttributeError

def located (position : Nat) (text : String) : String :=
  "position " ++ toString position ++ ": " ++ text

def message : AttributeError → String
  | .expectedEquals p => located p "attribute key must be directly followed by `=` or space"
  | .expectedValue p => located p "`=` must be followed by an attribute value"
  | .unquoted p => located p "attribute value must be enclosed in `\"` or `'`"
  | .expectedQuote p quote =>
    located p ("missing closing quote `" ++ String.singleton quote ++ "` in attribute value")
  | .duplicate p previous =>
    located p ("duplicated attribute, previous declaration at position " ++ toString previous)
  | .reference e => e.message

end AttributeError

namespace Attribute

/-- Characters of a key behind its first one. -/
def inKey (c : Char) : Bool :=
  !isSpace c && c != '='

/-- An attribute that has been read, with the offset of its key. -/
structure Placed where
  position : Nat
  content : Attribute
deriving Repr, DecidableEq

/-- A text still to be read, with the offset it stands at. -/
structure Rest where
  position : Nat
  text : List Char
deriving Repr, DecidableEq

namespace Rest

/-- Behind the characters at the front that satisfy `p`. -/
def skip (r : Rest) (p : Char → Bool) : Rest :=
  ⟨r.position + Utf8.size (r.text.takeWhile p), r.text.dropWhile p⟩

theorem length_skip_le (r : Rest) (p : Char → Bool) :
    (r.skip p).text.length ≤ r.text.length :=
  (List.dropWhile_suffix p).length_le

end Rest

/-- A quoted value at the front of a text, and what stands behind its closing quote. -/
def readValue (r : Rest) : Except AttributeError (String × Rest) :=
  match r.text with
  | [] => .error (.expectedValue r.position)
  | quote :: t =>
    if quote = '"' ∨ quote = '\'' then
      let behind := (Rest.mk (r.position + 1) t).skip (· != quote)
      match behind.text with
      | [] => .error (.expectedQuote behind.position quote)
      | _ :: rest =>
        match unescape (t.takeWhile (· != quote)) with
        | .ok value => .ok (String.ofList value, ⟨behind.position + 1, rest⟩)
        | .error e => .error (.reference e)
    else .error (.unquoted r.position)

/-- The attribute whose key begins with `c` at `position`, given the ones before it, and what
stands behind its value. -/
def readOne (before : List Placed) (position : Nat) (c : Char) (t : List Char) :
    Except AttributeError (Placed × Rest) :=
  let key := String.ofList (c :: t.takeWhile inKey)
  let behindKey := ((Rest.mk (position + c.utf8Size) t).skip inKey).skip isSpace
  match behindKey.text with
  | '=' :: t =>
    match before.find? (·.content.key == key) with
    | some p => .error (.duplicate position p.position)
    | none =>
      match readValue ((Rest.mk (behindKey.position + 1) t).skip isSpace) with
      | .ok (value, rest) => .ok (⟨position, ⟨key, value⟩⟩, rest)
      | .error e => .error e
  | _ => .error (.expectedEquals behindKey.position)

theorem length_readValue_lt {r rest : Rest} {value : String}
    (h : readValue r = .ok (value, rest)) : rest.text.length < r.text.length := by
  simp only [readValue] at h
  split at h
  · cases h
  · rename_i quote t ht
    split at h
    · have hle := Rest.length_skip_le ⟨r.position + 1, t⟩ (· != quote)
      split at h
      · cases h
      · rename_i hd
        rw [hd] at hle
        split at h
        · cases h
          simp [ht] at hle ⊢
          omega
        · cases h
    · cases h

theorem length_readOne_le {before : List Placed} {position : Nat} {c : Char} {t : List Char}
    {p : Placed} {rest : Rest} (h : readOne before position c t = .ok (p, rest)) :
    rest.text.length ≤ t.length := by
  have hk := Rest.length_skip_le ⟨position + c.utf8Size, t⟩ inKey
  have hs := Rest.length_skip_le ((Rest.mk (position + c.utf8Size) t).skip inKey) isSpace
  simp only [readOne] at h
  split at h
  · rename_i t' ht
    rw [ht] at hs
    split at h
    · cases h
    · split at h
      · rename_i hr
        cases h
        have hlt := length_readValue_lt hr
        have hv := Rest.length_skip_le
          ⟨(((Rest.mk (position + c.utf8Size) t).skip inKey).skip isSpace).position + 1, t'⟩
          isSpace
        simp only [List.length_cons] at hs hk hv
        omega
      · cases h
  · cases h

/-- The attributes of a text, behind the ones `before` it, which are held latest first. -/
def readFrom (before : List Placed) (r : Rest) : Except AttributeError (List Attribute) :=
  let start := r.skip isSpace
  match _h : start.text with
  | [] => .ok (before.reverse.map Placed.content)
  | c :: t =>
    match _ho : readOne before start.position c t with
    | .ok (p, rest) => readFrom (p :: before) rest
    | .error e => .error e
termination_by r.text.length
decreasing_by
  have ho := length_readOne_le _ho
  have hs := Rest.length_skip_le r isSpace
  rw [_h] at hs
  simp only [List.length_cons] at hs
  omega

/-- The name and the attributes of a tag, given what stands between its angle brackets. -/
def readTag (content : List Char) : Except AttributeError (String × List Attribute) :=
  let name := content.takeWhile (!isSpace ·)
  match readFrom [] ⟨Utf8.size name, content.dropWhile (!isSpace ·)⟩ with
  | .ok attributes => .ok (String.ofList name, attributes)
  | .error e => .error e

end Attribute

end Markup

end GiftQuiz
