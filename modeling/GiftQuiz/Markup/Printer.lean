import GiftQuiz.Markup.Element

/-!
# Written form of element trees

`Element.print` writes a tree in one fixed way: attributes in double quotes with one space in
front of each, an element without children as a single tag, any other one with a start tag and
an end tag. The five characters that have a name are written as references, so that any text can
be a value or a run of character data; `unescape_guardNamed` reads such a text back.

A tree is `printable` if a document can hold it: its names are names, the keys of an element
differ, and runs of character data are neither empty nor side by side.
-/

namespace GiftQuiz

namespace Markup

/-- The name of a character that has one. -/
def nameOf? (c : Char) : Option (List Char) :=
  if c = '&' then some "amp".toList
  else if c = '<' then some "lt".toList
  else if c = '>' then some "gt".toList
  else if c = '"' then some "quot".toList
  else if c = '\'' then some "apos".toList
  else none

def guardNamedChar (c : Char) : List Char :=
  match nameOf? c with
  | some name => '&' :: (name ++ [';'])
  | none => [c]

/-- A text as it is written in character data and values. -/
def guardNamed (t : List Char) : List Char :=
  t.flatMap guardNamedChar

@[simp] theorem guardNamed_nil : guardNamed [] = [] := rfl

@[simp] theorem guardNamed_cons (c : Char) (t : List Char) :
    guardNamed (c :: t) = guardNamedChar c ++ guardNamed t := rfl

/-- A name is read as the character it was written for. -/
theorem resolve_nameOf? {c : Char} {name : List Char} (h : nameOf? c = some name)
    (position : Nat) :
    Reference.resolve position name = .ok c ∧ name.all inReference = true := by
  simp only [nameOf?] at h
  repeat' split at h
  all_goals cases h
  all_goals
    rename_i hc
    exact ⟨hc ▸ rfl, rfl⟩

/-- An ampersand begins a reference, so it has a name. -/
theorem ne_ampersand_of_nameOf? {c : Char} (h : nameOf? c = none) : c ≠ '&' := by
  intro hc
  rw [nameOf?, if_pos hc] at h
  cases h

/-- A reference is replaced by its character. -/
theorem unescapeFrom_reference {name : List Char} {c : Char} (total position : Nat)
    (done rest : List Char) (hname : name.all inReference = true)
    (hc : Reference.resolve (position + 1) name = .ok c) :
    unescapeFrom total position done ('&' :: (name ++ ';' :: rest)) =
      unescapeFrom total (position + Utf8.size name + 2) (c :: done) rest := by
  have hall : ∀ d ∈ name, inReference d = true := List.all_eq_true.1 hname
  have htake : (name ++ ';' :: rest).takeWhile inReference = name := by
    rw [List.takeWhile_append_of_pos hall, List.takeWhile_cons_of_neg (by decide),
      List.append_nil]
  have hdrop : (name ++ ';' :: rest).dropWhile inReference = ';' :: rest := by
    rw [List.dropWhile_append_of_pos hall, List.dropWhile_cons_of_neg (by decide)]
  rw [unescapeFrom]
  simp only [if_true]
  split
  · rename_i behind h
    rw [hdrop] at h
    cases h
    simp only [htake, hc]
  · rename_i h
    exact absurd hdrop (h rest)

theorem unescapeFrom_guardNamed (t done : List Char) (total position : Nat) :
    unescapeFrom total position done (guardNamed t) = .ok (done.reverse ++ t) := by
  induction t generalizing done position with
  | nil => simp only [guardNamed_nil, unescapeFrom, List.append_nil]
  | cons c t ih =>
    rw [guardNamed_cons, guardNamedChar]
    cases h : nameOf? c with
    | some name =>
      obtain ⟨hc, hname⟩ := resolve_nameOf? h (position + 1)
      simp only [List.cons_append, List.append_assoc, List.nil_append]
      rw [unescapeFrom_reference total position done _ hname hc, ih]
      simp only [List.reverse_cons, List.append_assoc, List.cons_append, List.nil_append]
    | none =>
      simp only [List.cons_append, List.nil_append]
      rw [unescapeFrom, if_neg (ne_ampersand_of_nameOf? h), ih]
      simp only [List.reverse_cons, List.append_assoc, List.cons_append, List.nil_append]

/-- Reading a written text gives the text back. -/
theorem unescape_guardNamed (t : List Char) : unescape (guardNamed t) = .ok t :=
  unescapeFrom_guardNamed t [] _ _

namespace Attribute

/-- An attribute with the space in front of it. -/
def print (a : Attribute) : List Char :=
  ' ' :: a.key.toList ++ '=' :: '"' :: guardNamed a.value.toList ++ ['"']

end Attribute

namespace Element

mutual

/-- The written form of an element. -/
def print : Element → List Char
  | ⟨name, attributes, children, _⟩ =>
    '<' :: name.toList ++ attributes.flatMap Attribute.print ++
      if children.isEmpty then ['/', '>']
      else '>' :: printAll children ++ '<' :: '/' :: name.toList ++ ['>']

/-- The written forms of children, one after the other. -/
def printAll : List (Node Element) → List Char
  | [] => []
  | .text t :: rest => guardNamed t.toList ++ printAll rest
  | .element e :: rest => print e ++ printAll rest

end

/-! ## Trees that a document can hold -/

/-- The characters of names and keys. -/
def inName (c : Char) : Bool :=
  !isSpace c && c != '/' && c != '<' && c != '>' && c != '=' && c != '"' && c != '\''

/-- Whether a text can be the key of an attribute. -/
def isKey (s : String) : Bool :=
  !s.isEmpty && s.toList.all inName

/-- Whether a text can be the name of an element: a key that announces no other markup. -/
def isName (s : String) : Bool :=
  isKey s && s.toList.head? != some '!' && s.toList.head? != some '?'

def areAttributes (attributes : List Attribute) : Bool :=
  attributes.all (isKey ·.key) && decide (attributes.map Attribute.key).Nodup

/-- Whether no run of character data is empty or stands beside another one. -/
def areRuns : List (Node Element) → Bool
  | [] => true
  | .element _ :: rest => areRuns rest
  | .text t :: rest => !t.isEmpty && (rest.head?.bind Node.text?).isNone && areRuns rest

mutual

/-- Whether a document can hold an element. -/
def printable : Element → Bool
  | ⟨name, attributes, children, _⟩ =>
    isName name && areAttributes attributes && areRuns children && allPrintable children

def allPrintable : List (Node Element) → Bool
  | [] => true
  | .text _ :: rest => allPrintable rest
  | .element e :: rest => printable e && allPrintable rest

end

end Element

end Markup

end GiftQuiz
