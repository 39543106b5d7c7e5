import GiftQuiz.Text.Blank

/-!
# Escaped question text

Six characters carry structure in a GIFT document. Text from outside has a backslash put in
front of each of them and its white space collapsed; a backslash of the text itself is an
ordinary character and stays as it is.

`guardReserved` is the first step, `escape` the whole. `unguard` reads a guarded text back: it
drops every backslash that stands directly before a reserved character.
-/

namespace GiftQuiz

namespace Text

/-- The characters with a meaning in a GIFT document. -/
def reserved : List Char := ['~', '=', '#', '{', '}', ':']

/-- A backslash before every reserved character. -/
def guardReserved (t : List Char) : List Char :=
  t.flatMap fun c => if c ∈ reserved then ['\\', c] else [c]

/-- Reserved characters guarded, white space collapsed, ends trimmed. -/
def escape (t : List Char) : List Char :=
  trim (collapse (guardReserved t))

/-- A text as it is written inside a question. -/
def escaped (s : String) : String :=
  String.ofList (escape s.toList)

/-- Without the backslashes that stand directly before a reserved character. -/
def unguard : List Char → List Char
  | [] => []
  | [c] => [c]
  | c :: d :: t =>
    if c = '\\' ∧ d ∈ reserved then d :: unguard t else c :: unguard (d :: t)

@[simp] theorem toList_escaped (s : String) : (escaped s).toList = escape s.toList := by
  simp [escaped]

theorem not_mem_reserved_of_isBlank {c : Char} (h : isBlank c = true) : c ∉ reserved := by
  intro hc
  have hreserved : reserved.all (!isBlank ·) = true := by decide
  have hblank := List.all_eq_true.mp hreserved c hc
  rw [h] at hblank
  cases hblank

@[simp] theorem guardReserved_nil : guardReserved [] = [] := rfl

@[simp] theorem guardReserved_append (t u : List Char) :
    guardReserved (t ++ u) = guardReserved t ++ guardReserved u := by
  simp [guardReserved]

end Text

end GiftQuiz
