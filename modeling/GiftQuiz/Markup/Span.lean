import GiftQuiz.Text.Utf8

/-!
# Spans of a source text

Where something stands in a document is told in bytes of the document's UTF-8 form. `slice?` is
the text between two byte offsets; it is defined only where both of them fall between two
characters.
-/

namespace GiftQuiz

namespace Markup

structure Span where
  start : Nat
  stop : Nat
deriving Repr, DecidableEq

/-- The text behind the first `n` bytes, if they end between two characters. -/
def dropBytes? : Nat → List Char → Option (List Char)
  | 0, t => some t
  | _ + 1, [] => none
  | n + 1, c :: t => if c.utf8Size ≤ n + 1 then dropBytes? (n + 1 - c.utf8Size) t else none

/-- The text of the next `n` bytes behind the characters `done`, which are held latest first. -/
def takeBytesFrom? (done : List Char) : Nat → List Char → Option (List Char)
  | 0, _ => some done.reverse
  | _ + 1, [] => none
  | n + 1, c :: t =>
    if c.utf8Size ≤ n + 1 then takeBytesFrom? (c :: done) (n + 1 - c.utf8Size) t else none

/-- The text of the first `n` bytes, if they end between two characters. -/
def takeBytes? (n : Nat) (t : List Char) : Option (List Char) :=
  takeBytesFrom? [] n t

def slice? (source : List Char) (span : Span) : Option (List Char) :=
  if span.start ≤ span.stop then
    (dropBytes? span.start source).bind (takeBytes? (span.stop - span.start))
  else none

theorem dropBytes?_append (t u : List Char) : dropBytes? (Utf8.size t) (t ++ u) = some u := by
  induction t with
  | nil => cases u <;> rfl
  | cons c t ih =>
    obtain ⟨n, hn⟩ : ∃ n, c.utf8Size + Utf8.size t = n + 1 :=
      ⟨c.utf8Size + Utf8.size t - 1, by have := c.utf8Size_pos; omega⟩
    have hle : c.utf8Size ≤ n + 1 := by omega
    have hsub : n + 1 - c.utf8Size = Utf8.size t := by omega
    simp [hn, dropBytes?, hle, hsub, ih]

theorem takeBytesFrom?_append (done t u : List Char) :
    takeBytesFrom? done (Utf8.size t) (t ++ u) = some (done.reverse ++ t) := by
  induction t generalizing done with
  | nil => cases u <;> simp [takeBytesFrom?]
  | cons c t ih =>
    obtain ⟨n, hn⟩ : ∃ n, c.utf8Size + Utf8.size t = n + 1 :=
      ⟨c.utf8Size + Utf8.size t - 1, by have := c.utf8Size_pos; omega⟩
    have hle : c.utf8Size ≤ n + 1 := by omega
    have hsub : n + 1 - c.utf8Size = Utf8.size t := by omega
    simp [hn, takeBytesFrom?, hle, hsub, ih]

/-- The middle of a text is found between the sizes of what stands before it. -/
theorem slice?_append (s t u : List Char) :
    slice? (s ++ t ++ u) ⟨Utf8.size s, Utf8.size s + Utf8.size t⟩ = some t := by
  simp [slice?, takeBytes?, dropBytes?_append, takeBytesFrom?_append]

end Markup

end GiftQuiz
