/-!
# White space in running text

Question texts, titles and choices are laid out freely in a problem document, so their white
space carries no meaning beyond separating words. `isBlank` is the White_Space property of
Unicode, `collapse` writes every run of blanks as one plain space, and `trim` drops the blanks
at both ends.

`words` is the other reading of the same rule: a text is its words. `trim (collapse t)` is
those words with one space between them.

Markup has its own, smaller notion of white space, which is `Markup.isSpace`.
-/

namespace GiftQuiz

namespace Text

/-- White_Space of Unicode: the separators of words in running text. -/
def isBlank (c : Char) : Bool :=
  let n := c.toNat
  (0x09 ≤ n && n ≤ 0x0D) || n == 0x20 || n == 0x85 || n == 0xA0 || n == 0x1680 ||
    (0x2000 ≤ n && n ≤ 0x200A) || n == 0x2028 || n == 0x2029 || n == 0x202F || n == 0x205F ||
    n == 0x3000

/-- Every maximal run of blanks becomes a single plain space. The text behind `c` is collapsed
already, so it starts with a space exactly when the character after `c` was a blank. -/
def collapse (t : List Char) : List Char :=
  t.foldr (fun c out => if isBlank c then ' ' :: out.dropWhile (· == ' ') else c :: out) []

/-- Without the blanks at both ends. -/
def trim (t : List Char) : List Char :=
  ((t.dropWhile isBlank).reverse.dropWhile isBlank).reverse

/-- The maximal runs of characters that are not blank, in order. -/
def words (t : List Char) : List (List Char) :=
  (t.splitOnP isBlank).filter (!·.isEmpty)

@[simp] theorem collapse_nil : collapse [] = [] := rfl

theorem collapse_cons (c : Char) (t : List Char) :
    collapse (c :: t) =
      if isBlank c then ' ' :: (collapse t).dropWhile (· == ' ') else c :: collapse t := by
  simp only [collapse, List.foldr_cons]

theorem beq_space_of_not_isBlank {c : Char} (h : isBlank c = false) : (c == ' ') = false := by
  rw [beq_eq_false_iff_ne]
  rintro rfl
  cases h

end Text

end GiftQuiz
