import GiftQuiz.Quiz.Conversion

/-!
# The walk as a plain descent

What `Session.walk` does with a list of open levels, said as a recursion over the tree: a level is
visited child by child, and a nested problem is visited completely before the child after it.
`walk_eq_descend` says that the two agree: walking from some open levels is descending through
what is left of the innermost one and, unless that stops, walking on from the others.
-/

namespace GiftQuiz

open Markup (Element Node)

namespace Session

mutual

/-- Visits the children of an element, with a title of their own. -/
def descend (source : List Char) (mode : TitleMode) (s : Session) : Element → Outcome
  | ⟨_, _, children, _⟩ => descendFrom source mode {} s children

/-- Visits the remaining children of a level, whose title so far is given. -/
def descendFrom (source : List Char) (mode : TitleMode) (title : Title) (s : Session) :
    List (Node Element) → Outcome
  | [] => ⟨s.endLevel mode title, none⟩
  | .text _ :: rest => descendFrom source mode title s rest
  | .element e :: rest =>
    match Role.ofName e.name with
    | .problem =>
      match descend source mode s e with
      | ⟨s, none⟩ => descendFrom source mode title s rest
      | ⟨s, some error⟩ => ⟨s, some error⟩
    | .response kind =>
      match s.ask (s.question mode title kind e) with
      | ⟨s, none⟩ => descendFrom source mode {} s rest
      | ⟨s, some error⟩ => ⟨s, some error⟩
    | .content =>
      match mode.contribution source e with
      | .part part => descendFrom source mode (title.push part) s rest
      | .unsupported name =>
        descendFrom source mode title (s.warn (.unsupportedElement name)) rest
      | .offBoundary span => ⟨s, some (.offBoundary span)⟩

end

/-- Goes on with a continuation unless something has stopped the session. -/
def resume (o : Outcome) (next : Session → Outcome) : Outcome :=
  match o with
  | ⟨s, none⟩ => next s
  | ⟨s, some error⟩ => ⟨s, some error⟩

theorem descend_eq (source : List Char) (mode : TitleMode) (s : Session) (e : Element) :
    descend source mode s e = descendFrom source mode {} s e.children := by
  cases e
  rw [descend]

/-- Walking is descending through the innermost level and walking on. -/
theorem walk_cons (source : List Char) (mode : TitleMode) (levels : List Level) (s : Session)
    (rest : List (Node Element)) (title : Title) :
    walk source mode (⟨rest, title⟩ :: levels) s =
      resume (descendFrom source mode title s rest) (walk source mode levels) := by
  induction rest using Element.nodes_induction generalizing levels s title with
  | nil =>
      rw [walk, descendFrom]
      rfl
  | text t rest ih =>
      rw [walk, descendFrom]
      exact ih levels s title
  | element e rest inner ih =>
      rw [walk, descendFrom]
      cases Role.ofName e.name with
      | problem =>
          simp only
          rw [inner, descend_eq]
          rcases descendFrom source mode {} s e.children with ⟨s', _ | error⟩
          · exact ih levels s' title
          · rfl
      | response kind =>
          simp only
          rcases s.ask (s.question mode title kind e) with ⟨s', _ | error⟩
          · exact ih levels s' {}
          · rfl
      | content =>
          simp only
          cases mode.contribution source e with
          | part part => exact ih levels s (title.push part)
          | unsupported name => exact ih levels _ title
          | offBoundary span => rfl

end Session

end GiftQuiz
