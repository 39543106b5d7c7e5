import GiftQuiz.Markup.Element
import GiftQuiz.Quiz.Weight
import GiftQuiz.Text.Escape

/-!
# Questions

A GIFT document is a sequence of question blocks. A block has a header, which names the question
and states its title, and a body in braces, of one of three kinds. `Body.ofResponse` reads a
body from a response element of a problem, and `Question.fragments` writes a block: a fragment
for the header, one that opens the body, one for each line of the body and one that closes it.

Choices and answers are escaped when they are written. A title is a text that is escaped
already, because it is put together from escaped parts.
-/

namespace GiftQuiz

open Markup (Element)

/-- The response elements that become questions. -/
inductive ResponseKind where
  | multipleChoice
  | checkboxes
  | numerical
deriving Repr, DecidableEq

/-- A choice of a question, with its text as it stands in the problem. -/
structure Choice where
  correct : Bool
  text : String
deriving Repr, DecidableEq

namespace Choice

/-- A choice is correct if it says so literally; its text ends before the first element in
it. -/
def ofElement (e : Element) : Choice where
  correct := e.attribute? "correct" == some "true"
  text := e.leadingText

end Choice

/-- What is asked for. -/
inductive Body where
  /-- One of several choices. -/
  | multipleChoice (choices : List Choice)
  /-- Any of several choices, each with its share of the credit. -/
  | checkboxes (choices : List Choice)
  /-- A number, with a tolerance that is written without its leading zero. -/
  | numerical (answer : Option String) (tolerance : Option String)
deriving Repr, DecidableEq

namespace Body

/-- The tolerance of a numerical response: the default of its first parameter, if that is a
tolerance. -/
def tolerance? (response : Element) : Option String :=
  match response.child? "responseparam" with
  | some param =>
    if param.attribute? "type" == some "tolerance" then param.attribute? "default" else none
  | none => none

def ofResponse (kind : ResponseKind) (response : Element) : Body :=
  match kind with
  | .multipleChoice =>
    .multipleChoice ((response.select "choicegroup/choice").map Choice.ofElement)
  | .checkboxes => .checkboxes ((response.select "checkboxgroup/choice").map Choice.ofElement)
  | .numerical => .numerical (response.attribute? "answer") (tolerance? response)

/-- What follows the opening brace on its line. -/
def opening : Body → String
  | .multipleChoice _ => "\n"
  | .checkboxes _ => "\n"
  | .numerical _ _ => "#\n"

/-- The line of a choice that is right or wrong as a whole. -/
def choiceLine (c : Choice) : String :=
  "\t" ++ (if c.correct then "=" else "~") ++ Text.escaped c.text ++ "\n"

def weightedLine (c : Choice) (share : Rat) : String :=
  "\t~%" ++ Weight.text share ++ "%" ++ Text.escaped c.text ++ "\n"

def answerLine (answer tolerance : Option String) : String :=
  "\t=%100%" ++ (answer.map Text.escaped).getD "" ++ (tolerance.map (":0" ++ ·)).getD "" ++ "\n"

/-- The lines between the braces. -/
def lines : Body → List String
  | .multipleChoice choices => choices.map choiceLine
  | .checkboxes choices =>
    (choices.zip (Weight.shares (choices.map Choice.correct))).map fun (c, share) =>
      weightedLine c share
  | .numerical answer tolerance => [answerLine answer tolerance]

def closing : String := "\x7d\n"

end Body

structure Question where
  /-- Its number. -/
  id : UInt64
  /-- Whether a question stands before it, so that an empty line separates the two. -/
  follows : Bool
  /-- Whether its title is HTML. -/
  html : Bool
  /-- Its title, escaped. -/
  title : String
  body : Body
deriving Repr, DecidableEq

namespace Question

/-- Tells readers of a quiz that a title is HTML. -/
def htmlMarker : String := "[html]"

/-- The first line of a block, up to the opening brace. -/
def header (q : Question) : String :=
  (if q.follows then "\n" else "") ++ "::Q" ++ toString q.id.toNat ++ "::" ++
    (if q.html then htmlMarker else "") ++ q.title ++ "\x7b"

/-- The pieces of a block, in order. -/
def fragments (q : Question) : List String :=
  q.header :: q.body.opening :: (q.body.lines ++ [Body.closing])

end Question

end GiftQuiz
