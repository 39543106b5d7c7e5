import GiftQuiz.Markup.Element
import GiftQuiz.Text.Escape

/-!
# Titles

The elements of a problem that are not responses make the title of the next response. How they
do is a `TitleMode`: in markup mode every element contributes its own source text, in text mode
only paragraphs contribute, and their character data alone. Contributions are escaped one by one
and joined when the title is needed.
-/

namespace GiftQuiz

open Markup (Element Span)

/-- How the elements before a response become its title. -/
inductive TitleMode where
  /-- Their source text, marked as HTML. -/
  | markup
  /-- The character data of the paragraphs. -/
  | text
deriving Repr, DecidableEq

/-- What an element means for the title of its level. -/
inductive Contribution where
  /-- A piece of the title, escaped. -/
  | part (text : String)
  /-- Nothing, as the element is of no known kind. -/
  | unsupported (name : String)
  /-- Undefined, as the element's span cuts a character of the source. -/
  | offBoundary (span : Span)
deriving Repr, DecidableEq

namespace TitleMode

def name : TitleMode → String
  | .markup => "markup"
  | .text => "text"

def ofName? (s : String) : Option TitleMode :=
  if s = "markup" then some .markup else if s = "text" then some .text else none

/-- The name of the elements whose character data counts in text mode. -/
def paragraph : String := "p"

def separator : TitleMode → String
  | .markup => ""
  | .text => " "

/-- What an element of a document with the given source contributes. -/
def contribution (mode : TitleMode) (source : List Char) (e : Element) : Contribution :=
  match mode with
  | .markup =>
    match e.sourceText? source with
    | some m => .part (Text.escaped m)
    | none => .offBoundary e.span
  | .text =>
    if e.name = paragraph then .part (Text.escaped e.textContent) else .unsupported e.name

end TitleMode

/-- The parts collected for the next question of a level, in document order. -/
structure Title where
  parts : List String := []
deriving Repr, DecidableEq

namespace Title

def push (t : Title) (part : String) : Title :=
  ⟨t.parts ++ [part]⟩

/-- The parts that are not empty, joined. -/
def text (mode : TitleMode) (t : Title) : String :=
  mode.separator.intercalate (t.parts.filter (!·.isEmpty))

end Title

end GiftQuiz
