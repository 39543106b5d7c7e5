import GiftQuiz.Markup.Document
import GiftQuiz.Quiz.Counter
import GiftQuiz.Quiz.Question
import GiftQuiz.Quiz.Title
import GiftQuiz.Quiz.Warning

/-!
# Conversion of a problem into a quiz

The children of a problem are visited in document order. A response becomes a question under the
next number and takes the title collected so far; a nested problem is visited before what follows
it, with a title of its own; any other element contributes to the title of its level. A title
that is left over when its level ends is reported.

`Session.walk` does this with the open levels on a list, the innermost first, so that problems
may be nested to any depth. A session, that is a counter and the conversion so far, may go on
over several documents: also after an error it holds everything up to the error.
-/

namespace GiftQuiz

open Markup (Element Node Span Document ReadError)

/-- What a conversion is asked for. -/
structure Options where
  /-- The number of the first question. -/
  startId : UInt64 := 1
  titleMode : TitleMode := .markup
deriving Repr, DecidableEq

inductive ConversionError where
  /-- The document cannot be read. -/
  | unreadable (error : ReadError)
  /-- No number is left behind the question that was numbered last. -/
  | idsExhausted (last : UInt64)
  /-- The source text of an element is asked for and its span cuts a character. -/
  | offBoundary (span : Span)
deriving Repr, DecidableEq

namespace ConversionError

def message : ConversionError → String
  | .unreadable e => e.message
  | .idsExhausted last => "question identifiers exhausted after Q" ++ toString last.toNat
  | .offBoundary span =>
    "bytes " ++ toString span.start ++ ".." ++ toString span.stop ++
      " do not lie between characters"

end ConversionError

/-- A quiz and what is to be said about it. It may be added to, so that there can be pieces in it
that are not known to be questions. -/
structure Conversion where
  /-- The pieces in front of the questions, whatever they are. -/
  earlier : List String := []
  questions : List Question := []
  /-- The warnings, in the order of their causes in the document. -/
  warnings : List Warning := []
  /-- How many numbers were used, once the conversion is complete. -/
  count : UInt64 := 0
  /-- The first number that is not used, once the conversion is complete. -/
  nextId : UInt64 := 0
deriving Repr, DecidableEq

namespace Conversion

def fragments (c : Conversion) : List String :=
  c.earlier ++ c.questions.flatMap Question.fragments

def gift (c : Conversion) : String :=
  String.join c.fragments

end Conversion

/-- What an element is to the level it stands on. -/
inductive Role where
  /-- A problem inside the problem. -/
  | problem
  /-- A question. -/
  | response (kind : ResponseKind)
  /-- Content of a title. -/
  | content
deriving Repr, DecidableEq

namespace Role

/-- The role of the elements with a name. -/
def ofName (name : String) : Role :=
  if name = "problem" then .problem
  else if name = "multiplechoiceresponse" then .response .multipleChoice
  else if name = "choiceresponse" then .response .checkboxes
  else if name = "numericalresponse" then .response .numerical
  else .content

end Role

/-- A level of nested problems: the children still to visit and the title so far. -/
structure Level where
  rest : List (Node Element)
  title : Title := {}
deriving Repr

/-- A conversion under way. -/
structure Session where
  counter : Counter
  conversion : Conversion := {}
deriving Repr

/-- A session and what stopped it, if anything did. -/
structure Outcome where
  session : Session
  error? : Option ConversionError
deriving Repr

namespace Session

def warn (s : Session) (w : Warning) : Session :=
  { s with conversion := { s.conversion with warnings := s.conversion.warnings ++ [w] } }

/-- At the end of a level: a title that is not empty has found no response. -/
def endLevel (s : Session) (mode : TitleMode) (title : Title) : Session :=
  let text := title.text mode
  if text.isEmpty then s else s.warn (.droppedTitle text)

def question (s : Session) (mode : TitleMode) (title : Title) (kind : ResponseKind)
    (response : Element) : Question where
  id := s.counter.next
  follows := s.counter.next != s.counter.first
  html := mode == .markup
  title := title.text mode
  body := Body.ofResponse kind response

/-- The warning that a question gives rise to. -/
def answerWarning? (q : Question) : Option Warning :=
  match q.body with
  | .numerical none _ => some (.missingAnswer q.id)
  | _ => none

/-- With one more question and its warning. -/
def push (s : Session) (q : Question) : Session :=
  { s with
    conversion := { s.conversion with
      questions := s.conversion.questions ++ [q]
      warnings := s.conversion.warnings ++ (answerWarning? q).toList } }

/-- Asks a question and moves on to the next number. When there is none, the question has been
asked all the same. -/
def ask (s : Session) (q : Question) : Outcome :=
  match s.counter.succ? with
  | some counter => ⟨{ s.push q with counter }, none⟩
  | none => ⟨s.push q, some (.idsExhausted s.counter.next)⟩

/-- The work left on the open levels. -/
noncomputable def work (levels : List Level) : Nat :=
  levels.foldr (fun l n => sizeOf l.rest + n) 0

@[simp] theorem work_cons (l : Level) (levels : List Level) :
    work (l :: levels) = sizeOf l.rest + work levels := rfl

/-- Visits what is left on the open levels, the innermost first. -/
def walk (source : List Char) (mode : TitleMode) : List Level → Session → Outcome
  | [], s => ⟨s, none⟩
  | ⟨[], title⟩ :: levels, s => walk source mode levels (s.endLevel mode title)
  | ⟨.text _ :: rest, title⟩ :: levels, s => walk source mode (⟨rest, title⟩ :: levels) s
  | ⟨.element e :: rest, title⟩ :: levels, s =>
    match Role.ofName e.name with
    | .problem => walk source mode (⟨e.children, {}⟩ :: ⟨rest, title⟩ :: levels) s
    | .response kind =>
      match s.ask (s.question mode title kind e) with
      | ⟨s, none⟩ => walk source mode (⟨rest, {}⟩ :: levels) s
      | ⟨s, some error⟩ => ⟨s, some error⟩
    | .content =>
      match mode.contribution source e with
      | .part part => walk source mode (⟨rest, title.push part⟩ :: levels) s
      | .unsupported name =>
        walk source mode (⟨rest, title⟩ :: levels) (s.warn (.unsupportedElement name))
      | .offBoundary span => ⟨s, some (.offBoundary span)⟩
termination_by levels => work levels
decreasing_by
  all_goals simp only [work_cons, List.cons.sizeOf_spec, List.nil.sizeOf_spec,
    Node.text.sizeOf_spec, Node.element.sizeOf_spec]
  · omega
  · omega
  · have := e.sizeOf_children_lt
    omega
  all_goals omega

/-- Converts the children of an element of a document with the given source. -/
def convertChildren (s : Session) (source : List Char) (mode : TitleMode) (e : Element) :
    Outcome :=
  walk source mode [⟨e.children, {}⟩] s

end Session

def convert (xml : String) (options : Options) : Except ConversionError Conversion :=
  match Document.parse xml with
  | .error e => .error (.unreadable e)
  | .ok document =>
    let start : Session := { counter := .fresh options.startId }
    let outcome := start.convertChildren document.source options.titleMode document.root
    match outcome.error? with
    | some e => .error e
    | none =>
      let counter := outcome.session.counter
      .ok { outcome.session.conversion with count := counter.used, nextId := counter.next }

end GiftQuiz
