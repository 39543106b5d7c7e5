import GiftQuiz.Json.Writer
import GiftQuiz.Quiz.Conversion

/-!
# Interchange records

How options, warnings and conversions are exchanged as JSON. A warning is an object whose field
`kind` names its constructor and whose other field holds its argument; options are an object
with a field each. Readers ignore fields they do not know and demand the ones they do. They also
accept an array of the values in the order of the fields, and a title mode written as an object
whose one field is its word with `null` in it.
-/

namespace GiftQuiz

namespace TitleMode

def toJson (mode : TitleMode) : Json :=
  .string mode.name

def ofJson? : Json → Option TitleMode
  | .string s => ofName? s
  | .object [(s, .null)] => ofName? s
  | _ => none

end TitleMode

namespace Options

def toJson (o : Options) : Json :=
  .object [("start_id", .natural o.startId), ("title_mode", o.titleMode.toJson)]

def ofValues? (startId titleMode : Json) : Option Options := do
  return { startId := ← startId.toUInt64?, titleMode := ← TitleMode.ofJson? titleMode }

def ofJson? : Json → Option Options
  | .object fields => do
    ofValues? (← Json.field? fields "start_id") (← Json.field? fields "title_mode")
  | .array [startId, titleMode] => ofValues? startId titleMode
  | _ => none

end Options

namespace Warning

/-- The name of a kind of warning. -/
inductive Kind where
  | unsupportedElement
  | droppedTitle
  | missingAnswer
deriving Repr, DecidableEq

namespace Kind

def name : Kind → String
  | .unsupportedElement => "unsupported_element"
  | .droppedTitle => "dropped_title"
  | .missingAnswer => "missing_answer"

def ofName? (s : String) : Option Kind :=
  [unsupportedElement, droppedTitle, missingAnswer].find? (·.name == s)

/-- The name of the field that holds the argument. -/
def fieldName : Kind → String
  | .unsupportedElement => "tag"
  | .droppedTitle => "title"
  | .missingAnswer => "id"

/-- The warning of a kind with an argument. -/
def warning? (kind : Kind) (argument : Json) : Option Warning :=
  match kind with
  | .unsupportedElement => argument.toString?.map .unsupportedElement
  | .droppedTitle => argument.toString?.map .droppedTitle
  | .missingAnswer => argument.toUInt64?.map .missingAnswer

end Kind

def kind : Warning → Kind
  | .unsupportedElement _ => .unsupportedElement
  | .droppedTitle _ => .droppedTitle
  | .missingAnswer _ => .missingAnswer

def argument : Warning → Json
  | .unsupportedElement tag => .string tag
  | .droppedTitle title => .string title
  | .missingAnswer id => .natural id

def toJson (w : Warning) : Json :=
  .object [("kind", .string w.kind.name), (w.kind.fieldName, w.argument)]

def ofJson? : Json → Option Warning
  | .object fields => do
    let kind ← Kind.ofName? (← (← Json.field? fields "kind").toString?)
    kind.warning? (← Json.field? fields kind.fieldName)
  | .array [kind, argument] => do
    (← Kind.ofName? (← kind.toString?)).warning? argument
  | _ => none

end Warning

structure Report where
  gift : String
  questions : UInt64
  nextId : UInt64
  warnings : List Warning
deriving Repr, DecidableEq

namespace Report

def toJson (r : Report) : Json :=
  .object
    [("gift", .string r.gift), ("questions", .natural r.questions), ("next_id", .natural r.nextId),
      ("warnings", .array (r.warnings.map Warning.toJson))]

end Report

namespace Conversion

def report (c : Conversion) : Report where
  gift := c.gift
  questions := c.count
  nextId := c.nextId
  warnings := c.warnings

/-- A conversion as the command line reports it. -/
def toJson (c : Conversion) : Json :=
  c.report.toJson

end Conversion

end GiftQuiz
