import GiftQuiz.Markup.Token.Scan
import GiftQuiz.Markup.Span

/-!
# Events of a document

The tokens of a document, decoded: tags with their names and attributes, character data with its
references replaced. Comments, processing instructions and doctypes are `Event.skipped`; a CDATA
section is character data like any other.

Reading an event is a step of a `Reader`, which knows the byte position and the names of the
open elements. It refuses an end tag that does not close the innermost of them. Everything that
can go wrong with a document is a `Cause`, and a `ReadError` says at which byte.
-/

namespace GiftQuiz

namespace Markup

/-- What happens at a token of a document. -/
inductive Event where
  /-- A start tag. -/
  | opened (name : String) (attributes : List Attribute)
  /-- The tag of an element without content. -/
  | empty (name : String) (attributes : List Attribute)
  /-- An end tag, of the innermost open element. -/
  | closed
  /-- Character data. -/
  | text (content : String)
  /-- A token without meaning for the tree. -/
  | skipped
deriving Repr, DecidableEq

inductive Cause where
  /-- A token cannot be read. -/
  | badSyntax (error : SyntaxError)
  /-- An end tag while no element is open. -/
  | unmatchedEnd (name : String)
  /-- An end tag of another element than the innermost open one. -/
  | mismatchedEnd (expected found : String)
  /-- The attributes of a tag cannot be read. -/
  | badAttribute (error : AttributeError)
  /-- A bad reference in character data. -/
  | badReference (error : ReferenceError)
  /-- The end of an element while the tree has none open. -/
  | unexpectedEnd
  /-- A second element at the top. -/
  | secondRoot (name : String)
  /-- Character data at the top that is not blank. -/
  | textOutsideRoot
  /-- The document ends inside an element. -/
  | unclosedElement (name : String)
  /-- No element at the top. -/
  | noRoot
deriving Repr, DecidableEq

namespace Cause

/-- An end tag as it is quoted in messages. -/
def endTag (name : String) : String :=
  "`</" ++ name ++ ">`"

def message : Cause → String
  | .badSyntax e => e.message
  | .unmatchedEnd name =>
    "ill-formed document: close tag " ++ endTag name ++ " does not match any open tag"
  | .mismatchedEnd expected found =>
    "ill-formed document: expected " ++ endTag expected ++ ", but " ++ endTag found ++
      " was found"
  | .badAttribute e => e.message
  | .badReference e => e.message
  | .unexpectedEnd => "unexpected end tag"
  | .secondRoot name => "unexpected element <" ++ name ++ "> after the root element"
  | .textOutsideRoot => "text outside of the root element"
  | .unclosedElement name => "unclosed element <" ++ name ++ ">"
  | .noRoot => "document has no root element"

end Cause

/-- A cause with the byte of the document it is reported at. -/
structure ReadError where
  position : Nat
  cause : Cause
deriving Repr, DecidableEq

namespace ReadError

def message (e : ReadError) : String :=
  "XML parse error at byte " ++ toString e.position ++ ": " ++ e.cause.message

end ReadError

/-- An event and the bytes of its token. -/
structure Located where
  span : Span
  event : Event
deriving Repr, DecidableEq

/-- Where reading stands: the byte position, and the names of the open elements, the innermost
first. -/
structure Reader where
  position : Nat := 0
  opened : List String := []
deriving Repr, DecidableEq

namespace Reader

/-- The name in an end tag: white space at its end does not count, unless there is nothing
else. -/
def endName (content : List Char) : String :=
  let kept := content.reverse.dropWhile isSpace
  String.ofList (if kept.isEmpty then content else kept.reverse)

/-- The event of a token and the names of the open elements behind it. Errors of the nesting are
reported behind the token, errors inside it at its start. -/
def decode (r : Reader) (span : Span) (k : Token) :
    Except ReadError (Event × List String) :=
  match k with
  | .text content =>
    match unescape content with
    | .ok t => .ok (.text (String.ofList t), r.opened)
    | .error e => .error ⟨span.start, .badReference e⟩
  | .cdata content => .ok (.text (String.ofList content), r.opened)
  | .startTag content =>
    match Attribute.readTag content with
    | .ok (name, attributes) => .ok (.opened name attributes, name :: r.opened)
    | .error e => .error ⟨span.start, .badAttribute e⟩
  | .emptyTag content =>
    match Attribute.readTag content with
    | .ok (name, attributes) => .ok (.empty name attributes, r.opened)
    | .error e => .error ⟨span.start, .badAttribute e⟩
  | .endTag content =>
    let found := endName content
    match r.opened with
    | [] => .error ⟨span.stop, .unmatchedEnd found⟩
    | expected :: opened =>
      if found = expected then .ok (.closed, opened)
      else .error ⟨span.stop, .mismatchedEnd expected found⟩
  | .comment _ => .ok (.skipped, r.opened)
  | .doctype _ => .ok (.skipped, r.opened)
  | .instruction _ => .ok (.skipped, r.opened)

def step (r : Reader) (k : Token) : Except ReadError (Located × Reader) :=
  let span : Span := ⟨r.position, r.position + k.size⟩
  match r.decode span k with
  | .ok (event, opened) => .ok (⟨span, event⟩, ⟨span.stop, opened⟩)
  | .error e => .error e

end Reader

end Markup

end GiftQuiz
