import GiftQuiz.Markup.Element
import GiftQuiz.Markup.Event
import GiftQuiz.Text.Blank

/-!
# Documents

`Document.parse` reads a document: its tokens become events, and a `Builder` makes the tree of
them. The builder holds the open elements with the children they have so far; an element gets
its span when it is closed.

Tokens are decoded and built one after the other, so of several errors the one that comes first
in the document is reported, and that a token cannot be read is noticed behind everything before
it.
-/

namespace GiftQuiz

namespace Markup

/-- An element whose end tag is still to come. Its children are held latest first. -/
structure Unfinished where
  name : String
  attributes : List Attribute
  children : List (Node Element)
  start : Nat
deriving Repr

/-- A tree in the making: the open elements, the innermost first, and the finished root. -/
structure Builder where
  opened : List Unfinished := []
  root : Option Element := none
deriving Repr

namespace Unfinished

def push (o : Unfinished) (n : Node Element) : Unfinished :=
  { o with children := n :: o.children }

def close (o : Unfinished) (stop : Nat) : Element where
  name := o.name
  attributes := o.attributes
  children := o.children.reverse
  span := ⟨o.start, stop⟩

end Unfinished

namespace Builder

/-- Adds a finished element to the innermost open one, or at the top. -/
def addElement (b : Builder) (e : Element) (position : Nat) : Except ReadError Builder :=
  match b.opened, b.root with
  | parent :: opened, _ => .ok { b with opened := parent.push (.element e) :: opened }
  | [], none => .ok { b with root := some e }
  | [], some _ => .error ⟨position, .secondRoot e.name⟩

/-- Adds character data to the innermost open element; at the top it has to be blank. -/
def addText (b : Builder) (t : String) (position : Nat) : Except ReadError Builder :=
  match b.opened with
  | parent :: opened => .ok { b with opened := parent.push (.text t) :: opened }
  | [] =>
    if t.toList.all Text.isBlank then .ok b else .error ⟨position, .textOutsideRoot⟩

/-- Adds an event to the tree. -/
def add (b : Builder) (l : Located) : Except ReadError Builder :=
  match l.event with
  | .opened name attributes =>
    .ok { b with opened := ⟨name, attributes, [], l.span.start⟩ :: b.opened }
  | .empty name attributes => b.addElement ⟨name, attributes, [], l.span⟩ l.span.start
  | .closed =>
    match b.opened with
    | [] => .error ⟨l.span.start, .unexpectedEnd⟩
    | o :: opened => { b with opened := opened }.addElement (o.close l.span.stop) l.span.start
  | .text t => b.addText t l.span.start
  | .skipped => .ok b

/-- The root, at the end of a document of `size` bytes. -/
def finish (b : Builder) (size : Nat) : Except ReadError Element :=
  match b.opened, b.root with
  | o :: _, _ => .error ⟨size, .unclosedElement o.name⟩
  | [], none => .error ⟨size, .noRoot⟩
  | [], some root => .ok root

end Builder

structure Document where
  source : List Char
  root : Element
deriving Repr

namespace Document

/-- Reads a token and adds its event to the tree. -/
def step (state : Reader × Builder) (k : Token) : Except ReadError (Reader × Builder) :=
  match state.1.step k with
  | .error e => .error e
  | .ok (located, reader) =>
    match state.2.add located with
    | .error e => .error e
    | .ok builder => .ok (reader, builder)

/-- A byte order mark in front of a document is skipped, and its bytes are not counted. -/
def dropMark : List Char → List Char
  | [] => []
  | c :: t => if c = '\uFEFF' then t else c :: t

def parseRoot (source : List Char) : Except ReadError Element :=
  let scan := Token.scan (dropMark source)
  match scan.tokens.foldlM step ({}, {}) with
  | .error e => .error e
  | .ok (reader, builder) =>
    match scan.fault with
    | some fault => .error ⟨reader.position + fault.consumed, .badSyntax fault.error⟩
    | none => builder.finish (Utf8.size source)

def parse (xml : String) : Except ReadError Document :=
  match parseRoot xml.toList with
  | .ok root => .ok ⟨xml.toList, root⟩
  | .error e => .error e

end Document

end Markup

end GiftQuiz
