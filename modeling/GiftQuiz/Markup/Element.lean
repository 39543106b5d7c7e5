import GiftQuiz.Markup.Attribute
import GiftQuiz.Markup.Span

/-!
# Element trees

An element has a name, attributes and children, which are elements and runs of character data,
and it knows the span of the document it was read from. Most accessors look at the children only;
`select` follows a path of names from level to level, and `textContent` gathers the character data
of a whole tree. The latter keeps the open levels on a list of its own, so that the depth of a
tree costs no stack.
-/

namespace GiftQuiz

namespace Markup

/-- A child of an element, which is an element or a run of character data. -/
inductive Node (ε : Type) where
  | element (e : ε)
  | text (content : String)
deriving Repr

structure Element where
  name : String
  attributes : List Attribute
  children : List (Node Element)
  span : Span
deriving Repr

namespace Node

def element? : Node Element → Option Element
  | .element e => some e
  | .text _ => none

def text? : Node Element → Option String
  | .element _ => none
  | .text t => some t

end Node

namespace Element

/-- The text of the element in the document with the given source, from the `<` of its start
tag to the `>` of its end tag; undefined where its span cuts a character. -/
def sourceText? (source : List Char) (e : Element) : Option String :=
  (slice? source e.span).map String.ofList

/-- The value of the first attribute with a key. -/
def attribute? (e : Element) (key : String) : Option String :=
  (e.attributes.find? (·.key == key)).map Attribute.value

def elements (e : Element) : List Element :=
  e.children.filterMap Node.element?

def child? (e : Element) (name : String) : Option Element :=
  e.elements.find? (·.name == name)

/-- The names in a path, which slashes separate; empty ones do not count. -/
def steps (path : String) : List String :=
  ((path.toList.splitOn '/').filter (!·.isEmpty)).map String.ofList

def named (name : String) (e : Element) : List Element :=
  e.elements.filter (·.name == name)

/-- The elements reached by following a path of child names, in document order. -/
def select (e : Element) (path : String) : List Element :=
  (steps path).foldl (fun reached name => reached.flatMap (named name)) [e]

/-- The character data before the first child element. -/
def leadingText (e : Element) : String :=
  String.join ((e.children.takeWhile (·.text?.isSome)).filterMap Node.text?)

/-- Children are smaller than the element they belong to. -/
theorem sizeOf_children_lt (e : Element) : sizeOf e.children < sizeOf e := by
  cases e
  simp only [Element.mk.sizeOf_spec]
  omega

/-- Induction over a run of children: what holds of the children of an element and of what stands
behind it, holds of the run that begins with it. -/
@[elab_as_elim]
theorem nodes_induction {motive : List (Node Element) → Prop} (nil : motive [])
    (text : ∀ t rest, motive rest → motive (.text t :: rest))
    (element : ∀ e rest, motive e.children → motive rest → motive (.element e :: rest))
    (nodes : List (Node Element)) : motive nodes := by
  match nodes with
  | [] => exact nil
  | .text t :: rest => exact text t rest (nodes_induction nil text element rest)
  | .element e :: rest =>
    exact element e rest (nodes_induction nil text element e.children)
      (nodes_induction nil text element rest)
termination_by sizeOf nodes
decreasing_by
  all_goals simp only [List.cons.sizeOf_spec, Node.text.sizeOf_spec, Node.element.sizeOf_spec]
  all_goals try have := sizeOf_children_lt e
  all_goals omega

/-- Gathers the character data of open levels, the innermost first, behind `out`. -/
def gather : (levels : List (List (Node Element))) → (out : String) → String
  | [], out => out
  | [] :: levels, out => gather levels out
  | (.text t :: rest) :: levels, out => gather (rest :: levels) (out ++ t)
  | (.element e :: rest) :: levels, out => gather (e.children :: rest :: levels) out
termination_by levels => sizeOf levels
decreasing_by
  all_goals simp only [List.cons.sizeOf_spec, List.nil.sizeOf_spec, Node.text.sizeOf_spec,
    Node.element.sizeOf_spec]
  · omega
  · omega
  · have := sizeOf_children_lt e
    omega

/-- The character data of the element and of all elements inside it, in document order. -/
def textContent (e : Element) : String :=
  gather [e.children] ""

end Element

end Markup

end GiftQuiz
