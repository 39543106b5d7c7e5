import GiftQuiz.Quiz.Title
import GiftQuiz.Text.Digit

/-!
# Values on the command line

What the values of options, operands and environment variables stand for. A reader gives the value
of a text, or nothing for a text that has none; `ValueKind` names the readers, so that a command
can say which values it takes.
-/

namespace GiftQuiz

namespace CommandLine

/-- The number that decimal digits write, with or without a plus sign in front. -/
def natural? (s : String) : Option Nat :=
  match s.toList with
  | '+' :: digits => Digit.natural? digits
  | digits => Digit.natural? digits

def identifier? (s : String) : Option UInt64 := do
  let n ← natural? s
  if h : n < UInt64.size then some (UInt64.ofNatLT n h) else none

/-- A port of the network. Zero may have a minus sign. -/
def port? (s : String) : Option Nat := do
  let n ←
    match s.toList with
    | '-' :: '+' :: _ => none
    | '-' :: digits => (natural? (String.ofList digits)).filter (· == 0)
    | _ => natural? s
  if n < 65536 then some n else none

/-- A truth value. -/
def truth? (s : String) : Option Bool :=
  if s = "true" then some true else if s = "false" then some false else none

def path? (s : String) : Option String :=
  if s.isEmpty then none else some s

inductive ValueKind where
  /-- Any text. -/
  | text
  | path
  | identifier
  | port
  | titleMode
deriving Repr, DecidableEq

namespace ValueKind

def accepts (kind : ValueKind) (s : String) : Bool :=
  match kind with
  | .text => true
  | .path => (path? s).isSome
  | .identifier => (identifier? s).isSome
  | .port => (port? s).isSome
  | .titleMode => (TitleMode.ofName? s).isSome

end ValueKind

end CommandLine

end GiftQuiz
