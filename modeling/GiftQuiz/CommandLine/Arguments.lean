import GiftQuiz.CommandLine.Value
import GiftQuiz.Text.Split

/-!
# Arguments of a command

A command knows a list of options and how many operands it takes. Its arguments are read from
left to right:

- `--name` is an option, its value is what follows `=` or else the next argument,
- `-x` is an option known by its letter, with the value behind the letter or in the next
  argument; an option that asks for help or the version has no value, and what stands behind its
  letter is not looked at,
- `--` ends the options,
- anything else, `-` included, is an operand.

An argument that begins with a dash is no value of the option in front of it. Every option may be
given once. The first operand of a command that has commands of its own names one of them, and
what follows is read by that one.

Values and operands are checked when they are met, so of bad usage and a question for help or the
version the one that comes first decides.
-/

namespace GiftQuiz

namespace CommandLine

/-- What an option does. -/
inductive OptionKind where
  /-- It is given or not. -/
  | flag
  /-- It has a value. -/
  | value (kind : ValueKind)
  /-- It asks for help. -/
  | help
  /-- It asks for the version. -/
  | version
deriving Repr, DecidableEq

structure OptionSpec where
  name : String
  letter : Option Char := none
  kind : OptionKind
deriving Repr, DecidableEq

structure Spec where
  options : List OptionSpec
  /-- The most operands it takes. -/
  operands : Nat
  /-- What an operand has to be. -/
  operandKind : ValueKind := .text
  /-- Whether an operand is a command of its own, which reads the rest. -/
  nested : Bool := false
deriving Repr, DecidableEq

/-- Why reading arguments stops before a command is known. -/
inductive Stop where
  /-- The arguments are not understood. -/
  | badUsage
  | help
  | version
deriving Repr, DecidableEq

structure Matches where
  /-- The options that are given, by name, the flags without a value. -/
  given : List (String × Option String) := []
  operands : List String := []
  /-- What is left for a command of a command. -/
  rest : List String := []
deriving Repr, DecidableEq

namespace Matches

def has (m : Matches) (name : String) : Bool :=
  m.given.any (·.1 == name)

def value? (m : Matches) (name : String) : Option String :=
  (m.given.lookup name).join

/-- With one more option, which may not be given yet. -/
def add (m : Matches) (name : String) (value : Option String) : Except Stop Matches :=
  if m.has name then .error .badUsage else .ok { m with given := m.given ++ [(name, value)] }

end Matches

namespace Arguments

/-- An option in an argument, with the value that stands in the same argument. -/
structure Mention where
  option : OptionSpec
  attached : Option String
deriving Repr, DecidableEq

/-- An argument, seen for itself. -/
inductive Shape where
  /-- `--` -/
  | separator
  /-- An option, unless the command does not know it. -/
  | option (mention : Option Mention)
  | operand
deriving Repr, DecidableEq

/-- The mention of an option by its name, behind `--`. -/
def long? (options : List OptionSpec) (t : List Char) : Option Mention :=
  let (name, attached) :=
    match splitOnce '=' t with
    | some (name, value) => (name, some (String.ofList value))
    | none => (t, none)
  (options.find? (·.name == String.ofList name)).map (⟨·, attached⟩)

/-- What stands behind the letter of an option in the same argument, with or without an equals
sign in front. -/
def behindLetter (t : List Char) : Option String :=
  match t with
  | [] => none
  | '=' :: value => some (String.ofList value)
  | value => some (String.ofList value)

/-- The mention of an option by its letter, behind `-`. -/
def short? (options : List OptionSpec) (letter : Char) (t : List Char) : Option Mention :=
  (options.find? (·.letter == some letter)).map fun option =>
    match option.kind with
    | .help => ⟨option, none⟩
    | .version => ⟨option, none⟩
    | _ => ⟨option, behindLetter t⟩

def shape (options : List OptionSpec) (argument : String) : Shape :=
  match argument.toList with
  | ['-', '-'] => .separator
  | '-' :: '-' :: t => .option (long? options t)
  | '-' :: letter :: t => .option (short? options letter t)
  | _ => .operand

/-- Whether an argument can be the value of the option in front of it. -/
def isValue (argument : String) : Bool :=
  match argument.toList with
  | '-' :: _ :: _ => false
  | _ => true

def addOperand (spec : Spec) (m : Matches) (operand : String) : Except Stop Matches :=
  if m.operands.length < spec.operands && spec.operandKind.accepts operand then
    .ok { m with operands := m.operands ++ [operand] }
  else .error .badUsage

/-- With one more option and its value, if it is one. -/
def addValue (m : Matches) (name : String) (kind : ValueKind) (value : String) :
    Except Stop Matches :=
  if kind.accepts value then m.add name (some value) else .error .badUsage

/-- Reads the arguments behind the ones that gave `m`. -/
def readFrom (spec : Spec) (m : Matches) : List String → Except Stop Matches
  | [] => .ok m
  | argument :: arguments =>
    match shape spec.options argument with
    | .separator =>
      if spec.nested && !arguments.isEmpty then .error .badUsage
      else arguments.foldlM (addOperand spec) m
    | .operand =>
      if spec.nested then .ok { m with operands := [argument], rest := arguments }
      else
        match addOperand spec m argument with
        | .ok m => readFrom spec m arguments
        | .error stop => .error stop
    | .option none => .error .badUsage
    | .option (some ⟨option, attached⟩) =>
      match option.kind, attached, arguments with
      | .help, none, _ => .error .help
      | .version, none, _ => .error .version
      | .flag, none, arguments =>
        match m.add option.name none with
        | .ok m => readFrom spec m arguments
        | .error stop => .error stop
      | .value kind, some value, arguments =>
        match addValue m option.name kind value with
        | .ok m => readFrom spec m arguments
        | .error stop => .error stop
      | .value kind, none, value :: arguments =>
        if isValue value then
          match addValue m option.name kind value with
          | .ok m => readFrom spec m arguments
          | .error stop => .error stop
        else .error .badUsage
      | _, _, _ => .error .badUsage
termination_by arguments => arguments.length

def read (spec : Spec) (arguments : List String) : Except Stop Matches :=
  readFrom spec {} arguments

end Arguments

end CommandLine

end GiftQuiz
