import GiftQuiz.CommandLine.Arguments
import GiftQuiz.Quiz.Conversion
import GiftQuiz.Service.Credentials

/-!
# Commands

`convert` converts one document, `serve` runs the service. Most options can also be set by an
environment variable, which is looked at where the option is not given; a value is checked
wherever it comes from. `help` asks for help, about one of the commands if it is named.

`--verbose` may stand in front of the command and behind it, and each of the two places looks at
the environment for itself.
-/

namespace GiftQuiz

namespace CommandLine

/-- The value of an environment variable. -/
abbrev Environment := String → Option String

structure ConvertCommand where
  /-- The document, or `-` for standard input. -/
  file : String
  options : Options
  json : Bool
  verbose : Bool
deriving Repr, DecidableEq

structure ServeCommand where
  host : String
  port : Nat
  credentials : Credentials
  staticDir : Option String
  titleMode : TitleMode
  verbose : Bool
deriving Repr, DecidableEq

inductive Command where
  | convert (command : ConvertCommand)
  | serve (command : ServeCommand)
deriving Repr, DecidableEq

/-! ## Options -/

def verboseOption : OptionSpec := { name := "verbose", kind := .flag }
def helpOption : OptionSpec := { name := "help", letter := some 'h', kind := .help }
def versionOption : OptionSpec := { name := "version", letter := some 'V', kind := .version }
def valueOption (name : String) (kind : ValueKind) : OptionSpec := { name, kind := .value kind }

/-- The arguments in front of the command. -/
def mainSpec : Spec where
  options := [verboseOption, helpOption, versionOption]
  operands := 1
  nested := true

def convertSpec : Spec where
  options :=
    [valueOption "start" .identifier, valueOption "title-mode" .titleMode,
      { name := "json", kind := .flag }, verboseOption, helpOption]
  operands := 1
  operandKind := .path

def serveSpec : Spec where
  options :=
    [{ name := "port", letter := some 'p', kind := .value .port }, valueOption "host" .text,
      valueOption "username" .text, valueOption "password" .text, valueOption "static-dir" .path,
      valueOption "title-mode" .titleMode, verboseOption, helpOption]
  operands := 0

/-- An optional value of an option: the one that is given, or else the one of the environment. -/
def optional (m : Matches) (env : Environment) (name variableName : String)
    (read : String → Option α) : Except Stop (Option α) :=
  match m.value? name <|> env variableName with
  | none => .ok none
  | some s =>
    match read s with
    | some a => .ok (some a)
    | none => .error .badUsage

def required (a : Option α) : Except Stop α :=
  match a with
  | some a => .ok a
  | none => .error .badUsage

/-- Whether the flag is set by one of the two places where it may stand. -/
def verbosity (outer inner : Matches) (env : Environment) : Except Stop Bool := do
  let here := outer.has "verbose"
  let there := inner.has "verbose"
  if here && there then return true
  match env "EDX2GIFT_VERBOSE" with
  | none => return here || there
  | some s => return here || there || (← required (truth? s))

/-- The title mode, as both commands take it. -/
def titleMode (m : Matches) (env : Environment) : Except Stop TitleMode := do
  return (← optional m env "title-mode" "EDX2GIFT_TITLE_MODE" TitleMode.ofName?).getD .markup

/-! ## Reading a command -/

/-- The arguments of `convert`, behind the ones that gave `outer`. -/
def readConvert (outer : Matches) (env : Environment) : Except Stop ConvertCommand := do
  let m ← Arguments.read convertSpec outer.rest
  let file ← required m.operands.head?
  let startId ← optional m env "start" "EDX2GIFT_START" identifier?
  let titleMode ← titleMode m env
  let verbose ← verbosity outer m env
  return {
    file
    options := { startId := startId.getD 1, titleMode }
    json := m.has "json"
    verbose }

/-- The arguments of `serve`, behind the ones that gave `outer`. -/
def readServe (outer : Matches) (env : Environment) : Except Stop ServeCommand := do
  let m ← Arguments.read serveSpec outer.rest
  let port ← optional m env "port" "EDX2GIFT_PORT" port?
  let host ← optional m env "host" "EDX2GIFT_HOST" some
  let username ← required (← optional m env "username" "EDX2GIFT_USERNAME" some)
  let password ← required (← optional m env "password" "EDX2GIFT_PASSWORD" some)
  let staticDir ← optional m env "static-dir" "EDX2GIFT_STATIC_DIR" path?
  let titleMode ← titleMode m env
  let verbose ← verbosity outer m env
  return {
    host := host.getD "127.0.0.1"
    port := port.getD 8000
    credentials := ⟨username, password⟩
    staticDir
    titleMode
    verbose }

def commandNames : List String := ["convert", "serve", "help"]

/-- Help about the program, or about the one command that is named. -/
def readHelp (names : List String) : Stop :=
  match names with
  | [] => .help
  | [name] => if name ∈ commandNames then .help else .badUsage
  | _ => .badUsage

/-- What the arguments of the program ask for. -/
def read (arguments : List String) (env : Environment) : Except Stop Command := do
  let outer ← Arguments.read mainSpec arguments
  match outer.operands with
  | ["convert"] => return .convert (← readConvert outer env)
  | ["serve"] => return .serve (← readServe outer env)
  | ["help"] => throw (readHelp outer.rest)
  | _ => throw .badUsage

end CommandLine

end GiftQuiz
