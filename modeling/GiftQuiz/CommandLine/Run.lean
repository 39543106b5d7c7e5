import GiftQuiz.CommandLine.Command
import GiftQuiz.Quiz.Interchange

/-!
# Running a command

What the program prints and how it exits, given its arguments, the environment variables and the
files around it. A failure is reported as a list of causes, the outermost first, and prints
nothing on standard output.

Not everything that comes out is decided here. What the standard streams make of a text depends on
what they are connected to, the lines of the logger carry the time, and the text of the help is laid
out from the options. These are among the `Surroundings` of a run.
-/

namespace GiftQuiz

namespace CommandLine

inductive FileError where
  | notFound
  | isDirectory
  /-- Any other reason, in the words of the system. -/
  | other (reason : String)
deriving Repr, DecidableEq

namespace FileError

def message : FileError → String
  | .notFound => "No such file or directory (os error 2)"
  | .isDirectory => "Is a directory (os error 21)"
  | .other reason => reason

end FileError

/-- Whether a character is printed: control characters are not, white space apart. -/
def isPrinted (c : Char) : Bool :=
  c == '\t' || c == '\n' || c == '\x0c' || c == '\r' || (0x20 ≤ c.toNat && c.toNat != 0x7F)

/-- What a stream that is no terminal makes of a text without escape characters. Of a text with
them, such a stream leaves out whole sequences, and this is not what it makes of it. -/
def printed (s : String) : String :=
  String.ofList (s.toList.filter isPrinted)

/-- What the program finds around it. -/
structure Surroundings where
  env : Environment
  stdin : List UInt8
  file : String → Except FileError (List UInt8)
  isDirectory : String → Bool
  /-- What comes out of standard output for a text. If nothing else is said, this is so for a stream
  that is no terminal and for texts without escape characters. -/
  stdout : String → String := printed
  /-- The same for standard error. -/
  stderr : String → String := printed
  /-- What the logger adds to standard error for messages. When it is turned off this is nothing. -/
  log : List String → String := fun _ => ""
  /-- The help that arguments ask for. -/
  help : List String → String := fun _ => ""

/-- How a run ends. -/
inductive Exit where
  /-- With success, and what comes out of standard output and standard error. -/
  | success (stdout stderr : String)
  /-- With a failure and its causes. -/
  | failure (causes : List String)
  /-- With bad usage. -/
  | badUsage
  /-- With a conversion that is undefined. -/
  | undefined
  /-- Not at all: the service is to be run. -/
  | service (command : ServeCommand)
deriving Repr, DecidableEq

namespace Exit

def code : Exit → Nat
  | .success _ _ => 0
  | .failure _ => 1
  | .badUsage => 2
  | .undefined => 101
  | .service _ => 0

end Exit

/-- The name and the version of the program. -/
def versionLine : String := "edx2gift 1.0.0\n"

/-- The document of a file, where `-` is standard input, or the causes why there is none. -/
def readDocument (s : Surroundings) (file : String) : Except (List String) String :=
  if file = "-" then
    match Utf8.decode s.stdin with
    | .ok t => .ok (String.ofList t)
    | .error fault => .error ["Failed to read edX XML from stdin", fault.message]
  else
    match s.file file with
    | .error e => .error ["Failed to read " ++ file, e.message]
    | .ok bytes =>
      match Utf8.decode bytes with
      | .ok t => .ok (String.ofList t)
      | .error _ => .error ["Failed to read " ++ file, "stream did not contain valid UTF-8"]

/-- What `--verbose` writes to standard error, colours apart. -/
def summary (c : Conversion) : String :=
  "\nQuestions: " ++ toString c.count.toNat ++ "\nWarnings: " ++ toString c.warnings.length ++
    "\n" ++ String.join (c.warnings.map fun w => "  " ++ w.message ++ "\n")

/-- What is written to standard output for a conversion. -/
def output (json : Bool) (c : Conversion) : String :=
  if json then c.toJson.pretty ++ "\n" else c.gift

/-- Runs `convert`. The warnings go to the logger also without `--verbose`. -/
def runConvert (s : Surroundings) (command : ConvertCommand) : Exit :=
  match readDocument s command.file with
  | .error causes => .failure causes
  | .ok xml =>
    match convert xml command.options with
    | .ok c =>
      .success (s.stdout (output command.json c))
        (s.log (c.warnings.map Warning.message) ++
          if command.verbose then s.stderr (summary c) else "")
    | .error (.offBoundary _) => .undefined
    | .error e => .failure ["Failed to convert " ++ command.file, e.message]

/-- Runs `serve`, up to the service itself. -/
def runServe (s : Surroundings) (command : ServeCommand) : Exit :=
  match command.staticDir with
  | some dir =>
    if s.isDirectory dir then .service command
    else .failure ["Static directory " ++ dir ++ " does not exist"]
  | none => .service command

def run (s : Surroundings) (arguments : List String) : Exit :=
  match read arguments s.env with
  | .ok (.convert command) => runConvert s command
  | .ok (.serve command) => runServe s command
  | .error .version => .success versionLine ""
  | .error .help => .success (s.help arguments) ""
  | .error .badUsage => .badUsage

end CommandLine

end GiftQuiz
