import GiftQuiz.CommandLine.Run

/-!
# The program

Gathers what a run needs, runs it and prints what it says. Nothing is decided here.
-/

namespace GiftQuiz

namespace CommandLine

def variableNames : List String :=
  ["START", "TITLE_MODE", "VERBOSE", "USERNAME", "PASSWORD", "PORT", "HOST", "STATIC_DIR"].map
    ("EDX2GIFT_" ++ ·)

/-- The variables that are set, as an environment. -/
def environment : IO Environment := do
  let set ← variableNames.mapM fun name => do return (name, ← IO.getEnv name)
  return fun name => (set.lookup name).join

/-- The bytes of a file, or why there are none. -/
def readFile (path : String) : IO (Except FileError (List UInt8)) := do
  try
    return .ok (← IO.FS.readBinFile path).toList
  catch
    | .noFileOrDirectory .. => return .error .notFound
    | .inappropriateType .. => return .error .isDirectory
    | e => return .error (.other (toString e))

def surroundings (env : Environment) (arguments : List String) : IO Surroundings := do
  let nothing : Surroundings :=
    { env, stdin := [], file := fun _ => .error .notFound, isDirectory := fun _ => false }
  match read arguments env with
  | .ok (.convert command) =>
    if command.file = "-" then
      return { nothing with stdin := (← (← IO.getStdin).readBinToEnd).toList }
    else
      let content ← readFile command.file
      return { nothing with file := fun _ => content }
  | .ok (.serve command) =>
    let some dir := command.staticDir | return nothing
    let content ← readFile dir
    return { nothing with isDirectory := fun _ => content matches .error .isDirectory }
  | .error _ => return nothing

def printCauses (causes : List String) : IO Unit := do
  IO.eprintln "Error:"
  for cause in causes do
    IO.eprintln ("   " ++ cause)

/-- Prints what a run says and gives its exit code. -/
def conclude (exit : Exit) : IO UInt32 := do
  match exit with
  | .success stdout stderr =>
    IO.print stdout
    IO.eprint stderr
  | .failure causes => printCauses causes
  | .badUsage => IO.eprintln "Bad usage"
  | .undefined => printCauses ["The source text of an element is undefined"]
  | .service command =>
    printCauses
      ["Failed to bind to " ++ command.host ++ ":" ++ toString command.port,
        "This program has no network"]
    return 1
  return exit.code.toUInt32

end CommandLine

end GiftQuiz

def main (arguments : List String) : IO UInt32 := do
  let env ← GiftQuiz.CommandLine.environment
  let surroundings ← GiftQuiz.CommandLine.surroundings env arguments
  GiftQuiz.CommandLine.conclude (GiftQuiz.CommandLine.run surroundings arguments)
