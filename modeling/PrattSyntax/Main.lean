import PrattSyntax.CommandLine.Run

/-!
# The program

The command line over the files and the streams of the system. The paths that a
run asks for are read beforehand, and the run itself is pure. Only the echo loop
answers while its input still comes in; what it writes about each line is what
`runEcho` writes about it.
-/

namespace PrattSyntax.CommandLine

/-- The fault that a failure of the system stands for. A failure that is about no
file has the number of a failed transfer. -/
def faultOf : IO.Error → ReadFault
  | .noFileOrDirectory .. => .notFound
  | .inappropriateType _ code _ =>
      if code = 20 ∨ 0 - code = 20 then .notDirectory else .isDirectory
  | .invalidArgument .. => .nameTooLong
  | .permissionDenied .. => ⟨13, "Permission denied"⟩
  | _ => ⟨5, "Input/output error"⟩

/-- What reading a path gives. -/
def readPath (path : Path) : IO (Except ReadFault (List UInt8)) := do
  unless path.isAccepted do return .error .notFound
  try
    let bytes ← IO.FS.readBinFile path.toText
    return .ok bytes.toList
  catch failure => return .error (faultOf failure)

/-- The files at given paths. -/
def readFiles (paths : List Path) : IO Files := do
  let found ← paths.mapM fun path => return (path, ← readPath path)
  return fun path => (found.lookup path).getD (.error .notFound)

/-- The paths that a run reads. -/
def Arguments.paths (arguments : Arguments) : List Path :=
  arguments.settingsPath :: (arguments.command.file?.bind namedPath).toList

/-- How the program is called. -/
def usage : String :=
  "usage: monkey [-h] [--config FILE] [-v] COMMAND ...\n"
    ++ "  tokens FILE                             print the tokens of a file\n"
    ++ "  parse [--debug] FILE                    print the program of a file\n"
    ++ "  check FILE                              print what is held against a file\n"
    ++ "  repl [--mode tokens|ast] [--prompt P]   echo each line of the input\n"

/-- The wording for a run that breaks off. -/
def Breakdown.message : Breakdown → String
  | settingsNoText => "the settings file is not UTF-8"
  | longInteger digits => "a number in the settings file has " ++ toString digits ++ " digits"
  | settingsTooDeep => "arrays and tables in the settings file are nested too deep"
  | unshownMode .longInteger => "a number in the mode in the settings file is too long"
  | unshownMode .tooDeep => "arrays and tables in the mode in the settings file are nested too deep"
  | noInput => "the name of the input file is empty"
  | noPath => "the name of the input file holds a NUL"
  | noMode => "the mode is missing"
  | noPrompt => "the prompt is missing"

/-- The echo loop over the lines of standard input as they come in. -/
partial def echoLines (verbose : Bool) (prompt : String) (mode : Echo.Mode) : IO Unit := do
  let output ← IO.getStdout
  output.putStr prompt
  output.flush
  let line ← (← IO.getStdin).getLine
  if line = "" then output.putStr "\n"
  else
    IO.eprint (echoNotes verbose mode line)
    output.putStr (Echo.rows mode line)
    echoLines verbose prompt mode

/-- Writes the answer of a run and gives its exit code. -/
def report : Except Breakdown Answer → IO UInt32
  | .ok answer => do
      IO.eprint answer.complaints
      IO.print answer.output
      return answer.code.toUInt32
  | .error breakdown => do
      IO.eprintln ("error: " ++ breakdown.message)
      return 1

/-- A run with given arguments. -/
def runArguments (arguments : Arguments) : IO UInt32 := do
  let files ← readFiles arguments.paths
  match arguments.options .standard files with
  | .ok ⟨.echo _ _, _, some prompt, some mode⟩ =>
      IO.eprint (openingNote files arguments)
      echoLines arguments.verbose prompt mode
      return 0
  | _ => report (run .standard files "" arguments)

/-- A stop: how the program is called, as an answer or as a complaint. -/
def explain (stop : Stop) : IO UInt32 := do
  if stop.code = 0 then IO.print usage else IO.eprint usage
  return stop.code.toUInt32

end PrattSyntax.CommandLine

open PrattSyntax.CommandLine in
/-- The program. -/
def main (arguments : List String) : IO UInt32 :=
  match Arguments.ofList arguments with
  | .error stop => explain stop
  | .ok request => runArguments request
