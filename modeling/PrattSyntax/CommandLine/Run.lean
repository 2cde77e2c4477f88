import PrattSyntax.CommandLine.Options
import PrattSyntax.Diagnostic.Snippet
import PrattSyntax.Tree.Outline

/-!
# Runs

A run answers with an exit code and with what it writes: two if the options or
the input cannot be made out, one if a text is at fault, and nought otherwise.
Some runs break off without an answer: settings that are no text, hold too long a
number or have no room, a file that is asked for without a usable name, and an echo
loop whose mode or prompt is named without a value.
-/

namespace PrattSyntax.CommandLine

/-- The answer of a run: its exit code and what it writes. -/
structure Answer where
  code : Nat
  output : String := ""
  complaints : String := ""
deriving DecidableEq, Repr

/-- The answer with something written to the complaints before it. -/
def Answer.complainFirst (answer : Answer) (text : String) : Answer :=
  { answer with complaints := text ++ answer.complaints }

/-- Why a run breaks off without an answer. -/
inductive Breakdown where
  /-- The settings file is no text. -/
  | settingsNoText
  /-- A number in the settings has more digits than are converted. -/
  | longInteger (digits : Nat)
  /-- There is no room for the arrays and tables in the settings. -/
  | settingsTooDeep
  /-- The mode in the settings is none and cannot even be shown. -/
  | unshownMode (reason : Toml.Unshown)
  /-- The name of the file is empty. -/
  | noInput
  /-- The name of the file is none that the system takes. -/
  | noPath
  /-- The mode is named without a value. -/
  | noMode
  /-- The prompt is named without a value. -/
  | noPrompt
deriving DecidableEq, Repr

/-! ## What is written on the way -/

/-- The line about settings that are read. -/
def settingsNote (path : Path) : String :=
  "monkey.cli: loading config from " ++ path.toText ++ "\n"

/-- The line about a fault that is found. -/
def faultNote (fault : Fault) : String :=
  "monkey.parser: parse error: " ++ fault.message ++ "\n"

/-- What a run that says more writes about the faults of a text. -/
def faultNotes (verbose : Bool) (faults : List Fault) : String :=
  if verbose then String.join (faults.map faultNote) else ""

/-! ## Commands over the bytes of a file -/

/-- A token with its place, one a row. -/
def placedTokenRow (token : Token) : String :=
  toString token.span.start.line ++ ":" ++ toString token.span.start.column ++ "\t"
    ++ token.kind.name ++ "\t" ++ Text.quote token.literal ++ "\n"

/-- Every token of a file, the mark of the end among them. -/
def runTokens (bytes : List UInt8) : Answer :=
  { code := 0, output := String.join ((tokenize bytes).map placedTokenRow) }

/-- The faults of a file with their source lines. -/
def renderFaults (path : Path) (bytes : List UInt8) (faults : List Fault) : String :=
  let rows := Diagnostic.renderAll (Text.decodeLossy bytes) path.toText
    (faults.map Fault.diagnostic)
  String.join (rows.map (· ++ "\n"))

/-- The program of a file, or what is held against it; before either, if asked
for, the outline of the program. -/
def runParse (verbose debug : Bool) (path : Path) (bytes : List UInt8) : Answer :=
  let reading := parse bytes
  let before := faultNotes verbose reading.faults ++ if debug then reading.program.dump else ""
  if reading.faults = [] then
    { code := 0, output := reading.program.render ++ "\n", complaints := before }
  else { code := 1, complaints := before ++ renderFaults path bytes reading.faults }

/-- What is held against a file, and how much it is. -/
def runCheck (verbose : Bool) (path : Path) (bytes : List UInt8) : Answer :=
  let reading := parse bytes
  if reading.faults = [] then
    { code := 0
      output := path.toText ++ ": ok (" ++ toString reading.program.statements.length
        ++ " statements)\n" }
  else
    { code := 1
      complaints := faultNotes verbose reading.faults ++ renderFaults path bytes reading.faults
        ++ path.toText ++ ": " ++ toString reading.faults.length ++ " error(s)\n" }

/-- What the echo loop writes about a line besides its echo: the faults of the
program it is, if the loop is over programs and says more. -/
def echoNotes (verbose : Bool) (mode : Echo.Mode) (line : String) : String :=
  if mode = .tree then faultNotes verbose (parse (Text.encode line)).faults else ""

/-- The echo loop over an input. -/
def runEcho (verbose : Bool) (prompt : String) (mode : Echo.Mode) (input : String) : Answer :=
  { code := 0
    output := Echo.run prompt mode input
    complaints := String.join ((Text.readLines input.toList).map fun line =>
      echoNotes verbose mode (String.ofList line)) }

/-! ## Runs -/

/-- The answer of a run that cannot go on. -/
def refusal (message : String) : Answer :=
  { code := 2, complaints := "error: " ++ message ++ "\n" }

/-- A command over the file it is given. -/
def runOnFile (files : Files) (options : Options) (command : Path → List UInt8 → Answer) :
    Except Breakdown Answer :=
  match options.input with
  | none => .error .noInput
  | some path =>
      if path.isAccepted then
        match files path with
        | .error fault => .ok (refusal (fault.message path))
        | .ok bytes => .ok (command path bytes)
      else .error .noPath

/-- A run under given options. -/
def runOptions (files : Files) (input : String) (verbose : Bool) (options : Options) :
    Except Breakdown Answer :=
  match options.command with
  | .tokens _ => runOnFile files options fun _ => runTokens
  | .parse _ debug => runOnFile files options (runParse verbose debug)
  | .check _ => runOnFile files options (runCheck verbose)
  | .echo _ _ =>
      match options.mode, options.prompt with
      | none, _ => .error .noMode
      | some _, none => .error .noPrompt
      | some mode, some prompt => .ok (runEcho verbose prompt mode input)

/-- What a run writes before all else: that it reads settings, if it says more. -/
def openingNote (files : Files) (arguments : Arguments) : String :=
  if arguments.verbose && hasSettings files arguments.settingsPath then
    settingsNote arguments.settingsPath
  else ""

/-- The answer of a run whose options cannot be made out. -/
def runWithout (settingsPath : Path) : OptionFault → Except Breakdown Answer
  | .settings (.unreadable fault) => .ok (refusal (fault.message settingsPath))
  | .settings (.unusable .notText) => .error .settingsNoText
  | .settings (.unusable (.malformed cause place)) =>
      .ok (refusal (Toml.malformedMessage cause place))
  | .settings (.unusable (.longInteger digits)) => .error (.longInteger digits)
  | .settings (.unusable .tooDeep) => .error .settingsTooDeep
  | .unknownMode shown => .ok (refusal (unknownModeMessage shown))
  | .unshownMode reason => .error (.unshownMode reason)

/-- A run with given arguments over given files and a given input. There may be more
or less room for the values in the settings. -/
def run (room : Toml.Room) (files : Files) (input : String) (arguments : Arguments) :
    Except Breakdown Answer :=
  let answer : Except Breakdown Answer :=
    match arguments.options room files with
    | .error fault => runWithout arguments.settingsPath fault
    | .ok options => runOptions files input arguments.verbose options
  answer.map fun answered => answered.complainFirst (openingNote files arguments)

end PrattSyntax.CommandLine
