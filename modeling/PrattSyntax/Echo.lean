import PrattSyntax.Parser.Program
import PrattSyntax.Text.Line
import PrattSyntax.Text.Quoted
import PrattSyntax.Text.Utf8
import PrattSyntax.Tree.Render

/-!
# The echo loop

A loop that shows a prompt, reads a line and echoes it back, as its tokens or as
the program it is, until the input ends. Lines know nothing of one another.
-/

namespace PrattSyntax.Echo

/-- What is echoed of a line. -/
inductive Mode where
  | tokens
  | tree
deriving DecidableEq, Repr

/-- The name of a mode. -/
def Mode.name : Mode → String
  | tokens => "tokens"
  | tree => "ast"

/-- The modes by name. -/
def Mode.named : List (String × Mode) := [tokens, tree].map fun mode => (mode.name, mode)

/-- The mode with a given name. -/
def Mode.ofName? (name : String) : Option Mode := named.lookup name

/-- The prompt unless another one is asked for. -/
def defaultPrompt : String := ">> "

/-- The wording for a mode that there is none of. -/
def unknownMode (name : String) : String := "unknown repl mode: " ++ Text.quote name

/-- A token as a row. -/
def tokenRow (token : Token) : String :=
  "Token(" ++ token.kind.name ++ ", " ++ Text.quote token.literal ++ ")\n"

/-- The tokens of a text, one a row, without the mark of the end. -/
def tokenRows (text : String) : String :=
  String.join ((Cursor.ofBytes (Text.encode text)).tokens.map tokenRow)

/-- The program of a text, or else what is held against it, one message a row. -/
def treeRows (text : String) : String :=
  let reading := parse (Text.encode text)
  if reading.faults = [] then reading.program.render ++ "\n"
  else String.join (reading.faults.map fun fault => "\t" ++ fault.message ++ "\n")

/-- What is echoed of a text. -/
def rows : Mode → String → String
  | .tokens => tokenRows
  | .tree => treeRows

/-- What the loop writes for an input: the prompt before each line and its echo
behind, and at the end of the input the prompt and a line feed. -/
def run (prompt : String) (mode : Mode) (input : String) : String :=
  String.join ((Text.readLines input.toList).map fun line =>
    prompt ++ rows mode (String.ofList line)) ++ prompt ++ "\n"

end PrattSyntax.Echo
