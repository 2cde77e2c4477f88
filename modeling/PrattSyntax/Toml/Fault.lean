import PrattSyntax.Text.Quoted

/-!
# Faults of a settings file

Why a settings file cannot be used. The first fault in reading order counts. A text
that is malformed is so at a place, which the message tells.
-/

namespace PrattSyntax.Toml

/-- A path of keys. -/
abbrev Key := List String

/-- A path of keys as it is told in messages. -/
def tell : Key → String
  | [part] => "(" ++ Text.quote part ++ ",)"
  | path => "(" ++ ", ".intercalate (path.map Text.quote) ++ ")"

/-- What is wrong with the text of a settings file. -/
inductive Cause where
  | noStatement
  | noStatementEnd
  | noKey
  | noEquals
  | noValue
  | noMark (mark : String)
  | noTableEnd
  | noTablesEnd
  | noArrayEnd
  | noInlineEnd
  | noTextEnd
  | foundControl (char : Char)
  | control (char : Char)
  | noEscape
  | noCode
  | noCharacter
  | noDate
  | declaredTwice (path : Key)
  | redefined (path : Key)
  | complete (path : Key)
  | overwritten
  | givenTwice (key : String)
deriving DecidableEq, Repr

/-- The wording of a cause. -/
def Cause.message : Cause → String
  | noStatement => "Invalid statement"
  | noStatementEnd => "Expected newline or end of document after a statement"
  | noKey => "Invalid initial character for a key part"
  | noEquals => "Expected '=' after a key in a key/value pair"
  | noValue => "Invalid value"
  | noMark mark => "Expected " ++ Text.quote mark
  | noTableEnd => "Expected ']' at the end of a table declaration"
  | noTablesEnd => "Expected ']]' at the end of an array declaration"
  | noArrayEnd => "Unclosed array"
  | noInlineEnd => "Unclosed inline table"
  | noTextEnd => "Unterminated string"
  | foundControl char => "Found invalid character " ++ Text.quote char.toString
  | control char => "Illegal character " ++ Text.quote char.toString
  | noEscape => "Unescaped '\\' in a string"
  | noCode => "Invalid hex value"
  | noCharacter => "Escaped character is not a Unicode scalar value"
  | noDate => "Invalid date or datetime"
  | declaredTwice path => "Cannot declare " ++ tell path ++ " twice"
  | redefined path => "Cannot redefine namespace " ++ tell path
  | complete path => "Cannot mutate immutable namespace " ++ tell path
  | overwritten => "Cannot overwrite a value"
  | givenTwice key => "Duplicate inline table key " ++ Text.quote key

/-- A place in a text: a line and a column, or the end. -/
inductive Place where
  | inLine (line column : Nat)
  | ending
deriving DecidableEq, Repr

/-- The place in a text from which on so many characters are left. -/
def Place.ofLeft (text : List Char) (left : Nat) : Place :=
  let before := text.take (text.length - left)
  if left = 0 then .ending
  else .inLine (before.count '\n' + 1) ((before.reverse.takeWhile (· ≠ '\n')).length + 1)

/-- A place as it is told in messages. -/
def Place.message : Place → String
  | inLine line column => "line " ++ toString line ++ ", column " ++ toString column
  | ending => "end of document"

/-- What is wrong with a settings file. -/
inductive Fault where
  /-- Its bytes are no text. -/
  | notText
  /-- Its text is no settings file. -/
  | malformed (cause : Cause) (place : Place)
  /-- A decimal number in it has more digits than are converted. -/
  | longInteger (digits : Nat)
  /-- There is no room for the arrays and tables in one another. -/
  | tooDeep
deriving DecidableEq, Repr

/-- The wording for a text that is malformed. -/
def malformedMessage (cause : Cause) (place : Place) : String :=
  cause.message ++ " (at " ++ place.message ++ ")"

end PrattSyntax.Toml
