/-!
# Lines

A text can be divided in two ways. `lines` breaks at every character that ends a
line, and takes a carriage return with the line feed behind it as one break;
`splitAt` cuts at one element, and `readLines` knows the line feed alone.
-/

namespace PrattSyntax.Text

/-- The characters that end a line. -/
def isLineBreak (char : Char) : Bool :=
  char ∈ ['\n', '\r', '\x0b', '\x0c', '\x1c', '\x1d', '\x1e', '\u0085', '\u2028', '\u2029']

/-- The lines of a text, each with its break. A break at the very end opens no
further line. -/
def lines : List Char → List (List Char)
  | [] => []
  | '\r' :: '\n' :: rest => ['\r', '\n'] :: lines rest
  | char :: rest =>
      if isLineBreak char then [char] :: lines rest
      else
        match lines rest with
        | [] => [[char]]
        | line :: more => (char :: line) :: more

/-- A list without the run of one element at its end. -/
def stripEnd {α : Type} [DecidableEq α] (element : α) (elements : List α) : List α :=
  (elements.reverse.dropWhile (· = element)).reverse

/-- A line without the line feeds and then the carriage returns at its end. -/
def stripBreak (line : List Char) : List Char :=
  stripEnd '\r' (stripEnd '\n' line)

/-- The pieces of a list between the occurrences of one element; there is always
at least one. -/
def splitAt {α : Type} [DecidableEq α] (element : α) : List α → List (List α)
  | [] => [[]]
  | head :: rest =>
      if head = element then [] :: splitAt element rest
      else
        match splitAt element rest with
        | [] => [[head]]
        | piece :: more => (head :: piece) :: more

/-- The lines of an input as they are read, each with its line feed; the last
one may be without. -/
def readLines : List Char → List (List Char)
  | [] => []
  | char :: rest =>
      if char = '\n' then [char] :: readLines rest
      else
        match readLines rest with
        | [] => [[char]]
        | line :: more => (char :: line) :: more

end PrattSyntax.Text
