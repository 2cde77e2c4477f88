import PrattSyntax.Toml.Reader

/-!
# Texts of a settings file

A text stands between quotation marks, where a backslash begins an escape, or between
apostrophes, where every character is itself. Between three marks it may go over several
lines; a line feed right behind the first marks is left out, and up to two marks more may
stand before the last ones.
-/

namespace PrattSyntax.Toml

/-- The characters that no text over several lines may hold. -/
def isControlInLines (char : Char) : Bool := isControl char && char ≠ '\n'

/-- The value of a hexadecimal digit of either case. -/
def hexValue? (char : Char) : Option Nat :=
  if char.isDigit then some (char.toNat - '0'.toNat)
  else if 'a' ≤ char ∧ char ≤ 'f' then some (char.toNat - 'a'.toNat + 10)
  else if 'A' ≤ char ∧ char ≤ 'F' then some (char.toNat - 'A'.toNat + 10)
  else none

/-- The number that digits stand for. -/
def ofDigits (base : Nat) (digits : List Nat) : Nat :=
  digits.foldl (fun value digit => base * value + digit) 0

/-! ## Escapes -/

/-- The character with a code in so many hexadecimal digits. -/
def codedChar (width : Nat) : Demand Char := fun input =>
  match (input.take width).mapM hexValue? with
  | none => malformed .noCode input
  | some digits =>
      let code := ofDigits 16 digits
      if digits.length < width then malformed .noCode input
      else if code.isValidChar then
        .ok ⟨Char.ofNat code, input.drop width, List.drop_suffix _ _⟩
      else malformed .noCharacter (input.drop width)

/-- The character that a letter behind a backslash stands for. -/
def escapedChar? : Char → Option Char
  | 'b' => some '\x08'
  | 't' => some '\t'
  | 'n' => some '\n'
  | 'f' => some '\x0c'
  | 'r' => some '\r'
  | '"' => some '"'
  | '\\' => some '\\'
  | _ => none

/-- What is behind a backslash at the end of a line: blanks, and lines without anything else. -/
def lineEscape : Demand Unit := fun input =>
  let front := skipWhile isBlank input
  match opened : front.rest with
  | [] => .ok front
  | '\n' :: rest =>
      .ok ((skipWhile (fun char => isBlank char || char = '\n') rest).ofRest
        (front.suffix_of_rest_eq opened))
  | _ => malformed .noEscape front.rest

/-- What an escape stands for, behind its backslash. In a text over several lines it may stand
for nothing. -/
def escape (overLines : Bool) : Demand (List Char)
  | [] => malformed .noEscape []
  | letter :: rest =>
      if overLines && (isBlank letter || letter = '\n') then do
        let behind ← lineEscape (letter :: rest)
        return behind.map fun _ => []
      else if letter = 'u' then do
        let piece ← codedChar 4 rest
        return (piece.map fun char => [char]).ofRest (List.suffix_cons _ _)
      else if letter = 'U' then do
        let piece ← codedChar 8 rest
        return (piece.map fun char => [char]).ofRest (List.suffix_cons _ _)
      else
        match escapedChar? letter with
        | some char => .ok ⟨[char], rest, List.suffix_cons _ _⟩
        | none => malformed .noEscape rest

/-! ## Between marks -/

/-- The inside of a text with escapes, and its last marks. -/
def quotedBody (overLines : Bool) : Demand (List Char)
  | [] => malformed .noTextEnd []
  | '\\' :: rest => do
      let escaped ← escape overLines rest
      let body ← quotedBody overLines escaped.rest
      return (body.map (escaped.value ++ ·)).ofRest (escaped.suffix.trans (List.suffix_cons _ _))
  | '"' :: rest =>
      if !overLines then .ok ⟨[], rest, List.suffix_cons _ _⟩
      else if ['"', '"'].isPrefixOf rest then
        .ok ⟨[], rest.drop 2, (List.drop_suffix _ _).trans (List.suffix_cons _ _)⟩
      else do
        let body ← quotedBody overLines rest
        return (body.map ('"' :: ·)).ofRest (List.suffix_cons _ _)
  | char :: rest =>
      if if overLines then isControlInLines char else isControl char then
        malformed (.control char) (char :: rest)
      else do
        let body ← quotedBody overLines rest
        return (body.map (char :: ·)).ofRest (List.suffix_cons _ _)
termination_by input => input.length
decreasing_by
  · exact Nat.lt_succ_of_le escaped.rest_length_le
  · exact Nat.lt_succ_self _
  · exact Nat.lt_succ_self _

/-- The characters up to a mark and the rest behind it. -/
def before? (mark : List Char) : Trial (List Char)
  | [] => none
  | char :: rest =>
      if mark.isPrefixOf (char :: rest) then
        some ⟨[], (char :: rest).drop mark.length, List.drop_suffix _ _⟩
      else do
        let piece ← before? mark rest
        return (piece.map (char :: ·)).ofRest (List.suffix_cons _ _)

/-- The inside of a text without escapes, and its last marks. -/
def literalBody (mark : String) (isRefused : Char → Bool) : Demand (List Char) := fun input =>
  match before? mark.toList input with
  | none => malformed (.noMark mark) []
  | some piece => do
      refuse isRefused input (piece.rest.length + mark.length)
      return piece

/-- Up to two more of a mark. -/
def moreMarks (mark : Char) : Demand (List Char)
  | first :: second :: rest =>
      if first = mark then
        if second = mark then .ok ⟨[mark, mark], rest, List.suffix_append [_, _] rest⟩
        else .ok ⟨[mark], second :: rest, List.suffix_cons _ _⟩
      else .ok ⟨[], first :: second :: rest, List.suffix_refl _⟩
  | [first] =>
      if first = mark then .ok ⟨[mark], [], List.nil_suffix⟩
      else .ok ⟨[], [first], List.suffix_refl _⟩
  | [] => .ok ⟨[], [], List.suffix_refl _⟩

/-- A line feed, if there is one. -/
def skipFeed : Demand Unit
  | '\n' :: rest => .ok ⟨(), rest, List.suffix_cons _ _⟩
  | input => .ok ⟨(), input, List.suffix_refl _⟩

/-- A text on one line. -/
def textInLine (cause : Cause) : Demand String
  | '"' :: rest => Demand.behind (String.ofList <$> quotedBody false) (List.suffix_cons _ rest)
  | '\'' :: rest =>
      Demand.behind (String.ofList <$> literalBody "'" isControl) (List.suffix_cons _ rest)
  | input => malformed cause input

/-- A text over several lines, behind its first marks. -/
def textOverLines (mark : Char) (body : Demand (List Char)) : Demand String := do
  skipFeed
  let chars ← body
  let more ← moreMarks mark
  return String.ofList (chars ++ more)

/-- A text. -/
def text : Demand String
  | '"' :: '"' :: '"' :: rest =>
      Demand.behind (textOverLines '"' (quotedBody true)) (List.suffix_append [_, _, _] rest)
  | '\'' :: '\'' :: '\'' :: rest =>
      Demand.behind (textOverLines '\'' (literalBody "'''" isControlInLines))
        (List.suffix_append [_, _, _] rest)
  | input => textInLine .noValue input

end PrattSyntax.Toml
