import PrattSyntax.Toml.Fault

/-!
# Readers

A reader takes a piece off the front of a text and hands back the rest, which is an end of the
text; so a reader that goes on with the rest behind some character comes to an end itself.
A reader may try, and find that the text does not begin with such a piece, or demand, and stop
where it does not.
-/

namespace PrattSyntax.Toml

/-- What is taken off the front of a text, and the rest. -/
structure Piece (α : Type) (input : List Char) where
  value : α
  rest : List Char
  suffix : rest <:+ input

namespace Piece

variable {α β : Type} {part input : List Char}

/-- A piece with something else made of it. -/
def map (f : α → β) (piece : Piece α input) : Piece β input :=
  ⟨f piece.value, piece.rest, piece.suffix⟩

/-- A piece of the rest of a text as a piece of the text. -/
def ofRest (piece : Piece α part) (isEnd : part <:+ input) : Piece α input :=
  ⟨piece.value, piece.rest, piece.suffix.trans isEnd⟩

theorem rest_length_le (piece : Piece α input) : piece.rest.length ≤ input.length :=
  piece.suffix.length_le

/-- Behind a character of the rest is an end of the text. -/
theorem suffix_of_rest_eq (piece : Piece α input) {char : Char} {rest : List Char}
    (restEq : piece.rest = char :: rest) : rest <:+ input :=
  (List.suffix_cons char rest).trans (restEq ▸ piece.suffix)

theorem length_lt_of_rest_eq (piece : Piece α input) {char : Char} {rest : List Char}
    (restEq : piece.rest = char :: rest) : rest.length < input.length := by
  have restLe := piece.rest_length_le
  rw [restEq] at restLe
  exact restLe

end Piece

/-- Why reading stops inside of a text. -/
inductive Stop where
  /-- The text is malformed where so many characters are left. -/
  | malformed (cause : Cause) (left : Nat)
  /-- A decimal number in it has more digits than are converted. -/
  | longInteger (digits : Nat)
  /-- There is no room for the arrays and tables in one another. -/
  | tooDeep
deriving DecidableEq, Repr

/-- A reader takes a piece off the front of any text. -/
def Reader (m : Type → Type) (α : Type) : Type := (input : List Char) → m (Piece α input)

instance {m : Type → Type} [Monad m] : Monad (Reader m) where
  pure value input := pure ⟨value, input, List.suffix_refl _⟩
  bind first next input := do
    let piece ← first input
    let more ← next piece.value piece.rest
    pure (more.ofRest piece.suffix)

/-- A reader that may find nothing. -/
abbrev Trial (α : Type) : Type := Reader Option α

/-- A reader that stops where it finds nothing. -/
abbrev Demand (α : Type) : Type := Reader (Except Stop) α

instance {α : Type} : OrElse (Trial α) :=
  ⟨fun first second input => first input <|> second () input⟩

/-- The stop at the front of a text that is malformed there. -/
def malformed {α : Type} (cause : Cause) (input : List Char) : Except Stop α :=
  .error (.malformed cause input.length)

namespace Trial

variable {α : Type}

/-- A piece or nothing. -/
def optional (trial : Trial α) : Trial (Option α) := fun input =>
  match trial input with
  | some piece => some (piece.map some)
  | none => some ⟨none, input, List.suffix_refl _⟩

/-- A character of a class, as what it stands for. -/
def oneOf (class? : Char → Option α) : Trial α
  | [] => none
  | char :: rest => (class? char).map fun value => ⟨value, rest, List.suffix_cons _ _⟩

/-- Characters of a class, at least one. -/
def someOf (class? : Char → Bool) : Trial (List Char) := fun input =>
  match input.takeWhile class? with
  | [] => none
  | chars => some ⟨chars, input.dropWhile class?, List.dropWhile_suffix _⟩

/-- A word. -/
def word (text : String) : Trial Unit := fun input =>
  if text.toList.isPrefixOf input then
    some ⟨(), input.drop text.length, List.drop_suffix _ _⟩
  else none

end Trial

namespace Demand

variable {α : Type}

/-- What has to be there. -/
def ofTrial (cause : Cause) (trial : Trial α) : Demand α := fun input =>
  match trial input with
  | some piece => .ok piece
  | none => malformed cause input

/-- What is made of pieces before, unless something is wrong with them. -/
def ofExcept (result : Except Cause α) : Demand α := fun input =>
  match result with
  | .ok value => .ok ⟨value, input, List.suffix_refl _⟩
  | .error cause => malformed cause input

/-- What a reader takes off the rest of a text, as a piece of the text. -/
def behind (demand : Demand α) {rest input : List Char} (isEnd : rest <:+ input) :
    Except Stop (Piece α input) :=
  (demand rest).map fun piece => piece.ofRest isEnd

end Demand

/-! ## Blanks and comments -/

/-- The blanks of a line. -/
def isBlank (char : Char) : Bool := char = ' ' || char = '\t'

/-- The characters that no line may hold: controls other than the tab. -/
def isControl (char : Char) : Bool := (char.toNat < 0x20 && char ≠ '\t') || char.toNat = 0x7f

/-- Past the characters of a class. -/
def skipWhile (class? : Char → Bool) (input : List Char) : Piece Unit input :=
  ⟨(), input.dropWhile class?, List.dropWhile_suffix _⟩

/-- Past blanks. -/
def blanks : Demand Unit := fun input => .ok (skipWhile isBlank input)

/-- Nothing, if in front of the last characters of a text there is none of a class. -/
def refuse (class? : Char → Bool) (input : List Char) (last : Nat) : Except Stop Unit :=
  match input.dropWhile fun char => !class? char with
  | [] => .ok ()
  | char :: rest =>
      if rest.length < last then .ok () else malformed (.foundControl char) (char :: rest)

/-- Past the text of a comment, to the end of its line. -/
def commentText : Demand Unit := fun input => do
  let behind := skipWhile (· ≠ '\n') input
  refuse isControl input behind.rest.length
  return behind

/-- Past a comment, if there is one. -/
def comment : Demand Unit
  | '#' :: input => do
      let behind ← commentText input
      return behind.ofRest (List.suffix_cons _ _)
  | input => .ok ⟨(), input, List.suffix_refl _⟩

/-- Past blanks, line feeds and comments. -/
def filler (input : List Char) : Except Stop (Piece Unit input) :=
  let front := skipWhile (fun char => isBlank char || char = '\n') input
  match opened : front.rest with
  | '#' :: rest => do
      let behind ← commentText rest
      let more ← filler behind.rest
      return more.ofRest (behind.suffix.trans (front.suffix_of_rest_eq opened))
  | _ => .ok front
termination_by input.length
decreasing_by exact Nat.lt_of_le_of_lt behind.rest_length_le (front.length_lt_of_rest_eq opened)

end PrattSyntax.Toml
