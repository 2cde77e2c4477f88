import PrattSyntax.Toml.Literal

/-!
# Entries of a settings file

An entry is a key, an equals sign and a value. A key has parts between dots. A value is a
text, a literal, an array of values, or a table of entries on one line. What is inside of an
array or a table is shorter than it, so that reading comes to an end; but every array and
every table takes calls, and there is room for so many only.
-/

namespace PrattSyntax.Toml

/-! ## Keys -/

/-- The characters of a key without marks. -/
def isBareKeyChar (char : Char) : Bool := char.isAlphanum || char = '-' || char = '_'

/-- One part of a key. -/
def keyPart : Demand String := fun input =>
  match Trial.someOf isBareKeyChar input with
  | some piece => .ok (piece.map String.ofList)
  | none => textInLine .noKey input

/-- A key, and the blanks behind it. -/
def key (input : List Char) : Except Stop (Piece Key input) := do
  let part ← keyPart input
  let front := skipWhile isBlank part.rest
  match dotted : front.rest with
  | '.' :: rest =>
      let next := skipWhile isBlank rest
      let more ← key next.rest
      return (more.map (part.value :: ·)).ofRest <|
        next.suffix.trans ((front.suffix_of_rest_eq dotted).trans part.suffix)
  | _ => return ⟨[part.value], front.rest, front.suffix.trans part.suffix⟩
termination_by input.length
decreasing_by
  calc next.rest.length
    _ ≤ rest.length := next.rest_length_le
    _ < part.rest.length := front.length_lt_of_rest_eq dotted
    _ ≤ input.length := part.rest_length_le

/-- A key, the equals sign behind it, and the blanks behind that. -/
def keyEquals : Demand Key := do
  let path ← key
  Demand.ofTrial .noEquals (Trial.mark '=')
  blanks
  return path

/-! ## Tables on one line -/

/-- A table on one line while it is read, and the keys in it that are complete. -/
structure Inline where
  table : Table := []
  complete : List Key := []

/-- The table with one entry more. Nothing goes into a complete value. -/
def Inline.insert (inline : Inline) (path : Key) (value : Value) : Except Cause Inline := do
  let last := path.getLastD ""
  if inline.complete.any (·.isPrefixOf path) then throw (.complete path)
  let table ← inline.table.insert false (.givenTwice last) path.dropLast last value
  return ⟨table, if value.isComposed then path :: inline.complete else inline.complete⟩

/-! ## Values -/

/-- The calls that an array takes, its own and the one for an element. -/
def arrayCalls : Nat := 2

/-- The calls that a table on one line takes, its own, the one for an entry and the one for
its value. -/
def tableCalls : Nat := 3

mutual

/-- A value. -/
def value (room : Nat) (input : List Char) : Except Stop (Piece Value input) :=
  match input with
  | '[' :: rest =>
      if room < arrayCalls then .error .tooDeep
      else do
        let piece ← elements (room - arrayCalls) rest
        return (piece.map Value.array).ofRest (List.suffix_cons _ _)
  | '\x7b' :: rest =>
      if room < tableCalls then .error .tooDeep
      else
        let front := skipWhile isBlank rest
        match opened : front.rest with
        | '\x7d' :: behind =>
            .ok ⟨.table [], behind, (front.suffix_of_rest_eq opened).trans (List.suffix_cons _ _)⟩
        | _ => do
            let piece ← entries (room - tableCalls) {} front.rest
            return (piece.map Value.table).ofRest (front.suffix.trans (List.suffix_cons _ _))
  | input => scalar input
termination_by 2 * input.length
decreasing_by
  all_goals
    have frontLe := (skipWhile isBlank rest).rest_length_le
    simp only [List.length_cons]
    omega

/-- The elements of an array up to its end, where a comma may stand behind the last one. -/
def elements (room : Nat) (input : List Char) : Except Stop (Piece (List Value) input) := do
  let front ← filler input
  match closed : front.rest with
  | ']' :: rest => return ⟨[], rest, front.suffix_of_rest_eq closed⟩
  | _ =>
      let first ← value room front.rest
      let behind ← filler first.rest
      match next : behind.rest with
      | ']' :: rest =>
          return ⟨[first.value], rest,
            (behind.suffix_of_rest_eq next).trans (first.suffix.trans front.suffix)⟩
      | ',' :: rest =>
          let more ← elements room rest
          return (more.map (first.value :: ·)).ofRest <|
            (behind.suffix_of_rest_eq next).trans (first.suffix.trans front.suffix)
      | rest => malformed .noArrayEnd rest
termination_by 2 * input.length + 1
decreasing_by
  · have frontLe := front.rest_length_le
    omega
  · have restLt := behind.length_lt_of_rest_eq next
    have firstLe := first.rest_length_le
    have frontLe := front.rest_length_le
    omega

/-- The entries of a table on one line up to its end, added to the ones before. -/
def entries (room : Nat) (inline : Inline) (input : List Char) :
    Except Stop (Piece Table input) := do
  let path ← keyEquals input
  let first ← value room path.rest
  let inline ← (inline.insert path.value first.value).mapError fun cause =>
    .malformed cause first.rest.length
  let behind := skipWhile isBlank first.rest
  match next : behind.rest with
  | '\x7d' :: rest =>
      return ⟨inline.table, rest,
        (behind.suffix_of_rest_eq next).trans (first.suffix.trans path.suffix)⟩
  | ',' :: rest =>
      let more ← entries room inline (skipWhile isBlank rest).rest
      return more.ofRest <| (skipWhile isBlank rest).suffix.trans <|
        (behind.suffix_of_rest_eq next).trans (first.suffix.trans path.suffix)
  | rest => malformed .noInlineEnd rest
termination_by 2 * input.length + 1
decreasing_by
  · have pathLe := path.rest_length_le
    omega
  · have frontLe := (skipWhile isBlank rest).rest_length_le
    have restLt := behind.length_lt_of_rest_eq next
    have firstLe := first.rest_length_le
    have pathLe := path.rest_length_le
    omega

end

section

variable {room : Nat} {rest : List Char}

theorem value_array (roomy : ¬ room < arrayCalls) :
    value room ('[' :: rest) = (do
      let piece ← elements (room - arrayCalls) rest
      return (piece.map Value.array).ofRest (List.suffix_cons _ _)) := by
  rw [value, if_neg roomy]

theorem value_emptyTable (roomy : ¬ room < tableCalls) {behind : List Char}
    (closed : (skipWhile isBlank rest).rest = '\x7d' :: behind) :
    value room ('\x7b' :: rest) =
      .ok ⟨.table [], behind,
        ((skipWhile isBlank rest).suffix_of_rest_eq closed).trans (List.suffix_cons _ _)⟩ := by
  rw [value, if_neg roomy]
  dsimp only
  split
  · next other =>
      obtain ⟨-, rfl⟩ := List.cons.inj (closed.symm.trans other)
      rfl
  · next others => exact absurd closed (others behind)

theorem value_table (roomy : ¬ room < tableCalls)
    (others : ∀ behind, (skipWhile isBlank rest).rest ≠ '\x7d' :: behind) :
    value room ('\x7b' :: rest) = (do
      let piece ← entries (room - tableCalls) {} (skipWhile isBlank rest).rest
      return (piece.map Value.table).ofRest
        ((skipWhile isBlank rest).suffix.trans (List.suffix_cons _ _))) := by
  rw [value, if_neg roomy]
  dsimp only
  split
  · next behind closed => exact absurd closed (others behind)
  · rfl

end

/-- An entry with the value behind its key. -/
def entry (room : Nat) : Demand (Key × Value) := do
  let path ← keyEquals
  let value ← fun input => value room input
  return (path, value)

end PrattSyntax.Toml
