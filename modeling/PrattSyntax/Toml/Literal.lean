import PrattSyntax.Toml.Text
import PrattSyntax.Toml.Value

/-!
# Literals of a settings file

A literal is a truth value, a number, or a date or a time. What can be read as a date is not
read as a number, and of a number as much is read as there is. A literal is first read off the
text and then evaluated: there may be no such date, and a decimal integer may be too long.
-/

namespace PrattSyntax.Toml

/-- A literal as it is written: a value, a moment that there may be none of, or a number with
its sign, its digits before and behind the point, and its exponent. -/
inductive Literal where
  | plain (value : Value)
  | moment (time : Moment)
  | integer (negative : Bool) (digits : List Nat)
  | float (negative : Bool) (digits fraction : List Nat) (exponent : Int)

/-- The value of a literal at the front of a text. -/
def Literal.evaluate (input : List Char) : Literal → Except Stop Value
  | .plain value => .ok value
  | .moment time => if time.exists? then .ok (.moment time) else malformed .noDate input
  | .integer negative digits =>
      if IntegerLiteral.maxDigits < digits.length then .error (.longInteger digits.length)
      else
        let value : Int := ofDigits 10 digits
        .ok (.integer (if negative then -value else value))
  | .float negative digits fraction exponent =>
      .ok (.float (.ofDecimal negative (ofDigits 10 (digits ++ fraction))
        (exponent - fraction.length)))

namespace Trial

/-! ## Digits -/

/-- The value of a digit to a base. -/
def digit? (base : Nat) (char : Char) : Option Nat := (hexValue? char).filter (· < base)

/-- The digits that go on with a number; a single underscore may stand before each of them. -/
def moreDigits (base : Nat) : (input : List Char) → Piece (List Nat) input
  | [] => ⟨[], [], List.suffix_refl _⟩
  | '_' :: char :: rest =>
      match digit? base char with
      | some digit =>
          ((moreDigits base rest).map (digit :: ·)).ofRest (List.suffix_append [_, _] rest)
      | none => ⟨[], '_' :: char :: rest, List.suffix_refl _⟩
  | char :: rest =>
      match digit? base char with
      | some digit => ((moreDigits base rest).map (digit :: ·)).ofRest (List.suffix_cons _ _)
      | none => ⟨[], char :: rest, List.suffix_refl _⟩

/-- The digits of a number, at least one. -/
def digits (base : Nat) : Trial (List Nat) := do
  let first ← oneOf (digit? base)
  let more ← fun input => some (moreDigits base input)
  return first :: more

/-- A character. -/
def mark (char : Char) : Trial Unit := oneOf fun other => if other = char then some () else none

/-- A sign: whether it is a minus. -/
def sign : Trial Bool :=
  oneOf fun char => if char = '-' then some true else if char = '+' then some false else none

/-! ## Numbers -/

/-- An integer to another base than ten. -/
def radix : Trial Literal := do
  mark '0'
  let base ← oneOf fun char =>
    if char = 'x' then some 16 else if char = 'o' then some 8
    else if char = 'b' then some 2 else none
  let digits ← digits base
  return .plain (.integer (ofDigits base digits))

/-- The digits of a decimal number before the point, where a zero stands alone. -/
def wholeDigits : Trial (List Nat) := (do mark '0'; return [0]) <|> digits 10

/-- The digits of a decimal number behind the point. -/
def fractionDigits : Trial (List Nat) := do
  mark '.'
  digits 10

/-- The exponent of a decimal number. -/
def exponent : Trial Int := do
  mark 'e' <|> mark 'E'
  let negative ← optional sign
  let digits ← digits 10
  let value : Int := ofDigits 10 digits
  return if negative = some true then -value else value

/-- A decimal number. It is an integer if it has neither a fraction nor an exponent. -/
def decimal : Trial Literal := do
  let sign ← optional sign
  let negative := sign = some true
  let digits ← wholeDigits
  let fraction ← optional fractionDigits
  let power ← optional exponent
  if fraction = none ∧ power = none then return .integer negative digits
  else return .float negative digits (fraction.getD []) (power.getD 0)

/-- A number that has no digits. -/
def wordNumber : Trial Literal := do
  let sign ← optional sign
  let negative := sign = some true
  (do word "inf"; return .plain (.float (.infinite negative)))
    <|> (do word "nan"; return .plain (.float .undefined))

/-! ## Dates and times -/

/-- A number of so many digits, between bounds. -/
def fixed (width least greatest : Nat) : Trial Nat := fun input => do
  let digits ← (input.take width).mapM (digit? 10)
  let value := ofDigits 10 digits
  if digits.length = width ∧ least ≤ value ∧ value ≤ greatest then
    some ⟨value, input.drop width, List.drop_suffix _ _⟩
  else none

/-- The part of a second behind a point. Only its first six digits count. -/
def micro : Trial Nat := do
  mark '.'
  let chars ← someOf Char.isDigit
  return ofDigits 10 (((chars.filterMap (digit? 10)) ++ List.replicate 6 0).take 6)

/-- A time. -/
def clock : Trial Clock := do
  let hour ← fixed 2 0 23
  mark ':'
  let minute ← fixed 2 0 59
  mark ':'
  let second ← fixed 2 0 59
  let micro ← optional micro
  return ⟨hour, minute, second, micro.getD 0⟩

/-- How far the clocks are ahead. -/
def offset : Trial Offset :=
  (do mark 'Z' <|> mark 'z'; return ⟨0⟩)
    <|> (do
      let negative ← sign
      let hour ← fixed 2 0 23
      mark ':'
      let minute ← fixed 2 0 59
      let minutes : Int := 60 * hour + minute
      return ⟨if negative then -minutes else minutes⟩)

/-- A date as it is written. -/
def date : Trial Date := do
  let year ← fixed 4 0 9999
  mark '-'
  let month ← fixed 2 1 12
  mark '-'
  let day ← fixed 2 1 31
  return ⟨year, month, day⟩

/-- A time behind a date, and the offset if there is one. -/
def clockBehindDate : Trial (Clock × Option Offset) := do
  mark 'T' <|> mark 't' <|> mark ' '
  let clock ← clock
  let offset ← optional offset
  return (clock, offset)

/-- A date with or without a time. -/
def moment : Trial Literal := do
  let date ← date
  let behind ← optional clockBehindDate
  match behind with
  | none => return .moment (.day date)
  | some (clock, offset) => return .moment (.both date clock offset)

/-! ## Literals -/

/-- A truth value. -/
def boolean : Trial Literal :=
  (do word "true"; return .plain (.boolean true))
    <|> (do word "false"; return .plain (.boolean false))

/-- A literal. -/
def literal : Trial Literal :=
  boolean <|> moment <|> (do return .moment (.time (← clock))) <|> radix <|> decimal
    <|> wordNumber

end Trial

/-- A text or a literal. -/
def scalar : Demand Value := fun input =>
  if input.head? = some '"' ∨ input.head? = some '\'' then (Value.text <$> text) input
  else do
    let piece ← Demand.ofTrial .noValue Trial.literal input
    let value ← piece.value.evaluate input
    return piece.map fun _ => value

end PrattSyntax.Toml
