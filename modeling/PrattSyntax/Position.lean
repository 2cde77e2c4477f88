import PrattSyntax.Byte

/-!
# Positions and spans

A position is moved over one byte at a time: a line feed opens the next line,
any other byte moves one column to the right. A position inside a text is
therefore a function of the bytes before it, `Position.start.after`.
-/

namespace PrattSyntax

/-- A place in a source text. Lines and columns count from one, columns and
offsets count bytes, offsets from zero. Lines and columns are integers because
a place that is handed in from outside may lie before the text. -/
structure Position where
  line : Int
  column : Int
  offset : Nat
deriving DecidableEq, Repr

namespace Position

/-- The place before the first byte of a text. -/
def start : Position := ⟨1, 1, 0⟩

/-- The place after one more byte. -/
def step (position : Position) (byte : UInt8) : Position :=
  if byte = Byte.lineFeed then
    ⟨position.line + 1, 1, position.offset + 1⟩
  else
    ⟨position.line, position.column + 1, position.offset + 1⟩

/-- The place after a run of bytes. -/
def after (position : Position) (bytes : List UInt8) : Position :=
  bytes.foldl step position

@[simp]
theorem after_nil (position : Position) : position.after [] = position := rfl

@[simp]
theorem after_cons (position : Position) (byte : UInt8) (bytes : List UInt8) :
    position.after (byte :: bytes) = (position.step byte).after bytes := rfl

theorem after_append (position : Position) (left right : List UInt8) :
    position.after (left ++ right) = (position.after left).after right :=
  List.foldl_append

@[simp]
theorem step_offset (position : Position) (byte : UInt8) :
    (position.step byte).offset = position.offset + 1 := by
  unfold step
  split <;> rfl

@[simp]
theorem after_offset (position : Position) (bytes : List UInt8) :
    (position.after bytes).offset = position.offset + bytes.length := by
  induction bytes generalizing position with
  | nil => rfl
  | cons byte bytes inductionHypothesis =>
      simp only [after_cons, inductionHypothesis, step_offset, List.length_cons]
      omega

end Position

/-- A stretch of source text, from its first byte to the place after its last. -/
structure Span where
  start : Position
  stop : Position
deriving DecidableEq, Repr

/-- The span of what has no place of its own. -/
def Span.origin : Span := ⟨.start, .start⟩

end PrattSyntax
