import PrattSyntax.Proofs.Lexer.Concatenation
import PrattSyntax.Proofs.Lexer.Place

/-!
# Seams

Two texts are put together. Whether a token goes over the seam is decided by the byte on
either side of it; if none does, the tokens of both texts together are the tokens of the
one and then those of the other, at the places that these have behind the first text.
-/

namespace PrattSyntax

open TokenKind (Extends)

/-! ## Places behind a text -/

namespace Position

/-- The place in two texts, one behind the other, of a place in the second one. The
first line of the second text goes on with the last line of the first one. -/
def behind (front : List UInt8) (position : Position) : Position :=
  ⟨position.line + (front.count Byte.lineFeed : Nat),
    if position.line = 1 then
      position.column + ((front.rtakeWhile (· ≠ Byte.lineFeed)).length : Nat)
    else position.column,
    position.offset + front.length⟩

theorem relocate_after_start (front : List UInt8) :
    (start.after front).relocate = behind front := by
  have standing : front <+: front.drop 0 := List.prefix_refl front
  have placeEq : start.after front = ofOffset (front ++ []) front.length := by
    have afterEq := after_ofOffset standing
    rw [Nat.zero_add] at afterEq
    rw [List.append_nil, ← afterEq]
    rfl
  funext position
  rw [placeEq, ofOffset_length_append]
  simp only [relocate, behind, Position.mk.injEq]
  refine ⟨by omega, ?_, Nat.add_comm _ _⟩
  split
  · omega
  · rfl

end Position

/-! ## Bytes at a seam -/

/-- Whether a byte goes on with the token that the byte before it is in: both are
letters, both are digits, both are wide, or `=` is behind `=` or `!`. -/
def Byte.Joins (last next : UInt8) : Prop :=
  (isLetter last ∧ isLetter next) ∨ (isDigit last ∧ isDigit next) ∨
    (isWide last ∧ isWide next) ∨ (last = equals ∨ last = bang) ∧ next = equals

instance (last next : UInt8) : Decidable (Byte.Joins last next) :=
  inferInstanceAs (Decidable (_ ∨ _))

/-- What extends a token joins its last byte. -/
theorem TokenKind.Extends.joins {bytes : List UInt8} {last next : UInt8}
    (extension : Extends bytes next) (isLast : bytes.getLast? = some last) :
    Byte.Joins last next := by
  cases extension with
  | @run runClass _ _ inside also =>
      have lastInside := inside.2 last (List.mem_of_getLast? isLast)
      cases runClass with
      | letters => exact .inl ⟨lastInside, also⟩
      | digits => exact .inr (.inl ⟨lastInside, also⟩)
      | wides => exact .inr (.inr (.inl ⟨lastInside, also⟩))
  | assign =>
      obtain rfl : Byte.equals = last := Option.some.inj isLast
      exact .inr (.inr (.inr ⟨.inl rfl, rfl⟩))
  | bang =>
      obtain rfl : Byte.bang = last := Option.some.inj isLast
      exact .inr (.inr (.inr ⟨.inr rfl, rfl⟩))

theorem TokenKind.Extends.ne_nil {bytes : List UInt8} {next : UInt8}
    (extension : Extends bytes next) : bytes ≠ [] := by
  cases extension with
  | run inside _ => exact inside.1
  | assign => exact List.cons_ne_nil _ _
  | bang => exact List.cons_ne_nil _ _

/-- The two bytes at a seam decide whether a token goes over it. -/
theorem separates_of_not_joins {front back : List UInt8}
    (apart : ∀ last ∈ front.getLast?, ∀ next ∈ back.head?, ¬ Byte.Joins last next) :
    Separates front back := by
  rintro bytes ⟨before, frontEq⟩ next isNext extension
  have isLast := List.getLast?_eq_some_getLast extension.ne_nil
  apply apart _ _ next isNext (extension.joins isLast)
  rw [← frontEq, List.getLast?_append, isLast]
  rfl

/-! ## Tokens of both texts -/

/-- Where the bytes at the seam do not join, the tokens of two texts put together are those
of the first one, without the mark of its end, and those of the second one behind it. -/
theorem tokenize_append {front back : List UInt8}
    (apart : ∀ last ∈ front.getLast?, ∀ next ∈ back.head?, ¬ Byte.Joins last next) :
    tokenize (front ++ back) =
      (tokenize front).dropLast ++ (tokenize back).map (Token.moved (Position.behind front)) := by
  have streamEq := TokenStream.ofBytes_append (separates_of_not_joins apart)
  rw [Position.relocate_after_start] at streamEq
  have tokenizeEq : ∀ text, tokenize text =
      (TokenStream.ofBytes text).ahead ++ [(TokenStream.ofBytes text).eof] := fun text => rfl
  rw [tokenizeEq, streamEq, tokenize_dropLast, tokenizeEq back, List.map_append]
  simp only [List.append_assoc]
  rfl

/-- Of three signs at the seam the first two are one token and the last one is another. The
line that goes over the seam begins behind a wide byte and a line feed. -/
theorem tokenize_append_signs :
    let front := "let é\nx==".toUTF8.toList
    let back := "!é 5\n y".toUTF8.toList
    (∀ last ∈ front.getLast?, ∀ next ∈ back.head?, ¬ Byte.Joins last next) ∧
      tokenize (front ++ back) =
        (tokenize front).dropLast ++ (tokenize back).map (Token.moved (.behind front)) ∧
      (tokenize (front ++ back)).map (fun token => token.span.start) =
        [⟨1, 1, 0⟩, ⟨1, 5, 4⟩, ⟨2, 1, 7⟩, ⟨2, 2, 8⟩, ⟨2, 4, 10⟩, ⟨2, 5, 11⟩, ⟨2, 8, 14⟩, ⟨3, 2, 17⟩,
          ⟨3, 3, 18⟩] := by
  intro front back
  have apart : ∀ last ∈ front.getLast?, ∀ next ∈ back.head?, ¬ Byte.Joins last next := by
    decide +kernel
  exact ⟨apart, tokenize_append apart, by decide +kernel⟩

end PrattSyntax
