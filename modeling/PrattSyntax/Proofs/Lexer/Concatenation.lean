import PrattSyntax.Proofs.Lexer.Segmentation
import PrattSyntax.Proofs.Places.Moved

/-!
# Texts behind texts

Where nothing at the end of one text is continued by the text behind it, the
tokens of both together are the tokens of the one and then those of the other.
The places of the latter are relocated: their text begins where the former ends.
A text that ends with a semicolon is continued by nothing.
-/

namespace PrattSyntax

open TokenKind (Extends)

/-- Whether no token at the end of `front` could go on into `back`. -/
def Separates (front back : List UInt8) : Prop :=
  ∀ bytes, bytes <:+ front → ∀ next, back.head? = some next → ¬ Extends bytes next

theorem Separates.of_suffix {front rest back : List UInt8} (separates : Separates front back)
    (suffix : rest <:+ front) : Separates rest back :=
  fun bytes bytesSuffix => separates bytes (bytesSuffix.trans suffix)

/-- A token that is not continued in its own text is not continued behind it. -/
theorem Munch.append {kind : TokenKind} {bytes rest back : List UInt8}
    (munch : Munch kind bytes rest) (separates : Separates (bytes ++ rest) back) :
    Munch kind bytes (rest ++ back) := by
  refine ⟨munch.fits, fun next nextHead => ?_⟩
  cases rest with
  | nil => exact separates bytes (by simp) next nextHead
  | cons byte rest => exact munch.maximal next nextHead

namespace Cursor

/-! ## Tokens go on behind a text -/

theorem tokens_congr {first second : Cursor} (nextEq : first.next? = second.next?) :
    first.tokens = second.tokens := by
  cases taken : second.next? with
  | none =>
      rw [tokens_of_next?_eq_none taken, tokens_of_next?_eq_none (nextEq.trans taken)]
  | some step =>
      rw [tokens_of_next?_eq_some taken, tokens_of_next?_eq_some (nextEq.trans taken)]

/-- Blanks before a token only move it. -/
theorem tokens_of_blanks {gap : List UInt8} (blank : ∀ byte ∈ gap, Byte.isBlank byte)
    (back : List UInt8) (position : Position) :
    (⟨gap ++ back, position⟩ : Cursor).tokens =
      (⟨back, position.after gap⟩ : Cursor).tokens := by
  have skipped : (⟨gap ++ back, position⟩ : Cursor).skipBlanks =
      (⟨back, position.after gap⟩ : Cursor).skipBlanks := by
    simp only [skipBlanks, skipWhile, List.takeWhile_append_of_pos blank,
      List.dropWhile_append_of_pos blank, Position.after_append]
  apply tokens_congr
  rw [next?, next?, skipped]

/-- A cursor takes the same token when its text goes on behind it. -/
theorem next?_append {front back : List UInt8} {position : Position} {token : Token}
    {behind : Cursor} (separates : Separates front back)
    (taken : (⟨front, position⟩ : Cursor).next? = some (token, behind)) :
    (⟨front ++ back, position⟩ : Cursor).next? =
        some (token, ⟨behind.rest ++ back, behind.position⟩) ∧
      behind.rest <:+ front ∧ behind.position.after behind.rest = position.after front := by
  obtain ⟨gap, bytes, kind, (frontEq : front = _), blank, munch, tokenEq, positionEq⟩ :=
    next?_eq_some_iff.mp taken
  have inside : Separates (bytes ++ behind.rest) back := by
    apply separates.of_suffix
    rw [frontEq]
    exact List.suffix_append gap _
  refine ⟨next?_eq_some_iff.mpr
    ⟨gap, bytes, kind, ?_, blank, munch.append inside, tokenEq, positionEq⟩, ?_, ?_⟩
  · simp only [frontEq, List.append_assoc]
  · rw [frontEq, ← List.append_assoc]
    exact List.suffix_append _ _
  · rw [frontEq, Position.after_append, Position.after_append, positionEq]

/-- The tokens of two texts in sequence. -/
theorem tokens_append {front back : List UInt8} (separates : Separates front back)
    (position : Position) :
    (⟨front ++ back, position⟩ : Cursor).tokens =
      (⟨front, position⟩ : Cursor).tokens ++
        (⟨back, position.after front⟩ : Cursor).tokens := by
  generalize cursorEq : (⟨front, position⟩ : Cursor) = cursor
  induction cursor using tokens.induct generalizing front position with
  | case1 cursor spent =>
      have blank : ∀ byte ∈ front, Byte.isBlank byte := by
        rw [next?_eq_none_iff, ← cursorEq] at spent
        exact spent
      rw [tokens_of_next?_eq_none spent, List.nil_append]
      exact tokens_of_blanks blank back position
  | case2 cursor token behind taken inductionHypothesis =>
      rw [← cursorEq] at taken
      obtain ⟨takenOn, suffix, afterEq⟩ := next?_append separates taken
      rw [tokens_of_next?_eq_some takenOn, ← cursorEq, tokens_of_next?_eq_some taken,
        List.cons_append, ← afterEq,
        inductionHypothesis (separates.of_suffix suffix) behind.position rfl]

/-! ## Tokens of a text that begins elsewhere -/

/-- A cursor at a relocated place takes the relocated token. -/
theorem next?_relocate (origin : Position) {rest : List UInt8} {position : Position}
    (inside : 1 ≤ position.line) {token : Token} {behind : Cursor}
    (taken : (⟨rest, position⟩ : Cursor).next? = some (token, behind)) :
    (⟨rest, origin.relocate position⟩ : Cursor).next? =
        some (token.moved origin.relocate, ⟨behind.rest, origin.relocate behind.position⟩) ∧
      1 ≤ behind.position.line := by
  obtain ⟨gap, bytes, kind, restEq, blank, munch, tokenEq, positionEq⟩ :=
    next?_eq_some_iff.mp taken
  have insideStart := Position.one_le_after_line inside gap
  refine ⟨next?_eq_some_iff.mpr ⟨gap, bytes, kind, restEq, blank, munch, ?_, ?_⟩, ?_⟩
  · rw [tokenEq, ← Position.relocate_after origin inside]
    rfl
  · rw [positionEq, Position.relocate_after origin insideStart,
      Position.relocate_after origin inside]
  · rw [positionEq]
    exact Position.one_le_after_line insideStart bytes

theorem tokens_relocate (origin : Position) {position : Position} (inside : 1 ≤ position.line)
    (rest : List UInt8) :
    (⟨rest, origin.relocate position⟩ : Cursor).tokens =
      (⟨rest, position⟩ : Cursor).tokens.map (Token.moved origin.relocate) := by
  generalize cursorEq : (⟨rest, position⟩ : Cursor) = cursor
  induction cursor using tokens.induct generalizing rest position with
  | case1 cursor spent =>
      have moved : (⟨rest, origin.relocate position⟩ : Cursor).next? = none := by
        rw [next?_eq_none_iff, ← cursorEq] at spent
        exact (next?_eq_none_iff _).mpr spent
      rw [tokens_of_next?_eq_none spent, tokens_of_next?_eq_none moved]
      rfl
  | case2 cursor token behind taken inductionHypothesis =>
      rw [← cursorEq] at taken ⊢
      obtain ⟨movedTaken, behindInside⟩ := next?_relocate origin inside taken
      rw [tokens_of_next?_eq_some taken, tokens_of_next?_eq_some movedTaken, List.map_cons,
        inductionHypothesis behindInside behind.rest rfl]

/-! ## The text behind a token -/

/-- The tokens behind a token are those of the text behind it. -/
theorem tokens_behind {text : List UInt8} {cursor : Cursor} (standing : cursor.StandsIn text)
    {earlier later : List Token} {token : Token}
    (tokensEq : cursor.tokens = earlier ++ token :: later) :
    (⟨text.drop token.span.stop.offset, token.span.stop⟩ : Cursor).tokens = later ∧
      token.span.stop.after (text.drop token.span.stop.offset) = cursor.finish.position := by
  induction earlier generalizing cursor with
  | nil =>
      cases taken : cursor.next? with
      | none =>
          rw [tokens_of_next?_eq_none taken] at tokensEq
          contradiction
      | some step =>
          rcases step with ⟨first, behind⟩
          rw [tokens_of_next?_eq_some taken] at tokensEq
          obtain ⟨rfl, rfl⟩ := List.cons.inj tokensEq
          obtain ⟨_, behindStands, _, _⟩ := standsIn_of_next?_eq_some standing taken
          obtain ⟨_, _, _, _, _, _, firstEq, _⟩ := next?_eq_some_iff.mp taken
          have stopEq : first.span.stop = behind.position := by
            rw [firstEq]
            rfl
          have behindEq : (⟨text.drop behind.position.offset, behind.position⟩ : Cursor) =
              behind := by rw [← behindStands.1]
          rw [stopEq, behindEq, finish_of_next?_eq_some taken, ← behindStands.1]
          exact ⟨rfl, rfl⟩
  | cons first earlier inductionHypothesis =>
      cases taken : cursor.next? with
      | none =>
          rw [tokens_of_next?_eq_none taken] at tokensEq
          contradiction
      | some step =>
          rcases step with ⟨other, behind⟩
          rw [tokens_of_next?_eq_some taken] at tokensEq
          obtain ⟨_, behindStands, _, _⟩ := standsIn_of_next?_eq_some standing taken
          rw [finish_of_next?_eq_some taken]
          exact inductionHypothesis behindStands (List.cons.inj tokensEq).2

end Cursor

namespace TokenStream

/-- The stream of a text from an origin on is the stream of the text itself,
relocated. -/
theorem of_origin (origin : Position) (bytes : List UInt8) :
    (⟨(⟨bytes, origin⟩ : Cursor).tokens, origin.after bytes⟩ : TokenStream) =
      (ofBytes bytes).moved origin.relocate := by
  have inside : 1 ≤ Position.start.line := Int.le_refl 1
  have tokensEq := Cursor.tokens_relocate origin inside bytes
  rw [Position.relocate_start] at tokensEq
  rw [tokensEq, ← Position.relocate_start_after]
  rfl

/-- The stream behind a token is the stream of the text behind it, relocated. -/
theorem ofBytes_behind {text : List UInt8} {earlier later : List Token} {token : Token}
    (aheadEq : (ofBytes text).ahead = earlier ++ token :: later) :
    (⟨later, (ofBytes text).stop⟩ : TokenStream) =
      (ofBytes (text.drop token.span.stop.offset)).moved token.span.stop.relocate := by
  rcases Cursor.tokens_behind (Cursor.ofBytes_standsIn text) aheadEq with ⟨tokensEq, stopEq⟩
  rw [← of_origin, tokensEq, stopEq]
  rfl

/-- The stream of two texts in sequence. -/
theorem ofBytes_append {front back : List UInt8} (separates : Separates front back) :
    ofBytes (front ++ back) =
      ⟨(ofBytes front).ahead ++
          ((ofBytes back).moved (Position.start.after front).relocate).ahead,
        ((ofBytes back).moved (Position.start.after front).relocate).stop⟩ := by
  have streamEq := of_origin (Position.start.after front) back
  have tokensEq := Cursor.tokens_append separates .start
  rw [← streamEq, ← Position.after_append]
  exact congrArg (fun tokens => (⟨tokens, _⟩ : TokenStream)) tokensEq

end TokenStream

/-! ## Texts that end with a semicolon -/

/-- A kind with a fixed spelling has no other bytes. -/
theorem TokenKind.Fits.eq_ofText {kind : TokenKind} {bytes : List UInt8} (fits : Fits kind bytes)
    {spelling : String} (spelled : kind.spelling? = some spelling) :
    bytes = Byte.ofText spelling := by
  cases fits with
  | spelled spelledSo =>
      obtain rfl : spelling = Byte.text bytes := Option.some.inj (spelled.symm.trans spelledSo)
      exact (Byte.ofText_text bytes).symm
  | _ => contradiction

/-- Where the last token is a semicolon, nothing but blanks is behind it. -/
theorem Cursor.exists_semicolon {cursor : Cursor} {token : Token}
    (last : cursor.tokens.getLast? = some token) (closes : token.kind = .semicolon) :
    ∃ front gap, cursor.rest = front ++ 0x3b :: gap ∧ ∀ byte ∈ gap, Byte.isBlank byte := by
  induction cursor using tokens.induct with
  | case1 cursor spent =>
      rw [tokens_of_next?_eq_none spent] at last
      contradiction
  | case2 cursor first behind taken inductionHypothesis =>
      obtain ⟨gap, bytes, kind, restEq, blank, munch, firstEq, positionEq⟩ :=
        next?_eq_some_iff.mp taken
      rw [tokens_of_next?_eq_some taken] at last
      cases spent : behind.next? with
      | none =>
          rw [tokens_of_next?_eq_none spent] at last
          obtain rfl : first = token := by simpa using last
          rw [firstEq, ofLexeme_kind_of_munch munch] at closes
          have fits := munch.fits
          rw [closes] at fits
          exact ⟨gap, behind.rest, by rw [restEq, fits.eq_ofText rfl]; rfl,
            (next?_eq_none_iff behind).mp spent⟩
      | some step =>
          rw [tokens_of_next?_eq_some spent, List.getLast?_cons_cons,
            ← tokens_of_next?_eq_some spent] at last
          obtain ⟨front, rest, behindEq, restBlank⟩ := inductionHypothesis last
          exact ⟨gap ++ (bytes ++ front), rest, by simp [restEq, behindEq], restBlank⟩

/-- A byte that continues nothing and is continued by nothing. -/
theorem not_extends_of_mem {bytes : List UInt8} {byte next : UInt8} (byteMem : byte ∈ bytes)
    (outside : ∀ runClass : Byte.RunClass, ¬ runClass.holds byte)
    (notEquals : byte ≠ Byte.equals) (notBang : byte ≠ Byte.bang) : ¬ Extends bytes next := by
  intro extension
  cases extension with
  | run inside _ => exact outside _ (inside.2 byte byteMem)
  | assign => exact notEquals (by simpa using byteMem)
  | bang => exact notBang (by simpa using byteMem)

/-- Behind a semicolon and blanks, any text is read on its own. -/
theorem separates_of_semicolon {gap : List UInt8} (blank : ∀ byte ∈ gap, Byte.isBlank byte)
    (front back : List UInt8) : Separates (front ++ 0x3b :: gap) back := by
  intro bytes suffix next _ extension
  rcases List.eq_nil_or_concat bytes with rfl | ⟨before, byte, rfl⟩
  · cases extension with
    | run inside _ => exact inside.1 rfl
  · have byteEq : (0x3b :: gap).getLast? = some byte := by
      rcases suffix with ⟨more, splitEq⟩
      have lastEq := congrArg List.getLast? splitEq
      simpa [List.getLast?_append] using lastEq.symm
    have byteMem : byte ∈ before.concat byte := by simp
    rcases List.mem_cons.mp (List.mem_of_getLast? byteEq) with rfl | inGap
    · exact not_extends_of_mem byteMem (by rintro ⟨⟩ <;> decide) (by decide) (by decide) extension
    · have isBlank := blank byte inGap
      refine not_extends_of_mem byteMem
        (fun runClass inside => Byte.RunClass.not_isBlank inside isBlank) ?_ ?_ extension
      · rintro rfl
        exact absurd isBlank (by decide)
      · rintro rfl
        exact absurd isBlank (by decide)

end PrattSyntax
