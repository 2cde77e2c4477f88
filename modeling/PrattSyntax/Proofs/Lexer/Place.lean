import Mathlib.Data.List.DropRight
import PrattSyntax.Proofs.Lexer.Step

/-!
# Places in a text

A cursor counts lines and columns as it goes, from the byte it leaves. The place
that it has counted is a function of the offset that it has come to, whatever it
was asked to do on the way: `Position.ofOffset` finds it in the text. Past the end
the last line goes on.
-/

namespace PrattSyntax

namespace Position

/-! ## The place at an offset -/

/-- The offset behind the last line feed before `offset`, zero if there is none. -/
def lineStart (text : List UInt8) (offset : Nat) : Nat :=
  ((text.take offset).rdropWhile (· ≠ Byte.lineFeed)).length

/-- The place at an offset of a text: the line feeds before it are counted, and so
are the bytes since the last of them. -/
def ofOffset (text : List UInt8) (offset : Nat) : Position :=
  ⟨1 + ((text.take offset).count Byte.lineFeed : Nat),
    1 + ((offset - lineStart text offset : Nat) : Int), offset⟩

@[simp]
theorem ofOffset_offset (text : List UInt8) (offset : Nat) :
    (ofOffset text offset).offset = offset := rfl

theorem lineStart_le (text : List UInt8) (offset : Nat) : lineStart text offset ≤ offset :=
  Nat.le_trans (List.rdropWhile_prefix _ _).length_le (List.length_take_le _ _)

theorem step_lineFeed (position : Position) :
    position.step Byte.lineFeed = ⟨position.line + 1, 1, position.offset + 1⟩ := rfl

theorem step_of_ne {byte : UInt8} (stays : byte ≠ Byte.lineFeed) (position : Position) :
    position.step byte = ⟨position.line, position.column + 1, position.offset + 1⟩ :=
  if_neg stays

/-- Behind a line feed the next line begins. -/
theorem ofOffset_succ_of_lineFeed {text : List UInt8} {offset : Nat}
    (found : text[offset]? = some Byte.lineFeed) :
    ofOffset text (offset + 1) = (ofOffset text offset).step Byte.lineFeed := by
  have takeEq : text.take (offset + 1) = text.take offset ++ [Byte.lineFeed] := by
    rw [List.take_add_one, found, Option.toList_some]
  have inside : offset < text.length := (List.getElem?_eq_some_iff.mp found).1
  have startEq : lineStart text (offset + 1) = offset + 1 := by
    rw [lineStart, takeEq, List.rdropWhile_concat_neg _ _ _ (by simp)]
    simp only [List.length_append, List.length_take, List.length_singleton]
    omega
  have countEq : (text.take (offset + 1)).count Byte.lineFeed =
      (text.take offset).count Byte.lineFeed + 1 := by
    rw [takeEq, List.count_append, List.count_singleton_self]
  rw [step_lineFeed, ofOffset, startEq, countEq, Nat.sub_self]
  simp [ofOffset, Int.add_assoc]

/-- Behind any other byte, and past the end, the line goes on. -/
theorem ofOffset_succ_of_ne {text : List UInt8} {offset : Nat} {byte : UInt8}
    (stays : byte ≠ Byte.lineFeed) (found : ∀ other, text[offset]? = some other → other = byte) :
    ofOffset text (offset + 1) = (ofOffset text offset).step byte := by
  have same : lineStart text (offset + 1) = lineStart text offset ∧
      (text.take (offset + 1)).count Byte.lineFeed = (text.take offset).count Byte.lineFeed := by
    cases beyond : text[offset]? with
    | none =>
        have takeEq : text.take (offset + 1) = text.take offset := by
          rw [List.take_add_one, beyond, Option.toList_none, List.append_nil]
        exact ⟨by rw [lineStart, takeEq, lineStart], by rw [takeEq]⟩
    | some other =>
        obtain rfl := found other beyond
        have takeEq : text.take (offset + 1) = text.take offset ++ [other] := by
          rw [List.take_add_one, beyond, Option.toList_some]
        refine ⟨?_, ?_⟩
        · rw [lineStart, takeEq, List.rdropWhile_concat_pos _ _ _ (by simpa using stays), lineStart]
        · rw [takeEq, List.count_append, List.count_singleton, beq_false_of_ne stays]
          rfl
  have startLe := lineStart_le text offset
  rw [step_of_ne stays, ofOffset, same.1, same.2, Nat.succ_sub startLe]
  simp [ofOffset, Int.add_assoc]

/-- The place one byte further, inside of the text and behind it. -/
theorem step_ofOffset (text : List UInt8) (offset : Nat) :
    (ofOffset text offset).step (text[offset]?.getD 0) = ofOffset text (offset + 1) := by
  by_cases opens : text[offset]? = some Byte.lineFeed
  · rw [ofOffset_succ_of_lineFeed opens, opens, Option.getD_some]
  · refine (ofOffset_succ_of_ne ?_ fun other found => by rw [found, Option.getD_some]).symm
    cases found : text[offset]? with
    | none => decide
    | some byte =>
        rintro rfl
        exact opens found

/-- The place behind a run of bytes that stand at an offset. -/
theorem after_ofOffset {text bytes : List UInt8} {offset : Nat}
    (standing : bytes <+: text.drop offset) :
    (ofOffset text offset).after bytes = ofOffset text (offset + bytes.length) := by
  induction bytes generalizing offset with
  | nil => rfl
  | cons byte bytes inductionHypothesis =>
      rcases standing with ⟨behind, dropEq⟩
      have found : text[offset]? = some byte := by
        rw [← Nat.add_zero offset, ← List.getElem?_drop, ← dropEq]
        rfl
      have further : bytes <+: text.drop (offset + 1) :=
        ⟨behind, by rw [← List.drop_drop, ← dropEq]; rfl⟩
      have stepEq := step_ofOffset text offset
      rw [found, Option.getD_some] at stepEq
      rw [after_cons, stepEq, inductionHypothesis further, List.length_cons, Nat.add_assoc,
        Nat.add_comm 1]

/-- The place at the end of a first part of a text: the line feeds in it, and its bytes
behind the last of them. -/
theorem ofOffset_length_append (front back : List UInt8) :
    ofOffset (front ++ back) front.length =
      ⟨1 + (front.count Byte.lineFeed : Nat),
        1 + ((front.rtakeWhile (· ≠ Byte.lineFeed)).length : Nat), front.length⟩ := by
  have splitEq : front.rdropWhile (· ≠ Byte.lineFeed) ++ front.rtakeWhile (· ≠ Byte.lineFeed) =
      front := List.rdropWhile_append_rtakeWhile
  have lengthEq := congrArg List.length splitEq
  rw [List.length_append] at lengthEq
  have columnEq : front.length - (front.rdropWhile (· ≠ Byte.lineFeed)).length =
      (front.rtakeWhile (· ≠ Byte.lineFeed)).length := by
    omega
  rw [ofOffset, lineStart, List.take_left, columnEq]

/-- Bytes without a line feed stay on one line. -/
theorem after_line {bytes : List UInt8} (stays : Byte.lineFeed ∉ bytes) (position : Position) :
    (position.after bytes).line = position.line := by
  induction bytes generalizing position with
  | nil => rfl
  | cons byte bytes inductionHypothesis =>
      rw [List.mem_cons, not_or] at stays
      rw [after_cons, inductionHypothesis stays.2, step_of_ne (Ne.symm stays.1)]

end Position

/-! ## Cursors and tokens in place -/

/-- Whether a cursor has the bytes of a text from its offset on before it, and has
counted the place of that offset. The offset may lie behind the text. -/
structure Cursor.PlacedIn (cursor : Cursor) (text : List UInt8) : Prop where
  rest : cursor.rest = text.drop cursor.position.offset
  position : cursor.position = .ofOffset text cursor.position.offset

/-- Whether both ends of a token are the places of their offsets, on one line. -/
structure Token.PlacedIn (token : Token) (text : List UInt8) : Prop where
  start : token.span.start = .ofOffset text token.span.start.offset
  stop : token.span.stop = .ofOffset text token.span.stop.offset
  line : token.span.start.line = token.span.stop.line

namespace Cursor

variable {text : List UInt8} {cursor : Cursor}

theorem ofBytes_placedIn (text : List UInt8) : (ofBytes text).PlacedIn text := ⟨rfl, rfl⟩

namespace PlacedIn

theorem byte_eq (placed : cursor.PlacedIn text) :
    cursor.byte = text[cursor.position.offset]?.getD 0 := by
  rw [byte, placed.rest, List.headD_eq_head?_getD, List.head?_drop]

theorem peekByte_eq (placed : cursor.PlacedIn text) :
    cursor.peekByte = text[cursor.position.offset + 1]?.getD 0 := by
  rw [peekByte, placed.rest, List.tail_drop, List.headD_eq_head?_getD, List.head?_drop]

theorem atEnd_iff (placed : cursor.PlacedIn text) :
    cursor.atEnd ↔ text.length ≤ cursor.position.offset := by
  rw [atEnd, List.isEmpty_iff, placed.rest, List.drop_eq_nil_iff]

/-- One byte further, the byte that is left decides about the place. -/
theorem advance (placed : cursor.PlacedIn text) : cursor.advance.PlacedIn text := by
  have stepEq : cursor.advance.position = .ofOffset text (cursor.position.offset + 1) := by
    rw [← Position.step_ofOffset, ← placed.position, ← placed.byte_eq]
    rfl
  have offsetEq : cursor.advance.position.offset = cursor.position.offset + 1 :=
    congrArg Position.offset stepEq
  refine ⟨?_, by rw [offsetEq, stepEq]⟩
  rw [offsetEq, Cursor.advance, placed.rest, List.tail_drop]

/-- Past bytes that are ahead. -/
theorem pass (placed : cursor.PlacedIn text) {bytes behind : List UInt8}
    (restEq : cursor.rest = bytes ++ behind) :
    (⟨behind, cursor.position.after bytes⟩ : Cursor).PlacedIn text := by
  have dropEq : text.drop cursor.position.offset = bytes ++ behind := by
    rw [← placed.rest, restEq]
  have standing : bytes <+: text.drop cursor.position.offset := ⟨behind, dropEq.symm⟩
  have afterEq := Position.after_ofOffset standing
  rw [← placed.position] at afterEq
  constructor
  · show behind = text.drop (cursor.position.after bytes).offset
    rw [Position.after_offset, ← List.drop_drop, dropEq, List.drop_left]
  · show cursor.position.after bytes = .ofOffset text (cursor.position.after bytes).offset
    rw [afterEq, Position.ofOffset_offset]

theorem finish (placed : cursor.PlacedIn text) : cursor.finish.PlacedIn text :=
  placed.pass (List.append_nil _).symm

/-- The mark of the end has no width. -/
theorem eof (placed : cursor.PlacedIn text) : (Token.eof cursor.position).PlacedIn text :=
  ⟨placed.position, placed.position, rfl⟩

/-- A token that is taken has no line feed in it, and the cursor behind it is in
place. -/
theorem next? (placed : cursor.PlacedIn text) {token : Token} {behind : Cursor}
    (taken : cursor.next? = some (token, behind)) :
    token.PlacedIn text ∧ behind.PlacedIn text := by
  obtain ⟨gap, bytes, kind, restEq, _, munch, rfl, positionEq⟩ := next?_eq_some_iff.mp taken
  have start := placed.pass restEq
  have stop := start.pass rfl
  have stays : Byte.lineFeed ∉ bytes := fun byteMem =>
    munch.fits.not_isBlank _ byteMem (by decide)
  rw [← positionEq] at stop
  refine ⟨⟨start.position, stop.position, ?_⟩, stop⟩
  show (cursor.position.after gap).line = behind.position.line
  rw [positionEq, Position.after_line stays]

theorem next (placed : cursor.PlacedIn text) :
    cursor.next.1.PlacedIn text ∧ cursor.next.2.PlacedIn text := by
  cases taken : cursor.next? with
  | none =>
      rw [next_of_next?_eq_none taken]
      exact ⟨placed.finish.eof, placed.finish⟩
  | some step =>
      rw [Cursor.next, taken, Option.getD_some]
      exact placed.next? taken

theorem tokens (placed : cursor.PlacedIn text) : ∀ token ∈ cursor.tokens, token.PlacedIn text := by
  induction cursor using tokens.induct with
  | case1 cursor spent =>
      rw [tokens_of_next?_eq_none spent]
      exact fun token tokenMem => absurd tokenMem List.not_mem_nil
  | case2 cursor token behind taken inductionHypothesis =>
      rw [tokens_of_next?_eq_some taken, List.forall_mem_cons]
      exact ⟨(placed.next? taken).1, inductionHypothesis (placed.next? taken).2⟩

/-- All tokens that are ahead are in place, and so is the mark of the end. -/
theorem drain (placed : cursor.PlacedIn text) :
    ∀ token ∈ cursor.drain.1, token.PlacedIn text :=
  List.forall_mem_append.mpr ⟨placed.tokens, List.forall_mem_singleton.mpr placed.finish.eof⟩

end PlacedIn

/-! ## Cursors further on -/

/-- Whether a cursor comes to another one past bytes that are ahead of it. -/
def Reaches (cursor behind : Cursor) : Prop :=
  ∃ bytes, cursor.rest = bytes ++ behind.rest ∧ behind.position = cursor.position.after bytes

theorem reaches_skipWhile (cursor : Cursor) (class? : UInt8 → Bool) :
    cursor.Reaches (cursor.skipWhile class?) :=
  ⟨_, List.takeWhile_append_dropWhile.symm, rfl⟩

theorem reaches_finish (cursor : Cursor) : cursor.Reaches cursor.finish :=
  ⟨_, (List.append_nil _).symm, rfl⟩

theorem reaches_next (cursor : Cursor) : cursor.Reaches cursor.next.2 := by
  cases taken : cursor.next? with
  | none =>
      rw [next_of_next?_eq_none taken]
      exact cursor.reaches_finish
  | some step =>
      rcases step with ⟨token, behind⟩
      obtain ⟨gap, bytes, _, restEq, _, _, _, positionEq⟩ := next?_eq_some_iff.mp taken
      rw [Cursor.next, taken, Option.getD_some]
      refine ⟨gap ++ bytes, ?_, ?_⟩
      · rw [restEq, List.append_assoc]
      · rw [positionEq, Position.after_append]

theorem PlacedIn.of_reaches (placed : cursor.PlacedIn text) {behind : Cursor}
    (reaches : cursor.Reaches behind) : behind.PlacedIn text := by
  obtain ⟨bytes, restEq, positionEq⟩ := reaches
  have passed := placed.pass restEq
  rw [← positionEq] at passed
  exact passed

/-- A cursor further on has come as far as it has less before it. -/
theorem Reaches.offset_eq {behind : Cursor} (reaches : cursor.Reaches behind) :
    behind.position.offset =
      cursor.position.offset + (cursor.rest.length - behind.rest.length) := by
  obtain ⟨bytes, restEq, positionEq⟩ := reaches
  rw [positionEq, restEq, Position.after_offset, List.length_append, Nat.add_sub_cancel]

end Cursor

/-! ## Moves -/

namespace Lexer

variable {text : List UInt8} {lexer : Lexer}

/-- Whether the cursor of a lexer is in place in a text, and the byte that is read next is the
one behind the cursor. -/
structure Tracks (lexer : Lexer) (text : List UInt8) : Prop where
  placed : lexer.cursor.PlacedIn text
  ahead : lexer.readOffset = lexer.cursor.position.offset + 1

theorem ofBytes_tracks (text : List UInt8) : (ofBytes text).Tracks text :=
  ⟨Cursor.ofBytes_placedIn text, rfl⟩

theorem Tracks.advance (tracks : lexer.Tracks text) : lexer.advance.Tracks text := by
  constructor
  · exact tracks.placed.advance
  · show lexer.readOffset + 1 = lexer.cursor.advance.position.offset + 1
    rw [tracks.ahead, Cursor.advance, Position.step_offset]

theorem Tracks.follow (tracks : lexer.Tracks text) {cursor : Cursor}
    (reaches : lexer.cursor.Reaches cursor) : (lexer.follow cursor).Tracks text := by
  constructor
  · exact tracks.placed.of_reaches reaches
  · show lexer.readOffset + _ = cursor.position.offset + 1
    rw [reaches.offset_eq, tracks.ahead, Nat.add_right_comm]

/-- Every move leaves a lexer in its text. -/
theorem Tracks.perform (tracks : lexer.Tracks text) (move : Move) :
    (lexer.perform move).2.Tracks text := by
  cases move with
  | nextToken => exact tracks.follow lexer.cursor.reaches_next
  | allTokens => exact tracks.follow lexer.cursor.reaches_finish
  | advance => exact tracks.advance
  | skipBlanks => exact tracks.follow (lexer.cursor.reaches_skipWhile _)
  | skipLetters => exact tracks.follow (lexer.cursor.reaches_skipWhile _)
  | skipDigits => exact tracks.follow (lexer.cursor.reaches_skipWhile _)
  | peekByte => exact tracks
  | askEnd => exact tracks

theorem follow_offset_le {cursor : Cursor} (reaches : lexer.cursor.Reaches cursor) :
    lexer.cursor.position.offset ≤ (lexer.follow cursor).cursor.position.offset :=
  Nat.le.intro reaches.offset_eq.symm

/-- No move goes back. -/
theorem perform_offset_le (lexer : Lexer) (move : Move) :
    lexer.cursor.position.offset ≤ (lexer.perform move).2.cursor.position.offset := by
  cases move with
  | nextToken => exact follow_offset_le lexer.cursor.reaches_next
  | allTokens => exact follow_offset_le lexer.cursor.reaches_finish
  | advance => simp [perform, advance, Cursor.advance]
  | skipBlanks => exact follow_offset_le (lexer.cursor.reaches_skipWhile _)
  | skipLetters => exact follow_offset_le (lexer.cursor.reaches_skipWhile _)
  | skipDigits => exact follow_offset_le (lexer.cursor.reaches_skipWhile _)
  | peekByte => exact Nat.le_refl _
  | askEnd => exact Nat.le_refl _

/-- The tokens in an answer. -/
def Answer.emitted : Answer → List Token
  | .token one => [one]
  | .tokens all => all
  | .nothing | .byte _ | .flag _ => []

theorem Tracks.emitted (tracks : lexer.Tracks text) (move : Move) :
    ∀ token ∈ (lexer.perform move).1.emitted, token.PlacedIn text := by
  cases move with
  | nextToken => exact List.forall_mem_singleton.mpr tracks.placed.next.1
  | allTokens => exact tracks.placed.drain
  | _ => exact fun token tokenMem => absurd tokenMem List.not_mem_nil

theorem run_append (lexer : Lexer) (moves later : List Move) :
    lexer.run (moves ++ later) = (lexer.run moves).run later :=
  List.foldl_append

theorem Tracks.run (tracks : lexer.Tracks text) (moves : List Move) :
    (lexer.run moves).Tracks text := by
  induction moves generalizing lexer with
  | nil => exact tracks
  | cons move moves inductionHypothesis => exact inductionHypothesis (tracks.perform move)

theorem run_offset_le (lexer : Lexer) (moves : List Move) :
    lexer.cursor.position.offset ≤ (lexer.run moves).cursor.position.offset := by
  induction moves generalizing lexer with
  | nil => exact Nat.le_refl _
  | cons move moves inductionHypothesis =>
      exact Nat.le_trans (lexer.perform_offset_le move) (inductionHypothesis _)

/-- Whatever a lexer was asked before, it reads next the byte behind its cursor. The cursor has
the bytes of the text at its offset and at the one that is read next, with zeros past the end, and
has counted the place of its offset; it never goes back, and the tokens that are answered with
have the places of their offsets and do not go over the end of a line. -/
theorem run_tracks_text (text : List UInt8) (moves : List Move) :
    let lexer := (ofBytes text).run moves
    let cursor := lexer.cursor
    lexer.readOffset = cursor.position.offset + 1 ∧
      cursor.byte = text[cursor.position.offset]?.getD 0 ∧
      cursor.peekByte = text[lexer.readOffset]?.getD 0 ∧
      (cursor.atEnd ↔ text.length ≤ cursor.position.offset) ∧
      cursor.position = .ofOffset text cursor.position.offset ∧
      (∀ later, cursor.position.offset ≤
        ((ofBytes text).run (moves ++ later)).cursor.position.offset) ∧
      ∀ move, ∀ token ∈ (lexer.perform move).1.emitted, token.PlacedIn text := by
  intro lexer cursor
  have tracks : lexer.Tracks text := (ofBytes_tracks text).run moves
  refine ⟨tracks.ahead, tracks.placed.byte_eq, ?_, tracks.placed.atEnd_iff,
    tracks.placed.position, fun later => ?_, tracks.emitted⟩
  · rw [tracks.ahead]
    exact tracks.placed.peekByte_eq
  · rw [run_append]
    exact lexer.run_offset_le later

/-- Behind the second line, and two bytes past the end. -/
example : ((ofBytes "a\nbc".toUTF8.toList).run
    [.nextToken, .nextToken, .advance, .advance]).cursor.position = ⟨2, 5, 6⟩ := by
  decide +kernel

end Lexer

end PrattSyntax
