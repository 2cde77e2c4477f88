import PrattSyntax.Proofs.Lexer.Step

/-!
# Segmentations of a text

A segmentation cuts a text into the ranges of its tokens. It is stated with
offsets only, without a scan: ranges are in order, every byte outside of them is
blank, and no range could be longer. The tokens of a text are a segmentation of
it, and there is no other one.
-/

namespace PrattSyntax

namespace Token

/-- The bytes of a text that a token stands for. -/
def bytesIn (token : Token) (text : List UInt8) : List UInt8 :=
  (text.drop token.span.start.offset).take
    (token.span.stop.offset - token.span.start.offset)

/-- Whether the byte at an offset belongs to a token. -/
def Covers (token : Token) (offset : Nat) : Prop :=
  token.span.start.offset ≤ offset ∧ offset < token.span.stop.offset

/-- A token that stands for a maximal stretch of a text. -/
structure StandsIn (token : Token) (text : List UInt8) : Prop where
  nonempty : token.span.start.offset < token.span.stop.offset
  within : token.span.stop.offset ≤ text.length
  munch : Munch token.kind (token.bytesIn text) (text.drop token.span.stop.offset)
  literal : token.literal = if token.kind = .illegal then "" else Byte.text (token.bytesIn text)
  ascii : token.kind ≠ .illegal → ∀ byte ∈ token.bytesIn text, byte < 0x80

/-- What a token is apart from lines and columns. -/
structure Extent where
  kind : TokenKind
  literal : String
  start : Nat
  stop : Nat
deriving DecidableEq, Repr

/-- The kind, the literal and the offsets of a token. -/
def extent (token : Token) : Extent :=
  ⟨token.kind, token.literal, token.span.start.offset, token.span.stop.offset⟩

end Token

theorem Token.StandsIn.start_add_length {token : Token} {text : List UInt8}
    (stands : token.StandsIn text) :
    token.span.start.offset + (token.bytesIn text).length = token.span.stop.offset := by
  have startLt := stands.nonempty
  have stopLe := stands.within
  simp only [bytesIn, List.length_take, List.length_drop]
  omega

theorem Token.StandsIn.drop_start {token : Token} {text : List UInt8}
    (stands : token.StandsIn text) :
    text.drop token.span.start.offset =
      token.bytesIn text ++ text.drop token.span.stop.offset := by
  have stopEq : text.drop token.span.stop.offset = (text.drop token.span.start.offset).drop
      (token.span.stop.offset - token.span.start.offset) := by
    rw [List.drop_drop, Nat.add_sub_cancel' (Nat.le_of_lt stands.nonempty)]
  rw [stopEq]
  exact (List.take_append_drop _ _).symm

/-- Tokens that cut up a text from an offset on. -/
structure Segmentation (text : List UInt8) (origin : Nat) (tokens : List Token) : Prop where
  stands : ∀ token ∈ tokens, token.StandsIn text
  behind : ∀ token ∈ tokens, origin ≤ token.span.start.offset
  ordered : tokens.Pairwise fun earlier later =>
    earlier.span.stop.offset ≤ later.span.start.offset
  covered : ∀ offset byte, origin ≤ offset → text[offset]? = some byte →
    (∀ token ∈ tokens, ¬ token.Covers offset) → Byte.isBlank byte

/-- The tokens of a whole text, closed by its only mark of the end. -/
def IsTokenization (text : List UInt8) (tokens : List Token) : Prop :=
  ∃ body final, tokens = body ++ [final] ∧ Segmentation text 0 body ∧
    (∀ token ∈ body, token.kind ≠ .eof) ∧ final.kind = .eof ∧ final.literal = "" ∧
    final.span.start.offset = text.length ∧ final.span.stop.offset = text.length

namespace Segmentation

variable {text : List UInt8} {origin : Nat}

/-- No token from an offset on: only blanks are there. -/
theorem nil_iff : Segmentation text origin [] ↔ ∀ byte ∈ text.drop origin, Byte.isBlank byte := by
  constructor
  · intro segmentation byte byteMem
    rcases List.mem_iff_getElem?.mp byteMem with ⟨index, found⟩
    rw [List.getElem?_drop] at found
    exact segmentation.covered (origin + index) byte (Nat.le_add_right _ _) found (by simp)
  · intro blank
    refine ⟨by simp, by simp, List.Pairwise.nil, ?_⟩
    intro offset byte originLe found _
    apply blank byte
    apply List.mem_iff_getElem?.mpr
    exists offset - origin
    rw [List.getElem?_drop, Nat.add_sub_cancel' originLe, found]

/-- A first token: blanks before it, the other tokens behind it. -/
theorem cons_iff {token : Token} {tokens : List Token} :
    Segmentation text origin (token :: tokens) ↔
      origin ≤ token.span.start.offset ∧ token.StandsIn text ∧
        (∀ offset byte, origin ≤ offset → offset < token.span.start.offset →
          text[offset]? = some byte → Byte.isBlank byte) ∧
        Segmentation text token.span.stop.offset tokens := by
  constructor
  · intro segmentation
    rcases List.forall_mem_cons.mp segmentation.stands with ⟨stands, tailStands⟩
    rcases List.forall_mem_cons.mp segmentation.behind with ⟨headBehind, _⟩
    rcases List.pairwise_cons.mp segmentation.ordered with ⟨tailBehind, tailOrdered⟩
    refine ⟨headBehind, stands, ?_, tailStands, tailBehind, tailOrdered, ?_⟩
    · intro offset byte originLe before found
      apply segmentation.covered offset byte originLe found
      intro other otherMem covers
      rcases List.mem_cons.mp otherMem with rfl | otherMem
      · exact absurd covers.1 (Nat.not_le.mpr before)
      · have stopLe := tailBehind other otherMem
        have startLt := stands.nonempty
        have startLe := covers.1
        omega
    · intro offset byte stopLe found free
      have startLt := stands.nonempty
      apply segmentation.covered offset byte (by omega) found
      intro other otherMem
      rcases List.mem_cons.mp otherMem with rfl | otherMem
      · intro covers
        exact absurd covers.2 (Nat.not_lt.mpr stopLe)
      · exact free other otherMem
  · rintro ⟨originLe, stands, blank, tail⟩
    have startLt := stands.nonempty
    refine ⟨List.forall_mem_cons.mpr ⟨stands, tail.stands⟩,
      List.forall_mem_cons.mpr ⟨originLe, fun other otherMem => ?_⟩,
      List.pairwise_cons.mpr ⟨tail.behind, tail.ordered⟩, ?_⟩
    · have stopLe := tail.behind other otherMem
      omega
    · intro offset byte offsetLe found free
      rcases List.forall_mem_cons.mp free with ⟨headFree, tailFree⟩
      by_cases before : offset < token.span.start.offset
      · exact blank offset byte offsetLe before found
      · have stopLe : token.span.stop.offset ≤ offset := by
          by_contra inside
          exact headFree ⟨Nat.not_lt.mp before, Nat.not_le.mp inside⟩
        exact tail.covered offset byte stopLe found tailFree

/-- The bytes before the first token are blanks. -/
theorem exists_gap {token : Token} {tokens : List Token}
    (segmentation : Segmentation text origin (token :: tokens)) :
    ∃ gap, (∀ byte ∈ gap, Byte.isBlank byte) ∧
      token.span.start.offset = origin + gap.length ∧
      text.drop origin = gap ++ text.drop token.span.start.offset := by
  rcases cons_iff.mp segmentation with ⟨originLe, stands, blank, _⟩
  rcases Nat.exists_eq_add_of_le originLe with ⟨width, startEq⟩
  have startLt := stands.nonempty
  have stopLe := stands.within
  have widthEq : ((text.drop origin).take width).length = width := by
    simp only [List.length_take, List.length_drop]
    omega
  refine ⟨(text.drop origin).take width, ?_, by rw [widthEq, startEq], ?_⟩
  · intro byte byteMem
    rcases List.mem_iff_getElem?.mp byteMem with ⟨index, found⟩
    rcases List.getElem?_eq_some_iff.mp found with ⟨indexLt, _⟩
    rw [widthEq] at indexLt
    rw [List.getElem?_take_of_lt indexLt, List.getElem?_drop] at found
    exact blank (origin + index) byte (by omega) (by omega) found
  · rw [startEq, ← List.drop_drop]
    exact (List.take_append_drop _ _).symm

end Segmentation

namespace Cursor

variable {text : List UInt8}

/-- A cursor that stands in a text. -/
def StandsIn (cursor : Cursor) (text : List UInt8) : Prop :=
  cursor.rest = text.drop cursor.position.offset ∧ cursor.position.offset ≤ text.length

theorem ofBytes_standsIn (text : List UInt8) : (ofBytes text).StandsIn text :=
  ⟨rfl, Nat.zero_le _⟩

/-- The token that a cursor takes stands in the text, and so does the cursor
behind it. -/
theorem standsIn_of_next?_eq_some {cursor behind : Cursor} {token : Token}
    (standing : cursor.StandsIn text) (taken : cursor.next? = some (token, behind)) :
    token.StandsIn text ∧ behind.StandsIn text ∧
      token.span.stop.offset = behind.position.offset ∧
      ∃ gap, (∀ byte ∈ gap, Byte.isBlank byte) ∧
        token.span.start.offset = cursor.position.offset + gap.length ∧
        text.drop cursor.position.offset = gap ++ text.drop token.span.start.offset := by
  rcases standing with ⟨restEq, offsetLe⟩
  obtain ⟨gap, bytes, kind, splitEq, blank, munch, tokenEq, positionEq⟩ :=
    next?_eq_some_iff.mp taken
  rw [restEq] at splitEq
  have startEq : token.span.start.offset = cursor.position.offset + gap.length := by
    rw [tokenEq]
    exact Position.after_offset _ _
  have behindEq : behind.position.offset = token.span.start.offset + bytes.length := by
    rw [positionEq, Position.after_offset, Position.after_offset, startEq]
  have stopEq : token.span.stop.offset = token.span.start.offset + bytes.length := by
    rw [← behindEq, tokenEq]
    rfl
  have fromStart : text.drop token.span.start.offset = bytes ++ behind.rest := by
    rw [startEq, ← List.drop_drop, splitEq, List.drop_left]
  have fromStop : text.drop token.span.stop.offset = behind.rest := by
    rw [stopEq, ← List.drop_drop, fromStart, List.drop_left]
  have bytesEq : token.bytesIn text = bytes := by
    rw [Token.bytesIn, fromStart, stopEq, Nat.add_sub_cancel_left, List.take_left]
  have kindEq : token.kind = kind := by
    rw [tokenEq]
    exact ofLexeme_kind_of_munch munch
  have bytesPos : 0 < bytes.length := List.length_pos_iff.mpr munch.fits.ne_nil
  have lengthEq := congrArg List.length splitEq
  simp only [List.length_drop, List.length_append] at lengthEq
  have within : token.span.stop.offset ≤ text.length := by omega
  refine ⟨⟨by omega, within, ?_, ?_, ?_⟩, ⟨?_, ?_⟩, ?_, gap, blank, startEq, ?_⟩
  · rw [kindEq, bytesEq, fromStop]
    exact munch
  · rw [bytesEq, tokenEq]
    rfl
  · intro legal byte byteMem
    rw [kindEq] at legal
    rw [bytesEq] at byteMem
    have notWide := munch.fits.not_isWide legal byte byteMem
    rw [Byte.isWide_iff] at notWide
    exact UInt8.lt_iff_toNat_lt.mpr (Nat.not_le.mp notWide)
  · rw [behindEq, ← stopEq, fromStop]
  · rw [behindEq, ← stopEq]
    exact within
  · rw [behindEq, stopEq]
  · rw [splitEq, fromStart]

/-- The tokens from a cursor on cut up the text from there on. -/
theorem tokens_segmentation {cursor : Cursor} (standing : cursor.StandsIn text) :
    Segmentation text cursor.position.offset cursor.tokens := by
  induction cursor using tokens.induct with
  | case1 cursor spent =>
      rw [tokens_of_next?_eq_none spent, Segmentation.nil_iff, ← standing.1]
      exact (next?_eq_none_iff cursor).mp spent
  | case2 cursor token behind taken inductionHypothesis =>
      obtain ⟨tokenStands, behindStands, stopEq, gap, blank, startEq, dropEq⟩ :=
        standsIn_of_next?_eq_some standing taken
      rw [tokens_of_next?_eq_some taken, Segmentation.cons_iff, stopEq]
      refine ⟨by omega, tokenStands, ?_, inductionHypothesis behindStands⟩
      intro offset byte offsetLe before found
      rcases Nat.exists_eq_add_of_le offsetLe with ⟨index, rfl⟩
      have inGap : index < gap.length := by omega
      rw [← List.getElem?_drop, dropEq, List.getElem?_append_left inGap] at found
      exact blank byte (List.mem_of_getElem? found)

/-- Where a segmentation has a first token, a cursor takes it. -/
theorem exists_next?_of_segmentation {cursor : Cursor} {token : Token} {tokens : List Token}
    (standing : cursor.StandsIn text)
    (segmentation : Segmentation text cursor.position.offset (token :: tokens)) :
    ∃ taken behind, cursor.next? = some (taken, behind) ∧ taken.extent = token.extent ∧
      behind.StandsIn text ∧ behind.position.offset = token.span.stop.offset := by
  rcases Segmentation.cons_iff.mp segmentation with ⟨_, stands, _, _⟩
  rcases segmentation.exists_gap with ⟨gap, blank, startEq, splitEq⟩
  have startOffset : (cursor.position.after gap).offset = token.span.start.offset := by
    rw [Position.after_offset, startEq]
  have stopOffset : ((cursor.position.after gap).after (token.bytesIn text)).offset =
      token.span.stop.offset := by
    rw [Position.after_offset, startOffset, stands.start_add_length]
  refine ⟨Token.ofLexeme (token.bytesIn text) ⟨cursor.position.after gap, _⟩,
    ⟨text.drop token.span.stop.offset, (cursor.position.after gap).after (token.bytesIn text)⟩,
    next?_eq_some_iff.mpr
      ⟨gap, token.bytesIn text, token.kind, ?_, blank, stands.munch, rfl, rfl⟩,
    ?_, ⟨?_, ?_⟩, stopOffset⟩
  · rw [standing.1, splitEq, stands.drop_start]
  · have kindEq : TokenKind.ofLexeme (token.bytesIn text) = token.kind :=
      stands.munch.fits.ofLexeme_eq
    simp only [Token.extent, Token.ofLexeme, kindEq, stopOffset, startOffset, stands.literal]
  · simp only [stopOffset]
  · simp only [stopOffset]
    exact stands.within

/-- A segmentation from a cursor on has the kinds, the literals and the offsets
of the tokens from there on. -/
theorem map_extent_of_segmentation {cursor : Cursor} {tokens : List Token}
    (standing : cursor.StandsIn text)
    (segmentation : Segmentation text cursor.position.offset tokens) :
    tokens.map Token.extent = cursor.tokens.map Token.extent := by
  induction tokens generalizing cursor with
  | nil =>
      rw [Segmentation.nil_iff, ← standing.1] at segmentation
      rw [tokens_of_next?_eq_none ((next?_eq_none_iff cursor).mpr segmentation)]
  | cons token tokens inductionHypothesis =>
      obtain ⟨taken, behind, takenEq, extentEq, behindStands, offsetEq⟩ :=
        exists_next?_of_segmentation standing segmentation
      rcases Segmentation.cons_iff.mp segmentation with ⟨_, _, _, tail⟩
      rw [← offsetEq] at tail
      rw [tokens_of_next?_eq_some takenEq, List.map_cons, List.map_cons, extentEq,
        inductionHypothesis behindStands tail]

end Cursor

/-- The end of a text is behind all of its bytes. -/
theorem Cursor.ofBytes_finish_offset (text : List UInt8) :
    (ofBytes text).finish.position.offset = text.length := by
  simp [finish, ofBytes, Position.start]

theorem Segmentation.kind_ne_eof {text : List UInt8} {origin : Nat} {tokens : List Token}
    (segmentation : Segmentation text origin tokens) : ∀ token ∈ tokens, token.kind ≠ .eof := by
  intro token tokenMem kindEq
  have fits := (segmentation.stands token tokenMem).munch.fits
  rw [kindEq] at fits
  cases fits with
  | spelled spelling => contradiction

/-! ## What a token of a text looks like -/

/-- A token as it comes from a text: not the mark of the end, and a run of digits
if it is a number. -/
structure Token.Lexical (token : Token) : Prop where
  notEof : token.kind ≠ .eof
  digits : token.kind = .int →
    token.literal.toList ≠ [] ∧ ∀ digit ∈ token.literal.toList, digit.isDigit

theorem Byte.isDigit_ofUInt8 {byte : UInt8} (digit : Byte.isDigit byte) :
    (Char.ofUInt8 byte).isDigit := by
  rw [Byte.isDigit_iff] at digit
  have valueEq : (Char.ofUInt8 byte).val.toNat = byte.toNat := UInt8.toNat_toUInt32 byte
  simp only [Char.isDigit, Bool.and_eq_true, decide_eq_true_eq, ge_iff_le,
    UInt32.le_iff_toNat_le, valueEq]
  exact digit

theorem Segmentation.lexical {text : List UInt8} {origin : Nat} {tokens : List Token}
    (segmentation : Segmentation text origin tokens) : ∀ token ∈ tokens, token.Lexical := by
  intro token tokenMem
  refine ⟨segmentation.kind_ne_eof token tokenMem, fun isInt => ?_⟩
  have stands := segmentation.stands token tokenMem
  have literalEq : token.literal.toList = (token.bytesIn text).map Char.ofUInt8 := by
    rw [stands.literal, isInt, if_neg (by decide), Byte.text, String.toList_ofList]
  have fits := stands.munch.fits
  rw [isInt] at fits
  rw [literalEq]
  cases fits with
  | spelled spelling => contradiction
  | number digits =>
      refine ⟨by simpa using digits.1, fun digit digitMem => ?_⟩
      rcases List.mem_map.mp digitMem with ⟨byte, byteMem, rfl⟩
      exact Byte.isDigit_ofUInt8 (digits.2 byte byteMem)

theorem lexical_of_mem_tokens (text : List UInt8) :
    ∀ token ∈ (Cursor.ofBytes text).tokens, token.Lexical :=
  (Cursor.tokens_segmentation (Cursor.ofBytes_standsIn text)).lexical

/-! ## The tokens of a text -/

theorem tokenize_dropLast (text : List UInt8) :
    (tokenize text).dropLast = (Cursor.ofBytes text).tokens :=
  List.dropLast_concat

/-- The tokens of a text are a segmentation of it, closed by the mark of the
end; every segmentation of the text has their kinds, literals and offsets; and
tokens asked for one by one are the same, with the mark of the end for ever. -/
theorem tokenize_isTokenization_unique (text : List UInt8) :
    IsTokenization text (tokenize text) ∧
      (∀ tokens, IsTokenization text tokens →
        tokens.map Token.extent = (tokenize text).map Token.extent) ∧
      ∀ count, some ((Lexer.ofBytes text).run (List.replicate count .nextToken)).cursor.next.1 =
        (tokenize text)[count]?.or (tokenize text).getLast? := by
  have standing := Cursor.ofBytes_standsIn text
  have segmentation := Cursor.tokens_segmentation standing
  have finishOffset : (Cursor.ofBytes text).finish.position.offset = text.length := by
    simp [Cursor.finish, Cursor.ofBytes, Position.start]
  refine ⟨?_, ?_, Lexer.next_run_nextToken _⟩
  · exact ⟨(Cursor.ofBytes text).tokens, _, rfl, segmentation, segmentation.kind_ne_eof, rfl, rfl,
      finishOffset, finishOffset⟩
  · rintro tokens ⟨body, final, rfl, otherSegmentation, _, kindEq, literalEq, startEq, stopEq⟩
    have bodyEq := Cursor.map_extent_of_segmentation standing otherSegmentation
    have finalEq : final.extent = (Token.eof (Cursor.ofBytes text).finish.position).extent := by
      simp [Token.extent, Token.eof, kindEq, literalEq, startEq, stopEq, finishOffset]
    simp only [tokenize, Cursor.drain, List.map_append, List.map_cons, List.map_nil, bodyEq,
      finalEq]

end PrattSyntax
