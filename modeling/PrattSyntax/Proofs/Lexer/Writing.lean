import PrattSyntax.Proofs.Lexer.Concatenation
import PrattSyntax.Text.Utf8

/-!
# Writing tokens

A legible token is written as its literal. Written in sequence, with blanks
wherever one token would be continued by the next, legible tokens are read back:
their kinds and literals are those of the tokens of the text.
-/

namespace PrattSyntax

open TokenKind (Fits IsMark Extends)

/-! ## Bytes of a literal -/

theorem Text.encode_append (left right : String) :
    encode (left ++ right) = encode left ++ encode right := by
  simp only [encode, String.toList_append, List.flatMap_append]

theorem Byte.encode_ofUInt8 {byte : UInt8} (ascii : ¬ isWide byte) :
    String.utf8EncodeChar (Char.ofUInt8 byte) = [byte] := by
  rw [isWide_iff] at ascii
  have valueEq : (Char.ofUInt8 byte).val.toNat = byte.toNat := UInt8.toNat_toUInt32 byte
  have small : byte.toNat ≤ 0x7f := by omega
  simp [String.utf8EncodeChar, valueEq, small]

/-- A text of ASCII bytes is written with these bytes. -/
theorem Text.encode_text {bytes : List UInt8} (ascii : ∀ byte ∈ bytes, ¬ Byte.isWide byte) :
    encode (Byte.text bytes) = bytes := by
  rw [encode, Byte.text, String.toList_ofList, List.flatMap_map]
  induction bytes with
  | nil => rfl
  | cons byte bytes inductionHypothesis =>
      rcases List.forall_mem_cons.mp ascii with ⟨byteAscii, bytesAscii⟩
      rw [List.flatMap_cons, Byte.encode_ofUInt8 byteAscii, inductionHypothesis bytesAscii]
      rfl

namespace Token

/-- The bytes that the literal of a token is written with. -/
def written (token : Token) : List UInt8 := Text.encode token.literal

/-- Whether the literal of a token is what its kind looks like. -/
structure Legible (token : Token) : Prop where
  legal : token.kind ≠ .illegal
  fits : Fits token.kind token.written
  literal : Byte.text token.written = token.literal

end Token

/-- A kind with a fixed spelling is written in one way. -/
theorem Token.Legible.written_eq {token : Token} (legible : token.Legible) {spelling : String}
    (spelled : token.kind.spelling? = some spelling) : token.written = Byte.ofText spelling :=
  legible.fits.eq_ofText spelled

/-- The tokens of a text are legible, except for the illegal ones. -/
theorem Segmentation.legible {text : List UInt8} {origin : Nat} {tokens : List Token}
    (segmentation : Segmentation text origin tokens) :
    ∀ token ∈ tokens, token.kind ≠ .illegal → token.Legible := by
  intro token tokenMem legal
  have stands := segmentation.stands token tokenMem
  have literalEq : token.literal = Byte.text (token.bytesIn text) := by
    rw [stands.literal, if_neg legal]
  have writtenEq : token.written = token.bytesIn text := by
    rw [Token.written, literalEq]
    exact Text.encode_text (stands.munch.fits.not_isWide legal)
  refine ⟨legal, ?_, ?_⟩
  · rw [writtenEq]
    exact stands.munch.fits
  · rw [writtenEq, literalEq]

namespace Token.Legible

variable {token other : Token}

/-- Legible tokens with one literal are one token, but for the place. -/
theorem unplaced_eq (legible : token.Legible) (otherLegible : other.Legible)
    (literalEq : token.literal = other.literal) : token.unplaced = other.unplaced := by
  have writtenEq : token.written = other.written := congrArg Text.encode literalEq
  have kindEq : token.kind = other.kind := by
    rw [← legible.fits.ofLexeme_eq, writtenEq, otherLegible.fits.ofLexeme_eq]
  simp only [unplaced, kindEq, literalEq]

/-- Legible tokens of one kind with a fixed spelling are one token, but for the place. -/
theorem unplaced_eq_of_spelled (legible : token.Legible) (otherLegible : other.Legible)
    {kind : TokenKind} {spelling : String} (isKind : token.kind = kind)
    (otherKind : other.kind = kind) (spelled : kind.spelling? = some spelling) :
    token.unplaced = other.unplaced := by
  have writtenEq : token.written = Byte.ofText spelling := legible.written_eq (isKind ▸ spelled)
  have otherEq : other.written = Byte.ofText spelling :=
    otherLegible.written_eq (otherKind ▸ spelled)
  apply legible.unplaced_eq otherLegible
  rw [← legible.literal, ← otherLegible.literal, writtenEq, otherEq]

/-- No literal goes over the end of a line. -/
theorem lineFeed_notMem (legible : token.Legible) : '\n' ∉ token.literal.toList := by
  intro feedMem
  rw [← legible.literal, Byte.text, String.toList_ofList] at feedMem
  rcases List.mem_map.mp feedMem with ⟨byte, byteMem, byteEq⟩
  have valueEq : (Char.ofUInt8 byte).toNat = byte.toNat := UInt8.toNat_toUInt32 byte
  rw [byteEq] at valueEq
  apply legible.fits.not_isBlank byte byteMem
  rw [Byte.isBlank_iff, ← valueEq]
  decide

end Token.Legible

/-! ## What may stand behind a token -/

/-- Whether nothing, a blank or a semicolon comes first. -/
def Loose (bytes : List UInt8) : Prop :=
  ∀ next, bytes.head? = some next → Byte.isBlank next ∨ next = 0x3b

/-- A gap of blanks that is left out only at the end is loose. -/
theorem loose_append {gap bytes : List UInt8} (blank : ∀ byte ∈ gap, Byte.isBlank byte)
    (apart : gap = [] → bytes = []) : Loose (gap ++ bytes) := by
  intro next isNext
  cases gap with
  | nil =>
      rw [apart rfl] at isNext
      exact absurd isNext (by simp)
  | cons byte gap =>
      obtain rfl : byte = next := Option.some.inj isNext
      exact .inl (blank byte List.mem_cons_self)

/-- Blanks and semicolons continue no token. -/
theorem Loose.apart {rest : List UInt8} (loose : Loose rest) (bytes : List UInt8) :
    ∀ next, rest.head? = some next → ¬ Extends bytes next := by
  intro next isNext extension
  rcases loose next isNext with isBlank | rfl
  · cases extension with
    | run inside also => exact Byte.RunClass.not_isBlank also isBlank
    | assign => exact absurd isBlank (by decide)
    | bang => exact absurd isBlank (by decide)
  · generalize nextEq : (0x3b : UInt8) = next at extension
    cases extension with
    | @run runClass _ _ inside also =>
        subst nextEq
        cases runClass <;> exact absurd also (by decide)
    | assign => exact absurd nextEq (by decide)
    | bang => exact absurd nextEq (by decide)

/-- A token that begins with `=` is `=` or `==`. -/
theorem TokenKind.Fits.kind_of_equals {kind : TokenKind} {more : List UInt8}
    (fits : Fits kind (Byte.equals :: more)) : kind = .assign ∨ kind = .equal := by
  have kindEq := fits.ofLexeme_eq
  rcases fits.form with ⟨runClass, run⟩ | ⟨first, _, single | ⟨_, pair⟩⟩
  · have inside := run.2 _ List.mem_cons_self
    cases runClass <;> exact absurd inside (by decide)
  · obtain rfl : more = [] := (List.cons.inj single).2
    exact .inl kindEq.symm
  · obtain rfl : more = [Byte.equals] := (List.cons.inj pair).2
    exact .inr kindEq.symm

/-! ## Parentheses -/

/-- Whether a byte is a parenthesis. -/
def Byte.isParen (byte : UInt8) : Bool := byte == 0x28 || byte == 0x29

/-- The bytes that are left when every parenthesis is taken out. -/
def withoutParens (bytes : List UInt8) : List UInt8 := bytes.filter fun byte => !Byte.isParen byte

theorem withoutParens_append (left right : List UInt8) :
    withoutParens (left ++ right) = withoutParens left ++ withoutParens right :=
  List.filter_append ..

theorem withoutParens_of_blank {gap : List UInt8} (blank : ∀ byte ∈ gap, Byte.isBlank byte) :
    withoutParens gap = gap := by
  refine List.filter_eq_self.mpr fun byte byteMem => ?_
  have isBlank := blank byte byteMem
  rw [Byte.isBlank_iff] at isBlank
  simp only [Byte.isParen, Bool.not_or, Bool.and_eq_true, Bool.not_eq_true', beq_eq_false_iff_ne]
  constructor
  · rintro rfl
    exact absurd isBlank (by decide)
  · rintro rfl
    exact absurd isBlank (by decide)

/-- A byte that stands alone and is not part of a pair is the whole of its token. -/
theorem TokenKind.Fits.eq_singleton_of_mem {kind : TokenKind} {bytes : List UInt8}
    (fits : Fits kind bytes) {byte : UInt8} (byteMem : byte ∈ bytes) (lone : Byte.IsLone byte)
    (notEquals : byte ≠ Byte.equals) (notBang : byte ≠ Byte.bang) : bytes = [byte] := by
  rcases fits.form with ⟨runClass, run⟩ | ⟨first, _, rfl | ⟨opens, rfl⟩⟩
  · exact absurd (run.2 byte byteMem) (lone.not_holds runClass)
  · rw [List.mem_singleton.mp byteMem]
  · rw [List.mem_cons, List.mem_singleton] at byteMem
    rcases byteMem with rfl | isEquals
    · exact absurd opens (not_or.mpr ⟨notEquals, notBang⟩)
    · exact absurd isEquals notEquals

/-- Only parentheses hold parentheses. -/
theorem TokenKind.Fits.withoutParens_eq {kind : TokenKind} {bytes : List UInt8}
    (fits : Fits kind bytes) (notParen : kind ∉ [TokenKind.leftParen, .rightParen]) :
    withoutParens bytes = bytes := by
  refine List.filter_eq_self.mpr fun byte byteMem => ?_
  rw [Bool.not_eq_true']
  by_contra isParen
  rw [Bool.not_eq_false, Byte.isParen, Bool.or_eq_true, beq_iff_eq, beq_iff_eq] at isParen
  have kindEq := fits.ofLexeme_eq
  rcases isParen with rfl | rfl
  · rw [fits.eq_singleton_of_mem byteMem (by decide) (by decide) (by decide)] at kindEq
    exact notParen (kindEq ▸ by decide)
  · rw [fits.eq_singleton_of_mem byteMem (by decide) (by decide) (by decide)] at kindEq
    exact notParen (kindEq ▸ by decide)

/-! ## Tokens in sequence -/

/-- Bytes that legible tokens are written with in order, blanks between them where
one would go on into the next. -/
inductive Spells : List Token → List UInt8 → Prop
  | nil : Spells [] []
  | blank {tokens : List Token} {byte : UInt8} {bytes : List UInt8}
      (isBlank : Byte.isBlank byte) (behind : Spells tokens bytes) :
      Spells tokens (byte :: bytes)
  | token {token : Token} {tokens : List Token} {bytes : List UInt8} (legible : token.Legible)
      (apart : ∀ next, bytes.head? = some next → ¬ Extends token.written next)
      (behind : Spells tokens bytes) : Spells (token :: tokens) (token.written ++ bytes)

namespace Spells

variable {tokens : List Token} {bytes : List UInt8}

theorem blanks {gap : List UInt8} (blank : ∀ byte ∈ gap, Byte.isBlank byte)
    (spells : Spells tokens bytes) : Spells tokens (gap ++ bytes) := by
  induction gap with
  | nil => exact spells
  | cons byte gap inductionHypothesis =>
      rcases List.forall_mem_cons.mp blank with ⟨isBlank, gapBlank⟩
      exact .blank isBlank (inductionHypothesis gapBlank)

/-- What is written is read back, whatever the place. -/
theorem tokens_unplaced (spells : Spells tokens bytes) (position : Position) :
    (⟨bytes, position⟩ : Cursor).tokens.map Token.unplaced = tokens.map Token.unplaced := by
  induction spells generalizing position with
  | nil => rw [Cursor.tokens_of_next?_eq_none rfl]
  | @blank tokens byte bytes isBlank behind inductionHypothesis =>
      have blank : ∀ other ∈ [byte], Byte.isBlank other := by simpa using isBlank
      have movedEq := Cursor.tokens_of_blanks blank bytes position
      rw [List.singleton_append] at movedEq
      rw [movedEq, inductionHypothesis]
  | @token token tokens bytes legible apart behind inductionHypothesis =>
      let span : Span := ⟨position, position.after token.written⟩
      have taken : (⟨token.written ++ bytes, position⟩ : Cursor).next? =
          some (Token.ofLexeme token.written span, ⟨bytes, position.after token.written⟩) :=
        Cursor.next?_eq_some_iff.mpr ⟨[], token.written, token.kind, rfl, by simp,
          ⟨legible.fits, apart⟩, rfl, rfl⟩
      have tokenEq : (Token.ofLexeme token.written span).unplaced = token.unplaced := by
        simp only [Token.ofLexeme, Token.unplaced, legible.fits.ofLexeme_eq, if_neg legible.legal,
          legible.literal]
      rw [Cursor.tokens_of_next?_eq_some taken, List.map_cons, List.map_cons, tokenEq,
        inductionHypothesis]

/-- What is written is a text, so its tokens look like those of a text. -/
theorem lexical (spells : Spells tokens bytes) : ∀ token ∈ tokens, token.Lexical := by
  intro token tokenMem
  have unplacedMem : token.unplaced ∈ tokens.map Token.unplaced := List.mem_map_of_mem tokenMem
  rw [← spells.tokens_unplaced .start] at unplacedMem
  rcases List.mem_map.mp unplacedMem with ⟨other, otherMem, sameEq⟩
  have otherLexical := lexical_of_mem_tokens bytes other otherMem
  have unplacedLexical : token.unplaced.Lexical := by
    rw [← sameEq]
    exact ⟨otherLexical.notEof, otherLexical.digits⟩
  exact ⟨unplacedLexical.notEof, unplacedLexical.digits⟩

end Spells

end PrattSyntax
