import PrattSyntax.Proofs.Lexer.Writing
import PrattSyntax.Proofs.Text.Encoding

/-!
# Tokens between blanks

Names, numbers and the kinds with a fixed spelling are read from their literals alone.
Put in a row with blanks between them, these literals are a text whose tokens have the
kinds and literals that one began with, whatever the blanks are.
-/

namespace PrattSyntax

open TokenKind (Fits Spelled)

/-! ## Literals of ASCII characters -/

namespace Text

/-- Whether every character of a text is an ASCII one. -/
def IsAscii (text : String) : Prop := ∀ char ∈ text.toList, char.toNat < 0x80

theorem isAscii_iff (text : String) :
    IsAscii text ↔ text.toList.all fun char => char.toNat < 0x80 := by
  simp only [IsAscii, List.all_eq_true, decide_eq_true_eq]

/-- An ASCII text is written with one byte for each character. -/
theorem IsAscii.encode_eq {text : String} (ascii : IsAscii text) :
    encode text = Byte.ofText text := by
  rw [IsAscii] at ascii
  rw [encode, Byte.ofText]
  generalize text.toList = chars at ascii ⊢
  induction chars with
  | nil => rfl
  | cons char chars inductionHypothesis =>
      rcases List.forall_mem_cons.mp ascii with ⟨charAscii, charsAscii⟩
      rw [List.flatMap_cons, encodeChar_of_ascii charAscii, inductionHypothesis charsAscii]
      rfl

/-- An ASCII text is what its bytes say. -/
theorem IsAscii.text_ofText {text : String} (ascii : IsAscii text) :
    Byte.text (Byte.ofText text) = text := by
  have charEq : ∀ char ∈ text.toList, Char.ofUInt8 (UInt8.ofNat char.toNat) = char := by
    intro char charMem
    apply ofUInt8_ofNat
    exact Nat.lt_trans (ascii char charMem) (by decide)
  have charsEq : text.toList.map (Char.ofUInt8 ∘ fun char => UInt8.ofNat char.toNat) =
      text.toList := (List.map_congr_left charEq).trans (List.map_id _)
  rw [Byte.text, Byte.ofText, List.map_map, charsEq, String.ofList_toList]

/-- Whether a character can stand in a name. -/
def isNameChar (char : Char) : Bool := char.isAlpha || char == '_'

theorem isNameChar_iff (char : Char) :
    isNameChar char ↔ (0x61 ≤ char.toNat ∧ char.toNat ≤ 0x7a) ∨
      (0x41 ≤ char.toNat ∧ char.toNat ≤ 0x5a) ∨ char.toNat = 0x5f := by
  have underscore : char = '_' ↔ char.toNat = 0x5f := by
    rw [← Char.toNat_inj]
    rfl
  have alpha : char.isAlpha ↔ (0x41 ≤ char.toNat ∧ char.toNat ≤ 0x5a) ∨
      (0x61 ≤ char.toNat ∧ char.toNat ≤ 0x7a) := by
    change (decide (0x41 ≤ char.val ∧ char.val ≤ 0x5a) ||
      (decide (0x61 ≤ char.val) && decide (char.val ≤ 0x7a))) = true ↔ _
    rw [Bool.or_eq_true, Bool.and_eq_true, decide_eq_true_eq, decide_eq_true_eq,
      decide_eq_true_eq]
    rfl
  simp only [isNameChar, Bool.or_eq_true, beq_iff_eq, underscore, alpha]
  exact or_right_comm.trans or_comm

theorem isDigit_iff (char : Char) :
    char.isDigit ↔ 0x30 ≤ char.toNat ∧ char.toNat ≤ 0x39 := by
  change (decide (0x30 ≤ char.val) && decide (char.val ≤ 0x39)) = true ↔ _
  rw [Bool.and_eq_true, decide_eq_true_eq, decide_eq_true_eq]
  rfl

end Text

namespace Byte

theorem isLetter_ofNat {char : Char} (inName : Text.isNameChar char) :
    isLetter (UInt8.ofNat char.toNat) := by
  rw [Text.isNameChar_iff] at inName
  rw [isLetter_iff, UInt8.toNat_ofNat', Nat.mod_eq_of_lt (by omega)]
  exact inName

theorem isDigit_ofNat {char : Char} (digit : char.isDigit) :
    isDigit (UInt8.ofNat char.toNat) := by
  rw [Text.isDigit_iff] at digit
  rw [isDigit_iff, UInt8.toNat_ofNat', Nat.mod_eq_of_lt (by omega)]
  exact digit

theorem isNameChar_ofUInt8 {byte : UInt8} (letter : isLetter byte) :
    Text.isNameChar (Char.ofUInt8 byte) := by
  have valueEq : (Char.ofUInt8 byte).toNat = byte.toNat := UInt8.toNat_toUInt32 byte
  rw [Text.isNameChar_iff, valueEq]
  exact (isLetter_iff byte).mp letter

end Byte

/-- A legible name is made of the characters of names. -/
theorem Token.Legible.isNameChar {token : Token} (legible : token.Legible)
    (isName : token.kind = .ident) : ∀ char ∈ token.literal.toList, Text.isNameChar char := by
  intro char charMem
  rw [← legible.literal, Byte.text, String.toList_ofList] at charMem
  rcases List.mem_map.mp charMem with ⟨byte, byteMem, rfl⟩
  have fits := legible.fits
  rw [isName] at fits
  cases fits with
  | spelled spelling => contradiction
  | name letters _ => exact Byte.isNameChar_ofUInt8 (letters.2 byte byteMem)

/-! ## Tokens that can be written -/

/-- Whether a token is read from its literal: it is a name that is no reserved word, a
number, or of a kind with a fixed spelling. -/
def Token.Writable (token : Token) : Prop :=
  (token.kind = .ident ∧ token.literal ≠ "" ∧
      token.literal.toList.all Text.isNameChar ∧
      token.literal ∉ TokenKind.keywords.map Prod.fst) ∨
    (token.kind = .int ∧ token.literal ≠ "" ∧ token.literal.toList.all Char.isDigit) ∨
    token.kind.spelling? = some token.literal

instance (token : Token) : Decidable token.Writable := inferInstanceAs (Decidable (_ ∨ _))

namespace TokenKind

variable {kind : TokenKind} {spelling : String}

theorem isAscii_of_spelling?_eq_some (spelled : kind.spelling? = some spelling) :
    Text.IsAscii spelling := by
  rw [Text.isAscii_iff]
  cases kind <;> cases spelled <;> decide

/-- Of the fixed spellings, only the reserved words look like names. -/
theorem mem_keywords_of_spelling?_eq_some (spelled : kind.spelling? = some spelling)
    (inName : spelling.toList.all Text.isNameChar) :
    spelling ∈ keywords.map Prod.fst := by
  revert inName
  cases kind <;> cases spelled <;> decide

end TokenKind

namespace Token.Writable

variable {token : Token}

theorem isAscii (writable : token.Writable) : Text.IsAscii token.literal := by
  rcases writable with ⟨_, _, inName, _⟩ | ⟨_, _, digits⟩ | spelled
  · intro char charMem
    have bounds := (Text.isNameChar_iff char).mp (List.all_eq_true.mp inName char charMem)
    omega
  · intro char charMem
    have bounds := (Text.isDigit_iff char).mp (List.all_eq_true.mp digits char charMem)
    omega
  · exact TokenKind.isAscii_of_spelling?_eq_some spelled

theorem written_eq (writable : token.Writable) : token.written = Byte.ofText token.literal :=
  writable.isAscii.encode_eq

theorem text_written (writable : token.Writable) : Byte.text token.written = token.literal := by
  rw [writable.written_eq, writable.isAscii.text_ofText]

/-- A literal of characters of one class is written as a run of bytes of that class. -/
theorem run (writable : token.Writable) (nonempty : token.literal ≠ "") {inside : Char → Bool}
    (allInside : token.literal.toList.all inside) {runClass : Byte.RunClass}
    (holds_ofNat : ∀ char, inside char → runClass.holds (UInt8.ofNat char.toNat)) :
    Byte.Run runClass token.written := by
  rw [writable.written_eq]
  constructor
  · intro isNil
    apply nonempty
    rwa [Byte.ofText, List.map_eq_nil_iff, String.toList_eq_nil_iff] at isNil
  · intro byte byteMem
    rcases List.mem_map.mp byteMem with ⟨char, charMem, rfl⟩
    exact holds_ofNat char (List.all_eq_true.mp allInside char charMem)

/-- A token that can be written is legible. -/
theorem legible (writable : token.Writable) : token.Legible := by
  have textEq := writable.text_written
  rcases id writable with ⟨isName, nonempty, inName, notKeyword⟩ |
    ⟨isInt, nonempty, digits⟩ | spelled
  · have letters : Byte.Run .letters token.written :=
      writable.run nonempty inName fun _ => Byte.isLetter_ofNat
    have free : ¬ Spelled token.written := by
      rintro ⟨kind, spelled⟩
      rw [textEq] at spelled
      exact notKeyword (TokenKind.mem_keywords_of_spelling?_eq_some spelled inName)
    refine ⟨by simp [isName], ?_, textEq⟩
    rw [isName]
    exact .name letters free
  · have digitRun : Byte.Run .digits token.written :=
      writable.run nonempty digits fun _ => Byte.isDigit_ofNat
    refine ⟨by simp [isInt], ?_, textEq⟩
    rw [isInt]
    exact .number digitRun
  · refine ⟨?_, .spelled (by rw [textEq, spelled]), textEq⟩
    intro isIllegal
    rw [isIllegal] at spelled
    contradiction

end Token.Writable

/-! ## Literals in a row -/

/-- The bytes of tokens in order, each with a gap behind it, behind a gap of their own. -/
def spaced (lead : List UInt8) (entries : List (Token × List UInt8)) : List UInt8 :=
  lead ++ entries.flatMap fun entry => entry.1.written ++ entry.2

theorem spells_flatMap {entries : List (Token × List UInt8)}
    (writable : ∀ entry ∈ entries, entry.1.Writable)
    (blank : ∀ entry ∈ entries, ∀ byte ∈ entry.2, Byte.isBlank byte)
    (apart : ∀ entry ∈ entries.dropLast, entry.2 ≠ []) :
    Spells (entries.map Prod.fst) (entries.flatMap fun entry => entry.1.written ++ entry.2) := by
  induction entries with
  | nil => exact .nil
  | cons entry entries inductionHypothesis =>
      rcases List.forall_mem_cons.mp writable with ⟨entryWritable, othersWritable⟩
      rcases List.forall_mem_cons.mp blank with ⟨entryBlank, othersBlank⟩
      have othersApart : ∀ other ∈ entries.dropLast, other.2 ≠ [] := by
        intro other otherMem
        apply apart other
        cases entries with
        | nil => contradiction
        | cons next entries => exact List.mem_cons_of_mem entry otherMem
      have gapOrEnd : entry.2 = [] →
          (entries.flatMap fun other => other.1.written ++ other.2) = [] := by
        intro gapNil
        cases entries with
        | nil => rfl
        | cons next entries => exact absurd gapNil (apart entry List.mem_cons_self)
      have loose := loose_append entryBlank gapOrEnd
      have behind := inductionHypothesis othersWritable othersBlank othersApart
      rw [List.map_cons, List.flatMap_cons, List.append_assoc]
      exact .token entryWritable.legible (loose.apart _) (behind.blanks entryBlank)

/-- The literals of tokens with blanks between them are read back: the kinds and literals
of these tokens are those of the text, in front of the mark of its end. -/
theorem tokenize_spaced {lead : List UInt8} {entries : List (Token × List UInt8)}
    (writable : ∀ entry ∈ entries, entry.1.Writable)
    (leadBlank : ∀ byte ∈ lead, Byte.isBlank byte)
    (blank : ∀ entry ∈ entries, ∀ byte ∈ entry.2, Byte.isBlank byte)
    (apart : ∀ entry ∈ entries.dropLast, entry.2 ≠ []) :
    (tokenize (spaced lead entries)).map Token.unplaced =
      entries.map (fun entry => entry.1.unplaced) ++ [Token.eof .start] := by
  have spells := (spells_flatMap writable blank apart).blanks leadBlank
  have tokensEq := spells.tokens_unplaced .start
  rw [List.map_map] at tokensEq
  rw [tokenize, Cursor.drain, List.map_append]
  exact congrArg₂ (· ++ ·) tokensEq rfl

/-- A reserved word, a name that begins with it and signs that would make one sign
together, with each of the six blanks between them. -/
theorem tokenize_spaced_signs :
    let entries : List (Token × List UInt8) :=
      [(⟨.letWord, "let", .origin⟩, [0x0b]), (⟨.ident, "let_", .origin⟩, [0x20, 0x0a]),
        (⟨.equal, "==", .origin⟩, [0x0d]), (⟨.assign, "=", .origin⟩, [0x09]),
        (⟨.int, "007", .origin⟩, [0x0c]), (⟨.bang, "!", .origin⟩, [0x20]),
        (⟨.bangEqual, "!=", .origin⟩, [])]
    (∀ entry ∈ entries, entry.1.Writable) ∧
      (tokenize (spaced [0x20] entries)).map Token.unplaced =
        entries.map (fun entry => entry.1.unplaced) ++ [Token.eof .start] := by
  intro entries
  have writable : ∀ entry ∈ entries, entry.1.Writable := by decide +kernel
  exact ⟨writable, tokenize_spaced writable (by decide +kernel) (by decide +kernel) (by decide)⟩

end PrattSyntax
