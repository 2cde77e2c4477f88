import PrattSyntax.Proofs.Text.Division
import PrattSyntax.Token.Basic

/-!
# Lexemes

Which bytes a token of a given kind may have, and when such bytes could be
longer, is stated here on the bytes alone. `lexeme` is then characterised
exactly: of the bytes ahead it takes the one prefix that fits a kind and that
the byte behind it does not extend.
-/

namespace PrattSyntax

/-! ## Classes of bytes -/

namespace Byte

theorem isLetter_iff (byte : UInt8) :
    isLetter byte ↔ (0x61 ≤ byte.toNat ∧ byte.toNat ≤ 0x7a) ∨
      (0x41 ≤ byte.toNat ∧ byte.toNat ≤ 0x5a) ∨ byte.toNat = 0x5f := by
  simp [isLetter, UInt8.le_iff_toNat_le, ← UInt8.toNat_inj, or_assoc]

theorem isDigit_iff (byte : UInt8) :
    isDigit byte ↔ 0x30 ≤ byte.toNat ∧ byte.toNat ≤ 0x39 := by
  simp [isDigit, UInt8.le_iff_toNat_le]

theorem isBlank_iff (byte : UInt8) :
    isBlank byte ↔ byte.toNat = 0x20 ∨ (0x09 ≤ byte.toNat ∧ byte.toNat ≤ 0x0d) := by
  simp [isBlank, UInt8.le_iff_toNat_le, ← UInt8.toNat_inj]

theorem isWide_iff (byte : UInt8) : isWide byte ↔ 0x80 ≤ byte.toNat := by
  simp [isWide, UInt8.le_iff_toNat_le]

/-- The classes whose bytes stand together in one token. -/
inductive RunClass where
  | letters
  | digits
  | wides
deriving DecidableEq, Repr

/-- Whether a byte is of a class. -/
def RunClass.holds : RunClass → UInt8 → Bool
  | letters => isLetter
  | digits => isDigit
  | wides => isWide

theorem RunClass.eq_of_holds {first second : RunClass} {byte : UInt8}
    (inFirst : first.holds byte) (inSecond : second.holds byte) : first = second := by
  cases first <;> cases second <;>
    simp only [holds, isLetter_iff, isDigit_iff, isWide_iff] at inFirst inSecond <;>
    first | rfl | omega

theorem RunClass.not_isBlank {runClass : RunClass} {byte : UInt8}
    (inside : runClass.holds byte) : ¬ isBlank byte := by
  rw [isBlank_iff]
  cases runClass <;> simp only [holds, isLetter_iff, isDigit_iff, isWide_iff] at inside <;> omega

/-- One byte or more, all of a class. -/
def Run (runClass : RunClass) (bytes : List UInt8) : Prop :=
  bytes ≠ [] ∧ ∀ byte ∈ bytes, runClass.holds byte

instance (runClass : RunClass) (bytes : List UInt8) : Decidable (Run runClass bytes) :=
  inferInstanceAs (Decidable (_ ∧ _))

/-- A byte of no class: it starts a mark or nothing. -/
def IsLone (byte : UInt8) : Prop :=
  ¬ isLetter byte ∧ ¬ isDigit byte ∧ ¬ isWide byte ∧ ¬ isBlank byte

instance (byte : UInt8) : Decidable (IsLone byte) := inferInstanceAs (Decidable (_ ∧ _))

theorem IsLone.not_holds {byte : UInt8} (lone : IsLone byte) (runClass : RunClass) :
    ¬ runClass.holds byte := by
  cases runClass
  · exact lone.1
  · exact lone.2.1
  · exact lone.2.2.1

/-- A byte is blank, stands in runs, or stands alone. -/
theorem holds_or_isLone {byte : UInt8} (notBlank : ¬ isBlank byte) :
    (∃ runClass : RunClass, runClass.holds byte) ∨ IsLone byte := by
  by_cases letter : isLetter byte
  · exact .inl ⟨.letters, letter⟩
  · by_cases digit : isDigit byte
    · exact .inl ⟨.digits, digit⟩
    · by_cases wide : isWide byte
      · exact .inl ⟨.wides, wide⟩
      · exact .inr ⟨letter, digit, wide, notBlank⟩

/-- The bytes that a text of small characters is made of. -/
def ofText (text : String) : List UInt8 := text.toList.map fun char => UInt8.ofNat char.toNat

@[simp]
theorem ofText_text (bytes : List UInt8) : ofText (text bytes) = bytes := by
  have inverse : (fun char : Char => UInt8.ofNat char.toNat) ∘ Char.ofUInt8 = id := by
    funext byte
    exact UInt8.ofNat_toNat
  simp only [ofText, text, String.toList_ofList, List.map_map, inverse, List.map_id]

end Byte

/-! ## What a kind may look like -/

namespace TokenKind

open Byte (Run IsLone RunClass)

/-- The spelling of a keyword, an operator or a delimiter. -/
def spelling? : TokenKind → Option String
  | assign => some "="
  | plus => some "+"
  | minus => some "-"
  | bang => some "!"
  | asterisk => some "*"
  | slash => some "/"
  | equal => some "=="
  | bangEqual => some "!="
  | lessThan => some "<"
  | greaterThan => some ">"
  | comma => some ","
  | semicolon => some ";"
  | leftParen => some "("
  | rightParen => some ")"
  | leftBrace => some "\x7b"
  | rightBrace => some "\x7d"
  | functionWord => some "fn"
  | letWord => some "let"
  | returnWord => some "return"
  | trueWord => some "true"
  | falseWord => some "false"
  | ifWord => some "if"
  | elseWord => some "else"
  | illegal | eof | ident | int => none

/-- Whether some kind is spelled with the given bytes. -/
def Spelled (lexeme : List UInt8) : Prop :=
  ∃ kind : TokenKind, kind.spelling? = some (Byte.text lexeme)

/-- Which bytes a token of a kind may have. -/
inductive Fits : TokenKind → List UInt8 → Prop
  | spelled {kind : TokenKind} {lexeme : List UInt8}
      (spelling : kind.spelling? = some (Byte.text lexeme)) : Fits kind lexeme
  | name {lexeme : List UInt8} (letters : Run .letters lexeme) (free : ¬ Spelled lexeme) :
      Fits ident lexeme
  | number {lexeme : List UInt8} (digits : Run .digits lexeme) : Fits int lexeme
  | wide {lexeme : List UInt8} (wides : Run .wides lexeme) : Fits illegal lexeme
  | stray {byte : UInt8} (lone : IsLone byte) (free : ¬ Spelled [byte]) : Fits illegal [byte]

/-- When bytes that fit a kind could be continued by one more: a run by a byte
of its class, `=` and `!` by `=`. -/
inductive Extends : List UInt8 → UInt8 → Prop
  | run {runClass : RunClass} {lexeme : List UInt8} {next : UInt8}
      (inside : Run runClass lexeme) (also : runClass.holds next) : Extends lexeme next
  | assign : Extends [Byte.equals] Byte.equals
  | bang : Extends [Byte.bang] Byte.equals

/-- The bytes of a mark: one byte, or `=` or `!` before `=`. -/
def IsMark (lexeme : List UInt8) : Prop :=
  ∃ first : UInt8, IsLone first ∧ (lexeme = [first] ∨
    (first = Byte.equals ∨ first = Byte.bang) ∧ lexeme = [first, Byte.equals])

/-! ## The form of a lexeme -/

theorem ofLexeme_ofText {kind : TokenKind} {spelling : String}
    (spelled : kind.spelling? = some spelling) : ofLexeme (Byte.ofText spelling) = kind := by
  cases kind <;> cases spelled <;> decide

/-- Fixed spellings are words or marks. -/
theorem spelling?_form {kind : TokenKind} {lexeme : List UInt8}
    (spelled : kind.spelling? = some (Byte.text lexeme)) :
    Run .letters lexeme ∨ IsMark lexeme := by
  suffices form : ∀ spelling, kind.spelling? = some spelling →
      Run .letters (Byte.ofText spelling) ∨ IsMark (Byte.ofText spelling) by
    have lexemeForm := form _ spelled
    rwa [Byte.ofText_text] at lexemeForm
  intro spelling spelled
  cases kind <;> cases spelled <;>
    first
    | exact .inl (by decide +kernel)
    | exact .inr ⟨_, by decide +kernel, .inl rfl⟩
    | exact .inr ⟨_, by decide +kernel, .inr ⟨by decide, rfl⟩⟩

theorem Fits.form {kind : TokenKind} {lexeme : List UInt8} (fits : Fits kind lexeme) :
    (∃ runClass, Run runClass lexeme) ∨ IsMark lexeme := by
  cases fits with
  | spelled spelling =>
      rcases spelling?_form spelling with letters | mark
      · exact .inl ⟨_, letters⟩
      · exact .inr mark
  | name letters _ => exact .inl ⟨_, letters⟩
  | number digits => exact .inl ⟨_, digits⟩
  | wide wides => exact .inl ⟨_, wides⟩
  | stray lone _ => exact .inr ⟨_, lone, .inl rfl⟩

theorem IsMark.all_isLone {lexeme : List UInt8} (mark : IsMark lexeme) :
    ∀ byte ∈ lexeme, IsLone byte := by
  have equalsLone : IsLone Byte.equals := by decide
  rcases mark with ⟨first, lone, rfl | ⟨_, rfl⟩⟩
  · simpa using lone
  · simpa using ⟨lone, equalsLone⟩

theorem IsMark.ne_nil {lexeme : List UInt8} (mark : IsMark lexeme) : lexeme ≠ [] := by
  rcases mark with ⟨first, _, rfl | ⟨_, rfl⟩⟩ <;> exact List.cons_ne_nil _ _

theorem Fits.ne_nil {kind : TokenKind} {lexeme : List UInt8} (fits : Fits kind lexeme) :
    lexeme ≠ [] := by
  rcases fits.form with ⟨_, run⟩ | mark
  · exact run.1
  · exact mark.ne_nil

/-- No token holds a blank. -/
theorem Fits.not_isBlank {kind : TokenKind} {lexeme : List UInt8} (fits : Fits kind lexeme) :
    ∀ byte ∈ lexeme, ¬ Byte.isBlank byte := by
  intro byte byteMem
  rcases fits.form with ⟨_, run⟩ | mark
  · exact RunClass.not_isBlank (run.2 byte byteMem)
  · exact (mark.all_isLone byte byteMem).2.2.2

theorem not_isWide_of_letters {lexeme : List UInt8} (letters : Run .letters lexeme) :
    ∀ byte ∈ lexeme, ¬ Byte.isWide byte := by
  intro byte byteMem wide
  have inWides : RunClass.wides.holds byte := wide
  have classEq := RunClass.eq_of_holds (letters.2 byte byteMem) inWides
  contradiction

/-- Only illegal tokens hold wide bytes. -/
theorem Fits.not_isWide {kind : TokenKind} {lexeme : List UInt8} (fits : Fits kind lexeme)
    (legal : kind ≠ illegal) : ∀ byte ∈ lexeme, ¬ Byte.isWide byte := by
  intro byte byteMem wide
  cases fits with
  | spelled spelling =>
      rcases spelling?_form spelling with letters | mark
      · exact not_isWide_of_letters letters byte byteMem wide
      · exact (mark.all_isLone byte byteMem).2.2.1 wide
  | name letters _ => exact not_isWide_of_letters letters byte byteMem wide
  | number digits =>
      have inWides : RunClass.wides.holds byte := wide
      have classEq := RunClass.eq_of_holds (digits.2 byte byteMem) inWides
      contradiction
  | wide => exact legal rfl
  | stray => exact legal rfl

/-! ## The kind is read off the bytes -/

theorem spelling?_of_mem_keywords :
    ∀ entry ∈ keywords, entry.2.spelling? = some entry.1 := by decide

theorem spelling?_of_mem_pairs :
    ∀ entry ∈ pairs, entry.2.spelling? = some (Byte.text entry.1) := by decide

theorem spelling?_of_mem_marks :
    ∀ entry ∈ marks, entry.2.spelling? = some (Byte.text [entry.1]) := by decide

theorem mem_of_lookup_eq_some {α β : Type} [BEq α] [LawfulBEq α] {table : List (α × β)} {key : α}
    {value : β} (found : table.lookup key = some value) : (key, value) ∈ table := by
  rcases List.lookup_eq_some_iff.mp found with ⟨before, behind, tableEq, _⟩
  simp [tableEq]

theorem ofWord_eq_ident {lexeme : List UInt8} (free : ¬ Spelled lexeme) :
    ofWord (Byte.text lexeme) = ident := by
  unfold ofWord
  cases found : keywords.lookup (Byte.text lexeme) with
  | none => rfl
  | some kind =>
      exact absurd ⟨kind, spelling?_of_mem_keywords _ (mem_of_lookup_eq_some found)⟩ free

theorem pairs_lookup_eq_none {lexeme : List UInt8} (free : ¬ Spelled lexeme) :
    pairs.lookup lexeme = none := by
  cases found : pairs.lookup lexeme with
  | none => rfl
  | some kind =>
      exact absurd ⟨kind, spelling?_of_mem_pairs _ (mem_of_lookup_eq_some found)⟩ free

theorem marks_lookup_eq_none {byte : UInt8} (free : ¬ Spelled [byte]) :
    marks.lookup byte = none := by
  cases found : marks.lookup byte with
  | none => rfl
  | some kind =>
      exact absurd ⟨kind, spelling?_of_mem_marks _ (mem_of_lookup_eq_some found)⟩ free

theorem not_spelled_of_isWide {byte : UInt8} {more : List UInt8} (wide : Byte.isWide byte) :
    ¬ Spelled (byte :: more) := by
  rintro ⟨kind, spelling⟩
  have legal : kind ≠ illegal := by
    rintro rfl
    contradiction
  exact (Fits.spelled spelling).not_isWide legal byte List.mem_cons_self wide

theorem ofLexeme_of_lone {first : UInt8} {more : List UInt8} (notLetter : ¬ Byte.isLetter first)
    (notDigit : ¬ Byte.isDigit first) (free : ¬ Spelled (first :: more))
    (freeFirst : ¬ Spelled [first]) : ofLexeme (first :: more) = illegal := by
  rw [ofLexeme, if_neg notLetter, if_neg notDigit, pairs_lookup_eq_none free,
    marks_lookup_eq_none freeFirst]
  rfl

/-- Bytes fit one kind at most, the one that is read off them. -/
theorem Fits.ofLexeme_eq {kind : TokenKind} {lexeme : List UInt8} (fits : Fits kind lexeme) :
    ofLexeme lexeme = kind := by
  cases fits with
  | spelled spelling =>
      have kindEq := ofLexeme_ofText spelling
      rwa [Byte.ofText_text] at kindEq
  | name letters free =>
      cases lexeme with
      | nil => exact absurd rfl letters.1
      | cons first more =>
          have letter : Byte.isLetter first := letters.2 first List.mem_cons_self
          rw [ofLexeme, if_pos letter, ofWord_eq_ident free]
  | number digits =>
      cases lexeme with
      | nil => exact absurd rfl digits.1
      | cons first more =>
          have digit : RunClass.digits.holds first := digits.2 first List.mem_cons_self
          have notLetter : ¬ RunClass.letters.holds first := fun letter =>
            absurd (RunClass.eq_of_holds letter digit) (by decide)
          exact (if_neg notLetter).trans (if_pos digit)
  | wide wides =>
      cases lexeme with
      | nil => exact absurd rfl wides.1
      | cons first more =>
          have wide : RunClass.wides.holds first := wides.2 first List.mem_cons_self
          have notLetter : ¬ RunClass.letters.holds first := fun letter =>
            absurd (RunClass.eq_of_holds letter wide) (by decide)
          have notDigit : ¬ RunClass.digits.holds first := fun digit =>
            absurd (RunClass.eq_of_holds digit wide) (by decide)
          exact ofLexeme_of_lone notLetter notDigit (not_spelled_of_isWide wide)
            (not_spelled_of_isWide wide)
  | stray lone free => exact ofLexeme_of_lone lone.1 lone.2.1 free free

/-! ## What extends a lexeme -/

theorem extends_run_iff {runClass : RunClass} {lexeme : List UInt8} {next : UInt8}
    (inside : Run runClass lexeme) : Extends lexeme next ↔ runClass.holds next := by
  constructor
  · intro extension
    cases extension with
    | @run other _ _ otherInside also =>
        obtain ⟨byte, byteMem⟩ := List.exists_mem_of_ne_nil lexeme inside.1
        have classEq := RunClass.eq_of_holds (inside.2 byte byteMem) (otherInside.2 byte byteMem)
        rwa [classEq]
    | assign => cases runClass <;> exact absurd inside (by decide)
    | bang => cases runClass <;> exact absurd inside (by decide)
  · exact Extends.run inside

theorem extends_mark_iff {lexeme : List UInt8} {next : UInt8} (mark : IsMark lexeme) :
    Extends lexeme next ↔
      (lexeme = [Byte.equals] ∨ lexeme = [Byte.bang]) ∧ next = Byte.equals := by
  constructor
  · intro extension
    cases extension with
    | @run other _ _ inside _ =>
        obtain ⟨byte, byteMem⟩ := List.exists_mem_of_ne_nil lexeme inside.1
        exact absurd (inside.2 byte byteMem) ((mark.all_isLone byte byteMem).not_holds other)
    | assign => exact ⟨.inl rfl, rfl⟩
    | bang => exact ⟨.inr rfl, rfl⟩
  · rintro ⟨rfl | rfl, rfl⟩
    · exact Extends.assign
    · exact Extends.bang

end TokenKind

/-! ## The lexeme of the bytes ahead -/

section Lexeme

open Byte (Run IsLone RunClass)
open TokenKind

variable {first : UInt8} {after : List UInt8}

theorem lexeme_of_holds {runClass : RunClass} (inside : runClass.holds first) :
    lexeme first after = first :: after.takeWhile runClass.holds := by
  have other : ∀ otherClass : RunClass, otherClass ≠ runClass → ¬ otherClass.holds first :=
    fun otherClass classNe also => classNe (RunClass.eq_of_holds also inside)
  cases runClass with
  | letters => exact if_pos inside
  | digits =>
      exact (if_neg (other .letters (by decide))).trans (if_pos inside)
  | wides =>
      exact (if_neg (other .letters (by decide))).trans
        ((if_neg (other .digits (by decide))).trans (if_pos inside))

theorem lexeme_of_isLone (lone : IsLone first) :
    lexeme first after =
      if (first = Byte.equals ∨ first = Byte.bang) ∧ after.head? = some Byte.equals then
        [first, Byte.equals]
      else [first] :=
  (if_neg lone.1).trans ((if_neg lone.2.1).trans (if_neg lone.2.2.1))

/-- Bytes that make a token of a kind, none of them missing: what is behind does
not continue them. -/
structure Munch (kind : TokenKind) (bytes rest : List UInt8) : Prop where
  fits : kind.Fits bytes
  maximal : ∀ next, rest.head? = some next → ¬ Extends bytes next

theorem exists_fits_of_run {runClass : RunClass} {bytes : List UInt8} (run : Run runClass bytes) :
    ∃ kind, Fits kind bytes := by
  cases runClass with
  | letters =>
      by_cases spelled : Spelled bytes
      · rcases spelled with ⟨kind, spelling⟩
        exact ⟨kind, .spelled spelling⟩
      · exact ⟨_, .name run spelled⟩
  | digits => exact ⟨_, .number run⟩
  | wides => exact ⟨_, .wide run⟩

theorem exists_fits_of_isLone (lone : IsLone first) : ∃ kind, Fits kind [first] := by
  by_cases spelled : Spelled [first]
  · rcases spelled with ⟨kind, spelling⟩
    exact ⟨kind, .spelled spelling⟩
  · exact ⟨_, .stray lone spelled⟩

/-- What `lexeme` takes is a token and cannot be longer. -/
theorem munch_lexeme (notBlank : ¬ Byte.isBlank first) :
    ∃ kind rest, first :: after = lexeme first after ++ rest ∧
      Munch kind (lexeme first after) rest := by
  rcases Byte.holds_or_isLone notBlank with ⟨runClass, inside⟩ | lone
  · rw [lexeme_of_holds inside]
    have run : Run runClass (first :: after.takeWhile runClass.holds) := by
      refine ⟨List.cons_ne_nil _ _, fun byte byteMem => ?_⟩
      rcases List.mem_cons.mp byteMem with rfl | byteMem
      · exact inside
      · exact List.mem_takeWhile_imp byteMem
    rcases exists_fits_of_run run with ⟨kind, fits⟩
    refine ⟨kind, after.dropWhile runClass.holds, by simp, fits, ?_⟩
    intro next nextHead
    have outside := List.head?_dropWhile_not runClass.holds after
    rw [nextHead] at outside
    rw [extends_run_iff run]
    exact Bool.eq_false_iff.mp outside
  · rw [lexeme_of_isLone lone]
    split
    · next pair =>
        rcases pair with ⟨firstEq, afterHead⟩
        rcases List.head?_eq_some_iff.mp afterHead with ⟨rest, rfl⟩
        have mark : IsMark [first, Byte.equals] := ⟨first, lone, .inr ⟨firstEq, rfl⟩⟩
        have fits : ∃ kind, Fits kind [first, Byte.equals] := by
          rcases firstEq with rfl | rfl
          · exact ⟨equal, .spelled rfl⟩
          · exact ⟨bangEqual, .spelled rfl⟩
        rcases fits with ⟨kind, fits⟩
        refine ⟨kind, rest, rfl, fits, fun next _ => ?_⟩
        rw [extends_mark_iff mark]
        simp
    · next single =>
        have mark : IsMark [first] := ⟨first, lone, .inl rfl⟩
        rcases exists_fits_of_isLone lone with ⟨kind, fits⟩
        refine ⟨kind, after, rfl, fits, fun next nextHead => ?_⟩
        rw [extends_mark_iff mark]
        rintro ⟨firstEq, rfl⟩
        exact single ⟨by simpa using firstEq, nextHead⟩

/-- What makes a token and cannot be longer is what `lexeme` takes. -/
theorem lexeme_eq_of_munch {kind : TokenKind} {more rest : List UInt8}
    (munch : Munch kind (first :: more) rest) : lexeme first (more ++ rest) = first :: more := by
  rcases munch.fits.form with ⟨runClass, run⟩ | mark
  · have inside : runClass.holds first := run.2 first List.mem_cons_self
    have divides : Text.Divides runClass.holds more rest := by
      constructor
      · exact fun byte byteMem => run.2 byte (List.mem_cons_of_mem first byteMem)
      · intro next isNext
        have notExtended := munch.maximal next isNext
        rwa [extends_run_iff run] at notExtended
    rw [lexeme_of_holds inside, divides.takeWhile_eq]
  · have lone : IsLone first := mark.all_isLone first List.mem_cons_self
    rw [lexeme_of_isLone lone]
    have maximal := munch.maximal
    rcases mark with ⟨head, headLone, single | ⟨headEq, pair⟩⟩
    · obtain ⟨rfl, rfl⟩ := List.cons.inj single
      apply if_neg
      rintro ⟨firstEq, restHead⟩
      have mark : IsMark [first] := ⟨first, lone, .inl rfl⟩
      refine maximal _ restHead ((extends_mark_iff mark).mpr ⟨?_, rfl⟩)
      simpa using firstEq
    · obtain ⟨rfl, rfl⟩ := List.cons.inj pair
      exact if_pos ⟨headEq, rfl⟩

end Lexeme

end PrattSyntax
