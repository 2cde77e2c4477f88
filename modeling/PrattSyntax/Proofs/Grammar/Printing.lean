import PrattSyntax.Proofs.Grammar.Ending
import PrattSyntax.Proofs.Lexer.Writing

/-!
# Printing and reading

A text without faults is printed and read back. The statements of its program are
printed in order, with blanks behind them; the parentheses around prefixed
operands, which the language does not have, are taken out again. What is left
spells the sentences of the text, each `let` and `return` with a semicolon of its
own and each expression without one, and is read as the same program.
-/

namespace PrattSyntax

/-! ## Programs as text -/

/-- Bytes that statements are printed as, in order and with blanks behind them. An
expression has one blank at least behind it, unless it comes last. -/
inductive Prints : List Statement → List UInt8 → Prop
  | nil : Prints [] []
  | cons {statement : Statement} {statements : List Statement} {gap bytes : List UInt8}
      (blank : ∀ byte ∈ gap, Byte.isBlank byte)
      (apart : ∀ token value, statement = .expression token value → statements ≠ [] → gap ≠ [])
      (behind : Prints statements bytes) :
      Prints (statement :: statements) (Text.encode statement.render ++ (gap ++ bytes))

/-! ## Sentences as they are printed -/

/-- A token that is written without parentheses. -/
structure Token.Plain (token : Token) : Prop where
  legible : token.Legible
  bare : withoutParens (Text.encode token.literal) = token.written

/-- The semicolon that is printed. -/
def Token.semicolon : Token := { kind := .semicolon, literal := ";" }

theorem Token.semicolon_written : Token.semicolon.written = [0x3b] := by decide +kernel

theorem Token.semicolon_legible : Token.semicolon.Legible := by
  refine ⟨by decide, .spelled ?_, ?_⟩
  · rw [semicolon_written]
    rfl
  · rw [semicolon_written]
    rfl

theorem Phrase.Fits.kind_notMem {phrase : Phrase} (fits : phrase.Fits) :
    ∀ token ∈ phrase.tokens, token.kind ∉ [TokenKind.illegal, .leftParen, .rightParen] := by
  induction phrase with
  | operand token =>
      refine List.forall_mem_singleton.mpr ?_
      rcases fits with isName | ⟨isInt, _⟩
      · simp [isName]
      · simp [isInt]
  | prefixed operator inner inductionHypothesis =>
      refine List.forall_mem_cons.mpr ⟨?_, inductionHypothesis fits.2⟩
      rcases fits.1 with isBang | isMinus
      · simp [isBang]
      · simp [isMinus]

namespace Sentence

/-- The sentence with the semicolon that it is printed with. -/
def closed : Sentence → Sentence
  | binding word name sign value _ => binding word name sign value (some .semicolon)
  | returning word value _ => returning word value (some .semicolon)
  | bareReturn word _ => bareReturn word (some .semicolon)
  | expression value _ => expression value none

@[simp]
theorem tree_closed (sentence : Sentence) : sentence.closed.tree = sentence.tree := by
  cases sentence <;> rfl

/-- No sentence has an illegal token or a parenthesis. -/
theorem Fits.kind_notMem {limit : Int} {sentence : Sentence} (fits : sentence.Fits limit) :
    ∀ token ∈ sentence.tokens, token.kind ∉ [TokenKind.illegal, .leftParen, .rightParen] := by
  have closeOther : ∀ {close : Option Token}, IsClose close → ∀ token ∈ close.toList,
      token.kind ∉ [TokenKind.illegal, .leftParen, .rightParen] := by
    intro close isClose token tokenMem
    simp [isClose token (Option.mem_toList.mp tokenMem)]
  cases sentence with
  | binding word name sign value close =>
      rcases fits with ⟨isLet, isName, isSign, within, isClose⟩
      simp only [tokens, List.forall_mem_cons, List.forall_mem_append]
      exact ⟨by simp [isLet], by simp [isName], by simp [isSign], within.1.kind_notMem,
        closeOther isClose⟩
  | returning word value close =>
      rcases fits with ⟨isReturn, within, isClose⟩
      simp only [tokens, List.forall_mem_cons, List.forall_mem_append]
      exact ⟨by simp [isReturn], within.1.kind_notMem, closeOther isClose⟩
  | bareReturn word close =>
      rcases fits with ⟨isReturn, isClose⟩
      exact List.forall_mem_cons.mpr ⟨by simp [isReturn], closeOther isClose⟩
  | expression value close =>
      exact List.forall_mem_append.mpr ⟨fits.1.1.kind_notMem, closeOther fits.2⟩

theorem Fits.closed {limit : Int} {sentence : Sentence} (fits : sentence.Fits limit) :
    sentence.closed.Fits limit := by
  have isClose : IsClose (some Token.semicolon) := by simp [IsClose, Token.semicolon]
  cases sentence with
  | binding word name sign value close =>
      exact ⟨fits.1, fits.2.1, fits.2.2.1, fits.2.2.2.1, isClose⟩
  | returning word value close => exact ⟨fits.1, fits.2.1, isClose⟩
  | bareReturn word close => exact ⟨fits.1, isClose⟩
  | expression value close => exact ⟨fits.1, by simp [IsClose]⟩

end Sentence

theorem Derives.closed {limit : Int} {sentences : List Sentence} {tokens : List Token}
    (derives : Derives limit sentences tokens) :
    Derives limit (sentences.map Sentence.closed)
      ((sentences.map Sentence.closed).flatMap Sentence.tokens) := by
  induction derives with
  | nil => exact .nil
  | @cons sentence sentences rest fits last more inductionHypothesis =>
      refine .cons fits.closed (fun word isBare => ?_) inductionHypothesis
      cases sentence <;> cases isBare

/-! ## What is printed spells the tokens -/

section

variable {tokens : List Token} {bytes : List UInt8}

theorem spells_plain {token : Token} (plain : token.Plain) (loose : Loose bytes)
    (spells : Spells tokens bytes) : Spells (token :: tokens) (token.written ++ bytes) :=
  .token plain.legible (loose.apart _) spells

/-- No phrase begins with `=`. -/
theorem Phrase.Fits.head_ne_equals {phrase : Phrase} (fits : phrase.Fits)
    (plain : ∀ token ∈ phrase.tokens, token.Plain) :
    ∀ next, (phrase.tokens.flatMap Token.written ++ bytes).head? = some next →
      next ≠ Byte.equals := by
  rintro next isNext rfl
  rcases phrase.tokens_eq_first_cons with ⟨more, tokensEq⟩
  have firstFits := (plain phrase.first (by simp [tokensEq])).legible.fits
  rw [tokensEq, List.flatMap_cons] at isNext
  cases writtenEq : phrase.first.written with
  | nil => exact firstFits.ne_nil writtenEq
  | cons byte written =>
      rw [writtenEq] at isNext firstFits
      obtain rfl : byte = Byte.equals := Option.some.inj isNext
      rcases firstFits.kind_of_equals with isAssign | isEqual
      · exact fits.first_ne (by decide) isAssign
      · exact fits.first_ne (by decide) isEqual

/-- A prefix operator is continued by nothing but `=`. -/
theorem Token.IsPrefix.eq_equals_of_extends {token : Token} (isPrefix : token.IsPrefix)
    (legible : token.Legible) {next : UInt8} (extension : TokenKind.Extends token.written next) :
    next = Byte.equals := by
  have mark : TokenKind.IsMark token.written := by
    rcases isPrefix with isBang | isMinus
    · have spelled : token.kind.spelling? = some "!" := by rw [isBang]; rfl
      exact ⟨0x21, by decide, .inl (legible.written_eq spelled)⟩
    · have spelled : token.kind.spelling? = some "-" := by rw [isMinus]; rfl
      exact ⟨0x2d, by decide, .inl (legible.written_eq spelled)⟩
  exact ((TokenKind.extends_mark_iff mark).mp extension).2

/-- A phrase is spelled without blanks. -/
theorem Phrase.Fits.spells {phrase : Phrase} (fits : phrase.Fits)
    (plain : ∀ token ∈ phrase.tokens, token.Plain) (loose : Loose bytes)
    (spells : Spells tokens bytes) :
    Spells (phrase.tokens ++ tokens) (phrase.tokens.flatMap Token.written ++ bytes) := by
  induction phrase with
  | operand token =>
      have spelled := spells_plain (plain token (List.mem_singleton.mpr rfl)) loose spells
      simpa [Phrase.tokens] using spelled
  | prefixed operator inner inductionHypothesis =>
      rcases List.forall_mem_cons.mp plain with ⟨operatorPlain, innerPlain⟩
      have innerSpells := inductionHypothesis fits.2 innerPlain
      rw [Phrase.tokens, List.flatMap_cons, List.append_assoc]
      refine .token operatorPlain.legible (fun next isNext extension => ?_) innerSpells
      exact fits.2.head_ne_equals innerPlain next isNext
        (fits.1.eq_equals_of_extends operatorPlain.legible extension)

end

/-! ## What is printed without parentheses -/

/-- The text of a phrase without parentheses is the text of its tokens. -/
theorem Phrase.withoutParens_render {phrase : Phrase}
    (plain : ∀ token ∈ phrase.tokens, token.Plain) :
    withoutParens (Text.encode phrase.tree.render) = phrase.tokens.flatMap Token.written := by
  induction phrase with
  | operand token =>
      have renderEq : (Phrase.leaf token).render = token.literal := by
        unfold Phrase.leaf
        split <;> rfl
      rw [Phrase.tree, renderEq, Phrase.tokens, List.flatMap_singleton]
      exact (plain token (List.mem_singleton.mpr rfl)).bare
  | prefixed operator inner inductionHypothesis =>
      rcases List.forall_mem_cons.mp plain with ⟨operatorPlain, innerPlain⟩
      have opened : withoutParens (Text.encode "(") = [] := by decide +kernel
      have closed : withoutParens (Text.encode ")") = [] := by decide +kernel
      simp only [Phrase.tree, Expr.render, Text.encode_append, withoutParens_append, opened, closed,
        operatorPlain.bare, inductionHypothesis innerPlain, Phrase.tokens, List.flatMap_cons,
        List.nil_append, List.append_nil]

namespace Sentence

/-- The bytes that the statement of a sentence is printed as, without parentheses. -/
def written : Sentence → List UInt8
  | binding word name _ value _ =>
      word.written ++ 0x20 :: (name.written ++ 0x20 :: 0x3d :: 0x20 ::
        (value.tokens.flatMap Token.written ++ [0x3b]))
  | returning word value _ =>
      word.written ++ 0x20 :: (value.tokens.flatMap Token.written ++ [0x3b])
  | bareReturn word _ => word.written ++ [0x20, 0x3b]
  | expression value _ => value.tokens.flatMap Token.written

theorem withoutParens_render {sentence : Sentence}
    (plain : ∀ token ∈ sentence.tokens, token.Plain) :
    withoutParens (Text.encode sentence.tree.render) = sentence.written := by
  have blankEq : withoutParens (Text.encode " ") = [0x20] := by decide +kernel
  have signEq : withoutParens (Text.encode " = ") = [0x20, 0x3d, 0x20] := by decide +kernel
  have closeEq : withoutParens (Text.encode ";") = [0x3b] := by decide +kernel
  have noValue : withoutParens (Text.encode "") = [] := by decide +kernel
  have valueEq : ∀ value, sentence.value? = some value →
      withoutParens (Text.encode value.tree.render) = value.tokens.flatMap Token.written :=
    fun value isValue => Phrase.withoutParens_render fun token tokenMem =>
      plain token (value_tokens_subset isValue tokenMem)
  cases sentence with
  | binding word name sign value close =>
      have wordBare := (plain word (by simp [tokens])).bare
      have nameBare := (plain name (by simp [tokens])).bare
      simp only [tree, Statement.render, Expr.renderOption, Text.encode_append,
        withoutParens_append, wordBare, blankEq, nameBare, signEq, valueEq value rfl, closeEq,
        written, List.append_assoc, List.cons_append, List.nil_append]
  | returning word value close =>
      have wordBare := (plain word (by simp [tokens])).bare
      simp only [tree, Statement.render, Expr.renderOption, Text.encode_append,
        withoutParens_append, wordBare, blankEq, valueEq value rfl, closeEq, written,
        List.append_assoc, List.cons_append, List.nil_append]
  | bareReturn word close =>
      have wordBare := (plain word (by simp [tokens])).bare
      simp only [tree, Statement.render, Expr.renderOption, Text.encode_append,
        withoutParens_append, wordBare, blankEq, noValue, closeEq, written, List.append_assoc,
        List.cons_append, List.nil_append]
  | expression value close => exact valueEq value rfl

end Sentence

/-! ## Sentences are spelled -/

section

variable {limit : Int} {more : List Token} {bytes : List UInt8}

theorem loose_blank (bytes : List UInt8) : Loose (0x20 :: bytes) := by
  rintro next ⟨rfl⟩
  exact .inl (by decide)

theorem loose_semicolon (bytes : List UInt8) : Loose (0x3b :: bytes) := by
  rintro next ⟨rfl⟩
  exact .inr rfl

/-- A semicolon may stand before anything. -/
theorem spells_semicolon (spells : Spells more bytes) :
    Spells (Token.semicolon :: more) (0x3b :: bytes) := by
  have apart : ∀ next, bytes.head? = some next →
      ¬ TokenKind.Extends Token.semicolon.written next := by
    intro next _
    rw [Token.semicolon_written]
    exact not_extends_of_mem List.mem_cons_self (by rintro ⟨⟩ <;> decide) (by decide) (by decide)
  have spelled := Spells.token Token.semicolon_legible apart spells
  rwa [Token.semicolon_written] at spelled

/-- A token with a blank behind it. -/
theorem spells_spaced {token : Token} (plain : token.Plain) (spells : Spells more bytes) :
    Spells (token :: more) (token.written ++ 0x20 :: bytes) :=
  .token plain.legible ((loose_blank bytes).apart _) (.blank (by decide) spells)

/-- A sentence is spelled as it is printed. An expression must not run into what is
behind it. -/
theorem Sentence.Fits.spells {sentence : Sentence} (fits : sentence.Fits limit)
    (plain : ∀ token ∈ sentence.tokens, token.Plain)
    (loose : ∀ value close, sentence = .expression value close → Loose bytes)
    (spells : Spells more bytes) :
    Spells (sentence.closed.tokens ++ more) (sentence.written ++ bytes) := by
  have valuePlain : ∀ value, sentence.value? = some value → ∀ token ∈ value.tokens, token.Plain :=
    fun value isValue token tokenMem => plain token (value_tokens_subset isValue tokenMem)
  cases sentence with
  | binding word name sign value close =>
      rcases fits with ⟨_, _, isSign, within, _⟩
      have wordPlain := plain word (by simp [tokens])
      have namePlain := plain name (by simp [tokens])
      have signPlain := plain sign (by simp [tokens])
      have spelled : sign.kind.spelling? = some "=" := by rw [isSign]; rfl
      have signWritten : sign.written = [0x3d] := signPlain.legible.written_eq spelled
      have valueSpells := within.1.spells (valuePlain value rfl) (loose_semicolon bytes)
        (spells_semicolon spells)
      have signSpells := spells_spaced signPlain valueSpells
      rw [signWritten] at signSpells
      have sentenceSpells := spells_spaced wordPlain (spells_spaced namePlain signSpells)
      simpa [Sentence.closed, tokens, written] using sentenceSpells
  | returning word value close =>
      rcases fits with ⟨_, within, _⟩
      have wordPlain := plain word (by simp [tokens])
      have valueSpells := within.1.spells (valuePlain value rfl) (loose_semicolon bytes)
        (spells_semicolon spells)
      simpa [Sentence.closed, tokens, written] using spells_spaced wordPlain valueSpells
  | bareReturn word close =>
      have wordPlain := plain word (by simp [tokens])
      simpa [Sentence.closed, tokens, written] using
        spells_spaced wordPlain (spells_semicolon spells)
  | expression value close =>
      have valueSpells := fits.1.1.spells (valuePlain value rfl) (loose value close rfl) spells
      simpa [Sentence.closed, tokens, written] using valueSpells

/-- What the statements of a derivation are printed as spells its sentences. -/
theorem Derives.spells {sentences : List Sentence} {tokens : List Token}
    (derives : Derives limit sentences tokens) (plain : ∀ token ∈ tokens, token.Plain)
    (prints : Prints (sentences.map Sentence.tree) bytes) :
    Spells ((sentences.map Sentence.closed).flatMap Sentence.tokens) (withoutParens bytes) := by
  induction derives generalizing bytes with
  | nil =>
      cases prints
      exact .nil
  | @cons sentence sentences rest fits last more inductionHypothesis =>
      rw [List.map_cons] at prints
      rcases List.forall_mem_append.mp plain with ⟨sentencePlain, restPlain⟩
      cases prints with
      | @cons _ _ gap bytes blank apart behind =>
          have behindSpells := inductionHypothesis restPlain behind
          have loose : ∀ value close, sentence = .expression value close →
              Loose (gap ++ withoutParens bytes) := by
            rintro value close rfl
            refine loose_append blank fun gapNil => ?_
            cases sentences with
            | nil =>
                cases behind
                rfl
            | cons next sentences => exact absurd gapNil (apart _ _ rfl (List.cons_ne_nil _ _))
          have spelled := fits.spells sentencePlain loose (behindSpells.blanks blank)
          rw [List.map_cons, List.flatMap_cons, withoutParens_append, withoutParens_append,
            Sentence.withoutParens_render sentencePlain, withoutParens_of_blank blank]
          exact spelled

end

/-! ## Texts -/

theorem Derives.kind_notMem {limit : Int} {sentences : List Sentence} {tokens : List Token}
    (derives : Derives limit sentences tokens) :
    ∀ token ∈ tokens, token.kind ∉ [TokenKind.illegal, .leftParen, .rightParen] := by
  induction derives with
  | nil => simp
  | cons fits last more inductionHypothesis =>
      exact List.forall_mem_append.mpr ⟨fits.kind_notMem, inductionHypothesis⟩

/-- A text that spells tokens is read, but for the places, as the tokens are. -/
theorem parseWith_of_spells {limit : Int} {tokens : List Token} {bytes : List UInt8}
    (spells : Spells tokens bytes) :
    (parseWith { maxDepth := limit } bytes).moved (fun _ => .start) =
      ((⟨⟨tokens, .start⟩, 0⟩ : Parser).program (.plain limit)).moved (fun _ => .start) := by
  have tokensEq := spells.tokens_unplaced .start
  have parserEq : (Parser.ofBytes bytes).moved (fun _ => .start) =
      (⟨⟨tokens, .start⟩, 0⟩ : Parser).moved (fun _ => .start) :=
    congrArg (fun ahead => (⟨⟨ahead, .start⟩, 0⟩ : Parser)) tokensEq
  have moved := Parser.program_moved (fun _ => .start) (Rules.plain_unplaced limit)
  change ((Parser.ofBytes bytes).program (.plain limit)).moved _ = _
  rw [← moved, ← moved, parserEq]

/-- What is read without a fault is printed and read back: with the parentheses
taken out of it, the printed text has no fault either, and its program is the same
but for the places. -/
theorem parseWith_withoutParens_of_prints {limit : Int} {source text : List UInt8}
    (faultless : (parseWith { maxDepth := limit } source).faults = [])
    (prints : Prints (parseWith { maxDepth := limit } source).program.statements text) :
    (parseWith { maxDepth := limit } (withoutParens text)).faults = [] ∧
      (parseWith { maxDepth := limit } (withoutParens text)).program.unplaced =
        (parseWith { maxDepth := limit } source).program.unplaced := by
  have segmentation := Cursor.tokens_segmentation (Cursor.ofBytes_standsIn source)
  obtain ⟨sentences, derives⟩ := Parser.exists_derivation segmentation.lexical faultless
  have sourceEq : parseWith { maxDepth := limit } source = ⟨⟨sentences.map Sentence.tree⟩, []⟩ :=
    Parser.program_of_derives derives segmentation.lexical
  have plain : ∀ token ∈ (Cursor.ofBytes source).tokens, token.Plain := by
    intro token tokenMem
    have notMem := derives.kind_notMem token tokenMem
    have legal : token.kind ≠ .illegal := fun isIllegal => notMem (by simp [isIllegal])
    have legible := segmentation.legible token tokenMem legal
    refine ⟨legible, legible.fits.withoutParens_eq fun isParen => notMem ?_⟩
    exact List.mem_cons_of_mem _ isParen
  rw [sourceEq] at prints
  have spells := derives.spells plain prints
  have closedEq : (⟨⟨(sentences.map Sentence.closed).flatMap Sentence.tokens, .start⟩, 0⟩ :
      Parser).program (.plain limit) = ⟨⟨sentences.map Sentence.tree⟩, []⟩ := by
    rw [Parser.program_of_derives derives.closed spells.lexical, List.map_map]
    simp only [Function.comp_def, Sentence.tree_closed]
  have readingEq : (parseWith { maxDepth := limit } (withoutParens text)).moved (fun _ => .start) =
      (parseWith { maxDepth := limit } source).moved (fun _ => .start) := by
    rw [parseWith_of_spells spells, closedEq, sourceEq]
  have faultsEq := congrArg Reading.faults readingEq
  have programEq := congrArg Reading.program readingEq
  simp only [Reading.moved, Program.moved_forget, faultless, List.map_nil,
    List.map_eq_nil_iff] at faultsEq programEq
  exact ⟨faultsEq, programEq⟩

/-- A `let` with nothing behind its semicolon, and an expression with a line feed
between it and a sign: printed and read, they are the same three statements. -/
theorem parseWith_withoutParens_of_prints_signs :
    Prints (parseWith { maxDepth := 256 } "let a=!7;a -b".toUTF8.toList).program.statements
        "let a = (!7);a\n(-b)".toUTF8.toList ∧
      withoutParens "let a = (!7);a\n(-b)".toUTF8.toList = "let a = !7;a\n-b".toUTF8.toList ∧
      (parseWith { maxDepth := 256 } "let a = !7;a\n-b".toUTF8.toList).program.unplaced =
        (parseWith { maxDepth := 256 } "let a=!7;a -b".toUTF8.toList).program.unplaced := by
  let place (start stop : Nat) : Span := ⟨⟨1, start + 1, start⟩, ⟨1, stop + 1, stop⟩⟩
  let name (text : String) (start : Nat) : Identifier :=
    ⟨⟨.ident, text, place start (start + 1)⟩, text⟩
  have statementsEq :
      (parseWith { maxDepth := 256 } "let a=!7;a -b".toUTF8.toList).program.statements =
        [.binding ⟨.letWord, "let", place 0 3⟩ (name "a" 4)
            (some (.prefixed ⟨.bang, "!", place 6 7⟩ "!" (.integer ⟨.int, "7", place 7 8⟩ 7))),
          .expression (name "a" 9).token (some (.name (name "a" 9))),
          .expression ⟨.minus, "-", place 11 12⟩
            (some (.prefixed ⟨.minus, "-", place 11 12⟩ "-" (.name (name "b" 12))))] := by
    decide +kernel
  have textEq : "let a = (!7);a\n(-b)".toUTF8.toList = Text.encode "let a = (!7);" ++ ([] ++
      (Text.encode "a" ++ ([0x0a] ++ (Text.encode "(-b)" ++ ([] ++ []))))) := by
    decide +kernel
  have prints :
      Prints (parseWith { maxDepth := 256 } "let a=!7;a -b".toUTF8.toList).program.statements
        "let a = (!7);a\n(-b)".toUTF8.toList := by
    rw [statementsEq, textEq]
    have lineFeed : ∀ byte ∈ [0x0a], Byte.isBlank byte := List.forall_mem_singleton.mpr (by decide)
    exact .cons (by simp) (by simp) (.cons lineFeed (by simp) (.cons (by simp) (by simp) .nil))
  have bare : withoutParens "let a = (!7);a\n(-b)".toUTF8.toList =
      "let a = !7;a\n-b".toUTF8.toList := by
    decide +kernel
  have readBack := parseWith_withoutParens_of_prints (by decide +kernel) prints
  rw [bare] at readBack
  exact ⟨prints, bare, readBack.2⟩

end PrattSyntax
