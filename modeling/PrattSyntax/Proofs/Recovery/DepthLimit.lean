import PrattSyntax.Proofs.Grammar.Ending
import PrattSyntax.Proofs.Lexer.Concatenation
import PrattSyntax.Proofs.Places.Reading

/-!
# Behind the limit of depth

An expression that is too deep is given up at the token that is one too many, and
reading goes on behind the first semicolon after that token. As long as the token
stands before the semicolon of its statement, what follows is read as a text of
its own. If the token is that semicolon itself, the search has already passed it,
and the statement behind it is lost.
-/

namespace PrattSyntax

/-! ## Behind the next semicolon -/

/-- What is behind the first semicolon of a list of tokens. -/
def behindSemicolon (tokens : List Token) : List Token :=
  (tokens.dropWhile fun token => token.kind ≠ .semicolon).tail

theorem behindSemicolon_append {passed : List Token}
    (passes : ∀ token ∈ passed, token.kind ≠ .semicolon) {semicolon : Token}
    (closes : semicolon.kind = .semicolon) (rest : List Token) :
    behindSemicolon (passed ++ semicolon :: rest) = rest := by
  unfold behindSemicolon
  rw [List.dropWhile_append_of_pos (by simpa using passes), List.dropWhile_cons_of_neg]
  · rfl
  · simpa using closes

/-- The token behind as many operators as the limit allows, and what is behind the
semicolon that is found after it: the rest, unless the token is that semicolon. -/
theorem exists_deep {limit : Nat} {operators middle rest : List Token} {semicolon : Token}
    (arePrefix : ∀ operator ∈ operators, operator.IsPrefix)
    (passes : ∀ token ∈ middle, token.kind ≠ .semicolon)
    (closes : semicolon.kind = .semicolon) (reached : limit ≤ operators.length)
    (inside : limit < (operators ++ middle).length ∨ rest = []) :
    ∃ deep more, operators ++ (middle ++ semicolon :: rest) =
        operators.take limit ++ deep :: more ∧ behindSemicolon more = rest := by
  have splitEq : operators ++ (middle ++ semicolon :: rest) =
      operators.take limit ++ ((operators.drop limit ++ middle) ++ semicolon :: rest) := by
    rw [List.append_assoc, ← List.append_assoc (operators.take limit), List.take_append_drop]
  cases passedEq : operators.drop limit ++ middle with
  | nil =>
      have lengthEq := congrArg List.length passedEq
      simp only [List.length_append, List.length_drop, List.length_nil] at lengthEq
      rw [List.length_append] at inside
      obtain rfl : rest = [] := inside.resolve_left (by omega)
      exact ⟨semicolon, [], by rw [splitEq, passedEq]; rfl, rfl⟩
  | cons deep passed =>
      refine ⟨deep, passed ++ semicolon :: rest, by rw [splitEq, passedEq]; rfl, ?_⟩
      refine behindSemicolon_append (fun token tokenMem => ?_) closes rest
      have inBoth : token ∈ operators.drop limit ++ middle := by
        rw [passedEq]
        exact List.mem_cons_of_mem deep tokenMem
      rcases List.mem_append.mp inBoth with inOperators | inMiddle
      · exact (arePrefix token (List.mem_of_mem_drop inOperators)).kind_ne (by simp) (by simp)
      · exact passes token inMiddle

namespace Parser

variable {limit : Int} {stop : Position}

/-- A statement that is given up ends behind the next semicolon after the current
token, and not at the current token. -/
theorem advance_passSemicolon_skipExpression (token : Token) (more : List Token) (depth : Nat) :
    (⟨⟨token :: more, stop⟩, depth⟩ : Parser).skipExpression.passSemicolon.advance =
      ⟨⟨behindSemicolon more, stop⟩, depth⟩ := by
  induction more generalizing token with
  | nil => rfl
  | cons next more inductionHypothesis =>
      by_cases closes : next.kind = .semicolon
      · let parser : Parser := ⟨⟨token :: next :: more, stop⟩, depth⟩
        have skipped : parser.skipExpression = parser := by
          simp only [parser, skipExpression, TokenStream.skipExpression,
            TokenStream.skipExpression.untilSemicolon, if_pos closes]
        have passed : parser.passSemicolon = parser.advance := if_pos closes
        have behindEq : behindSemicolon (next :: more) = more := by
          simp [behindSemicolon, closes]
        change parser.skipExpression.passSemicolon.advance = _
        rw [skipped, passed, behindEq]
        rfl
      · have skipped : (⟨⟨token :: next :: more, stop⟩, depth⟩ : Parser).skipExpression =
            (⟨⟨next :: more, stop⟩, depth⟩ : Parser).skipExpression := by
          simp only [skipExpression, TokenStream.skipExpression,
            TokenStream.skipExpression.untilSemicolon, if_neg closes]
        have behindEq : behindSemicolon (next :: more) = behindSemicolon more := by
          simp [behindSemicolon, closes]
        rw [skipped, behindEq, inductionHypothesis]

/-- A statement that begins with as many prefix operators as the limit allows is
blamed at the token behind them, and the program goes on behind the next semicolon
after that token. -/
theorem program_tooDeep {operators : List Token} {first : Token}
    (firstEq : operators.head? = some first) (arePrefix : ∀ operator ∈ operators, operator.IsPrefix)
    (reached : (operators.length : Int) = limit) (deep : Token) (more : List Token) :
    (⟨⟨operators ++ deep :: more, stop⟩, 0⟩ : Parser).program (.plain limit) =
      let next := (⟨⟨behindSemicolon more, stop⟩, 0⟩ : Parser).program (.plain limit)
      ⟨⟨.expression first none :: next.program.statements⟩,
        ⟨.tooDeep, deep.span⟩ :: next.faults⟩ := by
  rcases List.head?_eq_some_iff.mp firstEq with ⟨others, operatorsEq⟩
  have isPrefix : first.IsPrefix := arePrefix first (by simp [operatorsEq])
  let place : Parser := ⟨⟨deep :: more, stop⟩, 0⟩
  let parser : Parser := ⟨⟨operators ++ deep :: more, stop⟩, 0⟩
  have currentEq : parser.current = first := by
    simp only [parser, operatorsEq]
    rfl
  have passes : Passes limit 0 operators :=
    ⟨arePrefix, fun _ => by omega⟩
  have ends : Ends limit (0 + operators.length : Nat) place
      (.failed (place.faultHere .tooDeep) place.skipExpression) := .tooDeep (by omega)
  have statementEq : parser.statement (.plain limit) =
      ⟨some (.expression first none), [⟨.tooDeep, deep.span⟩],
        place.skipExpression.passSemicolon⟩ := by
    have notLet : first.kind ≠ .letWord := isPrefix.kind_ne (by simp) (by simp)
    have notReturn : first.kind ≠ .returnWord := isPrefix.kind_ne (by simp) (by simp)
    rw [statement, currentEq, if_neg notLet, if_neg notReturn, expressionStatement, currentEq,
      expression_of_ends passes ends]
    rfl
  have notEof : parser.current.kind ≠ .eof := currentEq ▸ isPrefix.kind_ne (by simp) (by simp)
  have nextEq : place.skipExpression.passSemicolon.advance = ⟨⟨behindSemicolon more, stop⟩, 0⟩ :=
    advance_passSemicolon_skipExpression deep more 0
  change parser.program _ = _
  rw [program_cons _ notEof, statementEq]
  simp only [nextEq]
  rfl

end Parser

/-! ## Texts -/

/-- Whether a text is read as one statement without value that is blamed once, for
the depth at the token after as many as the limit, and from a semicolon on as the
text behind it is read on its own. -/
def ResumesBehind (limit : Nat) (text : List UInt8) (semicolon : Token) : Prop :=
  ∃ first deep, (tokenize text).head? = some first ∧ (tokenize text)[limit]? = some deep ∧
    let alone := (parseWith { maxDepth := limit } (text.drop semicolon.span.stop.offset)).moved
      semicolon.span.stop.relocate
    parseWith { maxDepth := limit } text =
      ⟨⟨.expression first none :: alone.program.statements⟩,
        ⟨.tooDeep, deep.span⟩ :: alone.faults⟩

/-- A text of at least as many prefix operators as the limit allows, then tokens
up to a semicolon, then any others, loses its first statement only: reading
resumes behind the semicolon. What must not be is that the token that is too deep
is the semicolon itself while there are tokens behind it. -/
theorem resumesBehind_of_tooDeep {limit : Nat} {text : List UInt8}
    {operators middle rest : List Token} {semicolon : Token}
    (tokensEq : (tokenize text).dropLast = operators ++ (middle ++ semicolon :: rest))
    (arePrefix : ∀ operator ∈ operators, operator.IsPrefix)
    (passes : ∀ token ∈ middle, token.kind ≠ .semicolon)
    (closes : semicolon.kind = .semicolon) (positive : 1 ≤ limit)
    (reached : limit ≤ operators.length)
    (inside : limit < (operators ++ middle).length ∨ rest = []) :
    ResumesBehind limit text semicolon := by
  have aheadEq : (Cursor.ofBytes text).tokens = operators ++ (middle ++ semicolon :: rest) := by
    rw [← tokenize_dropLast, tokensEq]
  have behindBoth : (TokenStream.ofBytes text).ahead =
      (operators ++ middle) ++ semicolon :: rest :=
    aheadEq.trans (List.append_assoc _ _ _).symm
  have streamEq := TokenStream.ofBytes_behind behindBoth
  have takeLength : (operators.take limit).length = limit := by
    rw [List.length_take, Nat.min_eq_left reached]
  obtain ⟨deep, more, deepEq, behindEq⟩ := exists_deep arePrefix passes closes reached inside
  have splitEq : (Cursor.ofBytes text).tokens = operators.take limit ++ deep :: more :=
    aheadEq.trans deepEq
  obtain ⟨first, firstEq⟩ : ∃ first, (operators.take limit).head? = some first := by
    cases takenEq : operators.take limit with
    | nil =>
        rw [takenEq, List.length_nil] at takeLength
        omega
    | cons first others => exact ⟨first, rfl⟩
  have tokenizeEq : tokenize text =
      operators.take limit ++
        (deep :: more ++ [Token.eof (Cursor.ofBytes text).finish.position]) := by
    rw [tokenize, Cursor.drain, splitEq, List.append_assoc]
  refine ⟨first, deep, ?_, ?_, ?_⟩
  · rw [tokenizeEq, List.head?_append, firstEq]
    rfl
  · rw [tokenizeEq, List.getElem?_append_right (Nat.le_of_eq takeLength), takeLength,
      Nat.sub_self]
    rfl
  · have isPrefix : ∀ operator ∈ operators.take limit, operator.IsPrefix :=
      fun operator operatorMem => arePrefix operator (List.mem_of_mem_take operatorMem)
    have count : ((operators.take limit).length : Int) = limit := by rw [takeLength]
    have parserEq : Parser.ofBytes text =
        ⟨⟨operators.take limit ++ deep :: more, (TokenStream.ofBytes text).stop⟩, 0⟩ := by
      rw [← splitEq]
      rfl
    have aloneEq : (⟨⟨rest, (TokenStream.ofBytes text).stop⟩, 0⟩ : Parser) =
        (Parser.ofBytes (text.drop semicolon.span.stop.offset)).moved
          semicolon.span.stop.relocate :=
      congrArg (fun input => (⟨input, 0⟩ : Parser)) streamEq
    change (Parser.ofBytes text).program (.plain limit) = _
    rw [parserEq, Parser.program_tooDeep firstEq isPrefix count, behindEq, aloneEq,
      Parser.program_moved _ (Rules.plain_unplaced limit)]
    rfl

/-- Two operators under a limit of one: the second one is too deep, and the `let`
behind the semicolon is read. -/
theorem resumesBehind_of_tooDeep_let :
    ResumesBehind 1 "!-x;let y=1".toUTF8.toList
      ⟨.semicolon, ";", ⟨⟨1, 4, 3⟩, ⟨1, 5, 4⟩⟩⟩ :=
  @resumesBehind_of_tooDeep 1 "!-x;let y=1".toUTF8.toList
    ((tokenize "!-x;let y=1".toUTF8.toList).take 2)
    (((tokenize "!-x;let y=1".toUTF8.toList).drop 2).take 1)
    ((tokenize "!-x;let y=1".toUTF8.toList).dropLast.drop 4) _
    (by decide +kernel) (by decide +kernel) (by decide +kernel) rfl (by decide) (by decide +kernel)
    (by decide +kernel)

/-- An operator under a limit of one, before a semicolon: the semicolon is too deep,
and the statement behind it is passed over. Without the last hypothesis, reading
does not always resume behind the semicolon. -/
theorem not_resumesBehind_of_tooDeep_semicolon :
    ¬ ∀ (limit : Nat) (text : List UInt8) (operators middle rest : List Token)
        (semicolon : Token),
      (tokenize text).dropLast = operators ++ (middle ++ semicolon :: rest) →
      (∀ operator ∈ operators, operator.IsPrefix) →
      (∀ token ∈ middle, token.kind ≠ .semicolon) →
      semicolon.kind = .semicolon → 1 ≤ limit → limit ≤ operators.length →
      ResumesBehind limit text semicolon := by
  intro resumes
  let text := "!;x;".toUTF8.toList
  let semicolon : Token := ⟨.semicolon, ";", ⟨⟨1, 2, 1⟩, ⟨1, 3, 2⟩⟩⟩
  obtain ⟨first, deep, _, _, readingEq⟩ := resumes 1 text ((tokenize text).take 1) []
    ((tokenize text).dropLast.drop 2) semicolon (by decide +kernel) (by decide +kernel) (by simp)
    rfl (by decide) (by decide +kernel)
  have countEq := congrArg (fun reading => reading.program.statements.length) readingEq
  have oneRead : (parseWith { maxDepth := 1 } text).program.statements.length = 1 := by
    decide +kernel
  have oneAlone :
      (parseWith { maxDepth := 1 } (text.drop semicolon.span.stop.offset)).program.statements.length
        = 1 := by
    decide +kernel
  simp [oneRead, Reading.moved, Program.moved, oneAlone] at countEq

end PrattSyntax
