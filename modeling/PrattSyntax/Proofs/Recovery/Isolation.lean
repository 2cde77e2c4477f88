import PrattSyntax.Proofs.Grammar.Ending
import PrattSyntax.Proofs.Lexer.Concatenation
import PrattSyntax.Proofs.Parser.Progress
import PrattSyntax.Proofs.Places.Reading

/-!
# Texts in sequence

A text that ends with a semicolon is read as if nothing were behind it, whatever
is wrong inside of it: no statement goes past the last semicolon, and none looks
at what is behind it except for another semicolon. Two texts in sequence are
therefore read as the one and then the other. The search for a semicolon behind an
expression that is too deep is the exception, and it is left out here.
-/

namespace PrattSyntax

/-- Whether a list of tokens ends with a semicolon. -/
def Closed (tokens : List Token) : Prop :=
  ∃ token, tokens.getLast? = some token ∧ token.kind = .semicolon

instance (tokens : List Token) : Decidable (Closed tokens) :=
  inferInstanceAs (Decidable (∃ token ∈ tokens.getLast?, token.kind = .semicolon))

instance (tokens : List Token) : Decidable (Fresh tokens) :=
  inferInstanceAs (Decidable (∀ next ∈ tokens.head?, next.kind ≠ .semicolon))

theorem Closed.ne_nil {tokens : List Token} (closed : Closed tokens) : tokens ≠ [] := by
  rintro rfl
  rcases closed with ⟨token, isLast, _⟩
  contradiction

theorem closed_cons_iff {token : Token} {rest : List Token} :
    Closed (token :: rest) ↔ (rest = [] ∧ token.kind = .semicolon) ∨ Closed rest := by
  cases rest with
  | nil =>
      constructor
      · rintro ⟨last, isLast, closes⟩
        obtain rfl : token = last := by simpa using isLast
        exact .inl ⟨rfl, closes⟩
      · rintro (⟨_, closes⟩ | closed)
        · exact ⟨token, rfl, closes⟩
        · exact absurd rfl closed.ne_nil
  | cons next rest => simp [Closed]

/-- Tokens that are no semicolons do not end what is closed. -/
theorem Closed.of_append {front rest : List Token} (closed : Closed (front ++ rest))
    (others : ∀ token ∈ front, token.kind ≠ .semicolon) : Closed rest := by
  induction front with
  | nil => exact closed
  | cons token front inductionHypothesis =>
      rcases List.forall_mem_cons.mp others with ⟨notClosing, frontOthers⟩
      rcases closed_cons_iff.mp closed with ⟨_, closes⟩ | frontClosed
      · exact absurd closes notClosing
      · exact inductionHypothesis frontClosed frontOthers

namespace Parser

/-! ## More tokens behind the last one -/

/-- The parser with other tokens behind those ahead, and another end. -/
def extended (more : List Token) (stop : Position) (parser : Parser) : Parser :=
  ⟨⟨parser.input.ahead ++ more, stop⟩, parser.depth⟩

section

variable {more : List Token} {stop : Position} {parser : Parser}

theorem current_extended (inside : parser.input.ahead ≠ []) :
    (parser.extended more stop).current = parser.current := by
  rcases parser with ⟨⟨_ | ⟨token, rest⟩, oldStop⟩, depth⟩
  · exact absurd rfl inside
  · rfl

theorem advance_extended (inside : parser.input.ahead ≠ []) :
    (parser.extended more stop).advance = parser.advance.extended more stop := by
  rcases parser with ⟨⟨_ | ⟨token, rest⟩, oldStop⟩, depth⟩
  · exact absurd rfl inside
  · rfl

theorem peek_extended (inside : parser.advance.input.ahead ≠ []) :
    (parser.extended more stop).peek = parser.peek := by
  have here : parser.input.ahead ≠ [] := by
    intro aheadEq
    simp [advance, TokenStream.advance, aheadEq] at inside
  rw [← current_advance, advance_extended here, current_extended inside, current_advance]

/-- A parser in front of closed tokens that is not at a semicolon has closed tokens
behind the current one. -/
theorem closed_advance (closed : Closed parser.input.ahead)
    (notClosing : parser.current.kind ≠ .semicolon) : Closed parser.advance.input.ahead := by
  rcases parser with ⟨⟨_ | ⟨token, rest⟩, oldStop⟩, depth⟩
  · exact absurd rfl closed.ne_nil
  · rcases closed_cons_iff.mp closed with ⟨_, closes⟩ | restClosed
    · exact absurd closes notClosing
    · exact restClosed

theorem passSemicolon_extended (closed : Closed parser.input.ahead) (fresh : Fresh more) :
    (parser.extended more stop).passSemicolon = parser.passSemicolon.extended more stop ∧
      Closed parser.passSemicolon.input.ahead := by
  rcases parser with ⟨⟨_ | ⟨token, rest⟩, oldStop⟩, depth⟩
  · exact absurd rfl closed.ne_nil
  · rcases closed_cons_iff.mp closed with ⟨rfl, closes⟩ | restClosed
    · exact ⟨if_neg (peek_ne_semicolon token fresh depth), closed⟩
    · let parser : Parser := ⟨⟨token :: rest, oldStop⟩, depth⟩
      have behind : parser.advance.input.ahead ≠ [] := restClosed.ne_nil
      have peekEq : (parser.extended more stop).peek = parser.peek := peek_extended behind
      have advanceEq : (parser.extended more stop).advance = parser.advance.extended more stop :=
        advance_extended closed.ne_nil
      change (parser.extended more stop).passSemicolon = parser.passSemicolon.extended more stop ∧
        Closed parser.passSemicolon.input.ahead
      unfold passSemicolon
      rw [peekEq]
      by_cases closes : parser.peek.kind = .semicolon
      · rw [if_pos closes, if_pos closes]
        exact ⟨advanceEq, restClosed⟩
      · rw [if_neg closes, if_neg closes]
        exact ⟨rfl, closed⟩

theorem synchronize_extended (closed : Closed parser.input.ahead) :
    (parser.extended more stop).synchronize = parser.synchronize.extended more stop ∧
      Closed parser.synchronize.input.ahead := by
  suffices onTokens : ∀ tokens : List Token, Closed tokens →
      TokenStream.synchronize.untilBoundary (tokens ++ more) =
          TokenStream.synchronize.untilBoundary tokens ++ more ∧
        Closed (TokenStream.synchronize.untilBoundary tokens) by
    rcases onTokens _ closed with ⟨sameTokens, stillClosed⟩
    exact ⟨congrArg (fun ahead => (⟨⟨ahead, stop⟩, parser.depth⟩ : Parser)) sameTokens,
      stillClosed⟩
  intro tokens
  induction tokens with
  | nil => exact fun closed => absurd rfl closed.ne_nil
  | cons token rest inductionHypothesis =>
      intro closed
      rw [List.cons_append, TokenStream.synchronize.untilBoundary,
        TokenStream.synchronize.untilBoundary]
      rcases closed_cons_iff.mp closed with ⟨rfl, closes⟩ | restClosed
      · rw [if_pos (.inl closes), if_pos (.inl closes)]
        exact ⟨rfl, closed⟩
      · have headEq : (rest ++ more).head? = rest.head? := by
          cases rest with
          | nil => exact absurd rfl restClosed.ne_nil
          | cons next rest => rfl
        rw [headEq]
        split
        · exact ⟨rfl, closed⟩
        · exact inductionHypothesis restClosed

end

/-! ## Readings that stay inside -/

/-- A reading that does not depend on what is behind the last semicolon, and that
does not go past it. -/
structure Isolated {α : Type} (more : List Token) (stop : Position)
    (outcome longer : Outcome α) : Prop where
  same : longer = outcome.move (extended more stop)
  closed : Closed outcome.parser.input.ahead

/-- Whether no fault is about depth. -/
def ShallowFaults (faults : List Fault) : Prop := ∀ fault ∈ faults, fault.cause ≠ .tooDeep

section

variable {limit : Int} {more : List Token} {stop : Position} {parser : Parser}

/-- An expression that ends at a token, and not because of its depth, ends alike
whatever is behind that token. -/
theorem Ends.extended {nested : Nat} {place : Parser} {outcome : Outcome Expr}
    (ends : Ends limit nested place outcome) (inside : place.input.ahead ≠ [])
    (shallow : ShallowFaults outcome.faults) :
    Ends limit nested (place.extended more stop)
        (outcome.move (Parser.extended more stop)) ∧
      outcome.parser = place := by
  have currentEq : (place.extended more stop).current = place.current := current_extended inside
  have faultEq : ∀ cause, (place.extended more stop).faultHere cause = place.faultHere cause := by
    intro cause
    rw [faultHere, currentEq, faultHere]
  cases ends with
  | tooDeep deep => exact absurd rfl (shallow _ List.mem_cons_self)
  | noOpening within closed =>
      refine ⟨?_, rfl⟩
      rw [Outcome.failed, ← faultEq, ← currentEq]
      exact .noOpening within (currentEq ▸ closed)
  | badInteger within isInt worthless =>
      refine ⟨?_, rfl⟩
      rw [Outcome.failed, ← faultEq, ← currentEq]
      exact .badInteger within (currentEq ▸ isInt) (currentEq ▸ worthless)
  | number within isInt valueEq =>
      refine ⟨?_, rfl⟩
      rw [← currentEq]
      exact .number within (currentEq ▸ isInt) (currentEq ▸ valueEq)
  | name within isName =>
      refine ⟨?_, rfl⟩
      rw [← currentEq]
      exact .name within (currentEq ▸ isName)

theorem expression_isolated (closed : Closed parser.input.ahead) (outermost : parser.depth = 0)
    (bound : Int)
    (shallow : ShallowFaults (parser.expression (.plain limit) bound).faults) :
    Isolated more stop (parser.expression (.plain limit) bound)
      ((parser.extended more stop).expression (.plain limit) bound) := by
  rcases parser with ⟨⟨ahead, oldStop⟩, depth⟩
  obtain rfl : depth = 0 := outermost
  obtain ⟨operators, rest, outcome, rfl, passes, ends, expressionEq⟩ :=
    exists_expression_ends limit ahead oldStop bound
  have restClosed : Closed rest :=
    closed.of_append fun operator operatorMem =>
      (passes.arePrefix operator operatorMem).kind_ne (by simp) (by simp)
  rw [expressionEq] at shallow ⊢
  obtain ⟨longerEnds, placeEq⟩ : Ends limit operators.length ⟨⟨rest ++ more, stop⟩, 0⟩
      (outcome.move (extended more stop)) ∧ outcome.parser = ⟨⟨rest, oldStop⟩, 0⟩ :=
    ends.extended restClosed.ne_nil shallow
  rw [← Nat.zero_add operators.length] at longerEnds
  have longerEq := expression_of_ends passes longerEnds bound
  constructor
  · rw [extended, List.append_assoc, longerEq]
    rfl
  · change Closed outcome.parser.input.ahead
    rw [placeEq]
    exact restClosed

theorem finishStatement_isolated (fresh : Fresh more) (build : Option Expr → Statement)
    {value longer : Outcome Expr} (isolated : Isolated more stop value longer) :
    Isolated more stop (finishStatement build value) (finishStatement build longer) := by
  rcases @passSemicolon_extended more stop _ isolated.closed fresh with
    ⟨passEq, closed⟩
  refine ⟨?_, closed⟩
  rw [isolated.same]
  simp only [finishStatement, Outcome.move, passEq]

/-! ## Statements -/

theorem expect_extended (closed : Closed parser.advance.input.ahead) (required : TokenKind) :
    (parser.extended more stop).expect required =
      (parser.expect required).map (Parser.extended more stop) := by
  have inside : parser.input.ahead ≠ [] := by
    intro aheadEq
    exact closed.ne_nil (by simp [advance, TokenStream.advance, aheadEq])
  have peekEq : (parser.extended more stop).peek = parser.peek := peek_extended closed.ne_nil
  unfold expect
  rw [peekEq, unexpectedPeek, peekEq]
  by_cases found : parser.peek.kind = required
  · rw [if_pos found, if_pos found, advance_extended inside]
    rfl
  · rw [if_neg found, if_neg found]
    rfl

/-- Behind an expected token that is no semicolon, the tokens are still closed. -/
theorem closed_of_expect {required : TokenKind} {behind : Parser}
    (closed : Closed parser.advance.input.ahead) (notClosing : required ≠ .semicolon)
    (taken : parser.expect required = .ok behind) :
    Closed behind.input.ahead ∧ Closed behind.advance.input.ahead ∧
      behind.depth = parser.depth := by
  obtain ⟨rfl, found⟩ := eq_advance_of_expect taken
  exact ⟨closed, closed_advance closed (by rw [found]; exact notClosing), rfl⟩

theorem letStatement_isolated (fresh : Fresh more) (closed : Closed parser.input.ahead)
    (opens : parser.current.kind = .letWord) (outermost : parser.depth = 0)
    (shallow : ShallowFaults (parser.letStatement (.plain limit)).faults) :
    Isolated more stop (parser.letStatement (.plain limit))
      ((parser.extended more stop).letStatement (.plain limit)) := by
  have closedBehind : Closed parser.advance.input.ahead :=
    closed_advance closed (by simp [opens])
  unfold letStatement at shallow ⊢
  rw [expect_extended closedBehind, current_extended closed.ne_nil]
  cases nameTaken : parser.expect .ident with
  | error fault =>
      rcases @synchronize_extended more stop _ closed with ⟨sameParser, still⟩
      refine ⟨?_, still⟩
      simp only [Except.map, sameParser]
      rfl
  | ok named =>
      obtain ⟨namedClosed, namedBehind, namedDepth⟩ :=
        closed_of_expect closedBehind (by simp) nameTaken
      simp only [nameTaken] at shallow
      simp only [Except.map]
      rw [expect_extended namedBehind, current_extended namedClosed.ne_nil]
      cases signTaken : named.expect .assign with
      | error fault =>
          rcases @synchronize_extended more stop _ namedClosed with
            ⟨sameParser, still⟩
          refine ⟨?_, still⟩
          simp only [Except.map, sameParser]
          rfl
      | ok assigned =>
          obtain ⟨assignedClosed, assignedBehind, assignedDepth⟩ :=
            closed_of_expect namedBehind (by simp) signTaken
          simp only [signTaken] at shallow
          have outermostValue : assigned.advance.depth = 0 :=
            assignedDepth.trans (namedDepth.trans outermost)
          simp only [Except.map, advance_extended assignedClosed.ne_nil]
          exact finishStatement_isolated fresh _
            (expression_isolated assignedBehind outermostValue Precedence.lowest.rank shallow)

theorem returnStatement_isolated (fresh : Fresh more) (closed : Closed parser.input.ahead)
    (opens : parser.current.kind = .returnWord) (outermost : parser.depth = 0)
    (shallow : ShallowFaults (parser.returnStatement (.plain limit)).faults) :
    Isolated more stop (parser.returnStatement (.plain limit))
      ((parser.extended more stop).returnStatement (.plain limit)) := by
  have closedBehind : Closed parser.advance.input.ahead :=
    closed_advance closed (by simp [opens])
  unfold returnStatement at shallow ⊢
  rw [peek_extended closedBehind.ne_nil, current_extended closed.ne_nil,
    advance_extended closed.ne_nil]
  split
  · exact ⟨rfl, closedBehind⟩
  · next notClosed =>
      rw [if_neg notClosed] at shallow
      split
      · exact ⟨rfl, closed⟩
      · next notEnded =>
          rw [if_neg notEnded] at shallow
          exact finishStatement_isolated fresh _
            (expression_isolated closedBehind outermost Precedence.lowest.rank shallow)

/-- A statement in front of closed tokens depends on nothing behind them. -/
theorem statement_isolated (fresh : Fresh more) (closed : Closed parser.input.ahead)
    (outermost : parser.depth = 0)
    (shallow : ShallowFaults (parser.statement (.plain limit)).faults) :
    Isolated more stop (parser.statement (.plain limit))
      ((parser.extended more stop).statement (.plain limit)) := by
  unfold statement at shallow ⊢
  rw [current_extended closed.ne_nil]
  split
  · next isLet =>
      rw [if_pos isLet] at shallow
      exact letStatement_isolated fresh closed isLet outermost shallow
  · next notLet =>
      rw [if_neg notLet] at shallow
      split
      · next isReturn =>
          rw [if_pos isReturn] at shallow
          exact returnStatement_isolated fresh closed isReturn outermost shallow
      · next notReturn =>
          rw [if_neg notReturn] at shallow
          unfold expressionStatement at shallow ⊢
          rw [current_extended closed.ne_nil]
          exact finishStatement_isolated fresh _
            (expression_isolated closed outermost Precedence.lowest.rank shallow)

/-! ## Programs -/

/-- A program in front of closed tokens is read to their end, and then the program
behind them. -/
theorem program_extended (fresh : Fresh more) (closed : Closed parser.input.ahead)
    (outermost : parser.depth = 0) (notEof : ∀ token ∈ parser.input.ahead, token.kind ≠ .eof)
    (shallow : ShallowFaults (parser.program (.plain limit)).faults) :
    (parser.extended more stop).program (.plain limit) =
      let next := (⟨⟨more, stop⟩, 0⟩ : Parser).program (.plain limit)
      ⟨⟨(parser.program (.plain limit)).program.statements ++ next.program.statements⟩,
        (parser.program (.plain limit)).faults ++ next.faults⟩ := by
  induction countEq : parser.remaining using Nat.strong_induction_on generalizing parser with
  | _ count inductionHypothesis =>
      have currentEq : (parser.extended more stop).current = parser.current :=
        current_extended closed.ne_nil
      have notEnd : parser.current.kind ≠ .eof := notEof _ (current_mem closed.ne_nil)
      rw [program_cons _ notEnd] at shallow
      rcases List.forall_mem_append.mp shallow with ⟨shallowHere, shallowBehind⟩
      have isolated : Isolated more stop (parser.statement (.plain limit))
          ((parser.extended more stop).statement (.plain limit)) :=
        statement_isolated fresh closed outermost shallowHere
      have follows := parser.follows_statement (.plain limit)
      have fewer := parser.statement_remaining_le (.plain limit)
      have behindOutermost := follows.depth.trans outermost
      have behindClosed := isolated.closed
      rw [program_cons _ notEnd, program_cons _ (currentEq ▸ notEnd), isolated.same]
      simp only [Outcome.move]
      generalize parser.statement (.plain limit) = outcome at *
      rcases outcome with ⟨result, faults, ⟨⟨_ | ⟨token, rest⟩, behindStop⟩, depth⟩⟩
      · exact absurd rfl behindClosed.ne_nil
      · obtain rfl : depth = 0 := behindOutermost
        rcases closed_cons_iff.mp behindClosed with ⟨rfl, _⟩ | restClosed
        · have spent : (⟨⟨[token], behindStop⟩, 0⟩ : Parser).advance = ⟨⟨[], behindStop⟩, 0⟩ := rfl
          have next : (extended more stop ⟨⟨[token], behindStop⟩, 0⟩).advance =
              ⟨⟨more, stop⟩, 0⟩ := rfl
          simp only [spent, next, program_nil, List.append_nil]
        · have restFewer : rest.length < count := by
            rw [← countEq]
            exact fewer
          have restNotEof : ∀ other ∈ rest, other.kind ≠ .eof := fun other otherMem =>
            notEof other (follows.ahead.subset (List.mem_cons_of_mem token otherMem))
          have behindEq := @inductionHypothesis _ restFewer ⟨⟨rest, behindStop⟩, 0⟩ restClosed
            rfl restNotEof shallowBehind rfl
          have next : (extended more stop ⟨⟨token :: rest, behindStop⟩, 0⟩).advance =
              extended more stop ⟨⟨rest, behindStop⟩, 0⟩ := rfl
          have spent : (⟨⟨token :: rest, behindStop⟩, 0⟩ : Parser).advance =
              ⟨⟨rest, behindStop⟩, 0⟩ := rfl
          simp only [next, spent, behindEq, List.append_assoc]

end

end Parser

/-! ## Texts -/

/-- Behind a text that ends with a semicolon, every text is read on its own. -/
theorem Closed.separates {front : List UInt8} (closed : Closed (Cursor.ofBytes front).tokens)
    (back : List UInt8) : Separates front back := by
  rcases closed with ⟨token, isLast, closes⟩
  obtain ⟨before, gap, (frontEq : front = _), blank⟩ := Cursor.exists_semicolon isLast closes
  rw [frontEq]
  exact separates_of_semicolon blank before back

theorem Fresh.of_tokenize {text : List UInt8} (fresh : Fresh (tokenize text)) (origin : Position) :
    Fresh ((TokenStream.ofBytes text).moved origin.relocate).ahead := by
  intro moved isFirst
  obtain ⟨token, tokenFirst, rfl⟩ : ∃ token, (Cursor.ofBytes text).tokens.head? = some token ∧
      token.moved origin.relocate = moved :=
    Option.map_eq_some_iff.mp (List.head?_map.symm.trans isFirst)
  exact fresh token (by rw [tokenize, Cursor.drain, List.head?_append, tokenFirst]; rfl)

/-- A text whose last token is a semicolon and in which nothing is too deep is read
on its own, whatever else is wrong in it: with a text behind it that does not begin
with a semicolon, the reading is that of the first text and then that of the
second one, at the place where the first one ends. -/
theorem parseWith_append {limit : Int} {front back : List UInt8}
    (closed : Closed (tokenize front).dropLast) (fresh : Fresh (tokenize back))
    (shallow : ∀ fault ∈ (parseWith { maxDepth := limit } front).faults,
      fault.cause ≠ .tooDeep) :
    let behind := (parseWith { maxDepth := limit } back).moved
      (Position.start.after front).relocate
    parseWith { maxDepth := limit } (front ++ back) =
      ⟨⟨(parseWith { maxDepth := limit } front).program.statements ++
          behind.program.statements⟩,
        (parseWith { maxDepth := limit } front).faults ++ behind.faults⟩ := by
  rw [tokenize_dropLast] at closed
  let behind := (TokenStream.ofBytes back).moved (Position.start.after front).relocate
  have parserEq : Parser.ofBytes (front ++ back) =
      (Parser.ofBytes front).extended behind.ahead behind.stop :=
    congrArg (fun input => (⟨input, 0⟩ : Parser))
      (TokenStream.ofBytes_append (closed.separates back))
  have notEof : ∀ token ∈ (Parser.ofBytes front).input.ahead, token.kind ≠ .eof :=
    fun token tokenMem => (lexical_of_mem_tokens front token tokenMem).notEof
  have behindEq : (⟨behind, 0⟩ : Parser).program (.plain limit) =
      ((Parser.ofBytes back).program (.plain limit)).moved (Position.start.after front).relocate :=
    Parser.program_moved _ (Rules.plain_unplaced limit) (Parser.ofBytes back)
  change (Parser.ofBytes (front ++ back)).program (.plain limit) = _
  rw [parserEq, Parser.program_extended (fresh.of_tokenize _) closed rfl notEof shallow]
  exact congrArg
    (fun next : Reading => (⟨⟨_ ++ next.program.statements⟩, _ ++ next.faults⟩ : Reading)) behindEq

/-- A `let` without a name and an operator without an operand before a second line
with a fault of its own. -/
theorem parseWith_append_twoLines :
    (parseWith { maxDepth := 256 }
        ("let 5;\n!;".toUTF8.toList ++ " x @".toUTF8.toList)).faults =
      (parseWith { maxDepth := 256 } "let 5;\n!;".toUTF8.toList).faults ++
        ((parseWith { maxDepth := 256 } " x @".toUTF8.toList).moved
          (Position.relocate ⟨2, 3, 9⟩)).faults := by
  have placeEq : Position.start.after "let 5;\n!;".toUTF8.toList = ⟨2, 3, 9⟩ := by decide +kernel
  rw [← placeEq]
  exact congrArg Reading.faults
    (@parseWith_append 256 "let 5;\n!;".toUTF8.toList " x @".toUTF8.toList
      (by decide +kernel) (by decide +kernel) (by decide +kernel))

end PrattSyntax
