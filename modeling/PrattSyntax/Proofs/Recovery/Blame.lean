import PrattSyntax.Proofs.Grammar.Ending
import PrattSyntax.Proofs.Parser.Progress
import PrattSyntax.Proofs.Recovery.Wording

/-!
# Blame

A fault blames one token, what it says is true of that token, and no token is
blamed twice: the faults of a program come in the order of their tokens. A parser
that blamed a token goes on behind it, except in front of a word that opens a
statement, which is then read as one and not blamed again.

A token is told by the number of tokens behind it, which is the number of tokens
ahead of the parser that stands there.
-/

namespace PrattSyntax

/-! ## What is true of a token -/

/-- What a `let` requires behind the tokens read so far: a name behind its word, and
`=` behind the name. -/
inductive LetRequires : List Token → TokenKind → Prop
  | name {earlier : List Token} {word : Token} (isLet : word.kind = .letWord) :
      LetRequires (earlier ++ [word]) .ident
  | sign {earlier : List Token} {word name : Token} (isLet : word.kind = .letWord)
      (isName : name.kind = .ident) : LetRequires (earlier ++ [word, name]) .assign

/-- Whether a cause is true of a token that has others before it. -/
def Cause.Holds (limit : Int) (before : List Token) (token : Token) : Cause → Prop
  | .unexpected required found =>
      token.kind = found ∧ found ≠ required ∧ LetRequires before required
  | .noOpening kind => token.kind = kind ∧ kind ∉ [TokenKind.ident, .int, .bang, .minus]
  | .badInteger literal =>
      token.kind = .int ∧ token.literal = literal ∧
        (4300 < literal.length ∨ 0x7fffffffffffffff < IntegerLiteral.decimal literal.toList)
  | .tooDeep =>
      ∃ earlier operators, before = earlier ++ operators ∧
        operators.length = limit.toNat ∧ ∀ operator ∈ operators, operator.IsPrefix

/-- Whether a fault blames the token that has `count` others behind it, and says
the truth about it. -/
def Fault.Blames (limit : Int) (tokens : List Token) (count : Nat) (fault : Fault) : Prop :=
  ∃ before token behind, tokens = before ++ token :: behind ∧ behind.length = count ∧
    fault.span = token.span ∧ fault.cause.Holds limit before token

/-- Of two tokens, the one with fewer others behind it comes later. -/
theorem Fault.Blames.start_lt {limit : Int} {tokens : List Token} {count later : Nat}
    {first second : Fault} (firstBlames : first.Blames limit tokens count)
    (secondBlames : second.Blames limit tokens later) (less : later < count)
    (ordered : tokens.Pairwise fun earlier other =>
      earlier.span.start.offset < other.span.start.offset) :
    first.span.start.offset < second.span.start.offset := by
  obtain ⟨before, token, behind, rfl, behindLength, firstSpan, _⟩ := firstBlames
  obtain ⟨otherBefore, other, otherBehind, splitEq, otherLength, secondSpan, _⟩ := secondBlames
  have suffix : other :: otherBehind <:+ before ++ [token] ++ behind := by
    rw [List.append_assoc, List.singleton_append, splitEq]
    exact List.suffix_append _ _
  have shorter : (other :: otherBehind).length ≤ behind.length := by
    rw [List.length_cons]
    omega
  have inside : other :: otherBehind <:+ behind :=
    List.suffix_of_suffix_length_le suffix (List.suffix_append _ _) shorter
  have otherMem : other ∈ behind := inside.subset List.mem_cons_self
  have tokenOrdered := (List.pairwise_append.mp ordered).2.1
  rw [firstSpan, secondSpan]
  exact (List.pairwise_cons.mp tokenOrdered).1 other otherMem

theorem Opening.kind_notMem_of_ofKind?_eq_none {kind : TokenKind} (closed : ofKind? kind = none) :
    kind ∉ [TokenKind.ident, .int, .bang, .minus] := by
  cases kind <;> first | decide | contradiction

/-- A run of digits without a value is too long or too large. -/
theorem IntegerLiteral.tooLong_or_tooLarge {token : Token} (lexical : token.Lexical)
    (isInt : token.kind = .int) (worthless : value? token.literal = none) :
    4300 < token.literal.length ∨ 0x7fffffffffffffff < decimal token.literal.toList := by
  by_contra within
  rw [not_or, Nat.not_lt, Nat.not_lt] at within
  have isOperand : token.IsOperand := .inr ⟨isInt, within.1, within.2⟩
  rw [value?_eq_some_decimal lexical isInt isOperand] at worthless
  contradiction

namespace Parser

/-! ## Places in a list of tokens -/

/-- What is before the next token, if `before` is before the current one. -/
theorem append_advance_window {parser : Parser} {before tokens : List Token}
    (tokensEq : before ++ parser.window = tokens) (ahead : 0 < parser.remaining) :
    (before ++ [parser.current]) ++ parser.advance.window = tokens := by
  rw [← tokensEq, window_eq_cons ahead, List.append_assoc, List.singleton_append]

theorem advance_remaining_lt {parser : Parser} (ahead : 0 < parser.remaining) :
    parser.advance.remaining < parser.remaining := by
  rw [advance_remaining]
  omega

variable {limit : Int} {tokens : List Token}

/-- Whether a parser stands at one of a list of tokens, outside of all expressions. -/
structure StandsAmong (tokens : List Token) (parser : Parser) : Prop where
  inside : parser.window <:+ tokens
  outermost : parser.depth = 0
  lexical : ∀ token ∈ parser.input.ahead, token.Lexical

theorem StandsAmong.next {parser next : Parser} (stands : StandsAmong tokens parser)
    (follows : parser.Follows next) : StandsAmong tokens next :=
  ⟨follows.window.trans stands.inside, follows.depth.trans stands.outermost,
    fun token tokenMem => stands.lexical token (follows.ahead.subset tokenMem)⟩

/-- A fault at the current token of a parser. -/
theorem blames_current {parser : Parser} {before : List Token}
    (tokensEq : before ++ parser.window = tokens) {fault : Fault}
    (spanEq : fault.span = parser.current.span)
    (holds : fault.cause.Holds limit before parser.current) :
    fault.Blames limit tokens parser.remaining := by
  obtain ⟨behind, windowEq, lengthEq⟩ := parser.exists_window_cons
  exact ⟨before, parser.current, behind, by rw [← tokensEq, windowEq], lengthEq, spanEq, holds⟩

/-! ## What can still be blamed -/

/-- Whether a parser can still blame the token that has `count` others behind it. At
the end nothing is blamed any more, and a word that opens a statement is never
blamed by the statement it opens. -/
structure Reaches (parser : Parser) (count : Nat) : Prop where
  ahead : 0 < parser.remaining
  le : count ≤ parser.remaining
  lt : TokenStream.synchronize.opensStatement parser.current → count < parser.remaining

/-- Whether all that a parser can still blame is behind a token. -/
def IsPast (parser : Parser) (count : Nat) : Prop := ∀ later, parser.Reaches later → later < count

theorem reaches_of_lt {parser : Parser} {count : Nat} (less : count < parser.remaining) :
    parser.Reaches count :=
  ⟨Nat.zero_lt_of_lt less, Nat.le_of_lt less, fun _ => less⟩

/-- Behind a token that was blamed. -/
theorem isPast_advance {place parser : Parser} (follows : place.Follows parser) :
    parser.advance.IsPast place.remaining := by
  intro later reaches
  have fewer := follows.remaining_le
  have ahead := reaches.ahead
  have le := reaches.le
  rw [advance_remaining] at ahead le
  omega

/-- Where a statement is given up, reading goes on behind the token that is not the
one required, or with that token if it opens a statement. -/
theorem isPast_synchronize {parser : Parser} (notClosing : parser.current.kind ≠ .semicolon)
    (ahead : 0 < parser.remaining) :
    parser.synchronize.advance.IsPast parser.advance.remaining := by
  rcases parser with ⟨⟨_ | ⟨token, rest⟩, stop⟩, depth⟩
  · contradiction
  · let parser : Parser := ⟨⟨token :: rest, stop⟩, depth⟩
    change parser.synchronize.advance.IsPast parser.advance.remaining
    by_cases opens : rest.head?.any TokenStream.synchronize.opensStatement
    · have stays : parser.synchronize = parser := by
        simp only [parser, synchronize, TokenStream.synchronize,
          TokenStream.synchronize.untilBoundary, if_pos (Or.inr opens)]
      rw [stays]
      refine fun later reaches => reaches.lt ?_
      rcases rest with _ | ⟨next, rest⟩
      · contradiction
      · exact opens
    · have goesOn : parser.synchronize = parser.advance.synchronize := by
        have notHere : ¬ (token.kind = .semicolon ∨
            rest.head?.any TokenStream.synchronize.opensStatement = true) := by
          rintro (closes | opensNext)
          · exact notClosing closes
          · exact opens opensNext
        simp only [parser, synchronize, TokenStream.synchronize,
          TokenStream.synchronize.untilBoundary, if_neg notHere]
        rfl
      rw [goesOn]
      exact isPast_advance parser.advance.follows_synchronize

/-! ## Expressions -/

/-- A fault at the place where an expression ends is true of the token there. -/
theorem Ends.blames {operators before : List Token} {place : Parser} {outcome : Outcome Expr}
    (ends : Ends limit operators.length place outcome) (passes : Passes limit 0 operators)
    (lexical : ∀ token ∈ place.input.ahead, token.Lexical)
    (tokensEq : (before ++ operators) ++ place.window = tokens) :
    place.Follows outcome.parser ∧
      ∀ fault ∈ outcome.faults, fault.Blames limit tokens place.remaining := by
  cases ends with
  | tooDeep deep =>
      refine ⟨place.follows_skipExpression, List.forall_mem_singleton.mpr ?_⟩
      have lengthEq : operators.length = limit.toNat := by
        rcases operators with _ | ⟨operator, operators⟩
        · rw [List.length_nil] at deep ⊢
          omega
        · have within := passes.within (List.cons_ne_nil _ _)
          omega
      exact blames_current tokensEq rfl ⟨before, operators, rfl, lengthEq, passes.arePrefix⟩
  | noOpening shallow closed =>
      refine ⟨.refl place, List.forall_mem_singleton.mpr ?_⟩
      exact blames_current tokensEq rfl ⟨rfl, Opening.kind_notMem_of_ofKind?_eq_none closed⟩
  | badInteger shallow isInt worthless =>
      refine ⟨.refl place, List.forall_mem_singleton.mpr ?_⟩
      have ahead : 0 < place.remaining := remaining_pos_of_current (by simp [isInt])
      have inside := current_mem (List.length_pos_iff.mp ahead)
      exact blames_current tokensEq rfl
        ⟨isInt, rfl, IntegerLiteral.tooLong_or_tooLarge (lexical _ inside) isInt worthless⟩
  | number shallow isInt valueEq => exact ⟨.refl place, by simp [Outcome.done]⟩
  | name shallow isName => exact ⟨.refl place, by simp [Outcome.done]⟩

/-- A fault of an expression blames a token of it, and what is read behind the
expression is behind that token. -/
theorem expression_blames {parser : Parser} (stands : StandsAmong tokens parser) (bound : Int)
    {fault : Fault} (faultMem : fault ∈ (parser.expression (.plain limit) bound).faults) :
    ∃ place, parser.Follows place ∧
      place.Follows (parser.expression (.plain limit) bound).parser ∧
      fault.Blames limit tokens place.remaining := by
  rcases parser with ⟨⟨ahead, stop⟩, depth⟩
  obtain rfl : depth = 0 := stands.outermost
  rcases stands.inside with ⟨before, tokensEq⟩
  obtain ⟨operators, rest, outcome, rfl, passes, ends, expressionEq⟩ :=
    exists_expression_ends limit ahead stop bound
  let place : Parser := ⟨⟨rest, stop⟩, 0⟩
  have follows : Follows ⟨⟨operators ++ rest, stop⟩, 0⟩ place :=
    ⟨List.suffix_append _ _, rfl, rfl⟩
  have placeEq : (before ++ operators) ++ place.window = tokens := by
    simp only [← tokensEq, window, place, List.append_assoc]
    rfl
  rcases ends.blames passes (stands.next follows).lexical placeEq with ⟨goesOn, blames⟩
  rw [expressionEq] at faultMem ⊢
  exact ⟨place, follows, goesOn, blames fault faultMem⟩

/-! ## Statements -/

/-- Whether a fault blames a token that one parser can still blame, and another one
can no longer. -/
def BlamesBetween (limit : Int) (tokens : List Token) (parser next : Parser) (fault : Fault) :
    Prop :=
  ∃ count, fault.Blames limit tokens count ∧ parser.Reaches count ∧ next.IsPast count

theorem finishStatement_blames {parser start : Parser} (stands : StandsAmong tokens start)
    (reaches : ∀ count, count ≤ start.remaining → parser.Reaches count)
    (build : Option Expr → Statement) (bound : Int) :
    ∀ fault ∈ (finishStatement build (start.expression (.plain limit) bound)).faults,
      BlamesBetween limit tokens parser
        (finishStatement build (start.expression (.plain limit) bound)).parser.advance fault := by
  intro fault faultMem
  obtain ⟨place, follows, goesOn, blames⟩ := expression_blames stands bound faultMem
  exact ⟨place.remaining, blames, reaches _ follows.remaining_le,
    isPast_advance (goesOn.trans (follows_passSemicolon _))⟩

/-- A required token that is not there: the token in its place is blamed, and the
statement is given up. -/
theorem expect_blames {parser named : Parser} {before : List Token}
    (tokensEq : before ++ named.window = tokens) (less : named.advance.remaining < parser.remaining)
    (ahead : 0 < named.remaining) (notClosing : named.current.kind ≠ .semicolon)
    {required : TokenKind} (requires : LetRequires (before ++ [named.current]) required)
    {fault : Fault} (missed : named.expect required = .error fault) :
    BlamesBetween limit tokens parser named.synchronize.advance fault := by
  unfold expect at missed
  split at missed
  · contradiction
  · next notFound =>
      cases missed
      refine ⟨named.advance.remaining, ?_, reaches_of_lt less, isPast_synchronize notClosing ahead⟩
      exact blames_current (append_advance_window tokensEq ahead) rfl ⟨rfl, notFound, requires⟩

/-- A fault of a statement blames a token that the statement can blame, and that
nothing behind the statement can. -/
theorem statement_blames {parser : Parser} (stands : StandsAmong tokens parser)
    (ahead : 0 < parser.remaining) :
    ∀ fault ∈ (parser.statement (.plain limit)).faults,
      BlamesBetween limit tokens parser (parser.statement (.plain limit)).parser.advance
        fault := by
  intro fault faultMem
  rcases stands.inside with ⟨before, tokensEq⟩
  have less := advance_remaining_lt ahead
  have reads := parser.statement_reads (.plain limit)
  generalize parser.statement (.plain limit) = outcome at reads faultMem ⊢
  cases reads with
  | nameless isLet missed =>
      obtain rfl := List.mem_singleton.mp faultMem
      exact expect_blames tokensEq less ahead (by simp [isLet]) (.name isLet) missed
  | signless isLet isName missed =>
      obtain rfl := List.mem_singleton.mp faultMem
      have namedAhead : 0 < parser.advance.remaining := remaining_pos_of_current (by simp [isName])
      have namedLess := Nat.lt_trans (advance_remaining_lt namedAhead) less
      have requires : LetRequires ((before ++ [parser.current]) ++ [parser.advance.current])
          .assign := by
        rw [List.append_assoc]
        exact .sign isLet isName
      exact expect_blames (append_advance_window tokensEq ahead) namedLess namedAhead
        (by simp [isName]) requires missed
  | binding isLet isName isSign =>
      have namedAhead : 0 < parser.advance.remaining := remaining_pos_of_current (by simp [isName])
      have namedLess := Nat.lt_trans (advance_remaining_lt namedAhead) less
      have signAhead : 0 < parser.advance.advance.remaining :=
        remaining_pos_of_current (by simp [isSign])
      have startLess := Nat.lt_trans (advance_remaining_lt signAhead) namedLess
      have follows := parser.follows_advance_advance.trans (follows_advance _)
      exact finishStatement_blames (stands.next follows)
        (fun count le => reaches_of_lt (Nat.lt_of_le_of_lt le startLess)) _ _ fault faultMem
  | closedReturn isReturn isClose => exact absurd faultMem List.not_mem_nil
  | lastReturn isReturn isEnd => exact absurd faultMem List.not_mem_nil
  | returning isReturn =>
      exact finishStatement_blames (stands.next parser.follows_advance)
        (fun count le => reaches_of_lt (Nat.lt_of_le_of_lt le less)) _ _ fault faultMem
  | alone notLet notReturn =>
      have opensNothing : ¬ TokenStream.synchronize.opensStatement parser.current := by
        simp [TokenStream.synchronize.opensStatement, notLet, notReturn]
      exact finishStatement_blames stands
        (fun count le => ⟨ahead, le, fun opens => absurd opens opensNothing⟩) _ _ fault faultMem

/-! ## Programs -/

/-- A statement has one fault at most. -/
theorem statement_faults_pairwise (relation : Fault → Fault → Prop) (parser : Parser) :
    (parser.statement (.plain limit)).faults.Pairwise relation := by
  have few : (parser.statement (.plain limit)).faults.length ≤ 1 := by
    rw [statement_faults_length (Rules.plain_report limit)]
    exact Bool.toNat_le _
  rcases faultsEq : (parser.statement (.plain limit)).faults with _ | ⟨fault, _ | ⟨other, more⟩⟩
  · exact List.Pairwise.nil
  · exact List.pairwise_singleton relation fault
  · rw [faultsEq, List.length_cons, List.length_cons] at few
    omega

/-- Every fault of a program blames a token that can be blamed from where it begins,
and every later one a later token. -/
theorem program_blames {parser : Parser} (stands : StandsAmong tokens parser) :
    (∀ fault ∈ (parser.program (.plain limit)).faults,
        ∃ count, fault.Blames limit tokens count ∧ parser.Reaches count) ∧
      (parser.program (.plain limit)).faults.Pairwise fun first second =>
        ∃ count later, later < count ∧ first.Blames limit tokens count ∧
          second.Blames limit tokens later := by
  induction countEq : parser.remaining using Nat.strong_induction_on generalizing parser with
  | _ count inductionHypothesis =>
      by_cases isEof : parser.current.kind = .eof
      · have spent : (parser.program (.plain limit)).faults = [] := by
          have ended : parser.atEnd = true := by simp [atEnd, isEof]
          rw [program, statements, dif_pos ended]
          rfl
        rw [spent]
        exact ⟨by simp, List.Pairwise.nil⟩
      · have ahead := remaining_pos_of_current isEof
        let outcome := parser.statement (.plain limit)
        let next := outcome.parser.advance
        have follows : parser.Follows next :=
          (parser.follows_statement _).trans outcome.parser.follows_advance
        have less : next.remaining < parser.remaining := by
          have fewer := parser.statement_remaining_le (.plain limit)
          simp only [next, outcome, advance_remaining]
          omega
        obtain ⟨laterBlames, laterOrdered⟩ :=
          @inductionHypothesis next.remaining (countEq ▸ less) next (stands.next follows) rfl
        have hereBlames : ∀ fault ∈ outcome.faults, BlamesBetween limit tokens parser next fault :=
          statement_blames stands ahead
        have faultsEq : (parser.program (.plain limit)).faults =
            outcome.faults ++ (next.program (.plain limit)).faults := by
          rw [program_cons _ isEof]
        rw [faultsEq]
        constructor
        · intro fault faultMem
          rcases List.mem_append.mp faultMem with isHere | isLater
          · obtain ⟨count, blames, reaches, _⟩ := hereBlames fault isHere
            exact ⟨count, blames, reaches⟩
          · obtain ⟨count, blames, reaches⟩ := laterBlames fault isLater
            exact ⟨count, blames, reaches_of_lt (Nat.lt_of_le_of_lt reaches.le less)⟩
        · refine List.pairwise_append.mpr
            ⟨statement_faults_pairwise _ parser, laterOrdered, ?_⟩
          intro first isHere second isLater
          obtain ⟨count, firstBlames, _, isPast⟩ := hereBlames first isHere
          obtain ⟨later, secondBlames, reaches⟩ := laterBlames second isLater
          exact ⟨count, later, isPast later reaches, firstBlames, secondBlames⟩

end Parser

/-! ## Texts -/

/-- The tokens of a text begin one after the other, the mark of the end included. -/
theorem tokenize_starts_ordered (text : List UInt8) :
    (tokenize text).Pairwise fun earlier later =>
      earlier.span.start.offset < later.span.start.offset := by
  have segmentation := Cursor.tokens_segmentation (Cursor.ofBytes_standsIn text)
  refine List.pairwise_append.mpr
    ⟨?_, List.pairwise_singleton _ _, fun token tokenMem final isFinal => ?_⟩
  · refine segmentation.ordered.imp_of_mem fun earlierMem laterMem stopLe => ?_
    exact Nat.lt_of_lt_of_le (segmentation.stands _ earlierMem).nonempty stopLe
  · obtain rfl := List.mem_singleton.mp isFinal
    have stands := segmentation.stands token tokenMem
    have startEq : (Token.eof (Cursor.ofBytes text).finish.position).span.start.offset =
        text.length := Cursor.ofBytes_finish_offset text
    rw [startEq]
    exact Nat.lt_of_lt_of_le stands.nonempty stands.within

/-- Every fault of a text stands at one of its tokens, what its message says is true
of that token, and the faults come in the order of their tokens, which are all
different. -/
theorem parseWith_faults_truthful (limit : Int) (text : List UInt8) :
    (∀ fault ∈ (parseWith { maxDepth := limit } text).faults,
        ∃ before token behind, tokenize text = before ++ token :: behind ∧
          fault.span = token.span ∧
          ∀ cause : Cause, cause.message = fault.message → cause.Holds limit before token) ∧
      (parseWith { maxDepth := limit } text).faults.Pairwise fun earlier later =>
        earlier.span.start.offset < later.span.start.offset := by
  obtain ⟨blames, ordered⟩ := @Parser.program_blames limit (tokenize text) (Parser.ofBytes text)
    ⟨List.suffix_refl _, rfl, lexical_of_mem_tokens text⟩
  constructor
  · intro fault faultMem
    obtain ⟨count, ⟨before, token, behind, tokensEq, _, spanEq, holds⟩, _⟩ := blames fault faultMem
    refine ⟨before, token, behind, tokensEq, spanEq, fun cause messageEq => ?_⟩
    obtain rfl := Cause.message_inj messageEq
    exact holds
  · refine ordered.imp fun ⟨count, later, less, firstBlames, secondBlames⟩ => ?_
    exact firstBlames.start_lt secondBlames less (tokenize_starts_ordered text)

/-- The second `let` is blamed by the first one, and then read as a statement. -/
example : ((parse "let let x 5; return !; -9223372036854775808".toUTF8.toList).faults.map
    fun fault => (fault.message, fault.span.start.offset)) =
      [("expected next token to be IDENT, got LET instead", 4),
        ("expected next token to be ASSIGN, got INT instead", 10),
        ("no prefix parse function for SEMICOLON found", 21),
        ("could not parse 9223372036854775808 as integer", 24)] := by
  decide +kernel

end PrattSyntax
