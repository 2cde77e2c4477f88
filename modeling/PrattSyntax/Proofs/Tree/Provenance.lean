import PrattSyntax.Proofs.Recovery.Blame

/-!
# Where trees come from

A tree is made of tokens: each node keeps the one it was read from and says what that
token says. Read from left to right, the tokens that a program keeps are tokens of its
text, in the order they have there, whether the text has faults or not.

Some tokens of the text are not kept, as signs, semicolons and what was skipped are not.
So a part of the tokens that are passed is kept, and what holds from one statement to the
next is that the kept ones are among the passed ones, in order.
-/

namespace PrattSyntax

/-! ## Nodes that say what their token says -/

/-- Whether a name was read from a token that is one. -/
structure Identifier.WellFormed (identifier : Identifier) : Prop where
  isName : identifier.token.kind = .ident
  textEq : identifier.text = identifier.token.literal

/-- Whether every node of an expression says what its token says. -/
inductive Expr.WellFormed : Expr → Prop
  | name {identifier : Identifier} (wellFormed : identifier.WellFormed) :
      WellFormed (.name identifier)
  | integer {token : Token} {value : Int} (isInt : token.kind = .int)
      (valueEq : value = IntegerLiteral.decimal token.literal.toList)
      (nonnegative : 0 ≤ value) (small : value ≤ 0x7fffffffffffffff) :
      WellFormed (.integer token value)
  | prefixed {token : Token} {operator : String} {operand : Expr} (isPrefix : token.IsPrefix)
      (operatorEq : operator = token.literal) (inner : operand.WellFormed) :
      WellFormed (.prefixed token operator operand)

/-- Whether a statement was opened by a token that opens its kind, and every node of it
says what its token says. An expression alone has the token of its statement. -/
inductive Statement.WellFormed : Statement → Prop
  | binding {token : Token} {name : Identifier} {value : Option Expr}
      (isLet : token.kind = .letWord) (target : name.WellFormed)
      (inner : ∀ expr ∈ value, expr.WellFormed) : WellFormed (.binding token name value)
  | returning {token : Token} {value : Option Expr} (isReturn : token.kind = .returnWord)
      (inner : ∀ expr ∈ value, expr.WellFormed) : WellFormed (.returning token value)
  | expression {token : Token} {value : Option Expr}
      (opensOther : token.kind ∉ [TokenKind.letWord, .returnWord, .eof])
      (shared : ∀ expr ∈ value, expr.token = token)
      (inner : ∀ expr ∈ value, expr.WellFormed) : WellFormed (.expression token value)

namespace Expr

/-- How many expressions are inside one another, a name or a number being one. -/
def height : Expr → Nat
  | .name _ => 1
  | .integer _ _ => 1
  | .prefixed _ _ operand => operand.height + 1
  | .infixed _ _ => 1

/-- The tokens an expression keeps, from the outside to the inside. -/
def tokens : Expr → List Token
  | .name identifier => [identifier.token]
  | .integer token _ => [token]
  | .prefixed token _ operand => token :: operand.tokens
  | .infixed token _ => [token]

end Expr

namespace Statement

/-- The value of a statement, where it has one. -/
def value? : Statement → Option Expr
  | .binding _ _ value => value
  | .returning _ value => value
  | .expression _ value => value

/-- The tokens a statement keeps, in the order of the text. Where an expression stands
alone, its first token is that of the statement. -/
def tokens : Statement → List Token
  | .binding token name value => token :: name.token :: value.elim [] Expr.tokens
  | .returning token value => token :: value.elim [] Expr.tokens
  | .expression token value => value.elim [token] Expr.tokens

end Statement

/-! ## Runs of operators -/

namespace Expr

variable {operators : List Token} {operand : Expr}

theorem wrap_wellFormed (arePrefix : ∀ operator ∈ operators, operator.IsPrefix)
    (wellFormed : operand.WellFormed) : (wrap operators operand).WellFormed := by
  induction operators with
  | nil => exact wellFormed
  | cons operator operators inductionHypothesis =>
      rcases List.forall_mem_cons.mp arePrefix with ⟨isPrefix, othersPrefix⟩
      exact .prefixed isPrefix rfl (inductionHypothesis othersPrefix)

theorem wrap_height (operators : List Token) (operand : Expr) :
    (wrap operators operand).height = operand.height + operators.length := by
  induction operators with
  | nil => rfl
  | cons operator operators inductionHypothesis =>
      rw [List.length_cons, ← Nat.add_assoc, ← inductionHypothesis]
      rfl

theorem wrap_tokens (operators : List Token) (operand : Expr) :
    (wrap operators operand).tokens = operators ++ operand.tokens := by
  induction operators with
  | nil => rfl
  | cons operator operators inductionHypothesis =>
      rw [List.cons_append, ← inductionHypothesis]
      rfl

theorem token_eq_head (expr : Expr) : expr.tokens.head? = some expr.token := by
  cases expr <;> rfl

end Expr

/-- A number that is read has its decimal value, which fits into 64 bits with a sign. -/
theorem IntegerLiteral.wellFormed_of_value?_eq_some {token : Token} {value : Int}
    (isInt : token.kind = .int) (valueEq : value? token.literal = some value) :
    (Expr.integer token value).WellFormed := by
  simp only [value?] at valueEq
  split at valueEq
  · next accepted =>
      obtain rfl := Option.some.inj valueEq
      exact .integer isInt rfl (Int.natCast_nonneg _) accepted.2.2.2.2
  · contradiction

namespace Parser

/-! ## Tokens kept on the way -/

/-- Whether tokens are, in their order, among those that are passed from one parser to
another. -/
def Keeps (parser next : Parser) (tokens : List Token) : Prop :=
  ∃ passed, parser.input.ahead = passed ++ next.input.ahead ∧ tokens.Sublist passed

namespace Keeps

variable {parser next last : Parser} {tokens more : List Token}

theorem of_follows (follows : parser.Follows next) : parser.Keeps next [] := by
  rcases follows.ahead with ⟨passed, aheadEq⟩
  exact ⟨passed, aheadEq.symm, List.nil_sublist passed⟩

theorem append (keeps : parser.Keeps next tokens) (others : next.Keeps last more) :
    parser.Keeps last (tokens ++ more) := by
  rcases keeps with ⟨passed, aheadEq, sublist⟩
  rcases others with ⟨behind, behindEq, moreSublist⟩
  refine ⟨passed ++ behind, ?_, sublist.append moreSublist⟩
  rw [aheadEq, behindEq, List.append_assoc]

theorem behind (keeps : parser.Keeps next tokens) (follows : next.Follows last) :
    parser.Keeps last tokens := by
  simpa only [List.append_nil] using keeps.append (of_follows follows)

/-- The current token is passed when the parser goes on. -/
theorem current (ahead : 0 < parser.remaining) : parser.Keeps parser.advance [parser.current] := by
  rcases parser with ⟨⟨_ | ⟨token, rest⟩, stop⟩, depth⟩
  · contradiction
  · exact ⟨[token], rfl, List.Sublist.refl _⟩

/-- What is kept up to the end of the text. -/
theorem sublist (keeps : parser.Keeps next tokens) : tokens.Sublist parser.input.ahead := by
  rcases keeps with ⟨passed, aheadEq, sublist⟩
  rw [aheadEq]
  exact sublist.trans (List.sublist_append_left _ _)

end Keeps

variable {limit : Int} {parser : Parser}

/-! ## Expressions -/

/-- What an expression is read as: it says what its tokens say, is no deeper than is
allowed, begins at the current token, and keeps tokens up to the one it ends with. -/
structure Reads (limit : Int) (parser next : Parser) (expr : Expr) : Prop where
  wellFormed : expr.WellFormed
  shallow : (expr.height : Int) ≤ limit
  begins : expr.token = parser.current
  keeps : parser.Keeps next expr.tokens

/-- The operand at the end of an expression is a name or a number. -/
theorem Ends.leaf {nested : Nat} {place : Parser} {outcome : Outcome Expr}
    (ends : Ends limit nested place outcome) {operand : Expr}
    (resultEq : outcome.result = some operand) :
    operand.WellFormed ∧ operand.height = 1 ∧ operand.tokens = [place.current] ∧
      (nested : Int) < limit ∧ 0 < place.remaining ∧ outcome.parser = place := by
  cases ends with
  | tooDeep deep => contradiction
  | noOpening shallow closed => contradiction
  | badInteger shallow isInt worthless => contradiction
  | number shallow isInt valueEq =>
      obtain rfl := Option.some.inj resultEq
      have ahead : 0 < place.remaining := remaining_pos_of_current (by simp [isInt])
      exact ⟨IntegerLiteral.wellFormed_of_value?_eq_some isInt valueEq, rfl, rfl, shallow, ahead,
        rfl⟩
  | name shallow isName =>
      obtain rfl := Option.some.inj resultEq
      have ahead : 0 < place.remaining := remaining_pos_of_current (by simp [isName])
      exact ⟨.name ⟨isName, rfl⟩, rfl, rfl, shallow, ahead, rfl⟩

/-- An expression that is read outside of all others. -/
theorem expression_reads (outermost : parser.depth = 0) {bound : Int} {expr : Expr}
    (resultEq : (parser.expression (.plain limit) bound).result = some expr) :
    parser.Reads limit (parser.expression (.plain limit) bound).parser.advance expr := by
  rcases parser with ⟨⟨ahead, stop⟩, depth⟩
  obtain rfl : depth = 0 := outermost
  obtain ⟨operators, rest, outcome, rfl, passes, ends, expressionEq⟩ :=
    exists_expression_ends limit ahead stop bound
  rw [expressionEq] at resultEq ⊢
  rcases Option.map_eq_some_iff.mp resultEq with ⟨operand, operandEq, rfl⟩
  let place : Parser := ⟨⟨rest, stop⟩, 0⟩
  obtain ⟨wellFormed, heightEq, tokensEq, shallow, placeAhead, placeEq⟩ := ends.leaf operandEq
  have keeps : Keeps ⟨⟨operators ++ rest, stop⟩, 0⟩ place.advance
      (operators ++ [place.current]) := by
    have operatorsKept : Keeps ⟨⟨operators ++ rest, stop⟩, 0⟩ place operators :=
      ⟨operators, rfl, List.Sublist.refl _⟩
    exact operatorsKept.append (.current placeAhead)
  have wrapTokens : (Expr.wrap operators operand).tokens = operators ++ [place.current] := by
    rw [Expr.wrap_tokens, tokensEq]
  refine ⟨Expr.wrap_wellFormed passes.arePrefix wellFormed, ?_, ?_, ?_⟩
  · rw [Expr.wrap_height, heightEq]
    omega
  · have head := Expr.token_eq_head (Expr.wrap operators operand)
    rw [wrapTokens] at head
    have currentEq : (operators ++ [place.current]).head? =
        some (⟨⟨operators ++ rest, stop⟩, 0⟩ : Parser).current := by
      cases operators <;> rfl
    exact Option.some.inj (head.symm.trans currentEq)
  · rw [wrapTokens]
    show Keeps _ outcome.parser.advance _
    rw [placeEq]
    exact keeps

/-! ## Statements -/

/-- What a statement is read as, with the parser behind it. -/
structure Builds (limit : Int) (parser next : Parser) (statement : Statement) : Prop where
  wellFormed : statement.WellFormed
  shallow : ∀ expr ∈ statement.value?, (expr.height : Int) ≤ limit
  keeps : parser.Keeps next statement.tokens

/-- The parser behind a statement that ends with a value. -/
theorem follows_value (bound : Int) :
    parser.Follows (parser.expression (.plain limit) bound).parser.passSemicolon :=
  (follows_expression _ bound parser).trans (follows_passSemicolon _)

/-- A statement keeps the tokens of its value, and others if the value is missing. -/
theorem value_keeps (limit : Int) (outermost : parser.depth = 0) (bound : Int) {others : List Token}
    (otherwise :
      parser.Keeps (parser.expression (.plain limit) bound).parser.passSemicolon.advance others) :
    parser.Keeps (parser.expression (.plain limit) bound).parser.passSemicolon.advance
      ((parser.expression (.plain limit) bound).result.elim others Expr.tokens) := by
  cases resultEq : (parser.expression (.plain limit) bound).result with
  | none => exact otherwise
  | some expr =>
      have passes := (follows_passSemicolon
        (parser.expression (.plain limit) bound).parser).advance
      exact (expression_reads outermost resultEq).keeps.behind passes

/-- A statement that is read is well-formed and keeps some of the tokens it passes. -/
theorem statement_builds (outermost : parser.depth = 0) (notEof : parser.current.kind ≠ .eof)
    {statement : Statement} (resultEq : (parser.statement (.plain limit)).result = some statement) :
    parser.Builds limit (parser.statement (.plain limit)).parser.advance statement := by
  have firstKept := Keeps.current (remaining_pos_of_current notEof)
  have reads := parser.statement_reads (.plain limit)
  generalize parser.statement (.plain limit) = outcome at reads resultEq ⊢
  cases reads with
  | nameless isLet missed => contradiction
  | signless isLet isName missed => contradiction
  | binding isLet isName isSign =>
      obtain rfl := Option.some.inj resultEq
      have nameAhead : 0 < parser.advance.remaining := remaining_pos_of_current (by simp [isName])
      have nameKept := Keeps.current nameAhead
      have start : parser.advance.advance.advance.depth = 0 := outermost
      have valueKept := value_keeps limit start Precedence.lowest.rank
        (.of_follows ((follows_value _).trans (follows_advance _)))
      constructor
      · exact .binding isLet ⟨isName, rfl⟩ fun _ isValue =>
          (expression_reads start isValue).wellFormed
      · exact fun _ isValue => (expression_reads start isValue).shallow
      · exact ((firstKept.append nameKept).behind (follows_advance _)).append valueKept
  | closedReturn isReturn isClose =>
      obtain rfl := Option.some.inj resultEq
      exact ⟨.returning isReturn (by simp), by simp [Statement.value?],
        firstKept.behind (follows_advance _)⟩
  | lastReturn isReturn isEnd =>
      obtain rfl := Option.some.inj resultEq
      exact ⟨.returning isReturn (by simp), by simp [Statement.value?], firstKept⟩
  | returning isReturn =>
      obtain rfl := Option.some.inj resultEq
      have start : parser.advance.depth = 0 := outermost
      have valueKept := value_keeps limit start Precedence.lowest.rank
        (.of_follows ((follows_value _).trans (follows_advance _)))
      constructor
      · exact .returning isReturn fun _ isValue => (expression_reads start isValue).wellFormed
      · exact fun _ isValue => (expression_reads start isValue).shallow
      · exact firstKept.append valueKept
  | alone notLet notReturn =>
      obtain rfl := Option.some.inj resultEq
      constructor
      · exact .expression (by simp [notLet, notReturn, notEof])
          (fun _ isValue => (expression_reads outermost isValue).begins)
          fun _ isValue => (expression_reads outermost isValue).wellFormed
      · exact fun _ isValue => (expression_reads outermost isValue).shallow
      · exact value_keeps limit outermost _ (firstKept.behind (follows_value _).advance)

/-! ## Programs -/

/-- The statements of a program are well-formed, and keep tokens that are ahead. -/
theorem program_builds (limit : Int) (parser : Parser) (outermost : parser.depth = 0) :
    (∀ statement ∈ (parser.program (.plain limit)).program.statements,
        statement.WellFormed ∧ ∀ expr ∈ statement.value?, (expr.height : Int) ≤ limit) ∧
      ((parser.program (.plain limit)).program.statements.flatMap Statement.tokens).Sublist
        parser.input.ahead := by
  induction parser using statements.induct (.plain limit) with
  | case1 parser ending =>
      have isEmpty : parser.program (.plain limit) = ⟨⟨[]⟩, []⟩ := by
        rw [program, statements, dif_pos ending]
        rfl
      rw [isEmpty]
      exact ⟨by simp, List.nil_sublist _⟩
  | case2 parser notEnd outcome inductionHypothesis =>
      have notEof : parser.current.kind ≠ .eof := by simpa [atEnd] using notEnd
      have follows : parser.Follows outcome.parser.advance :=
        (parser.follows_statement _).trans outcome.parser.follows_advance
      obtain ⟨laterBuilt, laterKept⟩ := inductionHypothesis (follows.depth.trans outermost)
      rw [program_cons _ notEof]
      cases resultEq : (parser.statement (.plain limit)).result with
      | none => exact ⟨laterBuilt, laterKept.trans follows.ahead.sublist⟩
      | some statement =>
          have builds := statement_builds outermost notEof resultEq
          rcases builds.keeps with ⟨passed, aheadEq, sublist⟩
          constructor
          · exact List.forall_mem_cons.mpr ⟨⟨builds.wellFormed, builds.shallow⟩, laterBuilt⟩
          · rw [aheadEq]
            exact sublist.append laterKept

end Parser

/-! ## Texts -/

/-- Whatever the text, each statement that it is read as is well-formed and no value is
deeper than the limit. The tokens that the statements keep are tokens of the text, in
their order there, each beginning further on than the one before. -/
theorem parseWith_wellFormed (limit : Int) (text : List UInt8) :
    let statements := (parseWith { maxDepth := limit } text).program.statements
    (∀ statement ∈ statements,
        statement.WellFormed ∧ ∀ expr ∈ statement.value?, (expr.height : Int) ≤ limit) ∧
      (∀ token ∈ statements.flatMap Statement.tokens, token ∈ tokenize text) ∧
      (statements.flatMap Statement.tokens).Pairwise fun earlier later =>
        earlier.span.start.offset < later.span.start.offset := by
  intro statements
  obtain ⟨built, kept⟩ := Parser.program_builds limit (Parser.ofBytes text) rfl
  have inText : (statements.flatMap Statement.tokens).Sublist (tokenize text) :=
    kept.trans (List.sublist_append_left _ _)
  exact ⟨built, fun _ tokenMem => inText.subset tokenMem,
    (tokenize_starts_ordered text).sublist inText⟩

/-- A `let` that is given up keeps no token, and one without a value its word and name. -/
example : ((parse "let 1; let x = -; 7 - y".toUTF8.toList).program.statements.flatMap
    Statement.tokens).map Token.literal = ["let", "x", "7", "-", "y"] := by
  decide +kernel

end PrattSyntax
