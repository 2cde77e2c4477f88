import PrattSyntax.Parser.Program
import PrattSyntax.Proofs.Parser.Induction

/-!
# Reading goes forward

Whatever is read, and whether it could be read or not, the parser behind it stands
further on in the same text and inside as many unfinished expressions as before.
-/

namespace PrattSyntax

namespace TokenStream

theorem skipExpression_suffix (stream : TokenStream) :
    stream.skipExpression.ahead <:+ stream.ahead := by
  suffices suffix : ∀ tokens, skipExpression.untilSemicolon tokens <:+ tokens from
    suffix stream.ahead
  intro tokens
  fun_induction skipExpression.untilSemicolon tokens with
  | case1 => exact List.suffix_refl _
  | case2 token next rest _ inductionHypothesis =>
      exact inductionHypothesis.trans (List.suffix_cons token _)
  | case3 => exact List.suffix_refl _

theorem synchronize_suffix (stream : TokenStream) :
    stream.synchronize.ahead <:+ stream.ahead := by
  suffices suffix : ∀ tokens, synchronize.untilBoundary tokens <:+ tokens from
    suffix stream.ahead
  intro tokens
  fun_induction synchronize.untilBoundary tokens with
  | case1 => exact List.suffix_refl _
  | case2 => exact List.suffix_refl _
  | case3 token rest _ inductionHypothesis =>
      exact inductionHypothesis.trans (List.suffix_cons token _)

end TokenStream

namespace Parser

/-- Whether a parser stands further on in the text of another one, inside as many
unfinished expressions. -/
structure Follows (parser next : Parser) : Prop where
  ahead : next.input.ahead <:+ parser.input.ahead
  stop : next.input.stop = parser.input.stop
  depth : next.depth = parser.depth

namespace Follows

variable {parser next last : Parser}

theorem refl (parser : Parser) : parser.Follows parser := ⟨List.suffix_refl _, rfl, rfl⟩

theorem trans (first : parser.Follows next) (second : next.Follows last) :
    parser.Follows last :=
  ⟨second.ahead.trans first.ahead, second.stop.trans first.stop,
    second.depth.trans first.depth⟩

/-- What follows inside one more expression follows outside of it. -/
theorem leave (follows : parser.enter.Follows next) : parser.Follows next.leave :=
  ⟨follows.ahead, follows.stop, congrArg (· - 1) follows.depth⟩

theorem andThen {α β : Type} {outcome : Outcome α} {behind : α → Parser → Outcome β}
    (first : parser.Follows outcome.parser)
    (second : ∀ value, outcome.result = some value →
      outcome.parser.Follows (behind value outcome.parser).parser) :
    parser.Follows (outcome.andThen behind).parser := by
  cases resultEq : outcome.result with
  | none => simpa only [Outcome.andThen, resultEq] using first
  | some value =>
      simpa only [Outcome.andThen, resultEq, Outcome.after] using
        first.trans (second value resultEq)

end Follows

/-! ## Moves -/

/-- The next token is the current one of the parser one token further. -/
theorem current_advance (parser : Parser) : parser.advance.current = parser.peek := rfl

theorem follows_advance (parser : Parser) : parser.Follows parser.advance :=
  ⟨List.tail_suffix _, rfl, rfl⟩

theorem follows_advance_advance (parser : Parser) : parser.Follows parser.advance.advance :=
  parser.follows_advance.trans parser.advance.follows_advance

theorem follows_passSemicolon (parser : Parser) : parser.Follows parser.passSemicolon := by
  unfold passSemicolon
  split
  · exact parser.follows_advance
  · exact .refl parser

theorem follows_skipExpression (parser : Parser) : parser.Follows parser.skipExpression :=
  ⟨parser.input.skipExpression_suffix, rfl, rfl⟩

theorem follows_synchronize (parser : Parser) : parser.Follows parser.synchronize :=
  ⟨parser.input.synchronize_suffix, rfl, rfl⟩

/-- A parser that is not at the end has its current token ahead. -/
theorem current_mem {parser : Parser} (inside : parser.input.ahead ≠ []) :
    parser.current ∈ parser.input.ahead := by
  rcases parser with ⟨⟨_ | ⟨token, rest⟩, stop⟩, depth⟩
  · exact absurd rfl inside
  · exact List.mem_cons_self

/-- Behind a required token stands the parser that has it as the current one. -/
theorem eq_advance_of_expect {parser next : Parser} {required : TokenKind}
    (taken : parser.expect required = .ok next) :
    next = parser.advance ∧ next.current.kind = required := by
  unfold expect at taken
  split at taken
  · next found =>
      cases taken
      exact ⟨rfl, found⟩
  · contradiction

theorem follows_of_expect {parser next : Parser} {required : TokenKind}
    (taken : parser.expect required = .ok next) : parser.Follows next := by
  obtain ⟨rfl, _⟩ := eq_advance_of_expect taken
  exact parser.follows_advance

/-- What follows stays behind when both parsers go one token further. -/
theorem Follows.advance {parser next : Parser} (follows : parser.Follows next) :
    parser.advance.Follows next.advance := by
  rcases follows with ⟨⟨passed, aheadEq⟩, stopEq, depthEq⟩
  refine ⟨?_, stopEq, depthEq⟩
  show next.input.ahead.tail <:+ parser.input.ahead.tail
  rw [← aheadEq]
  cases passed with
  | nil => exact List.suffix_refl _
  | cons token passed => exact (List.tail_suffix _).trans (List.suffix_append passed _)

theorem Follows.remaining_le {parser next : Parser} (follows : parser.Follows next) :
    next.remaining ≤ parser.remaining :=
  follows.ahead.length_le

/-! ## The tokens in sight -/

/-- The tokens ahead and the mark of the end. -/
def window (parser : Parser) : List Token := parser.input.ahead ++ [parser.input.eof]

theorem exists_window_cons (parser : Parser) :
    ∃ behind, parser.window = parser.current :: behind ∧ behind.length = parser.remaining := by
  rcases parser with ⟨⟨_ | ⟨token, rest⟩, stop⟩, depth⟩
  · exact ⟨[], rfl, rfl⟩
  · exact ⟨rest ++ [Token.eof stop], rfl, by simp [remaining, TokenStream.remaining]⟩

/-- A parser that is not at the end sees its current token and what the parser one
token further sees. -/
theorem window_eq_cons {parser : Parser} (ahead : 0 < parser.remaining) :
    parser.window = parser.current :: parser.advance.window := by
  rcases parser with ⟨⟨_ | ⟨token, rest⟩, stop⟩, depth⟩
  · contradiction
  · rfl

theorem Follows.window {parser next : Parser} (follows : parser.Follows next) :
    next.window <:+ parser.window := by
  rcases follows.ahead with ⟨passed, aheadEq⟩
  have eofEq : next.input.eof = parser.input.eof := congrArg Token.eof follows.stop
  exact ⟨passed, by rw [Parser.window, Parser.window, eofEq, ← aheadEq, List.append_assoc]⟩

/-! ## Expressions -/

theorem follows_integer (parser : Parser) : parser.Follows parser.integer.parser := by
  unfold integer
  split <;> exact .refl parser

theorem follows_closeCall (operator : Token) (callee : Expr) (arguments : List Expr)
    (parser : Parser) :
    parser.Follows (closeCall operator callee arguments parser).parser := by
  unfold closeCall
  split
  · next closed taken => exact follows_of_expect taken
  · exact .refl parser

theorem follows_applyFold (parser : Parser) (fold : Expr → TokenStream → Fold) (left : Expr) :
    parser.Follows (parser.applyFold fold left).parser :=
  ⟨List.drop_suffix _ _, rfl, rfl⟩

theorem follows_opening {rules : Rules} {opened : Opening} {parser : Parser}
    (operand : parser.advance.Follows
      (parser.advance.expression rules Precedence.prefixed.rank).parser) :
    parser.Follows (parser.opening rules opened).parser := by
  rw [opening_eq]
  cases opened with
  | name => exact .refl parser
  | number => exact parser.follows_integer
  | operator =>
      simp only [prefixed_eq]
      exact parser.follows_advance.trans operand

theorem reading_follows (rules : Rules) :
    (∀ bound (parser : Parser), parser.Follows (parser.expression rules bound).parser) ∧
      (∀ bound left (parser : Parser), parser.Follows (parser.climb rules bound left).parser) ∧
      (∀ rule left (parser : Parser), parser.Follows (parser.fold rules rule left).parser) ∧
      ∀ parser : Parser, parser.Follows (parser.arguments rules).parser := by
  apply reading_induction
  case expressionCase =>
    intro bound parser operand climbs
    rw [expression_eq]
    split
    · exact parser.follows_skipExpression
    · split
      · exact .refl parser
      · next opened opens =>
          have ahead := remaining_pos_of_opening opens
          have opening : parser.enter.Follows (parser.enter.opening rules opened).parser :=
            follows_opening (operand ahead)
          refine (opening.andThen fun left _ => climbs ahead left _ ?_).leave
          exact opening_remaining_le rules opened parser.enter
  case climbCase =>
    intro bound left parser folds climbs
    rw [climb_eq]
    split
    · exact .refl parser
    · split
      · exact .refl parser
      · next rule _ =>
          have fold := parser.follows_advance.trans (folds rule)
          split
          · exact fold
          · next unspent =>
              refine fold.andThen fun grown _ => climbs grown _ ?_
              have fewer := fold_remaining_le rules rule left parser.advance
              rw [advance_remaining] at fewer
              omega
  case foldCase =>
    intro rule left parser operand arguments
    rw [fold_eq]
    cases rule with
    | leftward => exact parser.follows_advance.trans (operand _)
    | rightward => exact parser.follows_advance.trans (operand _)
    | trailing => exact .refl parser
    | drop => exact .refl parser
    | call =>
        simp only
        split
        · exact parser.follows_advance
        · exact (parser.follows_advance.trans arguments).andThen
            fun _ _ => follows_closeCall _ _ _ _
    | custom fold => exact parser.follows_applyFold fold left
  case argumentsCase =>
    intro parser first more
    rw [arguments_eq]
    refine first.andThen fun value _ => ?_
    split
    · next comma =>
        have fewer := expression_remaining_le rules Precedence.lowest.rank parser
        have less := advance_advance_remaining_lt comma
        exact (follows_advance_advance _).trans (more _ (by omega))
    · exact .refl _

theorem follows_expression (rules : Rules) (bound : Int) (parser : Parser) :
    parser.Follows (parser.expression rules bound).parser :=
  (reading_follows rules).1 bound parser

/-! ## Statements -/

/-- The ways in which a statement is read: a `let` without its name or without `=`, a whole
one, a `return` before a semicolon, at the end or before a value, and a value alone. -/
inductive StatementReads (rules : Rules) (parser : Parser) : Outcome Statement → Prop
  | nameless {fault : Fault} (isLet : parser.current.kind = .letWord)
      (missed : parser.expect .ident = .error fault) :
      StatementReads rules parser (.failed fault parser.synchronize)
  | signless {fault : Fault} (isLet : parser.current.kind = .letWord)
      (isName : parser.advance.current.kind = .ident)
      (missed : parser.advance.expect .assign = .error fault) :
      StatementReads rules parser (.failed fault parser.advance.synchronize)
  | binding (isLet : parser.current.kind = .letWord)
      (isName : parser.advance.current.kind = .ident)
      (isSign : parser.advance.advance.current.kind = .assign) :
      StatementReads rules parser
        (finishStatement
          (.binding parser.current ⟨parser.advance.current, parser.advance.current.literal⟩)
          (parser.advance.advance.advance.expression rules Precedence.lowest.rank))
  | closedReturn (isReturn : parser.current.kind = .returnWord)
      (isClose : parser.peek.kind = .semicolon) :
      StatementReads rules parser (.done (.returning parser.current none) parser.advance)
  | lastReturn (isReturn : parser.current.kind = .returnWord) (isEnd : parser.peek.kind = .eof) :
      StatementReads rules parser (.done (.returning parser.current none) parser)
  | returning (isReturn : parser.current.kind = .returnWord) :
      StatementReads rules parser
        (finishStatement (.returning parser.current)
          (parser.advance.expression rules Precedence.lowest.rank))
  | alone (notLet : parser.current.kind ≠ .letWord)
      (notReturn : parser.current.kind ≠ .returnWord) :
      StatementReads rules parser
        (finishStatement (.expression parser.current)
          (parser.expression rules Precedence.lowest.rank))

theorem statement_reads (rules : Rules) (parser : Parser) :
    StatementReads rules parser (parser.statement rules) := by
  unfold statement
  split
  · next isLet =>
      unfold letStatement
      split
      · next missed => exact .nameless isLet missed
      · next nameTaken =>
          obtain ⟨rfl, isName⟩ := eq_advance_of_expect nameTaken
          split
          · next missed => exact .signless isLet isName missed
          · next signTaken =>
              obtain ⟨rfl, isSign⟩ := eq_advance_of_expect signTaken
              exact .binding isLet isName isSign
  · next notLet =>
      split
      · next isReturn =>
          unfold returnStatement
          split
          · next isClose => exact .closedReturn isReturn isClose
          · split
            · next isEnd => exact .lastReturn isReturn isEnd
            · exact .returning isReturn
      · next notReturn => exact .alone notLet notReturn

theorem follows_finishStatement {parser : Parser} (build : Option Expr → Statement)
    {value : Outcome Expr} (follows : parser.Follows value.parser) :
    parser.Follows (finishStatement build value).parser :=
  follows.trans value.parser.follows_passSemicolon

theorem follows_letStatement (rules : Rules) (parser : Parser) :
    parser.Follows (parser.letStatement rules).parser := by
  unfold letStatement
  split
  · exact parser.follows_synchronize
  · next named nameTaken =>
      have name := follows_of_expect nameTaken
      split
      · exact name.trans named.follows_synchronize
      · next assigned signTaken =>
          have sign := name.trans (follows_of_expect signTaken)
          have start := sign.trans assigned.follows_advance
          exact follows_finishStatement _ (start.trans (follows_expression rules _ _))

theorem follows_returnStatement (rules : Rules) (parser : Parser) :
    parser.Follows (parser.returnStatement rules).parser := by
  unfold returnStatement
  split
  · exact parser.follows_advance
  · split
    · exact .refl parser
    · exact follows_finishStatement _
        (parser.follows_advance.trans (follows_expression rules _ _))

theorem follows_statement (rules : Rules) (parser : Parser) :
    parser.Follows (parser.statement rules).parser := by
  unfold statement
  split
  · exact parser.follows_letStatement rules
  · split
    · exact parser.follows_returnStatement rules
    · exact follows_finishStatement _ (follows_expression rules _ _)

end Parser

end PrattSyntax
