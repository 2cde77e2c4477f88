import PrattSyntax.Parser.Session
import PrattSyntax.Proofs.Calls.Program

/-!
# Sessions keep to their text

A session may be asked for anything at any token. Whatever it is asked for, its
parser stands in front of two tokens of the text that follow each other, no further
back than before, outside of every expression; and its faults are only added to.
-/

namespace PrattSyntax

/-- The token of a text at an index, and the last one, which marks the end, from
there on. -/
def tokenAt (text : List UInt8) (index : Nat) : Option Token :=
  (tokenize text)[index]?.or (tokenize text).getLast?

theorem tokenAt_eq (text : List UInt8) (index : Nat) :
    tokenAt text index =
      some ((TokenStream.ofBytes text).ahead[index]?.getD (TokenStream.ofBytes text).eof) := by
  have tokenizeEq : tokenize text =
      (TokenStream.ofBytes text).ahead ++ [(TokenStream.ofBytes text).eof] := rfl
  rw [tokenAt, tokenizeEq, List.getLast?_concat]
  rcases Nat.lt_or_ge index (TokenStream.ofBytes text).ahead.length with inside | behind
  · rw [List.getElem?_append_left inside, List.getElem?_eq_getElem inside]
    rfl
  · rw [List.getElem?_append_right behind, List.getElem?_eq_none behind]
    cases index - (TokenStream.ofBytes text).ahead.length <;> rfl

namespace Parser

variable {rules : Rules}

/-! ## Parsers that follow the start of a text -/

/-- How many tokens of a text a parser has passed. -/
def passed (text : List UInt8) (parser : Parser) : Nat :=
  (TokenStream.ofBytes text).remaining - parser.remaining

theorem Follows.ahead_eq_drop {text : List UInt8} {parser : Parser}
    (follows : (ofBytes text).Follows parser) :
    parser.input.ahead = (TokenStream.ofBytes text).ahead.drop (parser.passed text) :=
  List.suffix_iff_eq_drop.mp follows.ahead

theorem Follows.current_eq_tokenAt {text : List UInt8} {parser : Parser}
    (follows : (ofBytes text).Follows parser) :
    some parser.current = tokenAt text (parser.passed text) := by
  have eofEq : parser.input.eof = (TokenStream.ofBytes text).eof :=
    congrArg Token.eof follows.stop
  rw [tokenAt_eq, current, TokenStream.current, eofEq, follows.ahead_eq_drop,
    List.headD_eq_head?_getD, List.head?_drop]

theorem Follows.peek_eq_tokenAt {text : List UInt8} {parser : Parser}
    (follows : (ofBytes text).Follows parser) :
    some parser.peek = tokenAt text (parser.passed text + 1) := by
  have eofEq : parser.input.eof = (TokenStream.ofBytes text).eof :=
    congrArg Token.eof follows.stop
  rw [tokenAt_eq, peek, TokenStream.peek, eofEq, follows.ahead_eq_drop, List.tail_drop,
    List.headD_eq_head?_getD, List.head?_drop]

theorem Follows.passed_le {parser next : Parser} (follows : parser.Follows next)
    (text : List UInt8) : parser.passed text ≤ next.passed text :=
  Nat.sub_le_sub_left follows.ahead.length_le _

/-! ## What a session asks for -/

theorem follows_prefixed (rules : Rules) (parser : Parser) :
    parser.Follows (parser.prefixed rules).parser := by
  rw [prefixed_eq]
  exact parser.follows_advance.trans (follows_expression rules _ _)

theorem follows_expressionStatement (rules : Rules) (parser : Parser) :
    parser.Follows (parser.expressionStatement rules).parser :=
  follows_finishStatement _ (follows_expression rules _ _)

theorem follows_behindProgram (rules : Rules) (parser : Parser) :
    parser.Follows (parser.behindProgram rules) := by
  induction parser using statements.induct rules with
  | case1 parser ending =>
      rw [behindProgram_of_atEnd ending]
      exact .refl parser
  | case2 parser inside _ inductionHypothesis =>
      rw [behindProgram_of_not_atEnd inside]
      exact (parser.follows_advance.trans (follows_nextStatement rules parser)).trans
        inductionHypothesis

end Parser

namespace Session

/-- Whether a session is a later state of another one: its parser follows, its
faults are added to, and its rules differ in the limit only. -/
structure Continues (session next : Session) : Prop where
  parser : session.parser.Follows next.parser
  faults : session.faults <+: next.faults
  infixRule : next.rules.infixRule = session.rules.infixRule

theorem Continues.refl (session : Session) : session.Continues session :=
  ⟨.refl _, List.prefix_refl _, rfl⟩

theorem Continues.trans {session next last : Session} (first : session.Continues next)
    (second : next.Continues last) : session.Continues last :=
  ⟨first.parser.trans second.parser, first.faults.trans second.faults,
    second.infixRule.trans first.infixRule⟩

theorem continues_move {session : Session} {step : Parser → Parser}
    (follows : session.parser.Follows (step session.parser)) :
    session.Continues (session.move step) :=
  ⟨follows, List.prefix_refl _, rfl⟩

theorem continues_record {α : Type} {session : Session} {outcome : Outcome α}
    (follows : session.parser.Follows outcome.parser) :
    session.Continues (session.record outcome) :=
  ⟨follows, List.prefix_append _ _, rfl⟩

/-- An action leaves a later state of the session. -/
theorem continues_perform (session : Session) (action : Action) :
    session.Continues (session.perform action).2 := by
  cases action with
  | advance => exact continues_move session.parser.follows_advance
  | expect kind =>
      simp only [perform]
      split
      · next behind taken => exact ⟨Parser.follows_of_expect taken, List.prefix_refl _, rfl⟩
      · exact ⟨.refl _, List.prefix_append _ _, rfl⟩
  | currentIs | peekIs | currentPrecedence | peekPrecedence => exact .refl session
  | expression bound => exact continues_record (Parser.follows_expression _ _ _)
  | program =>
      exact ⟨session.parser.follows_behindProgram session.rules, List.prefix_append _ _, rfl⟩
  | statement => exact continues_record (Parser.follows_statement _ _)
  | letStatement => exact continues_record (Parser.follows_letStatement _ _)
  | returnStatement => exact continues_record (Parser.follows_returnStatement _ _)
  | expressionStatement => exact continues_record (Parser.follows_expressionStatement _ _)
  | identifier => exact continues_record (.refl _)
  | integer => exact continues_record (Parser.follows_integer _)
  | prefixed => exact continues_record (Parser.follows_prefixed _ _)
  | synchronize => exact continues_move session.parser.follows_synchronize
  | skipExpression => exact continues_move session.parser.follows_skipExpression
  | limitDepth maxDepth => exact ⟨.refl _, List.prefix_refl _, rfl⟩

theorem continues_run (session : Session) (actions : List Action) :
    session.Continues (session.run actions) := by
  induction actions generalizing session with
  | nil => exact .refl session
  | cons action actions inductionHypothesis =>
      exact (session.continues_perform action).trans (inductionHypothesis _)

theorem run_append (session : Session) (actions later : List Action) :
    session.run (actions ++ later) = (session.run actions).run later :=
  List.foldl_append

variable {rules : Rules}

/-- Where no rule folds the mark of the end, every call of a session comes to an end.
Whatever a session was asked for, its parser stands outside of every expression in
front of a token of the text and the one behind it, at an index that never goes
back, and the faults it has found stay. -/
theorem run_keeps_to_text (noRule : rules.infixRule .eof = none) (text : List UInt8) :
    ∃ index : List Action → Nat, ∀ actions,
      let session := (ofBytes rules text).run actions
      WellFounded (fun next made => Call.Makes session.rules made next) ∧
        some session.parser.current = tokenAt text (index actions) ∧
        some session.parser.peek = tokenAt text (index actions + 1) ∧
        session.parser.depth = 0 ∧
        ∀ later, index actions ≤ index (actions ++ later) ∧
          session.faults <+: ((ofBytes rules text).run (actions ++ later)).faults := by
  refine ⟨fun actions => ((ofBytes rules text).run actions).parser.passed text,
    fun actions => ?_⟩
  intro session
  have continues : (ofBytes rules text).Continues session := continues_run _ actions
  have noRuleNow : session.rules.infixRule .eof = none := by
    rw [continues.infixRule]
    exact noRule
  refine ⟨Call.wellFounded_makes noRuleNow, continues.parser.current_eq_tokenAt,
    continues.parser.peek_eq_tokenAt, continues.parser.depth, fun later => ?_⟩
  have further : session.Continues ((ofBytes rules text).run (actions ++ later)) := by
    rw [run_append]
    exact continues_run _ later
  exact ⟨further.parser.passed_le text, further.faults⟩

/-- Sums and calls fold no mark of the end. A session in front of a call that breaks
off is asked for an expression below all levels, and then, with a lower limit, for
the rest of the program. -/
theorem run_keeps_to_text_brokenCall :
    let start := ofBytes .sumsAndCalls "f(1+;!x;let".toUTF8.toList
    Rules.sumsAndCalls.infixRule .eof = none ∧
      (∃ index : List Action → Nat, ∀ actions,
        some (start.run actions).parser.current =
            tokenAt "f(1+;!x;let".toUTF8.toList (index actions) ∧
          some (start.run actions).parser.peek =
            tokenAt "f(1+;!x;let".toUTF8.toList (index actions + 1) ∧
          (start.run actions).parser.depth = 0 ∧
          ∀ later, index actions ≤ index (actions ++ later) ∧
            (start.run actions).faults <+: (start.run (actions ++ later)).faults) ∧
      (start.run [.expression 0, .limitDepth 1, .program]).faults.length = 4 := by
  intro start
  have noRule : Rules.sumsAndCalls.infixRule .eof = none := rfl
  obtain ⟨index, keeps⟩ := run_keeps_to_text noRule "f(1+;!x;let".toUTF8.toList
  exact ⟨noRule, ⟨index, fun actions => (keeps actions).2⟩, by decide +kernel⟩

end Session

end PrattSyntax
