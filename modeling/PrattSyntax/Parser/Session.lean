import PrattSyntax.Parser.Program

/-!
# Sessions

A session is a parser that is driven from outside, one action at a time and in
any order, and that keeps the faults of all actions. Every parsing function can
be asked for at any token.
-/

namespace PrattSyntax

/-- A parser together with its rules and the faults found so far. -/
structure Session where
  rules : Rules
  parser : Parser
  faults : List Fault

namespace Session

/-- A session at the start of a text. -/
def ofBytes (rules : Rules) (bytes : List UInt8) : Session := ⟨rules, .ofBytes bytes, []⟩

/-- One request to a session. -/
inductive Action where
  | advance
  | expect (kind : TokenKind)
  | currentIs (kind : TokenKind)
  | peekIs (kind : TokenKind)
  | currentPrecedence
  | peekPrecedence
  | expression (bound : Int)
  | program
  | statement
  | letStatement
  | returnStatement
  | expressionStatement
  | identifier
  | integer
  | prefixed
  | synchronize
  | skipExpression
  | limitDepth (maxDepth : Int)
deriving DecidableEq, Repr

/-- What an action answers. -/
inductive Answer where
  | nothing
  | flag (flag : Bool)
  | precedence (precedence : Precedence)
  | expression (expression : Option Expr)
  | statement (statement : Option Statement)
  | program (program : Program)
deriving DecidableEq, Repr

/-- The session with its parser moved. -/
def move (session : Session) (step : Parser → Parser) : Session :=
  { session with parser := step session.parser }

/-- The session behind an outcome: its parser, and its faults after the earlier
ones. -/
def record {α : Type} (session : Session) (outcome : Outcome α) : Session :=
  { session with parser := outcome.parser, faults := session.faults ++ outcome.faults }

/-- The answer to an action and the session that it leaves. -/
def perform (session : Session) : Action → Answer × Session
  | .advance => (.nothing, session.move .advance)
  | .expect kind =>
      match session.parser.expect kind with
      | .ok behind => (.flag true, { session with parser := behind })
      | .error fault => (.flag false, { session with faults := session.faults ++ [fault] })
  | .currentIs kind => (.flag (session.parser.current.kind = kind), session)
  | .peekIs kind => (.flag (session.parser.peek.kind = kind), session)
  | .currentPrecedence => (.precedence (.ofKind session.parser.current.kind), session)
  | .peekPrecedence => (.precedence (.ofKind session.parser.peek.kind), session)
  | .expression bound => answerExpression (session.parser.expression session.rules bound)
  | .program =>
      let reading := session.parser.program session.rules
      (.program reading.program,
        { session with
          parser := session.parser.behindProgram session.rules
          faults := session.faults ++ reading.faults })
  | .statement => answerStatement (session.parser.statement session.rules)
  | .letStatement => answerStatement (session.parser.letStatement session.rules)
  | .returnStatement => answerStatement (session.parser.returnStatement session.rules)
  | .expressionStatement => answerStatement (session.parser.expressionStatement session.rules)
  | .identifier => answerExpression session.parser.identifier
  | .integer => answerExpression session.parser.integer
  | .prefixed => answerExpression (session.parser.prefixed session.rules)
  | .synchronize => (.nothing, session.move .synchronize)
  | .skipExpression => (.nothing, session.move .skipExpression)
  | .limitDepth maxDepth =>
      (.nothing, { session with rules := { session.rules with maxDepth } })
where
  /-- The answer of a function that reads an expression. -/
  answerExpression (outcome : Outcome Expr) : Answer × Session :=
    (.expression outcome.result, session.record outcome)
  /-- The answer of a function that reads a statement. -/
  answerStatement (outcome : Outcome Statement) : Answer × Session :=
    (.statement outcome.result, session.record outcome)

/-- The session after a sequence of actions. -/
def run (session : Session) (actions : List Action) : Session :=
  actions.foldl (fun current action => (current.perform action).2) session

end Session

end PrattSyntax
