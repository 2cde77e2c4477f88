import PrattSyntax.Parser.Rules
import PrattSyntax.Token.Integer

/-!
# Reading expressions

An expression is opened by a name, a number or a prefix operator, and then grows
to the right as long as the next token binds tighter than a bound. Growing is
`climb`; one step of it is `fold`, which reads the operands of an operator as
expressions at bounds of their own.

Reading ends because the number of tokens ahead never grows. Each function of
the recursion hands its outcome out together with the proof of that, as a value
of `Forward`; behind the recursion stand the functions on plain outcomes, each
with the equation that it satisfies.

At the end of a text an operator is folded once and no more: the mark of the end
could otherwise be folded for ever.
-/

namespace PrattSyntax

/-- An outcome with at most `limit` tokens ahead of its parser. -/
abbrev Forward (limit : Nat) (α : Type) : Type :=
  { outcome : Outcome α // outcome.parser.remaining ≤ limit }

namespace Forward

variable {α β : Type} {limit : Nat}

/-- The same outcome under a higher limit. -/
def weaken {lower : Nat} (forward : Forward lower α) (le : lower ≤ limit) :
    Forward limit α :=
  ⟨forward.val, Nat.le_trans forward.property le⟩

/-- The outcome with its thing made into another. -/
def map (function : α → β) (forward : Forward limit α) : Forward limit β :=
  ⟨forward.val.map function, forward.property⟩

/-- The outcome outside the innermost expression. -/
def leave (forward : Forward limit α) : Forward limit α :=
  ⟨forward.val.move Parser.leave, forward.property⟩

/-- What comes next is read behind the thing read, which is under the limit. -/
def andThen (forward : Forward limit α)
    (next : α → (parser : Parser) → parser.remaining ≤ limit → Forward limit β) :
    Forward limit β :=
  match forward.val.result with
  | none => ⟨⟨none, forward.val.faults, forward.val.parser⟩, forward.property⟩
  | some value =>
      let following := next value forward.val.parser forward.property
      ⟨following.val.after forward.val.faults, following.property⟩

/-- On outcomes, `Forward.andThen` is `Outcome.andThen`. -/
theorem val_andThen (forward : Forward limit α)
    (next : α → (parser : Parser) → parser.remaining ≤ limit → Forward limit β)
    (plain : α → Parser → Outcome β)
    (same : ∀ value parser le, (next value parser le).val = plain value parser) :
    (forward.andThen next).val = forward.val.andThen plain := by
  cases read : forward.val.result with
  | none => simp only [andThen, Outcome.andThen, read]
  | some value => simp only [andThen, Outcome.andThen, read, same]

end Forward

namespace Parser

/-! ## Single tokens -/

/-- The current token as a name. -/
def identifier (parser : Parser) : Outcome Expr :=
  .done (.name ⟨parser.current, parser.current.literal⟩) parser

/-- The current token as a number. -/
def integer (parser : Parser) : Outcome Expr :=
  match IntegerLiteral.value? parser.current.literal with
  | some value => .done (.integer parser.current value) parser
  | none => .failed (parser.faultHere (.badInteger parser.current.literal)) parser

/-- The parenthesis that closes a call, and the call. -/
def closeCall (operator : Token) (callee : Expr) (arguments : List Expr) (parser : Parser) :
    Outcome Expr :=
  match parser.expect .rightParen with
  | .ok closed => .done (.infixed operator (InfixRule.callText callee arguments)) closed
  | .error fault => .failed fault parser

/-- A caller's own rule, applied at the current token. -/
def applyFold (parser : Parser) (fold : Expr → TokenStream → Fold) (left : Expr) :
    Outcome Expr :=
  let folded := fold left parser.input
  ⟨folded.result, folded.faults,
    { parser with input := { parser.input with
        ahead := parser.input.ahead.drop folded.taken } }⟩

theorem integer_remaining_le (parser : Parser) :
    parser.integer.parser.remaining ≤ parser.remaining := by
  unfold integer
  split <;> exact Nat.le_refl _

theorem closeCall_remaining_le (operator : Token) (callee : Expr) (arguments : List Expr)
    (parser : Parser) :
    (closeCall operator callee arguments parser).parser.remaining ≤ parser.remaining := by
  unfold closeCall expect
  by_cases closed : parser.peek.kind = .rightParen
  · simp [closed, Outcome.done]
  · simp [closed, Outcome.failed]

theorem applyFold_remaining_le (parser : Parser) (fold : Expr → TokenStream → Fold)
    (left : Expr) : (parser.applyFold fold left).parser.remaining ≤ parser.remaining :=
  (List.drop_sublist _ _).length_le

/-- A token that opens an expression is still ahead. -/
theorem remaining_pos_of_opening {parser : Parser} {opening : Opening}
    (opened : Opening.ofKind? parser.current.kind = some opening) : 0 < parser.remaining :=
  remaining_pos_of_current fun isEof => by
    rw [isEof] at opened
    contradiction

/-- Behind a comma that is next there are two tokens less. -/
theorem advance_advance_remaining_lt {parser : Parser} (comma : parser.peek.kind = .comma) :
    parser.advance.advance.remaining < parser.remaining := by
  have two : 2 ≤ parser.remaining := two_le_remaining_of_peek (by simp [comma])
  simp only [advance_remaining]
  omega

/-! ## The recursion -/

mutual

/-- An expression at a bound. -/
def readExpression (rules : Rules) (parser : Parser) (bound : Int) :
    Forward parser.remaining Expr :=
  if rules.maxDepth ≤ parser.depth then
    ⟨.failed (parser.faultHere .tooDeep) parser.skipExpression,
      parser.skipExpression_remaining_le⟩
  else
    match _opened : Opening.ofKind? parser.current.kind with
    | none =>
        ⟨.failed (parser.faultHere (.noOpening parser.current.kind)) parser, Nat.le_refl _⟩
    | some opening =>
        ((readOpening rules opening parser.enter).andThen fun left next behind =>
          (readClimb rules next bound left).weaken behind).leave
termination_by if parser.remaining = 0 then 0 else 8 * parser.remaining + 5
decreasing_by
  all_goals
    have ahead := remaining_pos_of_opening _opened
    have inside : parser.enter.remaining = parser.remaining := rfl
    grind

/-- What the current token opens. -/
def readOpening (rules : Rules) (opening : Opening) (parser : Parser) :
    Forward parser.remaining Expr :=
  match opening with
  | .name => ⟨parser.identifier, Nat.le_refl _⟩
  | .number => ⟨parser.integer, parser.integer_remaining_le⟩
  | .operator => readPrefixed rules parser
termination_by 8 * parser.remaining + 4

/-- The current token as an operator in front of its operand. -/
def readPrefixed (rules : Rules) (parser : Parser) : Forward parser.remaining Expr :=
  ((readExpression rules parser.advance Precedence.prefixed.rank).map
    (Expr.prefixed parser.current parser.current.literal)).weaken (by simp)
termination_by 8 * parser.remaining + 3
decreasing_by simp only [advance_remaining]; split <;> omega

/-- An expression grown to the right as far as its bound allows. -/
def readClimb (rules : Rules) (parser : Parser) (bound : Int) (left : Expr) :
    Forward parser.remaining Expr :=
  if parser.peek.kind = .semicolon ∨ (Precedence.ofKind parser.peek.kind).rank ≤ bound then
    ⟨.done left parser, Nat.le_refl _⟩
  else
    match rules.infixRule parser.peek.kind with
    | none => ⟨.done left parser, Nat.le_refl _⟩
    | some rule =>
        let folded := readFold rules rule parser.advance left
        if _spent : parser.remaining = 0 then
          folded.weaken (by simp)
        else
          (folded.andThen fun grown next behind =>
            (readClimb rules next bound grown).weaken behind).weaken (by simp)
termination_by 8 * parser.remaining + 3
decreasing_by
  all_goals
    have fewer := parser.advance_remaining
    omega

/-- One expression folded around the current token. -/
def readFold (rules : Rules) (rule : InfixRule) (parser : Parser) (left : Expr) :
    Forward parser.remaining Expr :=
  match rule with
  | .leftward =>
      ((readExpression rules parser.advance (Precedence.ofKind parser.current.kind).rank).map
        fun right => .infixed parser.current
          (InfixRule.betweenText left parser.current right)).weaken (by simp)
  | .rightward =>
      ((readExpression rules parser.advance ((Precedence.ofKind parser.current.kind).rank - 1)).map
        fun right => .infixed parser.current
          (InfixRule.betweenText left parser.current right)).weaken (by simp)
  | .trailing =>
      ⟨.done (.infixed parser.current (InfixRule.trailingText left parser.current)) parser,
        Nat.le_refl _⟩
  | .drop => ⟨⟨none, [], parser⟩, Nat.le_refl _⟩
  | .call =>
      if parser.peek.kind = .rightParen then
        ⟨.done (.infixed parser.current (InfixRule.callText left [])) parser.advance, by simp [Outcome.done]⟩
      else
        ((readArguments rules parser.advance).weaken (by simp)).andThen
          fun arguments next behind =>
            ⟨closeCall parser.current left arguments next,
              Nat.le_trans (closeCall_remaining_le ..) behind⟩
  | .custom fold => ⟨parser.applyFold fold left, parser.applyFold_remaining_le fold left⟩
termination_by 8 * parser.remaining + 2
decreasing_by
  all_goals
    simp only [advance_remaining]
    split <;> omega

/-- The expressions between two parentheses, at least one. -/
def readArguments (rules : Rules) (parser : Parser) : Forward parser.remaining (List Expr) :=
  (readExpression rules parser Precedence.lowest.rank).andThen fun first next behind =>
    if comma : next.peek.kind = .comma then
      ((readArguments rules next.advance.advance).map (first :: ·)).weaken
        (Nat.le_trans (Nat.le_of_lt (advance_advance_remaining_lt comma)) behind)
    else
      ⟨.done [first] next, behind⟩
termination_by if parser.remaining = 0 then 1 else 8 * parser.remaining + 6
decreasing_by
  · split <;> omega
  · have fewer := advance_advance_remaining_lt comma
    grind

end

/-! ## The functions on plain outcomes -/

/-- An expression at a bound: only operators that bind tighter join it. -/
def expression (rules : Rules) (bound : Int) (parser : Parser) : Outcome Expr :=
  (readExpression rules parser bound).val

/-- What the current token opens. -/
def opening (rules : Rules) (opening : Opening) (parser : Parser) : Outcome Expr :=
  (readOpening rules opening parser).val

/-- The current token as an operator in front of its operand. -/
def prefixed (rules : Rules) (parser : Parser) : Outcome Expr :=
  (readPrefixed rules parser).val

/-- An expression grown to the right as far as its bound allows. -/
def climb (rules : Rules) (bound : Int) (left : Expr) (parser : Parser) : Outcome Expr :=
  (readClimb rules parser bound left).val

/-- An expression folded around the current token by its rule. -/
def fold (rules : Rules) (rule : InfixRule) (left : Expr) (parser : Parser) : Outcome Expr :=
  (readFold rules rule parser left).val

/-- The expressions between two parentheses, at least one. -/
def arguments (rules : Rules) (parser : Parser) : Outcome (List Expr) :=
  (readArguments rules parser).val

theorem expression_remaining_le (rules : Rules) (bound : Int) (parser : Parser) :
    (parser.expression rules bound).parser.remaining ≤ parser.remaining :=
  (readExpression rules parser bound).property

theorem expression_eq (rules : Rules) (bound : Int) (parser : Parser) :
    parser.expression rules bound =
      if rules.maxDepth ≤ parser.depth then
        .failed (parser.faultHere .tooDeep) parser.skipExpression
      else
        match Opening.ofKind? parser.current.kind with
        | none => .failed (parser.faultHere (.noOpening parser.current.kind)) parser
        | some opened =>
            ((parser.enter.opening rules opened).andThen fun left next =>
              next.climb rules bound left).move leave := by
  unfold expression
  rw [readExpression]
  split
  · rfl
  · split
    · next closed => simp only [closed]
    · next opened opens =>
        simp only [opens]
        exact congrArg (Outcome.move leave) (Forward.val_andThen _ _ _ fun _ _ _ => rfl)

theorem opening_eq (rules : Rules) (opened : Opening) (parser : Parser) :
    parser.opening rules opened =
      match opened with
      | .name => parser.identifier
      | .number => parser.integer
      | .operator => parser.prefixed rules := by
  unfold opening
  rw [readOpening.eq_def]
  cases opened <;> rfl

theorem prefixed_eq (rules : Rules) (parser : Parser) :
    parser.prefixed rules =
      (parser.advance.expression rules Precedence.prefixed.rank).map
        (.prefixed parser.current parser.current.literal) := by
  unfold prefixed
  rw [readPrefixed]
  rfl

theorem climb_eq (rules : Rules) (bound : Int) (left : Expr) (parser : Parser) :
    parser.climb rules bound left =
      if parser.peek.kind = .semicolon ∨
          (Precedence.ofKind parser.peek.kind).rank ≤ bound then
        .done left parser
      else
        match rules.infixRule parser.peek.kind with
        | none => .done left parser
        | some rule =>
            if parser.remaining = 0 then parser.advance.fold rules rule left
            else (parser.advance.fold rules rule left).andThen fun grown next =>
              next.climb rules bound grown := by
  unfold climb
  rw [readClimb]
  split
  · rfl
  · split
    · rfl
    · split
      · rfl
      · exact (readFold rules _ parser.advance left).val_andThen _ _ fun _ _ _ => rfl

theorem fold_eq (rules : Rules) (rule : InfixRule) (left : Expr) (parser : Parser) :
    parser.fold rules rule left =
      match rule with
      | .leftward =>
          (parser.advance.expression rules (Precedence.ofKind parser.current.kind).rank).map
            fun right => .infixed parser.current
              (InfixRule.betweenText left parser.current right)
      | .rightward =>
          (parser.advance.expression rules
            ((Precedence.ofKind parser.current.kind).rank - 1)).map
            fun right => .infixed parser.current
              (InfixRule.betweenText left parser.current right)
      | .trailing =>
          .done (.infixed parser.current (InfixRule.trailingText left parser.current)) parser
      | .drop => ⟨none, [], parser⟩
      | .call =>
          if parser.peek.kind = .rightParen then
            .done (.infixed parser.current (InfixRule.callText left [])) parser.advance
          else
            (parser.advance.arguments rules).andThen fun arguments next =>
              closeCall parser.current left arguments next
      | .custom fold => parser.applyFold fold left := by
  unfold fold
  rw [readFold.eq_def]
  cases rule with
  | call =>
      simp only
      split
      · rfl
      · exact Forward.val_andThen _ _ _ fun _ _ _ => rfl
  | _ => rfl

theorem arguments_eq (rules : Rules) (parser : Parser) :
    parser.arguments rules =
      (parser.expression rules Precedence.lowest.rank).andThen fun first next =>
        if next.peek.kind = .comma then
          (next.advance.advance.arguments rules).map (first :: ·)
        else .done [first] next := by
  unfold arguments
  rw [readArguments]
  refine Forward.val_andThen _ _ _ fun first next behind => ?_
  split <;> rfl

end Parser

end PrattSyntax
