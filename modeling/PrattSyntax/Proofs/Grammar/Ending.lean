import PrattSyntax.Proofs.Grammar.Acceptance
import PrattSyntax.Proofs.Places.Reading

/-!
# How expressions end

Where no operator stands between operands, an expression is a run of prefix
operators and what is behind it. There it ends, in one of five ways: at the limit
of depth, at a token that opens nothing, at a number without a value, at a number
or at a name. Both what is read and what is found wrong is known by the operators
and the way it ended.
-/

namespace PrattSyntax

theorem Rules.plain_unplaced (limit : Int) : (plain limit).Unplaced := by
  intro kind rule ruleEq
  contradiction

theorem Token.IsPrefix.kind_ne {token : Token} (isPrefix : token.IsPrefix) {kind : TokenKind}
    (notBang : kind ≠ .bang) (notMinus : kind ≠ .minus) : token.kind ≠ kind := by
  rintro rfl
  exact isPrefix.elim notBang notMinus

/-- The operators of a run applied one to the other, the last one to an operand. -/
def Expr.wrap (operators : List Token) (operand : Expr) : Expr :=
  operators.foldr (fun operator inner => .prefixed operator operator.literal inner) operand

@[simp]
theorem Expr.wrap_nil (operand : Expr) : Expr.wrap [] operand = operand := rfl

namespace Parser

/-- How an expression ends at a place that is inside `nested` expressions. -/
inductive Ends (limit : Int) (nested : Nat) (place : Parser) : Outcome Expr → Prop
  | tooDeep (deep : limit ≤ nested) :
      Ends limit nested place (.failed (place.faultHere .tooDeep) place.skipExpression)
  | noOpening (shallow : nested < limit) (closed : Opening.ofKind? place.current.kind = none) :
      Ends limit nested place (.failed (place.faultHere (.noOpening place.current.kind)) place)
  | badInteger (shallow : nested < limit) (isInt : place.current.kind = .int)
      (worthless : IntegerLiteral.value? place.current.literal = none) :
      Ends limit nested place
        (.failed (place.faultHere (.badInteger place.current.literal)) place)
  | number {value : Int} (shallow : nested < limit) (isInt : place.current.kind = .int)
      (valueEq : IntegerLiteral.value? place.current.literal = some value) :
      Ends limit nested place (.done (.integer place.current value) place)
  | name (shallow : nested < limit) (isName : place.current.kind = .ident) :
      Ends limit nested place
        (.done (.name ⟨place.current, place.current.literal⟩) place)

/-- Whether an expression inside `depth` others passes the operators of a run. -/
structure Passes (limit : Int) (depth : Nat) (operators : List Token) : Prop where
  arePrefix : ∀ operator ∈ operators, operator.IsPrefix
  within : operators ≠ [] → (depth + operators.length : Nat) ≤ limit

variable {limit : Int} {stop : Position}

theorem Passes.nil (limit : Int) (depth : Nat) : Passes limit depth [] :=
  ⟨by simp, fun notNil => absurd rfl notNil⟩

theorem passes_cons_iff {depth : Nat} {operator : Token} {operators : List Token} :
    Passes limit depth (operator :: operators) ↔
      operator.IsPrefix ∧ (depth : Int) < limit ∧ Passes limit (depth + 1) operators := by
  constructor
  · rintro ⟨arePrefix, within⟩
    have allWithin := within (List.cons_ne_nil _ _)
    rw [List.length_cons] at allWithin
    rcases List.forall_mem_cons.mp arePrefix with ⟨isPrefix, othersPrefix⟩
    exact ⟨isPrefix, by omega, othersPrefix, fun _ => by omega⟩
  · rintro ⟨isPrefix, shallow, arePrefix, within⟩
    refine ⟨List.forall_mem_cons.mpr ⟨isPrefix, arePrefix⟩, fun _ => ?_⟩
    rw [List.length_cons]
    cases operators with
    | nil =>
        rw [List.length_nil]
        omega
    | cons next operators =>
        have allWithin := within (List.cons_ne_nil _ _)
        omega

/-! ## One expression -/

/-- Depth is only counted: an expression ends alike inside of one more. -/
theorem Ends.enter {nested : Nat} {place : Parser} {outcome : Outcome Expr}
    (ends : Ends limit nested place outcome) :
    Ends limit nested place.enter (outcome.move Parser.enter) := by
  cases ends with
  | tooDeep deep => exact .tooDeep deep
  | noOpening shallow closed => exact .noOpening shallow closed
  | badInteger shallow isInt worthless => exact .badInteger shallow isInt worthless
  | number shallow isInt valueEq => exact .number shallow isInt valueEq
  | name shallow isName => exact .name shallow isName

/-- Every token but a prefix operator is the end of an expression. -/
theorem exists_ends {nested : Nat} {place : Parser}
    (leaf : limit ≤ nested ∨ ¬ place.current.IsPrefix) :
    ∃ outcome, Ends limit nested place outcome := by
  by_cases deep : limit ≤ nested
  · exact ⟨_, .tooDeep deep⟩
  · have shallow : nested < limit := Int.not_le.mp deep
    have notPrefix : ¬ place.current.IsPrefix := leaf.resolve_left deep
    cases opens : Opening.ofKind? place.current.kind with
    | none => exact ⟨_, .noOpening shallow opens⟩
    | some opened =>
        have kindEq := Opening.kind_of_ofKind?_eq_some opens
        cases opened with
        | name => exact ⟨_, .name shallow kindEq⟩
        | number =>
            cases valueEq : IntegerLiteral.value? place.current.literal with
            | none => exact ⟨_, .badInteger shallow kindEq valueEq⟩
            | some value => exact ⟨_, .number shallow kindEq valueEq⟩
        | operator => exact absurd kindEq notPrefix

/-- An expression that ends where it begins. -/
theorem expression_of_ends_here {parser : Parser} {outcome : Outcome Expr}
    (ends : Ends limit parser.depth parser outcome) (bound : Int) :
    parser.expression (.plain limit) bound = outcome := by
  have currentEq : parser.enter.current = parser.current := rfl
  cases ends with
  | tooDeep deep =>
      rw [expression_eq]
      exact if_pos deep
  | noOpening shallow closed =>
      rw [expression_eq, closed]
      exact if_neg (Int.not_le.mpr shallow)
  | badInteger shallow isInt worthless =>
      have opens : Opening.ofKind? parser.current.kind = some .number := by rw [isInt]; rfl
      rw [expression_of_opens bound shallow opens, opening_eq]
      simp only [integer, currentEq, worthless]
      rfl
  | number shallow isInt valueEq =>
      have opens : Opening.ofKind? parser.current.kind = some .number := by rw [isInt]; rfl
      rw [expression_of_opens bound shallow opens, opening_eq]
      simp only [integer, currentEq, valueEq, Outcome.done_andThen, climb_plain]
      rfl
  | name shallow isName =>
      have opens : Opening.ofKind? parser.current.kind = some .name := by rw [isName]; rfl
      rw [expression_of_opens bound shallow opens, opening_eq]
      simp only [identifier, Outcome.done_andThen, climb_plain]
      rfl

/-- An expression that begins with a prefix operator is the operator before the
expression behind it. -/
theorem expression_operator {operator : Token} (isPrefix : operator.IsPrefix) {depth : Nat}
    (shallow : (depth : Int) < limit) (rest : List Token) (bound : Int) :
    (⟨⟨operator :: rest, stop⟩, depth⟩ : Parser).expression (.plain limit) bound =
      (((⟨⟨rest, stop⟩, depth + 1⟩ : Parser).expression (.plain limit)
        Precedence.prefixed.rank).map (.prefixed operator operator.literal)).move
          Parser.leave := by
  let parser : Parser := ⟨⟨operator :: rest, stop⟩, depth⟩
  have opensPrefix : parser.current.IsPrefix := isPrefix
  rcases opening_prefix (.plain limit) opensPrefix with ⟨opens, openingEq⟩
  have climbs : ∀ outcome : Outcome Expr,
      (outcome.andThen fun left next => next.climb (.plain limit) bound left) = outcome := by
    rintro ⟨_ | value, faults, behind⟩
    · rfl
    · simp [Outcome.andThen, climb_plain, Outcome.done, Outcome.after]
  have shallowHere : (parser.depth : Int) < (Rules.plain limit).maxDepth := shallow
  have expressionEq := expression_of_opens bound shallowHere opens
  rwa [openingEq, climbs] at expressionEq

/-- An expression that passes a run of operators ends as one behind them does. -/
theorem expression_of_ends {depth : Nat} {operators rest : List Token}
    (passes : Passes limit depth operators) {outcome : Outcome Expr}
    (ends : Ends limit (depth + operators.length : Nat) ⟨⟨rest, stop⟩, depth⟩ outcome)
    (bound : Int) :
    (⟨⟨operators ++ rest, stop⟩, depth⟩ : Parser).expression (.plain limit) bound =
      outcome.map (Expr.wrap operators) := by
  induction operators generalizing depth bound outcome with
  | nil =>
      have wrapEq : Expr.wrap [] = id := funext Expr.wrap_nil
      rw [wrapEq, Outcome.map, Option.map_id]
      exact expression_of_ends_here ends bound
  | cons operator operators inductionHypothesis =>
      rcases passes_cons_iff.mp passes with ⟨isPrefix, shallow, inner⟩
      have innerEnds : Ends limit (depth + 1 + operators.length : Nat)
          ⟨⟨rest, stop⟩, depth + 1⟩ (outcome.move Parser.enter) := by
        have nestedEq : depth + 1 + operators.length = depth + (operator :: operators).length := by
          rw [List.length_cons]
          omega
        rw [nestedEq]
        exact ends.enter
      rw [List.cons_append, expression_operator isPrefix shallow,
        inductionHypothesis inner innerEnds]
      simp only [Outcome.map, Outcome.move, Option.map_map]
      rfl

/-- Every expression passes a run of operators and ends behind it. -/
theorem exists_passes (limit : Int) (depth : Nat) (ahead : List Token) :
    ∃ operators rest, ahead = operators ++ rest ∧ Passes limit depth operators ∧
      (limit ≤ (depth + operators.length : Nat) ∨
        ∀ token, rest.head? = some token → ¬ token.IsPrefix) := by
  induction ahead generalizing depth with
  | nil => exact ⟨[], [], rfl, .nil limit depth, .inr (by simp)⟩
  | cons token ahead inductionHypothesis =>
      by_cases deep : limit ≤ depth
      · exact ⟨[], token :: ahead, rfl, .nil limit depth, .inl deep⟩
      · by_cases isPrefix : token.IsPrefix
        · obtain ⟨operators, rest, aheadEq, passes, leaf⟩ := inductionHypothesis (depth + 1)
          have nestedEq : depth + (token :: operators).length = depth + 1 + operators.length := by
            rw [List.length_cons]
            omega
          exact ⟨token :: operators, rest, congrArg (token :: ·) aheadEq,
            passes_cons_iff.mpr ⟨isPrefix, Int.not_le.mp deep, passes⟩, nestedEq ▸ leaf⟩
        · exact ⟨[], token :: ahead, rfl, .nil limit depth, .inr (by simpa using isPrefix)⟩

/-- An expression that is read on its own is a run of operators and its end. -/
theorem exists_expression_ends (limit : Int) (ahead : List Token) (stop : Position) (bound : Int) :
    ∃ operators rest outcome, ahead = operators ++ rest ∧ Passes limit 0 operators ∧
      Ends limit operators.length ⟨⟨rest, stop⟩, 0⟩ outcome ∧
      (⟨⟨ahead, stop⟩, 0⟩ : Parser).expression (.plain limit) bound =
        outcome.map (Expr.wrap operators) := by
  obtain ⟨operators, rest, rfl, passes, leaf⟩ := exists_passes limit 0 ahead
  rw [Nat.zero_add] at leaf
  have placeLeaf : limit ≤ operators.length ∨
      ¬ (⟨⟨rest, stop⟩, 0⟩ : Parser).current.IsPrefix := by
    refine leaf.imp_right fun notPrefix => ?_
    cases rest with
    | nil => rintro (isBang | isMinus) <;> contradiction
    | cons token rest => exact notPrefix token rfl
  rcases exists_ends placeLeaf with ⟨outcome, ends⟩
  refine ⟨operators, rest, outcome, rfl, passes, ends, expression_of_ends passes ?_ bound⟩
  rwa [Nat.zero_add]

end Parser

end PrattSyntax
