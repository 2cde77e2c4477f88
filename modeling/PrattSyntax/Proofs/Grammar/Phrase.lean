import PrattSyntax.Parser.Expression
import PrattSyntax.Proofs.Lexer.Segmentation

/-!
# Phrases

A phrase is an operand behind any number of prefix operators. It is what an
expression opens with: a parser in front of a phrase reads its tree, and then
climbs from the operand on.
-/

namespace PrattSyntax

/-! ## The grammar of phrases -/

/-- Whether a token stands before an operand. -/
def Token.IsPrefix (token : Token) : Prop := token.kind = .bang ∨ token.kind = .minus

/-- Whether a token is an operand: a name, or a number of 4300 digits at most that
fits into 64 bits with a sign. -/
def Token.IsOperand (token : Token) : Prop :=
  token.kind = .ident ∨
    token.kind = .int ∧ token.literal.length ≤ 4300 ∧
      IntegerLiteral.decimal token.literal.toList ≤ 0x7fffffffffffffff

instance (token : Token) : Decidable token.IsPrefix := inferInstanceAs (Decidable (_ ∨ _))

instance (token : Token) : Decidable token.IsOperand := inferInstanceAs (Decidable (_ ∨ _))

theorem Token.IsOperand.not_isPrefix {token : Token} (isOperand : token.IsOperand) :
    ¬ token.IsPrefix := by
  rintro (isBang | isMinus) <;> rcases isOperand with isName | ⟨isInt, _⟩ <;> simp_all

/-- Prefix operators in front of an operand. -/
inductive Phrase where
  | operand (token : Token)
  | prefixed (operator : Token) (inner : Phrase)
deriving DecidableEq, Repr

namespace Phrase

/-- The tokens of a phrase. -/
def tokens : Phrase → List Token
  | operand token => [token]
  | prefixed operator inner => operator :: inner.tokens

/-- How many operators stand in front of the operand. -/
def operatorCount : Phrase → Nat
  | operand _ => 0
  | prefixed _ inner => inner.operatorCount + 1

/-- The operand, which is the last token. -/
def last : Phrase → Token
  | operand token => token
  | prefixed _ inner => inner.last

/-- The first token: an operator if there is one. -/
def first : Phrase → Token
  | operand token => token
  | prefixed operator _ => operator

/-- The operators are prefix operators and the operand is one. -/
def Fits : Phrase → Prop
  | operand token => token.IsOperand
  | prefixed operator inner => operator.IsPrefix ∧ inner.Fits

instance decidableFits : (phrase : Phrase) → Decidable phrase.Fits
  | operand token => inferInstanceAs (Decidable token.IsOperand)
  | prefixed operator inner =>
      have := decidableFits inner
      inferInstanceAs (Decidable (operator.IsPrefix ∧ inner.Fits))

/-- A phrase with fewer operators than a limit. -/
def Within (limit : Int) (phrase : Phrase) : Prop :=
  phrase.Fits ∧ (phrase.operatorCount : Int) < limit

/-- The tree of an operand. -/
def leaf (token : Token) : Expr :=
  if token.kind = .int then .integer token (IntegerLiteral.decimal token.literal.toList)
  else .name ⟨token, token.literal⟩

/-- The tree of a phrase: each operator applies to all that follows it. -/
def tree : Phrase → Expr
  | operand token => leaf token
  | prefixed operator inner => .prefixed operator operator.literal inner.tree

theorem tokens_length (phrase : Phrase) : phrase.tokens.length = phrase.operatorCount + 1 := by
  induction phrase with
  | operand token => rfl
  | prefixed operator inner inductionHypothesis =>
      rw [tokens, List.length_cons, inductionHypothesis, operatorCount]

theorem tokens_eq_first_cons (phrase : Phrase) :
    ∃ more, phrase.tokens = phrase.first :: more := by
  cases phrase with
  | operand token => exact ⟨[], rfl⟩
  | prefixed operator inner => exact ⟨inner.tokens, rfl⟩

/-- A phrase begins with a prefix operator or an operand. -/
theorem Fits.first_isPrefix_or_isOperand {phrase : Phrase} (fits : phrase.Fits) :
    phrase.first.IsPrefix ∨ phrase.first.IsOperand := by
  cases phrase with
  | operand token => exact .inr fits
  | prefixed operator inner => exact .inl fits.1

/-- No phrase is a proper beginning of another one. -/
theorem append_inj {first second : Phrase} (firstFits : first.Fits) (secondFits : second.Fits)
    {firstRest secondRest : List Token}
    (tokensEq : first.tokens ++ firstRest = second.tokens ++ secondRest) :
    first = second ∧ firstRest = secondRest := by
  induction first generalizing second with
  | operand token =>
      cases second with
      | operand other =>
          rcases List.cons.inj tokensEq with ⟨rfl, restEq⟩
          exact ⟨rfl, restEq⟩
      | prefixed operator inner =>
          rcases List.cons.inj tokensEq with ⟨rfl, _⟩
          exact absurd secondFits.1 (Token.IsOperand.not_isPrefix firstFits)
  | prefixed operator inner inductionHypothesis =>
      cases second with
      | operand token =>
          rcases List.cons.inj tokensEq with ⟨rfl, _⟩
          exact absurd firstFits.1 (Token.IsOperand.not_isPrefix secondFits)
      | prefixed otherOperator otherInner =>
          rcases List.cons.inj tokensEq with ⟨rfl, innerEq⟩
          rcases inductionHypothesis firstFits.2 secondFits.2 innerEq with ⟨rfl, restEq⟩
          exact ⟨rfl, restEq⟩

end Phrase

/-! ## Reading phrases -/

/-- An operand that is a number has a value, its decimal one. -/
theorem IntegerLiteral.value?_eq_some_decimal {token : Token} (lexical : token.Lexical)
    (isInt : token.kind = .int) (isOperand : token.IsOperand) :
    value? token.literal = some (decimal token.literal.toList : Int) := by
  rcases isOperand with isName | ⟨_, short, small⟩
  · rw [isInt] at isName
    contradiction
  · rcases lexical.digits isInt with ⟨nonempty, digits⟩
    have fits : least ≤ decimal token.literal.toList ∧
        (decimal token.literal.toList : Int) ≤ greatest := by
      unfold least greatest
      omega
    have shortList : token.literal.toList.length ≤ maxDigits := by
      rwa [String.length_toList]
    exact if_pos ⟨nonempty, List.all_eq_true.mpr digits, shortList, fits⟩

/-- A number that has a value is an operand. -/
theorem IntegerLiteral.isOperand_of_value?_eq_some {token : Token} {value : Int}
    (isInt : token.kind = .int) (valueEq : value? token.literal = some value) :
    token.IsOperand := by
  simp only [value?] at valueEq
  split at valueEq
  · next accepted =>
      rcases accepted with ⟨_, _, short, _, small⟩
      unfold greatest at small
      rw [String.length_toList] at short
      exact .inr ⟨isInt, short, by omega⟩
  · contradiction

/-- Which tokens open an expression in which way. -/
theorem Opening.kind_of_ofKind?_eq_some {kind : TokenKind} {opened : Opening}
    (opens : ofKind? kind = some opened) :
    match opened with
    | .name => kind = .ident
    | .number => kind = .int
    | .operator => kind = .bang ∨ kind = .minus := by
  cases kind <;> cases opens <;> simp

namespace Parser

variable {rules : Rules}

/-- An operand opens an expression and is read as its leaf. -/
theorem opening_operand (rules : Rules) {parser : Parser} (isOperand : parser.current.IsOperand)
    (lexical : parser.current.Lexical) :
    ∃ opened, Opening.ofKind? parser.current.kind = some opened ∧
      parser.enter.opening rules opened = .done (Phrase.leaf parser.current) parser.enter := by
  have currentEq : parser.enter.current = parser.current := rfl
  by_cases isInt : parser.current.kind = .int
  · refine ⟨.number, by rw [isInt]; rfl, ?_⟩
    have valueEq := IntegerLiteral.value?_eq_some_decimal lexical isInt isOperand
    rw [opening_eq]
    simp only [integer, currentEq, valueEq, Phrase.leaf, if_pos isInt]
  · have isName : parser.current.kind = .ident := by
      rcases isOperand with isName | ⟨isInt', _⟩
      · exact isName
      · exact absurd isInt' isInt
    refine ⟨.name, by rw [isName]; rfl, ?_⟩
    rw [opening_eq]
    simp only [identifier, currentEq, Phrase.leaf, if_neg isInt]

/-- A prefix operator opens an expression, whose operand is the expression behind
it. -/
theorem opening_prefix (rules : Rules) {parser : Parser} (isPrefix : parser.current.IsPrefix) :
    Opening.ofKind? parser.current.kind = some .operator ∧
      parser.enter.opening rules .operator =
        (parser.enter.advance.expression rules Precedence.prefixed.rank).map
          (.prefixed parser.current parser.current.literal) := by
  constructor
  · rcases isPrefix with isBang | isMinus
    · rw [isBang]
      rfl
    · rw [isMinus]
      rfl
  · rw [opening_eq]
    exact prefixed_eq rules parser.enter

/-- An expression that is not too deep is what its first token opens, grown to the
right. -/
theorem expression_of_opens {parser : Parser} {opened : Opening} (bound : Int)
    (shallow : (parser.depth : Int) < rules.maxDepth)
    (opens : Opening.ofKind? parser.current.kind = some opened) :
    parser.expression rules bound =
      ((parser.enter.opening rules opened).andThen fun left next =>
        next.climb rules bound left).move leave := by
  rw [expression_eq, if_neg (Int.not_le.mpr shallow), opens]

/-- An expression that begins with a phrase is the tree of the phrase, grown from
its operand on, provided that no operand of a prefix operator grows there. -/
theorem expression_phrase {phrase : Phrase} (fits : phrase.Fits)
    (lexical : ∀ token ∈ phrase.tokens, token.Lexical) {stop : Position} {rest : List Token}
    (depth : Nat) (bound : Int)
    (shallow : (depth : Int) + phrase.operatorCount < rules.maxDepth)
    (stops : ∀ left depth,
      (⟨⟨phrase.last :: rest, stop⟩, depth⟩ : Parser).climb rules Precedence.prefixed.rank left =
        .done left ⟨⟨phrase.last :: rest, stop⟩, depth⟩) :
    (⟨⟨phrase.tokens ++ rest, stop⟩, depth⟩ : Parser).expression rules bound =
      ((⟨⟨phrase.last :: rest, stop⟩, depth + 1⟩ : Parser).climb rules bound phrase.tree).move
        leave := by
  induction phrase generalizing depth bound with
  | operand token =>
      let parser : Parser := ⟨⟨token :: rest, stop⟩, depth⟩
      have isOperand : parser.current.IsOperand := fits
      obtain ⟨opened, opens, openingEq⟩ :=
        opening_operand rules isOperand (lexical token List.mem_cons_self)
      have notDeep : (parser.depth : Int) < rules.maxDepth := by
        simpa [Phrase.operatorCount] using shallow
      have expressionEq := expression_of_opens bound notDeep opens
      rwa [openingEq, Outcome.done_andThen] at expressionEq
  | prefixed operator inner inductionHypothesis =>
      let parser : Parser := ⟨⟨operator :: (inner.tokens ++ rest), stop⟩, depth⟩
      have isPrefix : parser.current.IsPrefix := fits.1
      rcases opening_prefix rules isPrefix with ⟨opens, openingEq⟩
      rw [Phrase.operatorCount] at shallow
      have notDeep : (parser.depth : Int) < rules.maxDepth := by
        simp only [parser]
        omega
      have operandEq := inductionHypothesis fits.2
        (fun token tokenMem => lexical token (List.mem_cons_of_mem operator tokenMem))
        (depth + 1) Precedence.prefixed.rank (by omega) stops
      rw [Phrase.last] at stops
      rw [stops, Outcome.move_done] at operandEq
      have enterEq : parser.enter.advance = ⟨⟨inner.tokens ++ rest, stop⟩, depth + 1⟩ := rfl
      have expressionEq := expression_of_opens bound notDeep opens
      rwa [openingEq, enterEq, operandEq, Outcome.map_done, Outcome.done_andThen] at expressionEq

theorem exists_of_andThen_result {α β : Type} {outcome : Outcome α}
    {next : α → Parser → Outcome β} {value : β}
    (read : (outcome.andThen next).result = some value) :
    ∃ first, outcome.result = some first := by
  cases resultEq : outcome.result with
  | none => simp [Outcome.andThen, resultEq] at read
  | some first => exact ⟨first, rfl⟩

/-- What is read as an expression begins with a phrase. -/
theorem exists_phrase {ahead : List Token} {stop : Position} {depth : Nat} {bound : Int}
    {value : Expr}
    (read : ((⟨⟨ahead, stop⟩, depth⟩ : Parser).expression rules bound).result = some value) :
    ∃ (phrase : Phrase) (rest : List Token), ahead = phrase.tokens ++ rest ∧ phrase.Fits ∧
      (depth : Int) + phrase.operatorCount < rules.maxDepth := by
  induction ahead generalizing depth bound value with
  | nil =>
      rw [expression_eq] at read
      split at read <;> contradiction
  | cons token ahead inductionHypothesis =>
      rw [expression_eq] at read
      split at read
      · contradiction
      · next notDeep =>
          have shallow : (depth : Int) < rules.maxDepth := Int.not_le.mp notDeep
          split at read
          · contradiction
          · next opened opens =>
              rcases exists_of_andThen_result read with ⟨left, openingRead⟩
              have kindEq := Opening.kind_of_ofKind?_eq_some opens
              rw [opening_eq] at openingRead
              cases opened with
              | name =>
                  exact ⟨.operand token, ahead, rfl, .inl kindEq, by
                    simpa [Phrase.operatorCount] using shallow⟩
              | number =>
                  have isOperand : token.IsOperand := by
                    simp only [integer] at openingRead
                    split at openingRead
                    · next number valueEq =>
                        exact IntegerLiteral.isOperand_of_value?_eq_some kindEq valueEq
                    · contradiction
                  exact ⟨.operand token, ahead, rfl, isOperand, by
                    simpa [Phrase.operatorCount] using shallow⟩
              | operator =>
                  simp only [prefixed_eq] at openingRead
                  rcases Option.map_eq_some_iff.mp openingRead with ⟨operand, operandRead, _⟩
                  obtain ⟨inner, rest, aheadEq, fits, innerShallow⟩ :=
                    inductionHypothesis operandRead
                  have within : ((depth + 1 : Nat) : Int) + inner.operatorCount <
                      rules.maxDepth := innerShallow
                  refine ⟨.prefixed token inner, rest, congrArg _ aheadEq, ⟨kindEq, fits⟩, ?_⟩
                  rw [Phrase.operatorCount]
                  omega

end Parser

end PrattSyntax
