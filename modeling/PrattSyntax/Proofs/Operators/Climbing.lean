import PrattSyntax.Proofs.Grammar.Acceptance
import PrattSyntax.Proofs.Operators.Tree

/-!
# Operators by climbing

A parser whose operators lean to one side each reads a chain of operators as its
balanced tree. In front of a tree it climbs from the tree's last token on, with
the whole tree on its left, as long as two things hold of the root: it binds
tighter than the bound, and it keeps out the token behind the tree.
-/

namespace PrattSyntax

/-! ## Text and expression of a tree -/

/-- The text of a phrase: an operator and what it applies to are put in
parentheses. -/
def Phrase.render : Phrase → String
  | operand token => token.literal
  | prefixed operator inner => "(" ++ operator.literal ++ inner.render ++ ")"

theorem Phrase.tree_render (phrase : Phrase) : phrase.tree.render = phrase.render := by
  induction phrase with
  | operand token =>
      by_cases isInt : token.kind = .int
      · simp [tree, leaf, isInt, Expr.render, render]
      · simp [tree, leaf, isInt, Expr.render, render]
  | prefixed operator inner inductionHypothesis =>
      rw [tree, Expr.render, inductionHypothesis, render]

namespace OperatorTree

/-- The text of a tree: an operator and both operands are put in parentheses. -/
def render : OperatorTree → String
  | leaf phrase => phrase.render
  | node operator left right =>
      "(" ++ left.render ++ " " ++ operator.literal ++ " " ++ right.render ++ ")"

/-- The expression that a tree is read as. -/
def expr : OperatorTree → Expr
  | leaf phrase => phrase.tree
  | node operator left right =>
      .infixed operator (InfixRule.betweenText left.expr operator right.expr)

/-- The last token of a tree. -/
def last : OperatorTree → Token
  | leaf phrase => phrase.last
  | node _ _ right => right.last

theorem expr_render (tree : OperatorTree) : tree.expr.render = tree.render := by
  induction tree with
  | leaf phrase => exact phrase.tree_render
  | node operator left right leftHypothesis rightHypothesis =>
      simp only [expr, Expr.render, InfixRule.betweenText, leftHypothesis, rightHypothesis,
        render]

end OperatorTree

/-! ## Climbing -/

namespace Parser

variable {rules : Rules} {stop : Position}

/-- A climb ends before a token that does not bind tighter than its bound, and at
the end of the text. -/
theorem climb_stops {bound : Int} (notLess : Precedence.lowest.rank ≤ bound) {last : Token}
    {rest : List Token} (keptOut : ∀ next ∈ rest.head?, next.rank ≤ bound) (left : Expr)
    (depth : Nat) :
    (⟨⟨last :: rest, stop⟩, depth⟩ : Parser).climb rules bound left =
      .done left ⟨⟨last :: rest, stop⟩, depth⟩ := by
  rw [climb_eq]
  apply if_pos
  right
  cases rest with
  | nil => exact notLess
  | cons next more => exact keptOut next rfl

/-- The rule of an operator reads the right operand at the bound of the operator. -/
theorem fold_operator (sided : rules.Sided) {operator : Token}
    (isBinary : operator.kind.IsBinary) :
    ∃ rule, rules.infixRule operator.kind = some rule ∧
      ∀ (ahead : List Token) (stop : Position) (depth : Nat) (left : Expr),
        (⟨⟨operator :: ahead, stop⟩, depth⟩ : Parser).fold rules rule left =
          ((⟨⟨ahead, stop⟩, depth⟩ : Parser).expression rules (rules.rightBound operator)).map
            fun right => .infixed operator (InfixRule.betweenText left operator right) := by
  rcases sided operator.kind isBinary with ruleEq | ruleEq
  · refine ⟨.leftward, ruleEq, fun ahead stop depth left => ?_⟩
    rw [fold_eq, Rules.rightBound, ruleEq]
    rfl
  · refine ⟨.rightward, ruleEq, fun ahead stop depth left => ?_⟩
    rw [fold_eq, Rules.rightBound, ruleEq]
    rfl

/-- A climb takes an operator that binds tighter than its bound, and goes on behind
the right operand. -/
theorem climb_operator (sided : rules.Sided) {operator : Token}
    (isBinary : operator.kind.IsBinary) {bound : Int} (tighter : bound < operator.rank)
    (last : Token) (ahead : List Token) (left : Expr) (depth : Nat) :
    (⟨⟨last :: operator :: ahead, stop⟩, depth⟩ : Parser).climb rules bound left =
      (((⟨⟨ahead, stop⟩, depth⟩ : Parser).expression rules (rules.rightBound operator)).map
        fun right => .infixed operator (InfixRule.betweenText left operator right)).andThen
          fun grown next => next.climb rules bound grown := by
  let parser : Parser := ⟨⟨last :: operator :: ahead, stop⟩, depth⟩
  have goesOn : ¬ (parser.peek.kind = .semicolon ∨
      (Precedence.ofKind parser.peek.kind).rank ≤ bound) := by
    rintro (isSemicolon | keptOut)
    · have peekBinary : parser.peek.kind.IsBinary := isBinary
      simp [isSemicolon, TokenKind.IsBinary] at peekBinary
    · exact absurd tighter (Int.not_lt.mpr keptOut)
  have unspent : parser.remaining ≠ 0 := by simp [parser, remaining, TokenStream.remaining]
  obtain ⟨rule, ruleEq, foldEq⟩ := fold_operator sided isBinary
  have peekRule : rules.infixRule parser.peek.kind = some rule := ruleEq
  change parser.climb rules bound left = _
  rw [climb_eq, if_neg goesOn, peekRule]
  simp only [if_neg unspent]
  rw [← foldEq]
  rfl

/-- In front of a balanced tree, an expression climbs from the last token of the
tree on, with the tree on its left. The root must bind tighter than the bound and
keep out what is behind the tree; then the same is true of both parts. -/
theorem expression_balanced (sided : rules.Sided) {tree : OperatorTree}
    (balanced : tree.Balanced rules) (lexical : ∀ token ∈ tree.tokens, token.Lexical)
    {rest : List Token} {bound : Int} {depth : Nat}
    (shallow : (depth : Int) + tree.tokens.length ≤ rules.maxDepth)
    (tighter : ∀ root ∈ tree.root?, bound < root.rank)
    (between : ∀ next ∈ rest.head?, next.kind.IsBinary)
    (keptOut : ∀ root ∈ tree.root?, ∀ next ∈ rest.head?, next.rank ≤ rules.rightBound root) :
    (⟨⟨tree.tokens ++ rest, stop⟩, depth⟩ : Parser).expression rules bound =
      ((⟨⟨tree.last :: rest, stop⟩, depth + 1⟩ : Parser).climb rules bound tree.expr).move
        leave := by
  induction tree generalizing bound depth rest with
  | leaf phrase =>
      have operatorsFit : (depth : Int) + phrase.operatorCount < rules.maxDepth := by
        rw [OperatorTree.tokens, phrase.tokens_length] at shallow
        omega
      apply expression_phrase balanced lexical depth bound operatorsFit
      intro left depth
      apply climb_stops (by decide)
      intro next nextMem
      exact Int.le_of_lt (Token.rank_bounds (between next nextMem)).2
  | node operator left right leftHypothesis rightHypothesis =>
      obtain ⟨isBinary, leftBalanced, rightBalanced, leftBelow, rightBelow⟩ := balanced
      simp only [OperatorTree.tokens, List.forall_mem_append, List.forall_mem_cons] at lexical
      obtain ⟨leftLexical, _, rightLexical⟩ := lexical
      simp only [OperatorTree.tokens, List.length_append, List.length_cons] at shallow
      have operatorTighter : bound < operator.rank := tighter operator rfl
      have leftEq : (⟨⟨left.tokens ++ operator :: (right.tokens ++ rest), stop⟩, depth⟩ :
          Parser).expression rules bound =
          ((⟨⟨left.last :: operator :: (right.tokens ++ rest), stop⟩, depth + 1⟩ :
            Parser).climb rules bound left.expr).move leave := by
        apply leftHypothesis leftBalanced leftLexical (by omega)
        · intro root isRoot
          have below := leftBelow root isRoot
          have bounds := rules.rightBound_bounds root
          omega
        · rintro next ⟨rfl⟩
          exact isBinary
        · rintro root isRoot next ⟨rfl⟩
          exact leftBelow root isRoot
      have rightEq : (⟨⟨right.tokens ++ rest, stop⟩, depth + 1⟩ : Parser).expression rules
          (rules.rightBound operator) =
          .done right.expr ⟨⟨right.last :: rest, stop⟩, depth + 1⟩ := by
        have endsThere : ∀ next ∈ rest.head?, next.rank ≤ rules.rightBound operator :=
          keptOut operator rfl
        have notLess : Precedence.lowest.rank ≤ rules.rightBound operator := by
          have levels := Token.rank_bounds isBinary
          have bounds := rules.rightBound_bounds operator
          omega
        rw [rightHypothesis rightBalanced rightLexical (by omega) rightBelow between,
          climb_stops notLess endsThere]
        · rfl
        · intro root isRoot next nextMem
          have below := rightBelow root isRoot
          have bounds := rules.rightBound_bounds root
          have ends := endsThere next nextMem
          omega
      rw [OperatorTree.tokens, List.append_assoc, List.cons_append, leftEq,
        climb_operator sided isBinary operatorTighter, rightEq]
      rfl

/-- A balanced tree alone in a text is one statement, its expression. -/
theorem program_of_balanced (sided : rules.Sided) {tree : OperatorTree}
    (balanced : tree.Balanced rules) (lexical : ∀ token ∈ tree.tokens, token.Lexical)
    (shallow : (tree.tokens.length : Int) ≤ rules.maxDepth) :
    (⟨⟨tree.tokens, stop⟩, 0⟩ : Parser).program rules =
      ⟨⟨[.expression tree.chain.first.first (some tree.expr)]⟩, []⟩ := by
  let parser : Parser := ⟨⟨tree.tokens, stop⟩, 0⟩
  have fits : tree.chain.first.Fits := balanced.chain_fits.1
  have currentEq : parser.current = tree.chain.first.first := by
    simp only [parser, ← tree.chain_tokens, Chain.tokens]
    exact current_of_phrase _ _ 0
  have notEof : parser.current.kind ≠ .eof := currentEq ▸ fits.first_ne (by decide)
  have levelsEq : ∀ root ∈ tree.root?, Precedence.lowest.rank < root.rank := by
    intro root isRoot
    cases tree with
    | leaf phrase => contradiction
    | node operator left right =>
        cases isRoot
        exact (Token.rank_bounds balanced.1).1
  have expressionEq : parser.expression rules Precedence.lowest.rank =
      .done tree.expr ⟨⟨[tree.last], stop⟩, 0⟩ := by
    have climbed : (⟨⟨tree.tokens ++ [], stop⟩, 0⟩ : Parser).expression rules
        Precedence.lowest.rank = _ :=
      expression_balanced sided balanced lexical (by simpa using shallow) levelsEq (by simp)
        (by simp)
    rw [List.append_nil, climb_stops (Int.le_refl _) (by simp)] at climbed
    exact climbed
  obtain ⟨behind, finishEq, behindEq⟩ : ∃ behind, finishStatement
      (.expression tree.chain.first.first) (.done tree.expr ⟨⟨[tree.last], stop⟩, 0⟩) =
        .done (.expression tree.chain.first.first (some tree.expr)) behind ∧
      behind.advance = ⟨⟨[], stop⟩, 0⟩ := by
    have isClose : Sentence.IsClose none := by simp [Sentence.IsClose]
    have fresh : Fresh [] := by simp [Fresh]
    exact finishStatement_done _ tree.expr tree.last isClose fun _ => fresh
  change parser.program rules = _
  rw [program_cons rules notEof, statement_of_first rules fits currentEq, expressionEq, finishEq]
  simp only [Outcome.done, behindEq, program_nil]
  rfl

end Parser

/-! ## Chains of operators -/

/-- A text that is a chain of operators, each of which leans to one side, is read as
one statement without a fault. Exactly one tree has the tokens of the chain and is
balanced, and the statement has the text of that tree. -/
theorem parseWith_chain (rules : Rules) (sided : rules.Sided) (text : List UInt8) (chain : Chain)
    (fits : chain.Fits) (tokensEq : (tokenize text).dropLast = chain.tokens)
    (shallow : ((tokenize text).dropLast.length : Int) ≤ rules.maxDepth) :
    (∃! tree : OperatorTree, tree.tokens = (tokenize text).dropLast ∧ tree.Balanced rules) ∧
    ∀ tree : OperatorTree, tree.tokens = (tokenize text).dropLast → tree.Balanced rules →
      ∃ token value, parseWith rules text = ⟨⟨[.expression token (some value)]⟩, []⟩ ∧
        (Statement.expression token (some value)).render = tree.render := by
  constructor
  · rw [tokensEq]
    exact Chain.existsUnique_balanced rules fits
  · intro tree treeEq balanced
    have lexical : ∀ token ∈ tree.tokens, token.Lexical := by
      rw [treeEq, tokenize_dropLast]
      exact lexical_of_mem_tokens text
    refine ⟨tree.chain.first.first, tree.expr, ?_, tree.expr_render⟩
    have treeShallow : (tree.tokens.length : Int) ≤ rules.maxDepth := by rwa [treeEq]
    have programEq : (⟨⟨tree.tokens, (Cursor.ofBytes text).finish.position⟩, 0⟩ :
        Parser).program rules = _ :=
      Parser.program_of_balanced sided balanced lexical treeShallow
    rw [treeEq, tokenize_dropLast] at programEq
    exact programEq

/-- Operators of every level, one half of which leans to the right. -/
def Rules.bothSides : Rules where
  infixRule
    | .bangEqual | .lessThan | .plus | .asterisk => some .leftward
    | .equal | .greaterThan | .minus | .slash => some .rightward
    | _ => none
  maxDepth := 13

theorem Rules.bothSides_sided : bothSides.Sided := by
  intro kind isBinary
  revert isBinary
  cases kind <;> simp [TokenKind.IsBinary, bothSides]

/-- A text of thirteen tokens in which all levels but one and both sides meet. -/
theorem parseWith_chain_bothSides :
    let text := "a-b+-c*d/!e==1".toUTF8.toList
    let token := fun place => (tokenize text).getD place (Token.eof .start)
    let chain : Chain := ⟨.operand (token 0),
      [⟨token 1, .operand (token 2)⟩, ⟨token 3, .prefixed (token 4) (.operand (token 5))⟩,
        ⟨token 6, .operand (token 7)⟩, ⟨token 8, .prefixed (token 9) (.operand (token 10))⟩,
        ⟨token 11, .operand (token 12)⟩]⟩
    Rules.bothSides.Sided ∧ chain.Fits ∧ (tokenize text).dropLast = chain.tokens ∧
      ((tokenize text).dropLast.length : Int) ≤ Rules.bothSides.maxDepth ∧
      (∃! tree : OperatorTree,
        tree.tokens = (tokenize text).dropLast ∧ tree.Balanced .bothSides) ∧
      (parseWith .bothSides text).program.render =
        "((a - (b + (((-c) * d) / (!e)))) == 1)" := by
  intro text token chain
  have fits : chain.Fits := by decide +kernel
  have tokensEq : (tokenize text).dropLast = chain.tokens := by decide +kernel
  have shallow : ((tokenize text).dropLast.length : Int) ≤ Rules.bothSides.maxDepth := by
    decide +kernel
  exact ⟨Rules.bothSides_sided, fits, tokensEq, shallow,
    (parseWith_chain .bothSides Rules.bothSides_sided text chain fits tokensEq shallow).1,
    by decide +kernel⟩

end PrattSyntax
