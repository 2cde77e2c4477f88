import Mathlib.Logic.ExistsUnique
import PrattSyntax.Proofs.Grammar.Phrase

/-!
# Trees of binary operators

Phrases with operators between them can be put in parentheses in many ways. The
levels of the operators and the sides that they lean to allow exactly one: no
operator stands below another one that would have to bind tighter.

A tree read from left to right is a chain, and a chain is made into a tree by
attaching its links one after another at the right edge.
-/

namespace PrattSyntax

/-! ## Operators between operands -/

/-- Whether a kind compares, adds, subtracts, multiplies or divides. -/
def TokenKind.IsBinary (kind : TokenKind) : Prop :=
  kind ∈ [equal, bangEqual, lessThan, greaterThan, plus, minus, asterisk, slash]

instance (kind : TokenKind) : Decidable kind.IsBinary :=
  inferInstanceAs (Decidable (kind ∈ _))

/-- The level of a token between operands, as a number. -/
def Token.rank (token : Token) : Int := (Precedence.ofKind token.kind).rank

/-- An operator between operands binds tighter than what is no operator, and
looser than an operator in front of an operand. -/
theorem Token.rank_bounds {token : Token} (isBinary : token.kind.IsBinary) :
    Precedence.lowest.rank < token.rank ∧ token.rank < Precedence.prefixed.rank := by
  unfold rank
  generalize token.kind = kind at isBinary ⊢
  revert isBinary
  cases kind <;> decide

namespace Rules

/-- Each operator between operands leans to the left or to the right. -/
def Sided (rules : Rules) : Prop :=
  ∀ kind : TokenKind, kind.IsBinary →
    rules.infixRule kind = some .leftward ∨ rules.infixRule kind = some .rightward

/-- The bound of the right operand of an operator: its level, or less by one if
it leans to the right. -/
def rightBound (rules : Rules) (operator : Token) : Int :=
  match rules.infixRule operator.kind with
  | some .rightward => operator.rank - 1
  | _ => operator.rank

theorem rightBound_bounds (rules : Rules) (operator : Token) :
    operator.rank - 1 ≤ rules.rightBound operator ∧
      rules.rightBound operator ≤ operator.rank := by
  unfold rightBound
  split <;> omega

end Rules

/-! ## Chains -/

/-- An operator and the phrase behind it. -/
structure Link where
  operator : Token
  phrase : Phrase
deriving DecidableEq, Repr

/-- Phrases with operators between them. -/
structure Chain where
  first : Phrase
  links : List Link
deriving DecidableEq, Repr

namespace Link

/-- The tokens of a link. -/
def tokens (link : Link) : List Token := link.operator :: link.phrase.tokens

/-- The operator may stand between operands and the phrase is one. -/
def Fits (link : Link) : Prop := link.operator.kind.IsBinary ∧ link.phrase.Fits

instance (link : Link) : Decidable link.Fits := inferInstanceAs (Decidable (_ ∧ _))

end Link

namespace Chain

/-- The tokens of a chain. -/
def tokens (chain : Chain) : List Token := chain.first.tokens ++ chain.links.flatMap Link.tokens

/-- The phrases and the operators of a chain are such. -/
def Fits (chain : Chain) : Prop := chain.first.Fits ∧ ∀ link ∈ chain.links, link.Fits

instance (chain : Chain) : Decidable chain.Fits := inferInstanceAs (Decidable (_ ∧ _))

theorem links_inj {links others : List Link} (fits : ∀ link ∈ links, link.Fits)
    (othersFit : ∀ link ∈ others, link.Fits)
    (tokensEq : links.flatMap Link.tokens = others.flatMap Link.tokens) : links = others := by
  induction links generalizing others with
  | nil =>
      cases others with
      | nil => rfl
      | cons other others => contradiction
  | cons link links inductionHypothesis =>
      cases others with
      | nil => contradiction
      | cons other others =>
          rcases List.forall_mem_cons.mp fits with ⟨linkFits, linksFit⟩
          rcases List.forall_mem_cons.mp othersFit with ⟨otherFits, moreFit⟩
          rcases link with ⟨operator, phrase⟩
          rcases other with ⟨otherOperator, otherPhrase⟩
          simp only [List.flatMap_cons, Link.tokens, List.cons_append, List.cons.injEq]
            at tokensEq
          rcases tokensEq with ⟨rfl, behindEq⟩
          rcases Phrase.append_inj linkFits.2 otherFits.2 behindEq with ⟨rfl, moreEq⟩
          rw [inductionHypothesis linksFit moreFit moreEq]

/-- A chain is known by its tokens. -/
theorem tokens_inj {chain other : Chain} (fits : chain.Fits) (otherFits : other.Fits)
    (tokensEq : chain.tokens = other.tokens) : chain = other := by
  rcases chain with ⟨first, links⟩
  rcases other with ⟨otherFirst, others⟩
  rcases Phrase.append_inj fits.1 otherFits.1 tokensEq with ⟨firstEq, linksEq⟩
  exact congrArg₂ Chain.mk firstEq (links_inj fits.2 otherFits.2 linksEq)

end Chain

/-! ## Trees -/

/-- Phrases put together by binary operators. An operator in front of an operand
belongs to a phrase: it never applies to a binary operator. -/
inductive OperatorTree where
  | leaf (phrase : Phrase)
  | node (operator : Token) (left right : OperatorTree)
deriving DecidableEq, Repr

namespace OperatorTree

/-- The tokens of a tree from left to right. -/
def tokens : OperatorTree → List Token
  | leaf phrase => phrase.tokens
  | node operator left right => left.tokens ++ operator :: right.tokens

/-- The operator at the root, if the tree is more than a phrase. -/
def root? : OperatorTree → Option Token
  | leaf _ => none
  | node operator _ _ => some operator

/-- Whether a tree respects levels and sides: an operator on the left of another
one reads its right operand at a bound that keeps the other one out, and an
operator on the right binds tighter than the bound it is read at. -/
def Balanced (rules : Rules) : OperatorTree → Prop
  | leaf phrase => phrase.Fits
  | node operator left right =>
      operator.kind.IsBinary ∧ left.Balanced rules ∧ right.Balanced rules ∧
        (∀ inner ∈ left.root?, operator.rank ≤ rules.rightBound inner) ∧
        ∀ inner ∈ right.root?, rules.rightBound operator < inner.rank

/-- The phrases and operators of a tree from left to right. -/
def chain : OperatorTree → Chain
  | leaf phrase => ⟨phrase, []⟩
  | node operator left right =>
      ⟨left.chain.first, left.chain.links ++ ⟨operator, right.chain.first⟩ :: right.chain.links⟩

variable {rules : Rules}

theorem chain_tokens (tree : OperatorTree) : tree.chain.tokens = tree.tokens := by
  induction tree with
  | leaf phrase => simp [chain, Chain.tokens, tokens]
  | node operator left right leftHypothesis rightHypothesis =>
      simp [chain, tokens, ← leftHypothesis, ← rightHypothesis, Chain.tokens, Link.tokens]

theorem Balanced.chain_fits {tree : OperatorTree} (balanced : tree.Balanced rules) :
    tree.chain.Fits := by
  induction tree with
  | leaf phrase => exact ⟨balanced, by simp [chain]⟩
  | node operator left right leftHypothesis rightHypothesis =>
      rcases balanced with ⟨isBinary, leftBalanced, rightBalanced, _, _⟩
      rcases leftHypothesis leftBalanced with ⟨leftFits, leftLinksFit⟩
      rcases rightHypothesis rightBalanced with ⟨rightFits, rightLinksFit⟩
      refine ⟨leftFits, List.forall_mem_append.mpr ⟨leftLinksFit, ?_⟩⟩
      exact List.forall_mem_cons.mpr ⟨⟨isBinary, rightFits⟩, rightLinksFit⟩

/-- No operator in a balanced tree binds looser than the root. -/
theorem Balanced.rank_root_le {tree : OperatorTree} (balanced : tree.Balanced rules)
    {root : Token} (isRoot : root ∈ tree.root?) :
    ∀ link ∈ tree.chain.links, root.rank ≤ link.operator.rank := by
  induction tree generalizing root with
  | leaf phrase => contradiction
  | node operator left right leftHypothesis rightHypothesis =>
      rcases balanced with ⟨_, leftBalanced, rightBalanced, leftBelow, rightBelow⟩
      cases isRoot
      simp only [chain, List.forall_mem_append, List.forall_mem_cons]
      refine ⟨?_, Int.le_refl _, ?_⟩
      · intro link linkMem
        cases left with
        | leaf phrase => contradiction
        | node inner _ _ =>
            have loosest := leftHypothesis leftBalanced rfl link linkMem
            have below := leftBelow inner rfl
            have bounds := rules.rightBound_bounds inner
            omega
      · intro link linkMem
        cases right with
        | leaf phrase => contradiction
        | node inner _ _ =>
            have loosest := rightHypothesis rightBalanced rfl link linkMem
            have below := rightBelow inner rfl
            have bounds := rules.rightBound_bounds operator
            omega

/-! ## Attaching links -/

/-- The tree with a link attached: as the root of the smallest part of the right
edge that the operator does not bind tighter than. -/
def attach (rules : Rules) (link : Link) : OperatorTree → OperatorTree
  | leaf first => node link.operator (leaf first) (leaf link.phrase)
  | node operator left right =>
      if link.operator.rank ≤ rules.rightBound operator then
        node link.operator (node operator left right) (leaf link.phrase)
      else node operator left (right.attach rules link)

theorem attach_tokens (link : Link) (tree : OperatorTree) :
    (tree.attach rules link).tokens = tree.tokens ++ link.tokens := by
  induction tree with
  | leaf first => rfl
  | node operator left right _ rightHypothesis =>
      rw [attach]
      split
      · rfl
      · simp [tokens, rightHypothesis]

/-- The root of a tree with a link attached is the old root or the link. -/
theorem root_attach (link : Link) (tree : OperatorTree) :
    (tree.attach rules link).root? = some link.operator ∨
      (tree.attach rules link).root? = tree.root? := by
  cases tree with
  | leaf first => exact .inl rfl
  | node operator left right =>
      rw [attach]
      split
      · exact .inl rfl
      · exact .inr rfl

theorem Balanced.attach {link : Link} (linkFits : link.Fits) {tree : OperatorTree}
    (balanced : tree.Balanced rules) : (tree.attach rules link).Balanced rules := by
  induction tree with
  | leaf first =>
      exact ⟨linkFits.1, balanced, linkFits.2, by simp [root?], by simp [root?]⟩
  | node operator left right _ rightHypothesis =>
      rw [OperatorTree.attach]
      split
      · next keptOut =>
          refine ⟨linkFits.1, balanced, linkFits.2, ?_, by simp [root?]⟩
          rintro inner ⟨rfl⟩
          exact keptOut
      · next tighter =>
          rcases balanced with ⟨isBinary, leftBalanced, rightBalanced, leftBelow, rightBelow⟩
          refine ⟨isBinary, leftBalanced, rightHypothesis rightBalanced, leftBelow, ?_⟩
          intro inner isRoot
          rcases root_attach link right with rootEq | rootEq
          · rw [rootEq] at isRoot
            cases isRoot
            exact Int.not_le.mp tighter
          · rw [rootEq] at isRoot
            exact rightBelow inner isRoot

/-- What binds tighter than the bound of a root is attached below it. -/
theorem foldl_attach_node {operator : Token} {links : List Link}
    (tighter : ∀ link ∈ links, rules.rightBound operator < link.operator.rank)
    (left right : OperatorTree) :
    links.foldl (fun tree link => tree.attach rules link) (node operator left right) =
      node operator left (links.foldl (fun tree link => tree.attach rules link) right) := by
  induction links generalizing right with
  | nil => rfl
  | cons link links inductionHypothesis =>
      rcases List.forall_mem_cons.mp tighter with ⟨linkTighter, linksTighter⟩
      rw [List.foldl_cons, List.foldl_cons, attach, if_neg (Int.not_le.mpr linkTighter),
        inductionHypothesis linksTighter]

end OperatorTree

/-! ## The tree of a chain -/

/-- The tree of a chain: its links are attached from left to right. -/
def Chain.tree (rules : Rules) (chain : Chain) : OperatorTree :=
  chain.links.foldl (fun tree link => tree.attach rules link) (.leaf chain.first)

namespace OperatorTree

variable {rules : Rules}

theorem foldl_attach_tokens (links : List Link) (tree : OperatorTree) :
    (links.foldl (fun tree link => tree.attach rules link) tree).tokens =
      tree.tokens ++ links.flatMap Link.tokens := by
  induction links generalizing tree with
  | nil => simp
  | cons link links inductionHypothesis =>
      rw [List.foldl_cons, inductionHypothesis, attach_tokens, List.flatMap_cons,
        List.append_assoc]

theorem Balanced.foldl_attach {links : List Link} (linksFit : ∀ link ∈ links, link.Fits)
    {tree : OperatorTree} (balanced : tree.Balanced rules) :
    (links.foldl (fun tree link => tree.attach rules link) tree).Balanced rules := by
  induction links generalizing tree with
  | nil => exact balanced
  | cons link links inductionHypothesis =>
      rcases List.forall_mem_cons.mp linksFit with ⟨linkFits, moreFit⟩
      exact inductionHypothesis moreFit (balanced.attach linkFits)

/-- A balanced tree is the tree of its chain. -/
theorem Balanced.tree_chain {tree : OperatorTree} (balanced : tree.Balanced rules) :
    tree.chain.tree rules = tree := by
  induction tree with
  | leaf phrase => rfl
  | node operator left right leftHypothesis rightHypothesis =>
      rcases balanced with ⟨_, leftBalanced, rightBalanced, leftBelow, rightBelow⟩
      have leftEq := leftHypothesis leftBalanced
      have rightEq := rightHypothesis rightBalanced
      have atRoot : left.attach rules ⟨operator, right.chain.first⟩ =
          node operator left (leaf right.chain.first) := by
        cases left with
        | leaf phrase => rfl
        | node inner _ _ => exact if_pos (leftBelow inner rfl)
      have tighter : ∀ link ∈ right.chain.links,
          rules.rightBound operator < link.operator.rank := by
        intro link linkMem
        cases right with
        | leaf phrase => contradiction
        | node inner _ _ =>
            exact Int.lt_of_lt_of_le (rightBelow inner rfl)
              (rightBalanced.rank_root_le rfl link linkMem)
      unfold Chain.tree at leftEq rightEq ⊢
      rw [chain, List.foldl_append, List.foldl_cons, leftEq, atRoot,
        foldl_attach_node tighter, rightEq]

end OperatorTree

/-- A chain has exactly one balanced tree. -/
theorem Chain.existsUnique_balanced (rules : Rules) {chain : Chain} (fits : chain.Fits) :
    ∃! tree : OperatorTree, tree.tokens = chain.tokens ∧ tree.Balanced rules := by
  refine ⟨chain.tree rules, ⟨?_, ?_⟩, ?_⟩
  · exact OperatorTree.foldl_attach_tokens _ _
  · exact OperatorTree.Balanced.foldl_attach fits.2 fits.1
  · rintro tree ⟨tokensEq, balanced⟩
    have chainEq : tree.chain = chain :=
      Chain.tokens_inj balanced.chain_fits fits (tree.chain_tokens.trans tokensEq)
    rw [← chainEq, balanced.tree_chain]

end PrattSyntax
