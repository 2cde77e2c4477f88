import PrattSyntax.Proofs.Lexer.Spacing
import PrattSyntax.Proofs.Outline.Rows
import PrattSyntax.Proofs.Outline.Shown

/-!
# What an outline tells

The outline of a program that was read from a text tells what is shown of the program, and
hides all else.

The text of an outline tells the rows, and a row tells its node by the label. A node tells
how many rows come below it, so a tree can be told from its rows whatever comes behind them.
Only the value of a `return` may be missing without a row of its own. There it matters that
what comes behind a statement is not indented below it.
-/

namespace PrattSyntax

/-! ## Names in quotation marks -/

namespace Text

theorem isPrintable_of_isNameChar {char : Char} (inName : isNameChar char) :
    isPrintable char := by
  rw [isNameChar_iff] at inName
  rw [isPrintable, if_pos (by omega), decide_eq_true_eq]
  omega

theorem escape_of_isNameChar {char : Char} (inName : isNameChar char) :
    escape '\'' char = [char] := by
  have ne_of_outside : ∀ other, ¬ isNameChar other → char ≠ other := by
    rintro other outside rfl
    exact outside inName
  have notMarked : ¬ (char = '\'' ∨ char = '\\') :=
    not_or.mpr ⟨ne_of_outside _ (by decide), ne_of_outside _ (by decide)⟩
  rw [escape, if_neg notMarked, if_neg (ne_of_outside _ (by decide)),
    if_neg (ne_of_outside _ (by decide)), if_neg (ne_of_outside _ (by decide)),
    if_pos (isPrintable_of_isNameChar inName)]

/-- A name is quoted as it is. -/
theorem quote_of_isNameChar {text : String} (inName : ∀ char ∈ text.toList, isNameChar char) :
    quote text = "'" ++ text ++ "'" := by
  have unmarked : ¬ ('\'' ∈ text.toList ∧ '"' ∉ text.toList) :=
    fun marked => absurd (inName _ marked.1) (by decide)
  have charsEq : text.toList.flatMap (escape '\'') = text.toList := by
    rw [List.flatMap_congr fun char charMem => escape_of_isNameChar (inName char charMem)]
    exact List.flatMap_singleton' _
  rw [quote, quoteMark, if_neg unmarked, charsEq, ← String.toList_inj]
  simp only [String.toList_ofList, String.toList_append, List.append_assoc]
  rfl

end Text

/-! ## Rows are plain -/

theorem repr_of_nonneg {value : Int} (nonnegative : 0 ≤ value) : value.repr = value.toNat.repr := by
  rw [Int.repr_eq_if, if_pos nonnegative]

theorem lineFeed_notMem_repr {value : Int} (nonnegative : 0 ≤ value) :
    '\n' ∉ value.repr.toList := by
  intro feedMem
  rw [repr_of_nonneg nonnegative, Nat.toList_repr] at feedMem
  have isDigit := Nat.isDigit_of_mem_toDigits (by decide) (by decide) feedMem
  exact absurd isDigit (by decide)

theorem eq_of_repr_eq {first second : Int} (firstNonneg : 0 ≤ first) (secondNonneg : 0 ≤ second)
    (reprEq : first.repr = second.repr) : first = second := by
  rw [repr_of_nonneg firstNonneg, repr_of_nonneg secondNonneg, ← String.toList_inj,
    Nat.toList_repr, Nat.toList_repr] at reprEq
  have numberEq : first.toNat = second.toNat := by
    rw [← Nat.ofDigitChars_ten_toDigits (n := first.toNat), reprEq,
      Nat.ofDigitChars_ten_toDigits]
  rw [← Int.toNat_of_nonneg firstNonneg, numberEq, Int.toNat_of_nonneg secondNonneg]

theorem Identifier.Legible.lineFeed_notMem {identifier : Identifier}
    (legible : identifier.Legible) : '\n' ∉ identifier.text.toList := by
  rw [legible.textEq]
  exact legible.legible.lineFeed_notMem

theorem Identifier.Legible.quote_eq {identifier : Identifier} (legible : identifier.Legible) :
    Text.quote identifier.text = "'" ++ identifier.text ++ "'" := by
  rw [legible.textEq]
  exact Text.quote_of_isNameChar (legible.legible.isNameChar legible.isName)

namespace Expr

theorem label_ne_empty (expr : Expr) : expr.label ≠ "" := by
  cases expr <;> simp [label]

theorem Legible.lineFeed_notMem_detail {expr : Expr} (legible : expr.Legible) :
    '\n' ∉ expr.detail.toList := by
  cases legible with
  | name target => simp [detail, target.quote_eq, target.lineFeed_notMem]
  | integer isInt nonnegative => simp [detail, lineFeed_notMem_repr nonnegative]
  | prefixed legible operatorEq inner => simp [detail, operatorEq, legible.lineFeed_notMem]

theorem Legible.row_plain {expr : Expr} (legible : expr.Legible) (depth : Nat) :
    OutlineRow.Plain ⟨depth, expr.label ++ expr.detail⟩ :=
  expr.labels.plain expr.label_ne_empty legible.lineFeed_notMem_detail depth

theorem Legible.outline_plain {expr : Expr} (legible : expr.Legible) (depth : Nat) :
    ∀ row ∈ expr.outline depth, row.Plain := by
  induction legible generalizing depth with
  | name target =>
      rw [outline_eq_cons, List.forall_mem_cons]
      exact ⟨(Legible.name target).row_plain depth, by simp [rowsBelow]⟩
  | integer isInt nonnegative =>
      rw [outline_eq_cons, List.forall_mem_cons]
      exact ⟨(Legible.integer isInt nonnegative).row_plain depth, by simp [rowsBelow]⟩
  | prefixed legible operatorEq inner inductionHypothesis =>
      rw [outline_eq_cons, List.forall_mem_cons]
      exact ⟨(Legible.prefixed legible operatorEq inner).row_plain depth,
        inductionHypothesis (depth + 1)⟩

theorem outlineOption_plain {value : Option Expr} (legible : ∀ expr ∈ value, expr.Legible)
    (depth : Nat) : ∀ row ∈ outlineOption depth value, row.Plain := by
  cases value with
  | none =>
      rw [outlineOption, List.forall_mem_singleton]
      constructor <;> simp
  | some expr => exact (legible expr rfl).outline_plain depth

end Expr

namespace Statement

theorem label_ne_empty (statement : Statement) : statement.label ≠ "" := by
  cases statement <;> simp [label]

theorem Legible.outline_plain {statement : Statement} (legible : statement.Legible) (depth : Nat) :
    ∀ row ∈ statement.outline depth, row.Plain := by
  have headPlain := statement.labels.plain statement.label_ne_empty
  rw [outline_eq_cons, List.forall_mem_cons]
  cases legible with
  | binding isLet legible target inner =>
      exact ⟨headPlain (by simp [detail, target.lineFeed_notMem]) depth,
        Expr.outlineOption_plain inner (depth + 1)⟩
  | @returning token value isReturn legible inner =>
      apply And.intro (headPlain (by simp [detail]) depth)
      cases value with
      | none => simp [rowsBelow]
      | some expr => exact (inner expr rfl).outline_plain (depth + 1)
  | expression shared inner =>
      exact ⟨headPlain (by simp [detail]) depth, Expr.outlineOption_plain inner (depth + 1)⟩

end Statement

theorem Program.outline_plain {program : Program}
    (legible : ∀ statement ∈ program.statements, statement.Legible) :
    ∀ row ∈ program.outline, row.Plain := by
  rw [outline, List.forall_mem_cons]
  constructor
  · constructor <;> simp
  · intro row rowMem
    rcases List.mem_flatMap.mp rowMem with ⟨statement, statementMem, inStatement⟩
    exact (legible statement statementMem).outline_plain 1 row inStatement

/-! ## Rows tell their tree -/

/-- Names with one text are shown alike. -/
theorem Identifier.Legible.shown_eq {identifier other : Identifier}
    (legible : identifier.Legible) (otherLegible : other.Legible)
    (textEq : identifier.text = other.text) : identifier.shown = other.shown := by
  have literalEq : identifier.token.literal = other.token.literal := by
    rw [← legible.textEq, textEq, otherLegible.textEq]
  have unplacedEq := legible.legible.unplaced_eq otherLegible.legible literalEq
  exact congrArg₂ Identifier.mk (Token.shown_eq_of_unplaced_eq unplacedEq) textEq

namespace Expr

/-- An expression says with its first row which kind it is and what is told of it. -/
theorem outline_cons_inj {first second : Expr} {depth : Nat} {rest more : List OutlineRow}
    (rowsEq : first.outline depth ++ rest = second.outline depth ++ more) :
    first.label = second.label ∧ first.detail = second.detail ∧
      first.rowsBelow (depth + 1) ++ rest = second.rowsBelow (depth + 1) ++ more := by
  rw [outline_eq_cons, outline_eq_cons] at rowsEq
  exact first.labels.cons_inj second.labels rowsEq

/-- An expression can be told from its rows, whatever comes behind them. -/
theorem Legible.outline_append_inj {first second : Expr} (firstLegible : first.Legible)
    (secondLegible : second.Legible) {depth : Nat} {rest more : List OutlineRow}
    (rowsEq : first.outline depth ++ rest = second.outline depth ++ more) :
    first.shown = second.shown ∧ rest = more := by
  induction firstLegible generalizing second depth with
  | @name identifier target =>
      obtain ⟨labelEq, detailEq, restEq⟩ := outline_cons_inj rowsEq
      cases secondLegible with
      | @name other otherTarget =>
          simp only [detail, target.quote_eq, otherTarget.quote_eq, String.append_left_inj,
            String.append_right_inj] at detailEq
          exact ⟨congrArg Expr.name (target.shown_eq otherTarget detailEq), restEq⟩
      | _ => exact absurd labelEq (by simp [label])
  | @integer token value isInt nonnegative =>
      obtain ⟨labelEq, detailEq, restEq⟩ := outline_cons_inj rowsEq
      cases secondLegible with
      | @integer other otherValue otherInt otherNonneg =>
          simp only [detail, String.append_left_inj, String.append_right_inj] at detailEq
          have valueEq := eq_of_repr_eq nonnegative otherNonneg detailEq
          exact ⟨congrArg₂ Expr.integer (Token.shown_eq_of_isInt isInt otherInt) valueEq, restEq⟩
      | _ => exact absurd labelEq (by simp [label])
  | @prefixed token operator operand legible operatorEq inner inductionHypothesis =>
      obtain ⟨labelEq, detailEq, belowEq⟩ := outline_cons_inj rowsEq
      cases secondLegible with
      | @prefixed other otherOperator otherOperand otherLegible otherEq otherInner =>
          obtain ⟨operandEq, restEq⟩ := inductionHypothesis otherInner belowEq
          simp only [detail, String.append_right_inj] at detailEq
          have literalEq : token.literal = other.literal := by
            rw [← operatorEq, detailEq, otherEq]
          have tokenEq :=
            Token.shown_eq_of_unplaced_eq (legible.unplaced_eq otherLegible literalEq)
          constructor
          · simp only [shown, tokenEq, detailEq, operandEq]
          · exact restEq
      | _ => exact absurd labelEq (by simp [label])

/-- A value can be told from its rows if what stands in place of a value is not taken for
one. -/
theorem elim_outline_append_inj (absent : List OutlineRow) {first second : Option Expr}
    (firstLegible : ∀ expr ∈ first, expr.Legible) (secondLegible : ∀ expr ∈ second, expr.Legible)
    {depth : Nat} {rest more : List OutlineRow}
    (restApart : ∀ expr : Expr, absent ++ rest ≠ expr.outline depth ++ more)
    (moreApart : ∀ expr : Expr, absent ++ more ≠ expr.outline depth ++ rest)
    (rowsEq : first.elim absent (outline depth) ++ rest =
      second.elim absent (outline depth) ++ more) :
    first.map shown = second.map shown ∧ rest = more := by
  cases first with
  | none =>
      cases second with
      | none => exact ⟨rfl, List.append_cancel_left rowsEq⟩
      | some expr => exact absurd rowsEq (restApart expr)
  | some expr =>
      cases second with
      | none => exact absurd rowsEq.symm (moreApart expr)
      | some other =>
          obtain ⟨shownEq, restEq⟩ :=
            (firstLegible expr rfl).outline_append_inj (secondLegible other rfl) rowsEq
          exact ⟨congrArg some shownEq, restEq⟩

/-- The row of a value that is missing is no row of an expression. -/
theorem missing_cons_ne_outline_append (expr : Expr) (depth : Nat) (rest more : List OutlineRow) :
    ⟨depth, "<missing>"⟩ :: rest ≠ expr.outline depth ++ more := by
  intro rowsEq
  have missing : Labels "" "<missing>" := by
    constructor <;> simp
  rw [outline_eq_cons] at rowsEq
  exact expr.label_ne_empty (missing.cons_inj expr.labels rowsEq).1.symm

theorem outlineOption_eq_elim (depth : Nat) (value : Option Expr) :
    outlineOption depth value = value.elim [⟨depth, "<missing>"⟩] (outline depth) := by
  cases value <;> rfl

/-- A value that should be there, or the want of it, can be told from the rows. -/
theorem outlineOption_append_inj {first second : Option Expr}
    (firstLegible : ∀ expr ∈ first, expr.Legible) (secondLegible : ∀ expr ∈ second, expr.Legible)
    {depth : Nat} {rest more : List OutlineRow}
    (rowsEq : outlineOption depth first ++ rest = outlineOption depth second ++ more) :
    first.map shown = second.map shown ∧ rest = more := by
  rw [outlineOption_eq_elim, outlineOption_eq_elim] at rowsEq
  apply elim_outline_append_inj _ firstLegible secondLegible _ _ rowsEq
  · exact fun expr => expr.missing_cons_ne_outline_append depth rest more
  · exact fun expr => expr.missing_cons_ne_outline_append depth more rest

end Expr

/-- Whether rows that go on behind a value are not indented as far as the value is. -/
def OutlineRow.Outside (depth : Nat) (rows : List OutlineRow) : Prop :=
  ∀ row ∈ rows.head?, row.depth < depth

theorem OutlineRow.Outside.ne_outline_append {depth : Nat} {rows : List OutlineRow}
    (outside : Outside depth rows) (rest : List OutlineRow) (expr : Expr) :
    rows ≠ expr.outline depth ++ rest := by
  rintro rfl
  rw [Expr.outline_eq_cons] at outside
  exact Nat.lt_irrefl depth (outside _ rfl)

namespace Statement

/-- An expression alone is shown with its first token. -/
theorem shown_expression_eq {token other : Token} {value otherValue : Option Expr}
    (shared : ∀ expr ∈ value, expr.token = token)
    (otherShared : ∀ expr ∈ otherValue, expr.token = other)
    (valueEq : value.map Expr.shown = otherValue.map Expr.shown) :
    (expression token value).shown = (expression other otherValue).shown := by
  cases value with
  | none =>
      obtain rfl := Option.map_eq_none_iff.mp valueEq.symm
      rfl
  | some expr =>
      obtain ⟨otherExpr, rfl, shownEq⟩ := Option.map_eq_some_iff.mp valueEq.symm
      have tokenEq : token.shown = other.shown := by
        rw [← shared expr rfl, ← otherShared otherExpr rfl, ← Expr.shown_token,
          ← Expr.shown_token, shownEq]
      simp only [shown, tokenEq, shownEq]

/-- A statement can be told from its rows if those behind it are no deeper. -/
theorem Legible.outline_append_inj {first second : Statement} (firstLegible : first.Legible)
    (secondLegible : second.Legible) {depth : Nat} {rest more : List OutlineRow}
    (restOutside : OutlineRow.Outside (depth + 1) rest)
    (moreOutside : OutlineRow.Outside (depth + 1) more)
    (rowsEq : first.outline depth ++ rest = second.outline depth ++ more) :
    first.shown = second.shown ∧ rest = more := by
  rw [outline_eq_cons, outline_eq_cons] at rowsEq
  obtain ⟨labelEq, detailEq, belowEq⟩ := first.labels.cons_inj second.labels rowsEq
  cases firstLegible with
  | binding isLet legible target inner =>
      cases secondLegible with
      | binding otherLet otherLegible otherTarget otherInner =>
          obtain ⟨valueEq, restEq⟩ := Expr.outlineOption_append_inj inner otherInner belowEq
          have wordEq := Token.shown_eq_of_unplaced_eq
            (legible.unplaced_eq_of_spelled otherLegible isLet otherLet rfl)
          have nameEq := target.shown_eq otherTarget ((String.append_right_inj _).mp detailEq)
          constructor
          · simp only [shown, wordEq, nameEq, valueEq]
          · exact restEq
      | _ => exact absurd labelEq (by simp [label])
  | returning isReturn legible inner =>
      cases secondLegible with
      | returning otherReturn otherLegible otherInner =>
          obtain ⟨valueEq, restEq⟩ := Expr.elim_outline_append_inj [] inner otherInner
            (restOutside.ne_outline_append more) (moreOutside.ne_outline_append rest) belowEq
          have wordEq := Token.shown_eq_of_unplaced_eq
            (legible.unplaced_eq_of_spelled otherLegible isReturn otherReturn rfl)
          constructor
          · simp only [shown, wordEq, valueEq]
          · exact restEq
      | _ => exact absurd labelEq (by simp [label])
  | expression shared inner =>
      cases secondLegible with
      | expression otherShared otherInner =>
          obtain ⟨valueEq, restEq⟩ := Expr.outlineOption_append_inj inner otherInner belowEq
          exact ⟨shown_expression_eq shared otherShared valueEq, restEq⟩
      | _ => exact absurd labelEq (by simp [label])

/-- Statements in a row are not indented one below the other. -/
theorem outside_flatMap (statements : List Statement) (depth : Nat) :
    OutlineRow.Outside (depth + 1) (statements.flatMap (outline depth)) := by
  intro row isFirst
  cases statements with
  | nil => contradiction
  | cons statement statements =>
      rw [List.flatMap_cons, outline_eq_cons] at isFirst
      obtain rfl := Option.some.inj isFirst
      exact Nat.lt_succ_self depth

/-- Statements can be told from their rows. -/
theorem flatMap_outline_inj {statements others : List Statement}
    (legible : ∀ statement ∈ statements, statement.Legible)
    (othersLegible : ∀ statement ∈ others, statement.Legible) {depth : Nat}
    (rowsEq : statements.flatMap (outline depth) = others.flatMap (outline depth)) :
    statements.map shown = others.map shown := by
  induction statements generalizing others with
  | nil =>
      cases others with
      | nil => rfl
      | cons other others =>
          rw [List.flatMap_nil, List.flatMap_cons, outline_eq_cons] at rowsEq
          contradiction
  | cons statement statements inductionHypothesis =>
      rcases List.forall_mem_cons.mp legible with ⟨headLegible, tailLegible⟩
      cases others with
      | nil =>
          rw [List.flatMap_nil, List.flatMap_cons, outline_eq_cons] at rowsEq
          contradiction
      | cons other others =>
          rcases List.forall_mem_cons.mp othersLegible with ⟨otherLegible, othersLegible⟩
          rw [List.flatMap_cons, List.flatMap_cons] at rowsEq
          obtain ⟨headEq, restEq⟩ := headLegible.outline_append_inj otherLegible
            (outside_flatMap statements depth) (outside_flatMap others depth) rowsEq
          rw [List.map_cons, List.map_cons, headEq, inductionHypothesis tailLegible othersLegible
            restEq]

end Statement

/-- A program of legible tokens can be told from its outline. -/
theorem Program.shown_eq_of_dump_eq {program other : Program}
    (legible : ∀ statement ∈ program.statements, statement.Legible)
    (otherLegible : ∀ statement ∈ other.statements, statement.Legible)
    (dumpEq : program.dump = other.dump) : program.shown = other.shown := by
  have rowsEq := OutlineRow.lines_inj (outline_plain legible) (outline_plain otherLegible) dumpEq
  have statementsEq :=
    Statement.flatMap_outline_inj legible otherLegible (List.cons.inj rowsEq).2
  exact congrArg Program.mk statementsEq

/-! ## Texts -/

/-- The tokens that the statements of a text keep are legible. -/
theorem parseWith_legible (limit : Int) (text : List UInt8) :
    ∀ statement ∈ (parseWith { maxDepth := limit } text).program.statements,
      statement.Legible := by
  intro statement statementMem
  obtain ⟨built, kept⟩ := Parser.program_builds limit (Parser.ofBytes text) rfl
  apply (built statement statementMem).1.legible
  intro token tokenMem legal
  have inText : token ∈ (Cursor.ofBytes text).tokens :=
    kept.subset (List.mem_flatMap.mpr ⟨statement, statementMem, tokenMem⟩)
  exact (Cursor.tokens_segmentation (Cursor.ofBytes_standsIn text)).legible token inText legal

/-- The outline of a text tells the statements it is read as, whether it has faults or not:
their kinds, the names they bind, which values they have, and the names, operators and
integers in each value. It hides nothing else than places, the spelling of integers and the
token of an expression that is missing. -/
theorem parseWith_dump_eq_iff (limit otherLimit : Int) (text otherText : List UInt8) :
    (parseWith { maxDepth := limit } text).program.dump =
        (parseWith { maxDepth := otherLimit } otherText).program.dump ↔
      (parseWith { maxDepth := limit } text).program.shown =
        (parseWith { maxDepth := otherLimit } otherText).program.shown := by
  constructor
  · intro dumpEq
    exact Program.shown_eq_of_dump_eq (parseWith_legible limit text)
      (parseWith_legible otherLimit otherText) dumpEq
  · intro shownEq
    rw [← Program.dump_shown, shownEq, Program.dump_shown]

/-- Zeros in front of a number do not show, nor does what is found where an expression
should be; that a `return` has no value does. -/
example : (parse "let x = 007; @ return !x".toUTF8.toList).program.dump =
      (parse "let x = 7 ) return !x;".toUTF8.toList).program.dump ∧
    (parse "return x;".toUTF8.toList).program.dump ≠
      (parse "return; x;".toUTF8.toList).program.dump := by
  decide +kernel

end PrattSyntax
