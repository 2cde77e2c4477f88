import Mathlib.Data.List.Basic
import PrattSyntax.Proofs.Text.Division
import PrattSyntax.Tree.Outline

/-!
# Rows of an outline

An outline is written row by row, and the rows can be told from the text: the spaces in front
show the depth of a row, and a line feed ends it. For this the text of a row may begin with
no space and hold no line feed.

The row of a node is a label of letters and what is said of the node, which begins with
another character. So label and detail can be told from the row.
-/

namespace PrattSyntax

open Text (Divides)

namespace OutlineRow

variable {row other : OutlineRow} {rest more : List Char}

/-- Whether the text of a row shows where it begins and where it ends. -/
structure Plain (row : OutlineRow) : Prop where
  flush : ∀ first ∈ row.text.toList.head?, first ≠ ' '
  whole : '\n' ∉ row.text.toList

/-! ## Rows and lines -/

/-- The spaces in front of a row. -/
def indentation (row : OutlineRow) : List Char := List.replicate (2 * row.depth) ' '

theorem toList_join_replicate (depth : Nat) :
    (String.join (List.replicate depth "  ")).toList = List.replicate (2 * depth) ' ' := by
  induction depth with
  | zero => rfl
  | succ depth inductionHypothesis =>
      rw [List.replicate_succ, String.join_cons, String.toList_append, inductionHypothesis]
      rfl

theorem line_toList (row : OutlineRow) :
    row.line.toList = row.indentation ++ row.text.toList ++ ['\n'] := by
  rw [line, String.toList_append, String.toList_append, toList_join_replicate]
  rfl

/-- The text of a row follows its spaces. -/
theorem Plain.indentation_divides (plain : row.Plain) :
    Divides (· == ' ') row.indentation row.text.toList := by
  constructor
  · intro char charMem
    exact beq_iff_eq.mpr (List.eq_of_mem_replicate charMem)
  · intro first isFirst isSpace
    exact plain.flush first isFirst (beq_iff_eq.mp isSpace)

/-- The first line feed of a row is the one that ends it. -/
theorem Plain.line_divides (plain : row.Plain) (rest : List Char) :
    Divides (· != '\n') (row.indentation ++ row.text.toList) ('\n' :: rest) := by
  constructor
  · intro char charMem
    apply bne_iff_ne.mpr
    rintro rfl
    rcases List.mem_append.mp charMem with inFront | inText
    · exact absurd (List.eq_of_mem_replicate inFront) (by decide)
    · exact plain.whole inText
  · rintro next ⟨rfl⟩
    decide

/-- A row can be told from its line, whatever comes behind it. -/
theorem line_append_inj (plain : row.Plain) (otherPlain : other.Plain)
    (linesEq : row.line.toList ++ rest = other.line.toList ++ more) :
    row = other ∧ rest = more := by
  simp only [line_toList, List.append_assoc _ ['\n'], List.singleton_append] at linesEq
  obtain ⟨lineEq, restEq⟩ :=
    (plain.line_divides rest).append_inj (otherPlain.line_divides more) linesEq
  obtain ⟨spacesEq, textEq⟩ :=
    plain.indentation_divides.append_inj otherPlain.indentation_divides lineEq
  have depthEq : row.depth = other.depth :=
    Nat.eq_of_mul_eq_mul_left (by decide) (List.replicate_inj.mp spacesEq).1
  constructor
  · rcases row with ⟨depth, text⟩
    rcases other with ⟨otherDepth, otherText⟩
    exact congrArg₂ OutlineRow.mk depthEq (String.toList_inj.mp textEq)
  · exact (List.cons.inj restEq).2

theorem line_toList_ne_nil (row : OutlineRow) : row.line.toList ≠ [] := by
  rw [line_toList]
  exact List.append_ne_nil_of_right_ne_nil _ (List.cons_ne_nil _ _)

/-- Rows can be told from what they are written as. -/
theorem lines_inj {rows others : List OutlineRow} (plain : ∀ row ∈ rows, row.Plain)
    (othersPlain : ∀ row ∈ others, row.Plain)
    (textEq : String.join (rows.map line) = String.join (others.map line)) : rows = others := by
  have charsEq := congrArg String.toList textEq
  simp only [String.toList_join, List.flatMap_map] at charsEq
  clear textEq
  induction rows generalizing others with
  | nil =>
      cases others with
      | nil => rfl
      | cons other others =>
          rw [List.flatMap_nil, List.flatMap_cons, eq_comm, List.append_eq_nil_iff] at charsEq
          exact absurd charsEq.1 other.line_toList_ne_nil
  | cons row rows inductionHypothesis =>
      rcases List.forall_mem_cons.mp plain with ⟨rowPlain, rowsPlain⟩
      cases others with
      | nil =>
          rw [List.flatMap_nil, List.flatMap_cons, List.append_eq_nil_iff] at charsEq
          exact absurd charsEq.1 row.line_toList_ne_nil
      | cons other others =>
          rcases List.forall_mem_cons.mp othersPlain with ⟨otherPlain, othersPlain⟩
          rw [List.flatMap_cons, List.flatMap_cons] at charsEq
          obtain ⟨rowEq, restEq⟩ := line_append_inj rowPlain otherPlain charsEq
          rw [rowEq, inductionHypothesis rowsPlain othersPlain restEq]

end OutlineRow

/-! ## Labels -/

/-- Whether a label is made of letters and what is said behind it begins otherwise. -/
def Labels (label detail : String) : Prop := Divides Char.isAlpha label.toList detail.toList

namespace Labels

variable {label detail other more : String}

/-- Label and detail can be told from the text that they make up. -/
theorem append_inj (labels : Labels label detail) (others : Labels other more)
    (textEq : label ++ detail = other ++ more) : label = other ∧ detail = more := by
  have charsEq := congrArg String.toList textEq
  rw [String.toList_append, String.toList_append] at charsEq
  obtain ⟨labelEq, detailEq⟩ := Divides.append_inj labels others charsEq
  exact ⟨String.toList_inj.mp labelEq, String.toList_inj.mp detailEq⟩

/-- Label and detail can be told from a row among others. -/
theorem cons_inj (labels : Labels label detail) (others : Labels other more) {depth : Nat}
    {rows otherRows : List OutlineRow}
    (rowsEq : (⟨depth, label ++ detail⟩ : OutlineRow) :: rows = ⟨depth, other ++ more⟩ :: otherRows) :
    label = other ∧ detail = more ∧ rows = otherRows := by
  obtain ⟨rowEq, restEq⟩ := List.cons.inj rowsEq
  obtain ⟨labelEq, detailEq⟩ := labels.append_inj others (congrArg OutlineRow.text rowEq)
  exact ⟨labelEq, detailEq, restEq⟩

/-- A row with a label is plain if what is said in it is in one line. -/
theorem plain (labels : Labels label detail) (labelled : label ≠ "")
    (whole : '\n' ∉ detail.toList) (depth : Nat) : OutlineRow.Plain ⟨depth, label ++ detail⟩ := by
  constructor
  · intro first isFirst
    rw [String.toList_append, List.head?_append_of_ne_nil _ (by simpa using labelled)] at isFirst
    have isLetter := labels.stays first (List.mem_of_mem_head? isFirst)
    rintro rfl
    exact absurd isLetter (by decide)
  · intro feedMem
    rw [String.toList_append, List.mem_append] at feedMem
    rcases feedMem with inLabel | inDetail
    · exact absurd (labels.stays '\n' inLabel) (by decide)
    · exact whole inDetail

end Labels

/-! ## The row of a node -/

namespace Expr

/-- What the row of an expression says behind the label. -/
def detail : Expr → String
  | .name identifier => "(" ++ Text.quote identifier.text ++ ")"
  | .integer _ value => "(" ++ toString value ++ ")"
  | .prefixed _ operator _ => " " ++ operator
  | .infixed _ text => "(" ++ Text.quote text ++ ")"

/-- The rows below the one of an expression. -/
def rowsBelow (depth : Nat) : Expr → List OutlineRow
  | .prefixed _ _ operand => operand.outline depth
  | _ => []

theorem outline_eq_cons (depth : Nat) (expr : Expr) :
    expr.outline depth = ⟨depth, expr.label ++ expr.detail⟩ :: expr.rowsBelow (depth + 1) := by
  cases expr with
  | prefixed token operator operand =>
      rw [outline, label, detail, ← String.append_assoc]
      rfl
  | _ =>
      rw [outline, label, detail, ← String.append_assoc, ← String.append_assoc]
      rfl

theorem labels (expr : Expr) : Labels expr.label expr.detail := by
  constructor
  · cases expr <;>
      simp only [label] <;>
      exact List.all_eq_true.mp (by decide +kernel)
  · cases expr <;>
      simp [detail]

end Expr

namespace Statement

/-- What the row of a statement says behind the label. -/
def detail : Statement → String
  | .binding _ name _ => " " ++ name.text
  | .returning _ _ => ""
  | .expression _ _ => ""

/-- The rows below the one of a statement. -/
def rowsBelow (depth : Nat) : Statement → List OutlineRow
  | .binding _ _ value => Expr.outlineOption depth value
  | .returning _ value => value.elim [] (Expr.outline depth)
  | .expression _ value => Expr.outlineOption depth value

theorem outline_eq_cons (depth : Nat) (statement : Statement) :
    statement.outline depth =
      ⟨depth, statement.label ++ statement.detail⟩ :: statement.rowsBelow (depth + 1) := by
  cases statement with
  | binding token name value =>
      rw [outline, label, detail, ← String.append_assoc]
      rfl
  | returning token value => cases value <;> rfl
  | expression token value => rfl

theorem labels (statement : Statement) : Labels statement.label statement.detail := by
  constructor
  · cases statement <;>
      simp only [label] <;>
      exact List.all_eq_true.mp (by decide +kernel)
  · cases statement <;>
      simp [detail]

end Statement

end PrattSyntax
