import PrattSyntax.Toml.Document

/-!
# More room

What is read or shown with some room is read or shown alike with more, unless there was too
little. Only arrays and tables ask how much room there is, so the proofs follow the recursion
of the readers and let everything else be the same on both sides.
-/

namespace PrattSyntax.Toml

/-- The second result is the first one, unless that stops at a limit. -/
def Refines {ε α : Type} (limit : ε) (first second : Except ε α) : Prop :=
  first = .error limit ∨ second = first

namespace Refines

variable {ε α β : Type} {limit : ε} {first second : Except ε α}

theorem refl (result : Except ε α) : Refines limit result result := .inr rfl

theorem bind {next other : α → Except ε β} (refines : Refines limit first second)
    (goesOn : ∀ value, Refines limit (next value) (other value)) :
    Refines limit (first >>= next) (second >>= other) := by
  rcases refines with rfl | rfl
  · exact .inl rfl
  · cases second with
    | error stop => exact refl _
    | ok value => exact goesOn value

/-- What is done with either result does not go back to the room. -/
theorem andThen {next : α → Except ε β} (refines : Refines limit first second) :
    Refines limit (first >>= next) (second >>= next) :=
  refines.bind fun _ => refl _

theorem eq_of_ne (refines : Refines limit first second) (within : first ≠ .error limit) :
    second = first :=
  refines.resolve_left within

end Refines

variable {room more : Nat}

/-! ## Values -/

/-- Values, the entries of a table and the elements of an array with more room, together. -/
theorem values_refine :
    (∀ room input more, room ≤ more →
        Refines .tooDeep (value room input) (value more input)) ∧
      (∀ room inline input more, room ≤ more →
        Refines .tooDeep (entries room inline input) (entries more inline input)) ∧
      (∀ room input more, room ≤ more →
        Refines .tooDeep (elements room input) (elements more input)) := by
  refine value.mutual_induct _ _ _ ?tightArray ?array ?tightTable ?emptyTable ?table ?scalar
    ?entries ?elements
  case tightArray =>
    intro room rest tight more _
    left
    rw [value, if_pos tight]
  case array =>
    intro room rest roomy inductionHypothesis more le
    have alsoRoomy : ¬ more < arrayCalls := fun tight => roomy (Nat.lt_of_le_of_lt le tight)
    rw [value_array roomy, value_array alsoRoomy]
    exact (inductionHypothesis _ (Nat.sub_le_sub_right le _)).andThen
  case tightTable =>
    intro room rest tight more _
    left
    rw [value, if_pos tight]
  case emptyTable =>
    intro room rest roomy front behind closed more le
    have alsoRoomy : ¬ more < tableCalls := fun tight => roomy (Nat.lt_of_le_of_lt le tight)
    rw [value_emptyTable roomy closed, value_emptyTable alsoRoomy closed]
    exact .refl _
  case table =>
    intro room rest roomy front others inductionHypothesis more le
    have alsoRoomy : ¬ more < tableCalls := fun tight => roomy (Nat.lt_of_le_of_lt le tight)
    rw [value_table roomy others, value_table alsoRoomy others]
    exact (inductionHypothesis _ (Nat.sub_le_sub_right le _)).andThen
  case scalar =>
    intro room input noArray noTable more _
    rw [value.eq_3 room input noArray noTable, value.eq_3 more input noArray noTable]
    exact .refl _
  case entries =>
    intro room inline input valueRefines restRefines more le
    rw [entries, entries]
    refine .bind (.refl _) fun path => .bind (valueRefines path more le) fun first => ?_
    refine .bind (.refl _) fun inline => ?_
    dsimp only
    split
    · exact .refl _
    · next rest comma => exact (restRefines path first inline rest comma more le).andThen
    · exact .refl _
  case elements =>
    intro room input valueRefines restRefines more le
    rw [elements, elements]
    refine .bind (.refl _) fun front => ?_
    split
    · exact .refl _
    · refine .bind (valueRefines front more le) fun first => .bind (.refl _) fun behind => ?_
      split
      · exact .refl _
      · next rest comma => exact (restRefines front first behind rest comma more le).andThen
      · exact .refl _

/-! ## Statements -/

theorem entry_refines (le : room ≤ more) (input : List Char) :
    Refines .tooDeep (entry room input) (entry more input) := by
  refine .bind (.refl _) fun path => .andThen ?_
  exact .andThen (values_refine.1 room path.rest more le)

theorem statement_refines (le : room ≤ more) (document : Document) (input : List Char) :
    Refines .tooDeep (statement room document input) (statement more document input) := by
  rw [statement.eq_def, statement.eq_def]
  split
  · exact .refl _
  · exact .refl _
  · exact .refl _
  · split
    · exact (entry_refines le _).andThen
    · exact .refl _
  · exact .refl _

theorem statementLine_refines (le : room ≤ more) (document : Document) (input : List Char) :
    Refines .tooDeep (statementLine room document input) (statementLine more document input) :=
  (statement_refines le document input).andThen

theorem statements_refines (le : room ≤ more) (document : Document) (input : List Char) :
    Refines .tooDeep (statements room document input) (statements more document input) := by
  induction document, input using statements.induct with
  | case1 document input front ended =>
      rw [statements_of_end ended, statements_of_end ended]
      exact .refl _
  | case2 document input front rest fed inductionHypothesis =>
      rw [statements_of_feed fed, statements_of_feed fed]
      exact inductionHypothesis
  | case3 document input front notEnded notFed inductionHypothesis =>
      rw [statements_of_statement notEnded notFed, statements_of_statement notEnded notFed]
      refine .bind (statementLine_refines le document _) fun said => ?_
      split
      · exact .refl _
      · next rest fed => exact inductionHypothesis said rest fed
      · exact .refl _

/-- A settings file is read alike with more room. -/
theorem load_refines (le : room ≤ more) (bytes : List UInt8) :
    Refines .tooDeep (load room bytes) (load more bytes) := by
  rw [load, load]
  cases Text.decode? bytes with
  | none => exact .refl _
  | some text =>
      dsimp only [parse]
      rcases statements_refines le {} (withoutReturns text.toList) with tight | same
      · left
        rw [tight]
        rfl
      · right
        rw [same]

/-! ## Shown values -/

namespace Value

mutual

theorem shownInside_refines {room more : Nat} (le : room ≤ more) (value : Value) :
    Refines .tooDeep (value.shownInside room) (value.shownInside more) := by
  rw [shownInside.eq_def, shownInside.eq_def]
  by_cases tight : room < value.calls
  · left
    rw [if_pos tight]
  · have alsoRoomy : ¬ more < value.calls := Nat.not_lt_of_le <|
      Nat.le_trans (Nat.le_of_not_lt tight) le
    rw [if_neg tight, if_neg alsoRoomy]
    cases value with
    | array elements => exact (shownElements_refines (Nat.sub_le_sub_right le 1) elements).andThen
    | table entries => exact (shownEntries_refines (Nat.sub_le_sub_right le 1) entries).andThen
    | _ => exact .refl _

theorem shownElements_refines {room more : Nat} (le : room ≤ more) (elements : List Value) :
    Refines .tooDeep (shownElements room elements) (shownElements more elements) := by
  cases elements with
  | nil => exact .refl _
  | cons value rest =>
      rw [shownElements, shownElements]
      exact .bind (shownInside_refines le value) fun _ => (shownElements_refines le rest).andThen

theorem shownEntries_refines {room more : Nat} (le : room ≤ more)
    (entries : List (String × Value)) :
    Refines .tooDeep (shownEntries room entries) (shownEntries more entries) := by
  cases entries with
  | nil => exact .refl _
  | cons entry rest =>
      rw [shownEntries, shownEntries]
      exact .bind (shownInside_refines le entry.2) fun _ => (shownEntries_refines le rest).andThen

end

/-- A value is shown alike with more room. -/
theorem shown_refines (le : room ≤ more) (value : Value) :
    Refines .tooDeep (value.shown room) (value.shown more) := by
  cases value with
  | text content => exact .refl _
  | moment time => exact .refl _
  | _ => exact shownInside_refines le _

end Value

end PrattSyntax.Toml
