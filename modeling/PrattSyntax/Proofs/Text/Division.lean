import Mathlib.Data.List.TakeWhile

/-!
# Division of a list

A list leaves a class of elements for the first time at one place. So a front that stays in
the class can be told from what is behind it, if that begins outside of the class.
-/

namespace PrattSyntax.Text

variable {α : Type} {inside : α → Bool} {front rest other more : List α}

/-- Whether a list is divided where it leaves a class: everything in front belongs to the
class, and what comes next does not. -/
structure Divides (inside : α → Bool) (front rest : List α) : Prop where
  stays : ∀ element ∈ front, inside element
  leaves : ∀ next ∈ rest.head?, ¬ inside next

theorem Divides.takeWhile_eq (divides : Divides inside front rest) :
    (front ++ rest).takeWhile inside = front := by
  rw [List.takeWhile_append_of_pos divides.stays]
  cases rest with
  | nil => exact List.append_nil front
  | cons next rest =>
      rw [List.takeWhile_cons_of_neg (divides.leaves next rfl), List.append_nil]

theorem Divides.dropWhile_eq (divides : Divides inside front rest) :
    (front ++ rest).dropWhile inside = rest := by
  rw [List.dropWhile_append_of_pos divides.stays]
  cases rest with
  | nil => rfl
  | cons next rest => exact List.dropWhile_cons_of_neg (divides.leaves next rfl)

/-- A list leaves a class for the first time at one place only. -/
theorem Divides.append_inj (divides : Divides inside front rest)
    (others : Divides inside other more) (listEq : front ++ rest = other ++ more) :
    front = other ∧ rest = more := by
  have frontEq : front = other :=
    calc
      front = (front ++ rest).takeWhile inside := divides.takeWhile_eq.symm
      _ = (other ++ more).takeWhile inside := congrArg (List.takeWhile inside) listEq
      _ = other := others.takeWhile_eq
  subst frontEq
  exact ⟨rfl, List.append_cancel_left listEq⟩

end PrattSyntax.Text
