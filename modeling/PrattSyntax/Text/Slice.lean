/-!
# Slices

A slice is told by two integers. A negative one counts from the end, one beyond
either end is taken as that end, and a slice that ends before it begins is empty.
-/

namespace PrattSyntax.Text

/-- A bound as an index into a list of the given length. -/
def clampIndex (length : Nat) (bound : Int) : Nat :=
  if bound < 0 then (bound + length).toNat else min bound.toNat length

/-- The elements from one bound to another. -/
def slice {α : Type} (lower upper : Int) (elements : List α) : List α :=
  (elements.take (clampIndex elements.length upper)).drop (clampIndex elements.length lower)

/-- Between bounds inside a list, a slice drops and takes as it says. -/
theorem slice_of_le {α : Type} {lower upper : Nat} {elements : List α}
    (ordered : lower ≤ upper) (inside : upper ≤ elements.length) :
    slice lower upper elements = (elements.take upper).drop lower := by
  have clamped : ∀ bound : Nat, bound ≤ elements.length →
      clampIndex elements.length bound = bound := by
    intro bound le
    unfold clampIndex
    rw [if_neg (by omega)]
    simp [le]
  unfold slice
  rw [clamped upper inside, clamped lower (Nat.le_trans ordered inside)]

/-- Of three parts, the middle one is the slice between the lengths before and behind it. -/
theorem slice_append {α : Type} (front middle back : List α) :
    slice front.length (front ++ middle).length (front ++ middle ++ back) = middle := by
  have ordered : front.length ≤ (front ++ middle).length := by simp
  have inside : (front ++ middle).length ≤ (front ++ middle ++ back).length := by simp
  rw [slice_of_le ordered inside, List.take_left, List.drop_left]

end PrattSyntax.Text
