import Mathlib.Data.List.DropRight
import PrattSyntax.Proofs.Text.Encoding
import PrattSyntax.Text.Line

/-!
# Lines of a text

Cut at one element, a list is as many pieces as this element occurs, and one more. The
piece that a place of the list is in is told by the occurrences before that place: it goes
back to the last of them and on to the next one.

A line feed is a byte of its own and part of no other character, so the lines of the bytes
are the bytes of the lines.
-/

namespace PrattSyntax.Text

/-! ## Pieces of a list -/

section Pieces

variable {α : Type} [DecidableEq α] {element : α}

theorem splitAt_cons_self (element : α) (rest : List α) :
    splitAt element (element :: rest) = [] :: splitAt element rest :=
  if_pos rfl

theorem splitAt_ne_nil (element : α) (elements : List α) : splitAt element elements ≠ [] := by
  cases elements with
  | nil => exact List.cons_ne_nil _ _
  | cons head rest =>
      rw [splitAt]
      split
      · exact List.cons_ne_nil _ _
      · split <;> exact List.cons_ne_nil _ _

/-- An element that does not cut goes to the first piece. -/
theorem splitAt_cons_of_ne {head : α} (notCut : head ≠ element) (rest : List α) :
    splitAt element (head :: rest) = (splitAt element rest).modifyHead (head :: ·) := by
  rw [splitAt, if_neg notCut]
  cases piecesEq : splitAt element rest with
  | nil => exact absurd piecesEq (splitAt_ne_nil element rest)
  | cons piece more => rfl

theorem splitAt_append_of_notMem {front : List α} (noCut : element ∉ front) (rest : List α) :
    splitAt element (front ++ rest) = (splitAt element rest).modifyHead (front ++ ·) := by
  induction front with
  | nil =>
      rw [List.nil_append]
      cases splitAt element rest <;> rfl
  | cons head front inductionHypothesis =>
      rw [List.mem_cons, not_or] at noCut
      rw [List.cons_append, splitAt_cons_of_ne (Ne.symm noCut.1), inductionHypothesis noCut.2]
      cases splitAt element rest <;> rfl

/-- At a cut the pieces before it and those behind it are put together. -/
theorem splitAt_append_cons (front rest : List α) :
    splitAt element (front ++ element :: rest) = splitAt element front ++ splitAt element rest := by
  induction front with
  | nil => exact splitAt_cons_self element rest
  | cons head front inductionHypothesis =>
      by_cases cuts : head = element
      · subst cuts
        rw [List.cons_append, splitAt_cons_self, splitAt_cons_self, inductionHypothesis]
        rfl
      · rw [List.cons_append, splitAt_cons_of_ne cuts, splitAt_cons_of_ne cuts,
          inductionHypothesis]
        cases piecesEq : splitAt element front with
        | nil => exact absurd piecesEq (splitAt_ne_nil element front)
        | cons piece more => rfl

theorem splitAt_length (element : α) (elements : List α) :
    (splitAt element elements).length = elements.count element + 1 := by
  induction elements with
  | nil => rfl
  | cons head rest inductionHypothesis =>
      by_cases cuts : head = element
      · subst cuts
        rw [splitAt_cons_self, List.length_cons, inductionHypothesis, List.count_cons_self]
      · rw [splitAt_cons_of_ne cuts, List.length_modifyHead, inductionHypothesis,
          List.count_cons_of_ne cuts]

/-- The first piece goes on to the first cut. -/
theorem splitAt_head? (element : α) (elements : List α) :
    (splitAt element elements).head? = some (elements.takeWhile (· ≠ element)) := by
  induction elements with
  | nil => rfl
  | cons head rest inductionHypothesis =>
      by_cases cuts : head = element
      · subst cuts
        rw [splitAt_cons_self, List.takeWhile_cons_of_neg (by simp), List.head?_cons]
      · rw [splitAt_cons_of_ne cuts, List.takeWhile_cons_of_pos (by simpa using cuts),
          List.head?_modifyHead, inductionHypothesis]
        rfl

/-- The piece around a place goes back to the last cut before it and on to the next one. -/
theorem splitAt_getElem?_count (element : α) (before behind : List α) :
    (splitAt element (before ++ behind))[before.count element]? =
      some (before.rtakeWhile (· ≠ element) ++ behind.takeWhile (· ≠ element)) := by
  induction before using List.reverseRecOn generalizing behind with
  | nil =>
      rw [List.count_nil, ← List.head?_eq_getElem?, List.nil_append, splitAt_head?]
      rfl
  | append_singleton before last inductionHypothesis =>
      rw [List.append_assoc, List.singleton_append, List.count_append]
      by_cases cuts : last = element
      · subst cuts
        rw [splitAt_append_cons, List.count_singleton_self, ← splitAt_length,
          List.getElem?_append_right (Nat.le_refl _), Nat.sub_self, ← List.head?_eq_getElem?,
          splitAt_head?, List.rtakeWhile_concat_neg _ _ _ (by simp)]
        rfl
      · have countEq : [last].count element = 0 := by
          rw [List.count_singleton, beq_false_of_ne cuts]
          rfl
        rw [countEq, Nat.add_zero, inductionHypothesis,
          List.takeWhile_cons_of_pos (by simpa using cuts),
          List.rtakeWhile_concat_pos _ _ _ (by simpa using cuts), List.append_assoc]
        rfl

/-- The last piece goes back to the last cut. -/
theorem splitAt_getLast? (element : α) (elements : List α) :
    (splitAt element elements).getLast? = some (elements.rtakeWhile (· ≠ element)) := by
  have lastEq := splitAt_getElem?_count element elements []
  rw [List.append_nil, List.takeWhile_nil, List.append_nil] at lastEq
  rw [List.getLast?_eq_getElem?, splitAt_length, Nat.add_sub_cancel, lastEq]

/-- What does not cut goes to the last piece. -/
theorem rtakeWhile_append_of_notMem {back : List α} (noCut : element ∉ back) (front : List α) :
    (front ++ back).rtakeWhile (· ≠ element) = front.rtakeWhile (· ≠ element) ++ back := by
  induction back using List.reverseRecOn with
  | nil => rw [List.append_nil, List.append_nil]
  | append_singleton back last inductionHypothesis =>
      rw [List.mem_append, List.mem_singleton, not_or] at noCut
      rw [← List.append_assoc, List.rtakeWhile_concat_pos _ _ _ (by simpa using Ne.symm noCut.2),
        inductionHypothesis noCut.1, List.append_assoc]

end Pieces

/-! ## Lines of characters and of bytes -/

theorem encodeChar_lineFeed : String.utf8EncodeChar '\n' = [Byte.lineFeed] := rfl

/-- No other character has a line feed among its bytes. -/
theorem lineFeed_notMem_encodeChar {char : Char} (stays : char ≠ '\n') :
    Byte.lineFeed ∉ String.utf8EncodeChar char := by
  by_cases ascii : char.toNat < 0x80
  · rw [encodeChar_of_ascii ascii, List.mem_singleton]
    intro isLineFeed
    apply stays
    rw [← ofUInt8_ofNat (Nat.lt_trans ascii (by decide)), ← isLineFeed]
    rfl
  · intro isMem
    exact absurd (isWide_of_mem_encodeChar ascii _ isMem) (by decide)

/-- The lines of the bytes are the bytes of the lines. -/
theorem splitAt_encodeChars (chars : List Char) :
    splitAt Byte.lineFeed (encodeChars chars) = (splitAt '\n' chars).map encodeChars := by
  induction chars with
  | nil => rfl
  | cons char chars inductionHypothesis =>
      rw [encodeChars_cons]
      by_cases ends : char = '\n'
      · subst ends
        rw [encodeChar_lineFeed, List.singleton_append, splitAt_cons_self, splitAt_cons_self,
          inductionHypothesis]
        rfl
      · rw [splitAt_append_of_notMem (lineFeed_notMem_encodeChar ends), splitAt_cons_of_ne ends,
          inductionHypothesis]
        cases splitAt '\n' chars <;> rfl

theorem count_encodeChars (chars : List Char) :
    (encodeChars chars).count Byte.lineFeed = chars.count '\n' := by
  have lengthEq := congrArg List.length (splitAt_encodeChars chars)
  rw [List.length_map, splitAt_length, splitAt_length] at lengthEq
  exact Nat.succ.inj lengthEq

/-- The last line of the bytes is the bytes of the last line. -/
theorem rtakeWhile_encodeChars (chars : List Char) :
    (encodeChars chars).rtakeWhile (· ≠ Byte.lineFeed) =
      encodeChars (chars.rtakeWhile (· ≠ '\n')) := by
  have bytesLine := splitAt_getLast? Byte.lineFeed (encodeChars chars)
  rw [splitAt_encodeChars, List.getLast?_map, splitAt_getLast?] at bytesLine
  exact (Option.some.inj bytesLine).symm

end PrattSyntax.Text
