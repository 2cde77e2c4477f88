import PrattSyntax.Fault
import PrattSyntax.Proofs.Text.Division

/-!
# The wording of faults

A message tells its cause: the four forms of messages differ in the words they
begin with, and what stands between these words and the others can be read off
again, since no name of a kind holds a comma.
-/

namespace PrattSyntax

open Text (Divides)

namespace TokenKind

theorem ofName?_name (kind : TokenKind) : ofName? kind.name = some kind := by
  have table : ∀ kind ∈ all, ofName? kind.name = some kind := by decide +kernel
  exact table kind kind.mem_all

theorem name_inj {first second : TokenKind} (nameEq : first.name = second.name) :
    first = second := by
  have kindEq := congrArg ofName? nameEq
  rwa [ofName?_name, ofName?_name, Option.some.injEq] at kindEq

theorem comma_notMem_name (kind : TokenKind) : ',' ∉ kind.name.toList := by
  have table : ∀ kind ∈ all, ',' ∉ kind.name.toList := by decide +kernel
  exact table kind kind.mem_all

/-- A name before a comma is known by the text. -/
theorem name_append_inj {first second : TokenKind} {rest other : List Char}
    (textEq : first.name.toList ++ ',' :: rest = second.name.toList ++ ',' :: other) :
    first = second ∧ rest = other := by
  have divides : ∀ (kind : TokenKind) (behind : List Char),
      Divides (· != ',') kind.name.toList (',' :: behind) := by
    intro kind behind
    constructor
    · rintro char charMem
      apply bne_iff_ne.mpr
      rintro rfl
      exact kind.comma_notMem_name charMem
    · rintro next ⟨rfl⟩
      decide
  obtain ⟨nameEq, restEq⟩ := (divides first rest).append_inj (divides second other) textEq
  exact ⟨name_inj (String.toList_inj.mp nameEq), (List.cons.inj restEq).2⟩

end TokenKind

namespace Cause

/-- The words that a message begins with. -/
def lead : Cause → String
  | unexpected _ _ => "expected next token to be "
  | noOpening _ => "no prefix parse function for "
  | badInteger _ => "could not parse "
  | tooDeep => "expression nesting too deep"

/-- What a message says behind its first words. -/
def detail : Cause → String
  | unexpected required found => required.name ++ ", got " ++ found.name ++ " instead"
  | noOpening kind => kind.name ++ " found"
  | badInteger literal => literal ++ " as integer"
  | tooDeep => ""

theorem message_eq (cause : Cause) : cause.message = cause.lead ++ cause.detail := by
  unfold message lead detail
  cases cause with
  | unexpected required found => simp only [String.append_assoc]
  | noOpening kind => exact String.append_assoc
  | badInteger literal => exact String.append_assoc
  | tooDeep => exact String.append_empty.symm

/-- Four characters tell the forms of messages apart. -/
theorem message_take_four (cause : Cause) :
    cause.message.toList.take 4 = cause.lead.toList.take 4 := by
  have long : 4 ≤ cause.lead.toList.length := by
    cases cause <;> simp only [lead] <;> decide +kernel
  rw [message_eq, String.toList_append, List.take_append_of_le_length long]

theorem detail_eq_of_message_eq {first second : Cause} (messageEq : first.message = second.message)
    (leadEq : first.lead = second.lead) : first.detail.toList = second.detail.toList := by
  have textEq := congrArg String.toList messageEq
  rw [message_eq, message_eq, leadEq, String.toList_append, String.toList_append] at textEq
  exact List.append_cancel_left textEq

/-- Two causes with one message are the same cause. -/
theorem message_inj {first second : Cause} (messageEq : first.message = second.message) :
    first = second := by
  have leadEq := congrArg (fun text => text.toList.take 4) messageEq
  simp only [message_take_four] at leadEq
  cases first with
  | unexpected required found =>
      cases second with
      | unexpected otherRequired otherFound =>
          have detailEq := detail_eq_of_message_eq messageEq rfl
          have commaEq : ", got ".toList = ',' :: " got ".toList := by decide +kernel
          simp only [detail, String.toList_append, List.append_assoc, commaEq,
            List.cons_append] at detailEq
          obtain ⟨rfl, restEq⟩ := TokenKind.name_append_inj detailEq
          have foundEq := List.append_cancel_right (List.append_cancel_left restEq)
          rw [TokenKind.name_inj (String.toList_inj.mp foundEq)]
      | _ =>
          simp only [lead] at leadEq
          exact absurd leadEq (by decide +kernel)
  | noOpening kind =>
      cases second with
      | noOpening other =>
          have detailEq := detail_eq_of_message_eq messageEq rfl
          simp only [detail, String.toList_append] at detailEq
          rw [TokenKind.name_inj (String.toList_inj.mp (List.append_cancel_right detailEq))]
      | _ =>
          simp only [lead] at leadEq
          exact absurd leadEq (by decide +kernel)
  | badInteger literal =>
      cases second with
      | badInteger other =>
          have detailEq := detail_eq_of_message_eq messageEq rfl
          simp only [detail, String.toList_append] at detailEq
          rw [String.toList_inj.mp (List.append_cancel_right detailEq)]
      | _ =>
          simp only [lead] at leadEq
          exact absurd leadEq (by decide +kernel)
  | tooDeep =>
      cases second with
      | tooDeep => rfl
      | _ =>
          simp only [lead] at leadEq
          exact absurd leadEq (by decide +kernel)

end Cause

end PrattSyntax
