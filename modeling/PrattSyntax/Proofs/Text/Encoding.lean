import Mathlib.Data.List.Basic
import Mathlib.Tactic.IntervalCases
import PrattSyntax.Proofs.Lexer.Lexeme
import PrattSyntax.Text.Utf8

/-!
# Characters as bytes and as 16-bit units

A character below U+0080 is one byte, any other one is a run of wide bytes. So a text can
be cut between two of its bytes and give whole characters on both sides, unless both bytes
are wide. Bytes that characters were written as are read back as these characters, and
`units16` counts the units of their UTF-16 form.
-/

namespace PrattSyntax.Text

/-- The bytes that characters are written as. -/
def encodeChars (chars : List Char) : List UInt8 := chars.flatMap String.utf8EncodeChar

theorem encode_eq (text : String) : encode text = encodeChars text.toList := rfl

@[simp]
theorem encodeChars_nil : encodeChars [] = [] := rfl

theorem encodeChars_cons (char : Char) (chars : List Char) :
    encodeChars (char :: chars) = String.utf8EncodeChar char ++ encodeChars chars := rfl

theorem encodeChars_singleton (char : Char) : encodeChars [char] = String.utf8EncodeChar char :=
  List.append_nil _

theorem encodeChars_append (left right : List Char) :
    encodeChars (left ++ right) = encodeChars left ++ encodeChars right :=
  List.flatMap_append

/-! ## The bytes of one character -/

theorem encodeChar_of_ascii {char : Char} (ascii : char.toNat < 0x80) :
    String.utf8EncodeChar char = [UInt8.ofNat char.toNat] :=
  if_pos (Nat.le_of_lt_succ ascii)

theorem isWide_ofNat {value : Nat} (low : 0x80 ≤ value) (high : value < 0x100) :
    Byte.isWide (UInt8.ofNat value) := by
  rw [Byte.isWide_iff, UInt8.toNat_ofNat', Nat.mod_eq_of_lt high]
  exact low

theorem ofUInt8_ofNat {char : Char} (small : char.toNat < 0x100) :
    Char.ofUInt8 (UInt8.ofNat char.toNat) = char := by
  apply Char.ext
  apply UInt32.toNat_inj.mp
  have valueEq : (Char.ofUInt8 (UInt8.ofNat char.toNat)).val.toNat =
      (UInt8.ofNat char.toNat).toNat := UInt8.toNat_toUInt32 _
  rw [valueEq, UInt8.toNat_ofNat', Nat.mod_eq_of_lt small]
  rfl

/-- A character that is not ASCII is written with wide bytes alone. -/
theorem isWide_of_mem_encodeChar {char : Char} (notAscii : ¬ char.toNat < 0x80) :
    ∀ byte ∈ String.utf8EncodeChar char, Byte.isWide byte := by
  have above : ¬ char.val.toNat ≤ 127 := fun le => notAscii (Nat.lt_succ_of_le le)
  simp only [String.utf8EncodeChar, if_neg above]
  split
  · rw [List.forall_mem_cons, List.forall_mem_singleton]
    exact ⟨isWide_ofNat (by omega) (by omega), isWide_ofNat (by omega) (by omega)⟩
  · split
    · simp only [List.forall_mem_cons, List.not_mem_nil, false_implies, implies_true, and_true]
      exact ⟨isWide_ofNat (by omega) (by omega), isWide_ofNat (by omega) (by omega),
        isWide_ofNat (by omega) (by omega)⟩
    · simp only [List.forall_mem_cons, List.not_mem_nil, false_implies, implies_true, and_true]
      exact ⟨isWide_ofNat (by omega) (by omega), isWide_ofNat (by omega) (by omega),
        isWide_ofNat (by omega) (by omega), isWide_ofNat (by omega) (by omega)⟩

theorem encodeChar_ne_nil (char : Char) : String.utf8EncodeChar char ≠ [] := by
  rw [← List.length_pos_iff, String.length_utf8EncodeChar]
  exact char.utf8Size_pos

/-! ## Where a text can be cut -/

/-- Whether no run of wide bytes goes over the place between two parts of a text. -/
def Parts (left right : List UInt8) : Prop :=
  ∀ last ∈ left.getLast?, ∀ next ∈ right.head?, ¬ (Byte.isWide last ∧ Byte.isWide next)

theorem Parts.of_append {front left right : List UInt8} (parts : Parts (front ++ left) right) :
    Parts left right := by
  intro last lastMem next nextMem
  refine parts last ?_ next nextMem
  rw [List.getLast?_append, Option.mem_def.mp lastMem]
  rfl

theorem Parts.append {left right : List UInt8} (parts : Parts left right) (nonempty : left ≠ [])
    (front : List UInt8) : Parts (front ++ left) right := by
  intro last lastMem next nextMem
  rw [List.getLast?_append_of_ne_nil _ nonempty] at lastMem
  exact parts last lastMem next nextMem

/-- A cut inside the bytes of one character is no cut. -/
theorem eq_nil_or_eq_nil_of_parts {char : Char} {left right rest : List UInt8}
    (charEq : String.utf8EncodeChar char = left ++ right) (parts : Parts left (right ++ rest)) :
    left = [] ∨ right = [] := by
  by_contra both
  rw [not_or] at both
  have lastMem := List.getLast?_eq_some_getLast both.1
  obtain ⟨next, behind, rfl⟩ := List.exists_cons_of_ne_nil both.2
  by_cases ascii : char.toNat < 0x80
  · have lengthEq := congrArg List.length charEq
    have leftPos := List.length_pos_iff.mpr both.1
    rw [encodeChar_of_ascii ascii, List.length_append, List.length_singleton,
      List.length_cons] at lengthEq
    omega
  · have wide := isWide_of_mem_encodeChar ascii
    rw [charEq] at wide
    apply parts _ lastMem next rfl
    constructor
    · exact wide _ (List.mem_append_left _ (List.getLast_mem both.1))
    · exact wide _ (List.mem_append_right _ List.mem_cons_self)

/-- Bytes of characters, cut into parts, are the bytes of the characters on either side. -/
theorem exists_chars_of_parts {chars : List Char} {left right : List UInt8}
    (bytesEq : encodeChars chars = left ++ right) (parts : Parts left right) :
    ∃ before behind, chars = before ++ behind ∧ encodeChars before = left ∧
      encodeChars behind = right := by
  induction chars generalizing left with
  | nil =>
      rcases List.append_eq_nil_iff.mp bytesEq.symm with ⟨rfl, rfl⟩
      exact ⟨[], [], rfl, rfl, rfl⟩
  | cons char chars inductionHypothesis =>
      rw [encodeChars_cons, List.append_eq_append_iff] at bytesEq
      rcases bytesEq with ⟨more, rfl, restEq⟩ | ⟨tail, charEq, rfl⟩
      · obtain ⟨before, behind, rfl, beforeEq, behindEq⟩ :=
          inductionHypothesis restEq parts.of_append
        exact ⟨char :: before, behind, rfl, by rw [encodeChars_cons, beforeEq], behindEq⟩
      · rcases eq_nil_or_eq_nil_of_parts charEq parts with rfl | rfl
        · exact ⟨[], char :: chars, rfl, rfl, by rw [encodeChars_cons, charEq, List.nil_append]⟩
        · refine ⟨[char], chars, rfl, ?_, rfl⟩
          rw [encodeChars_cons, charEq, List.append_nil, encodeChars_nil, List.append_nil]

/-! ## Reading back -/

namespace Utf8

variable {bits value : Nat} {low high : UInt8} {rest : List UInt8}

theorem toNat_ofNat_add (small : value < 0x40) :
    (UInt8.ofNat (value + 0x80)).toNat = value + 0x80 := by
  rw [UInt8.toNat_ofNat', Nat.mod_eq_of_lt (by omega)]

theorem add_le_high (small : value < 0x40) : value + 0x80 ≤ (0xbf : UInt8).toNat :=
  Nat.add_le_add_right (Nat.le_of_lt_succ small) 0x80

/-- A byte within the bounds adds its bits to the character. -/
theorem step_inside (missing : Nat) (small : value < 0x40) (lowLe : low.toNat ≤ value + 0x80)
    (leHigh : value + 0x80 ≤ high.toNat) :
    step (.inside missing low high bits) (UInt8.ofNat (value + 0x80)) =
      if missing = 1 then ([some (Char.ofNat (64 * bits + value))], .start)
      else ([], .inside (missing - 1) 0x80 0xbf (64 * bits + value)) := by
  have within : low ≤ UInt8.ofNat (value + 0x80) ∧ UInt8.ofNat (value + 0x80) ≤ high := by
    rw [UInt8.le_iff_toNat_le, UInt8.le_iff_toNat_le, toNat_ofNat_add small]
    exact ⟨lowLe, leHigh⟩
  rw [step, if_pos within, toNat_ofNat_add small, Nat.add_sub_cancel]

/-- A byte inside a character, with more of them missing. -/
theorem scan_more {missing : Nat} (small : value < 0x40) (lowLe : low.toNat ≤ value + 0x80)
    (leHigh : value + 0x80 ≤ high.toNat) :
    scan (.inside (missing + 2) low high bits) (UInt8.ofNat (value + 0x80) :: rest) =
      scan (.inside (missing + 1) 0x80 0xbf (64 * bits + value)) rest := by
  rw [scan, step_inside _ small lowLe leHigh, if_neg (by omega)]
  rfl

/-- The last byte of a character. -/
theorem scan_last (small : value < 0x40) :
    scan (.inside 1 0x80 0xbf bits) (UInt8.ofNat (value + 0x80) :: rest) =
      some (Char.ofNat (64 * bits + value)) :: scan .start rest := by
  rw [scan, step_inside 1 small (Nat.le_add_left _ _) (add_le_high small), if_pos rfl]
  rfl

theorem scan_ascii {char : Char} (ascii : char.toNat < 0x80) :
    scan .start (UInt8.ofNat char.toNat :: rest) = some char :: scan .start rest := by
  have byteEq : (UInt8.ofNat char.toNat).toNat = char.toNat := by
    rw [UInt8.toNat_ofNat', Nat.mod_eq_of_lt (by omega)]
  have below : UInt8.ofNat char.toNat < 0x80 := by
    rw [UInt8.lt_iff_toNat_lt, byteEq]
    exact ascii
  rw [scan, step, first, if_pos below, ofUInt8_ofNat (by omega)]
  rfl

/-- The first of two bytes. -/
theorem scan_first_two (lower : 2 ≤ value) (upper : value < 0x20) :
    scan .start (UInt8.ofNat (value + 0xc0) :: rest) =
      scan (.inside 1 0x80 0xbf value) rest := by
  have byteEq : (UInt8.ofNat (value + 0xc0)).toNat = value + 0xc0 := by
    rw [UInt8.toNat_ofNat', Nat.mod_eq_of_lt (by omega)]
  have notBelow : ∀ bound : UInt8, bound.toNat ≤ 0xc2 → ¬ UInt8.ofNat (value + 0xc0) < bound := by
    intro bound boundLe
    rw [UInt8.lt_iff_toNat_lt, byteEq]
    omega
  have below : UInt8.ofNat (value + 0xc0) < 0xe0 := by
    rw [UInt8.lt_iff_toNat_lt, byteEq]
    exact Nat.add_lt_add_right upper 0xc0
  rw [scan, step, first, if_neg (notBelow 0x80 (by decide)), if_neg (notBelow 0xc2 (by decide)),
    if_pos below, byteEq, Nat.add_sub_cancel]
  rfl

/-- The first of three bytes. -/
theorem scan_first_three (upper : value < 0x10) :
    scan .start (UInt8.ofNat (value + 0xe0) :: rest) =
      scan (.inside 2 (if value = 0 then 0xa0 else 0x80) (if value = 0xd then 0x9f else 0xbf)
        value) rest := by
  interval_cases value <;> rfl

/-- The first of four bytes. -/
theorem scan_first_four (upper : value < 5) :
    scan .start (UInt8.ofNat (value + 0xf0) :: rest) =
      scan (.inside 3 (if value = 0 then 0x90 else 0x80) (if value = 4 then 0x8f else 0xbf)
        value) rest := by
  interval_cases value <;> rfl

theorem scan_two (lower : 0x80 ≤ value) (upper : value ≤ 0x7ff) :
    scan .start (UInt8.ofNat (value / 64 % 32 + 0xc0) :: UInt8.ofNat (value % 64 + 0x80) :: rest) =
      some (Char.ofNat value) :: scan .start rest := by
  have firstSmall : value / 64 < 32 := by omega
  have lastSmall : value % 64 < 64 := Nat.mod_lt _ (by decide)
  rw [Nat.mod_eq_of_lt firstSmall, scan_first_two (by omega) firstSmall, scan_last lastSmall,
    Nat.div_add_mod]

/-- Below U+0800 three bytes would be too many, and no character is a surrogate. -/
theorem scan_three (lower : 0x800 ≤ value) (upper : value ≤ 0xffff)
    (noSurrogate : value < 0xd800 ∨ 0xdfff < value) :
    scan .start (UInt8.ofNat (value / 4096 % 16 + 0xe0) ::
        UInt8.ofNat (value / 64 % 64 + 0x80) :: UInt8.ofNat (value % 64 + 0x80) :: rest) =
      some (Char.ofNat value) :: scan .start rest := by
  have firstSmall : value / 4096 < 16 := by omega
  have nextSmall : value / 64 % 64 < 64 := Nat.mod_lt _ (by decide)
  have lastSmall : value % 64 < 64 := Nat.mod_lt _ (by decide)
  have lowLe : (if value / 4096 = 0 then 0xa0 else 0x80 : UInt8).toNat ≤
      value / 64 % 64 + 0x80 := by
    split
    · show 0xa0 ≤ _
      omega
    · exact Nat.le_add_left _ _
  have leHigh : value / 64 % 64 + 0x80 ≤
      (if value / 4096 = 0xd then 0x9f else 0xbf : UInt8).toNat := by
    split
    · show _ ≤ 0x9f
      omega
    · show _ ≤ 0xbf
      omega
  have valueEq : 64 * (64 * (value / 4096) + value / 64 % 64) + value % 64 = value := by omega
  rw [Nat.mod_eq_of_lt firstSmall, scan_first_three firstSmall, scan_more nextSmall lowLe leHigh,
    scan_last lastSmall, valueEq]

/-- Below U+10000 four bytes would be too many, and U+10FFFF is the last character. -/
theorem scan_four (lower : 0x10000 ≤ value) (upper : value < 0x110000) :
    scan .start (UInt8.ofNat (value / 262144 % 8 + 0xf0) ::
        UInt8.ofNat (value / 4096 % 64 + 0x80) :: UInt8.ofNat (value / 64 % 64 + 0x80) ::
        UInt8.ofNat (value % 64 + 0x80) :: rest) =
      some (Char.ofNat value) :: scan .start rest := by
  have firstSmall : value / 262144 < 5 := by omega
  have nextSmall : value / 4096 % 64 < 64 := Nat.mod_lt _ (by decide)
  have thirdSmall : value / 64 % 64 < 64 := Nat.mod_lt _ (by decide)
  have lastSmall : value % 64 < 64 := Nat.mod_lt _ (by decide)
  have lowLe : (if value / 262144 = 0 then 0x90 else 0x80 : UInt8).toNat ≤
      value / 4096 % 64 + 0x80 := by
    split
    · show 0x90 ≤ _
      omega
    · exact Nat.le_add_left _ _
  have leHigh : value / 4096 % 64 + 0x80 ≤
      (if value / 262144 = 4 then 0x8f else 0xbf : UInt8).toNat := by
    split
    · show _ ≤ 0x8f
      omega
    · show _ ≤ 0xbf
      omega
  have valueEq : 64 * (64 * (64 * (value / 262144) + value / 4096 % 64) + value / 64 % 64) +
      value % 64 = value := by omega
  rw [Nat.mod_eq_of_lt (Nat.lt_trans firstSmall (by decide)), scan_first_four firstSmall,
    scan_more nextSmall lowLe leHigh,
    scan_more thirdSmall (Nat.le_add_left _ _) (add_le_high thirdSmall), scan_last lastSmall,
    valueEq]

/-- The bytes of a character are read as this character. -/
theorem scan_encodeChar (char : Char) (rest : List UInt8) :
    scan .start (String.utf8EncodeChar char ++ rest) = some char :: scan .start rest := by
  by_cases ascii : char.toNat < 0x80
  · rw [encodeChar_of_ascii ascii]
    exact scan_ascii ascii
  · have ofNatEq : Char.ofNat char.val.toNat = char := Char.ofNat_toNat char
    have above : ¬ char.val.toNat ≤ 127 := fun le => ascii (Nat.lt_succ_of_le le)
    have valid : char.val.toNat < 0xd800 ∨ 0xdfff < char.val.toNat ∧ char.val.toNat < 0x110000 :=
      char.valid
    simp only [String.utf8EncodeChar, if_neg above]
    split
    · next two =>
        rw [List.cons_append, List.singleton_append, scan_two (by omega) two, ofNatEq]
    · next notTwo =>
        split
        · next three =>
            refine (scan_three (by omega) three (by omega)).trans ?_
            rw [ofNatEq]
            rfl
        · next notThree =>
            refine (scan_four (by omega) (by omega)).trans ?_
            rw [ofNatEq]
            rfl

theorem scan_encodeChars_append (chars : List Char) (rest : List UInt8) :
    scan .start (encodeChars chars ++ rest) = chars.map some ++ scan .start rest := by
  induction chars with
  | nil => rfl
  | cons char chars inductionHypothesis =>
      rw [encodeChars_cons, List.append_assoc, scan_encodeChar, inductionHypothesis]
      rfl

theorem scan_encodeChars (chars : List Char) :
    scan .start (encodeChars chars) = chars.map some := by
  have scanEq := scan_encodeChars_append chars []
  rwa [scan, atEnd, List.append_nil, List.append_nil] at scanEq

end Utf8

/-- The bytes of whole characters are read back without a part that is not valid. -/
theorem decodeLossy_encodeChars (chars : List Char) :
    decodeLossy (encodeChars chars) = String.ofList chars := by
  have getEq : (fun part : Option Char => part.getD '\uFFFD') ∘ some = id := rfl
  rw [decodeLossy, Utf8.scan_encodeChars, List.map_map, getEq, List.map_id]

/-! ## UTF-16 -/

/-- The 16-bit units of a character: itself, or a pair of surrogates from U+10000 on. -/
def utf16Char (char : Char) : List UInt16 :=
  if char.toNat < 0x10000 then [UInt16.ofNat char.toNat]
  else
    [UInt16.ofNat (0xd800 + (char.toNat - 0x10000) / 0x400),
      UInt16.ofNat (0xdc00 + (char.toNat - 0x10000) % 0x400)]

/-- The UTF-16 form of characters. -/
def utf16 (chars : List Char) : List UInt16 := chars.flatMap utf16Char

theorem utf16_cons (char : Char) (chars : List Char) :
    utf16 (char :: chars) = utf16Char char ++ utf16 chars := rfl

theorem utf16_append (left right : List Char) :
    utf16 (left ++ right) = utf16 left ++ utf16 right :=
  List.flatMap_append

theorem utf16Char_length (char : Char) :
    (utf16Char char).length = 1 + if 0x10000 ≤ char.toNat then 1 else 0 := by
  by_cases astral : 0x10000 ≤ char.toNat
  · rw [utf16Char, if_neg (Nat.not_lt.mpr astral), if_pos astral]
    rfl
  · rw [utf16Char, if_pos (Nat.not_le.mp astral), if_neg astral]
    rfl

theorem utf16_length_pos {chars : List Char} (nonempty : chars ≠ []) :
    0 < (utf16 chars).length := by
  obtain ⟨char, rest, rfl⟩ := List.exists_cons_of_ne_nil nonempty
  rw [utf16_cons, List.length_append, utf16Char_length]
  omega

/-- The number of units is the length of the UTF-16 form. -/
theorem units16_ofList (chars : List Char) :
    units16 (String.ofList chars) = (utf16 chars).length := by
  rw [units16, String.toList_ofList]
  induction chars with
  | nil => rfl
  | cons char chars inductionHypothesis =>
      rw [utf16_cons, List.length_append, utf16Char_length, ← inductionHypothesis,
        List.length_cons, List.countP_cons]
      simp only [decide_eq_true_eq]
      omega

/-- No character has more units than bytes. -/
theorem utf16_length_le (chars : List Char) :
    (utf16 chars).length ≤ (encodeChars chars).length := by
  induction chars with
  | nil => exact Nat.le_refl _
  | cons char chars inductionHypothesis =>
      have charLe : (utf16Char char).length ≤ (String.utf8EncodeChar char).length := by
        rw [utf16Char_length]
        split
        · next astral =>
            have notAscii : ¬ char.val.toNat ≤ 127 := by
              have : char.toNat = char.val.toNat := rfl
              omega
            simp only [String.utf8EncodeChar, if_neg notAscii]
            split
            · exact Nat.le_refl _
            · split <;> simp
        · exact List.length_pos_iff.mpr (encodeChar_ne_nil char)
      rw [utf16_cons, encodeChars_cons, List.length_append, List.length_append]
      exact Nat.add_le_add charLe inductionHypothesis

end PrattSyntax.Text
