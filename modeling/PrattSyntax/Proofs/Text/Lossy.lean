import PrattSyntax.Proofs.Text.Lines

/-!
# Bytes that may be no text

Bytes are read as characters and invalid parts, whatever they are. A character takes as
many bytes as it is written with, and an invalid part one to three. So what is shown in
place of the bytes, with three bytes for each invalid part, is no shorter than they are,
and has their line feeds. Reading can be cut where no run of wide bytes is; a cut inside
of a character makes one invalid part of what is in front of it.
-/

namespace PrattSyntax.Text

/-- What is shown for characters and invalid parts. -/
def shown (parts : List (Option Char)) : List Char := parts.map fun part => part.getD '\uFFFD'

theorem shown_append (left right : List (Option Char)) :
    shown (left ++ right) = shown left ++ shown right :=
  List.map_append

theorem shown_singleton (char : Char) : shown [some char] = [char] := rfl

/-- The characters that bytes are shown as. -/
def decodeChars (bytes : List UInt8) : List Char := shown (Utf8.scan .start bytes)

theorem decodeLossy_eq (bytes : List UInt8) : decodeLossy bytes = String.ofList (decodeChars bytes) :=
  rfl

namespace Utf8

/-! ## States inside of a character -/

/-- Whether a state leads to a value: with the next byte between its bounds, and as many
bytes behind that one as are missing then. -/
def Leads (missing : Nat) (low high : UInt8) (bits value : Nat) : Prop :=
  64 ^ missing * (64 * bits + (low.toNat - 0x80)) ≤ value ∧
    value < 64 ^ missing * (64 * bits + (high.toNat - 0x80) + 1)

/-- Where a state leads to behind a byte, it has led to before. -/
theorem Leads.of_within {missing : Nat} {low high byte : UInt8} {bits value : Nat}
    (leads : Leads missing 0x80 0xbf (64 * bits + (byte.toNat - 0x80)) value)
    (lowLe : low.toNat ≤ byte.toNat) (leHigh : byte.toNat ≤ high.toNat) :
    Leads (missing + 1) low high bits value := by
  have lowEq : (0x80 : UInt8).toNat = 0x80 := rfl
  have highEq : (0xbf : UInt8).toNat = 0xbf := rfl
  rw [Leads, lowEq, highEq] at leads
  rw [Leads, Nat.pow_succ, Nat.mul_assoc, Nat.mul_assoc]
  constructor
  · refine Nat.le_trans (Nat.mul_le_mul_left _ ?_) leads.1
    omega
  · refine Nat.lt_of_lt_of_le leads.2 (Nat.mul_le_mul_left _ ?_)
    omega

/-- Whether some bytes of a character have been read in a state: every value that it leads
to is a character of as many bytes as these and the missing ones. -/
inductive Begun : Nat → State → Prop
  | start : Begun 0 .start
  | inside {count missing : Nat} {low high : UInt8} {bits : Nat} (nonempty : 0 < count)
      (few : count + missing ≤ 3) (wide : 0x80 ≤ low.toNat)
      (sized : ∀ value, Leads missing low high bits value →
        (Char.ofNat value).utf8Size = count + (missing + 1)) :
      Begun count (.inside (missing + 1) low high bits)

theorem utf8Size_ofNat {value : Nat} (valid : value.isValidChar) :
    (Char.ofNat value).utf8Size =
      if value ≤ 0x7f then 1 else if value ≤ 0x7ff then 2 else if value ≤ 0xffff then 3 else 4 := by
  have valueEq : (Char.ofNat value).val.toNat = value := by
    rw [Char.ofNat, dif_pos valid]
    rfl
  unfold Char.utf8Size
  simp only [UInt32.le_iff_toNat_le, valueEq]
  rfl

/-- Behind the first of two bytes. -/
theorem begun_two {bits : Nat} (lower : 2 ≤ bits) (upper : bits < 0x20) :
    Begun 1 (.inside 1 0x80 0xbf bits) := by
  refine .inside (by decide) (by decide) (by decide) fun value leads => ?_
  have bounds : 0x80 ≤ value ∧ value ≤ 0x7ff := by
    have lowEq : (0x80 : UInt8).toNat = 0x80 := rfl
    have highEq : (0xbf : UInt8).toNat = 0xbf := rfl
    unfold Leads at leads
    omega
  rw [utf8Size_ofNat (.inl (by omega)), if_neg (by omega), if_pos bounds.2]

/-- Behind the first of three bytes. -/
theorem begun_three {bits : Nat} (upper : bits < 0x10) {low high : UInt8}
    (lowEq : low.toNat = if bits = 0 then 0xa0 else 0x80)
    (highEq : high.toNat = if bits = 0xd then 0x9f else 0xbf) :
    Begun 1 (.inside 2 low high bits) := by
  refine .inside (by decide) (by decide) (by split at lowEq <;> omega) fun value leads => ?_
  have bounds : 0x800 ≤ value ∧ value ≤ 0xffff ∧ value.isValidChar := by
    unfold Leads at leads
    unfold Nat.isValidChar
    split at lowEq <;> split at highEq <;> omega
  rw [utf8Size_ofNat bounds.2.2, if_neg (by omega), if_neg (by omega), if_pos bounds.2.1]

/-- Behind the first of four bytes. -/
theorem begun_four {bits : Nat} (upper : bits < 5) {low high : UInt8}
    (lowEq : low.toNat = if bits = 0 then 0x90 else 0x80)
    (highEq : high.toNat = if bits = 4 then 0x8f else 0xbf) :
    Begun 1 (.inside 3 low high bits) := by
  refine .inside (by decide) (by decide) (by split at lowEq <;> omega) fun value leads => ?_
  have bounds : 0x10000 ≤ value ∧ value < 0x110000 := by
    unfold Leads at leads
    split at lowEq <;> split at highEq <;> omega
  rw [utf8Size_ofNat (.inr (by omega)), if_neg (by omega), if_neg (by omega), if_neg (by omega)]

/-! ## What is shown in place of bytes -/

/-- Whether parts are what becomes of some bytes, with some bytes of a character in front of
these and some behind which are in no part yet: together the parts are not shown with fewer
bytes, and they have the same line feeds. -/
structure Covers (before : Nat) (bytes : List UInt8) (parts : List (Option Char)) (after : Nat) :
    Prop where
  size : before + bytes.length ≤ (encodeChars (shown parts)).length + after
  feeds : (shown parts).count '\n' = bytes.count Byte.lineFeed

theorem Covers.append {before between after : Nat} {left right : List UInt8}
    {leftParts rightParts : List (Option Char)} (leftCovers : Covers before left leftParts between)
    (rightCovers : Covers between right rightParts after) :
    Covers before (left ++ right) (leftParts ++ rightParts) after := by
  constructor
  case size =>
    have leftSize := leftCovers.size
    have rightSize := rightCovers.size
    rw [shown_append, encodeChars_append, List.length_append, List.length_append]
    omega
  case feeds =>
    rw [shown_append, List.count_append, List.count_append, leftCovers.feeds, rightCovers.feeds]

/-- Bytes that no character is begun with are in some part. -/
theorem Covers.length_pos {before after : Nat} {bytes : List UInt8} {parts : List (Option Char)}
    (covers : Covers before bytes parts after) (more : after < before + bytes.length) :
    0 < parts.length := by
  apply List.length_pos_iff.mpr
  rintro rfl
  have size := covers.size
  have noBytes : (encodeChars (shown [])).length = 0 := rfl
  omega

theorem ne_lineFeed_of_isWide {byte : UInt8} (wide : Byte.isWide byte) : byte ≠ Byte.lineFeed := by
  rintro rfl
  exact absurd wide (by decide)

theorem covers_nil : Covers 0 [] [] 0 := ⟨Nat.le_refl _, rfl⟩

/-- A byte inside of a character. -/
theorem covers_more {byte : UInt8} (wide : Byte.isWide byte) (count : Nat) :
    Covers count [byte] [] (count + 1) := by
  constructor
  case size => exact Nat.le_add_left _ _
  case feeds =>
    rw [List.count_singleton, beq_false_of_ne (ne_lineFeed_of_isWide wide)]
    rfl

/-- The bytes of a character. -/
theorem covers_char {count : Nat} {char : Char} (several : 1 < count)
    (size : char.utf8Size = count) : Covers count [] [some char] 0 := by
  constructor
  case size =>
    rw [shown_singleton, encodeChars_singleton, String.length_utf8EncodeChar, size]
    exact Nat.le_refl _
  case feeds =>
    have notFeed : char ≠ '\n' := by
      rintro rfl
      have one : Char.utf8Size '\n' = 1 := rfl
      omega
    rw [shown_singleton, List.count_singleton, beq_false_of_ne notFeed]
    rfl

/-- Bytes that no character goes on behind. -/
theorem covers_none {count : Nat} (few : count ≤ 3) : Covers count [] [none] 0 :=
  ⟨few, rfl⟩

theorem ofUInt8_eq_lineFeed_iff {byte : UInt8} :
    Char.ofUInt8 byte = '\n' ↔ byte = Byte.lineFeed := by
  constructor
  · intro isFeed
    have valueEq : (Char.ofUInt8 byte).val.toNat = byte.toNat := UInt8.toNat_toUInt32 byte
    rw [isFeed] at valueEq
    exact UInt8.toNat_inj.mp valueEq.symm
  · rintro rfl
    rfl

/-- A byte that is a character. -/
theorem covers_ascii (byte : UInt8) : Covers 0 [byte] [some (Char.ofUInt8 byte)] 0 := by
  constructor
  case size =>
    rw [shown_singleton, encodeChars_singleton, String.length_utf8EncodeChar, Nat.zero_add,
      List.length_singleton]
    exact Char.utf8Size_pos _
  case feeds =>
    rw [shown_singleton, List.count_singleton, List.count_singleton]
    simp only [beq_iff_eq, ofUInt8_eq_lineFeed_iff]

/-- A byte that begins no character. -/
theorem covers_lone {byte : UInt8} (wide : Byte.isWide byte) : Covers 0 [byte] [none] 0 :=
  (covers_more wide 0).append (covers_none (by decide))

theorem isWide_of_not_lt {byte : UInt8} (notNarrow : ¬ byte < 0x80) : Byte.isWide byte := by
  rw [UInt8.lt_iff_toNat_lt] at notNarrow
  rw [Byte.isWide_iff]
  exact Nat.le_of_not_lt notNarrow

/-- A bound that is special behind one of the first bytes, told by the bits of that byte. -/
theorem toNat_ite_eq {byte edge : UInt8} {base index : Nat} (edgeEq : edge.toNat = base + index)
    (above : base ≤ byte.toNat) (special usual : UInt8) :
    (if byte = edge then special else usual).toNat =
      if byte.toNat - base = index then special.toNat else usual.toNat := by
  have sameIff : byte = edge ↔ byte.toNat - base = index := by
    rw [← UInt8.toNat_inj, edgeEq]
    omega
  rw [apply_ite UInt8.toNat]
  simp only [sameIff]

/-- A byte that is looked at anew. -/
theorem exists_begun_first (byte : UInt8) :
    ∃ count, Begun count (first byte).2 ∧ Covers 0 [byte] (first byte).1 count := by
  fun_cases first byte with
  | case1 narrow => exact ⟨0, .start, covers_ascii byte⟩
  | case2 notNarrow lone => exact ⟨0, .start, covers_lone (isWide_of_not_lt notNarrow)⟩
  | case3 notNarrow notLone two =>
      have lower : 0xc2 ≤ byte.toNat := UInt8.le_iff_toNat_le.mp (UInt8.not_lt.mp notLone)
      have upper : byte.toNat < 0xe0 := UInt8.lt_iff_toNat_lt.mp two
      have wide := isWide_of_not_lt notNarrow
      exact ⟨1, begun_two (by omega) (by omega), covers_more wide 0⟩
  | case4 notNarrow _ notTwo three =>
      have lower : 0xe0 ≤ byte.toNat := UInt8.le_iff_toNat_le.mp (UInt8.not_lt.mp notTwo)
      have upper : byte.toNat < 0xf0 := UInt8.lt_iff_toNat_lt.mp three
      have wide := isWide_of_not_lt notNarrow
      exact ⟨1, begun_three (by omega) (toNat_ite_eq rfl lower _ _) (toNat_ite_eq rfl lower _ _),
        covers_more wide 0⟩
  | case5 notNarrow _ _ notThree four =>
      have lower : 0xf0 ≤ byte.toNat := UInt8.le_iff_toNat_le.mp (UInt8.not_lt.mp notThree)
      have upper : byte.toNat < 0xf5 := UInt8.lt_iff_toNat_lt.mp four
      have wide := isWide_of_not_lt notNarrow
      exact ⟨1, begun_four (by omega) (toNat_ite_eq rfl lower _ _) (toNat_ite_eq rfl lower _ _),
        covers_more wide 0⟩
  | case6 notNarrow _ _ _ _ => exact ⟨0, .start, covers_lone (isWide_of_not_lt notNarrow)⟩

/-- What a byte within the bounds leads to. -/
theorem Begun.step_within {count missing : Nat} {low high byte : UInt8} {bits : Nat}
    (begun : Begun count (.inside missing low high bits)) (within : low ≤ byte ∧ byte ≤ high) :
    ∃ next, Begun next (step (.inside missing low high bits) byte).2 ∧
      Covers count [byte] (step (.inside missing low high bits) byte).1 next := by
  rw [step, if_pos within]
  rw [UInt8.le_iff_toNat_le, UInt8.le_iff_toNat_le] at within
  cases begun with
  | @inside _ missing _ _ _ nonempty few lowWide sized =>
      have wide : Byte.isWide byte := by
        rw [Byte.isWide_iff]
        exact Nat.le_trans lowWide within.1
      cases missing with
      | zero =>
          have size := sized (64 * bits + (byte.toNat - 0x80)) (by unfold Leads; omega)
          exact ⟨0, .start, (covers_more wide count).append (covers_char (by omega) size)⟩
      | succ missing =>
          refine ⟨count + 1, .inside (by omega) (by omega) (by decide) ?_, covers_more wide count⟩
          intro value leads
          rw [sized value (leads.of_within within.1 within.2)]
          omega

/-- A byte behind some bytes of a character. -/
theorem Begun.step {count : Nat} {state : State} (begun : Begun count state) (byte : UInt8) :
    ∃ next, Begun next (step state byte).2 ∧ Covers count [byte] (step state byte).1 next := by
  cases state with
  | start =>
      cases begun
      exact exists_begun_first byte
  | inside missing low high bits =>
      by_cases within : low ≤ byte ∧ byte ≤ high
      · exact begun.step_within within
      · have few : count ≤ 3 := by
          cases begun
          omega
        obtain ⟨next, nextBegun, covers⟩ := exists_begun_first byte
        rw [Utf8.step, if_neg within]
        exact ⟨next, nextBegun, (covers_none few).append covers⟩

/-! ## Where reading can be cut -/

theorem Begun.atEnd {count : Nat} {state : State} (begun : Begun count state) :
    Covers count [] (atEnd state) 0 := by
  cases begun with
  | start => exact covers_nil
  | inside nonempty few wide sized => exact covers_none (by omega)

/-- The first part of some bytes can be read on its own, up to the state behind it. -/
theorem Begun.exists_scan_append {count : Nat} {state : State} (begun : Begun count state)
    (left : List UInt8) :
    ∃ parts next after, Begun after next ∧ Covers count left parts after ∧
      ∀ right, scan state (left ++ right) = parts ++ scan next right := by
  induction left generalizing count state with
  | nil => exact ⟨[], state, count, begun, ⟨by simp, rfl⟩, fun _ => rfl⟩
  | cons byte left inductionHypothesis =>
      obtain ⟨between, betweenBegun, here⟩ := begun.step byte
      obtain ⟨parts, next, after, nextBegun, covers, scanEq⟩ := inductionHypothesis betweenBegun
      refine ⟨(Utf8.step state byte).1 ++ parts, next, after, nextBegun, here.append covers, ?_⟩
      intro right
      rw [List.cons_append, scan, scanEq, List.append_assoc]

theorem Begun.covers_scan {count : Nat} {state : State} (begun : Begun count state)
    (bytes : List UInt8) : Covers count bytes (scan state bytes) 0 := by
  obtain ⟨parts, next, after, nextBegun, covers, scanEq⟩ := begun.exists_scan_append bytes
  have wholeEq := scanEq []
  rw [List.append_nil] at wholeEq
  have whole := covers.append nextBegun.atEnd
  rw [List.append_nil] at whole
  rw [wholeEq]
  exact whole

/-- Before a narrow byte, a character that has begun is not gone on with. -/
theorem Begun.scan_narrow {count : Nat} {state : State} (begun : Begun count state)
    {byte : UInt8} (narrow : ¬ Byte.isWide byte) (rest : List UInt8) :
    scan state (byte :: rest) = Utf8.atEnd state ++ scan .start (byte :: rest) := by
  cases begun with
  | start => rfl
  | @inside missing _ low high bits nonempty few wide sized =>
      have without : ¬ (low ≤ byte ∧ byte ≤ high) := by
        rintro ⟨lowLe, _⟩
        rw [UInt8.le_iff_toNat_le] at lowLe
        rw [Byte.isWide_iff] at narrow
        exact narrow (Nat.le_trans wide lowLe)
      rw [scan, Utf8.step, if_neg without]
      rfl

theorem scan_append_narrow (left : List UInt8) {byte : UInt8} (narrow : ¬ Byte.isWide byte)
    (rest : List UInt8) :
    scan .start (left ++ byte :: rest) = scan .start left ++ scan .start (byte :: rest) := by
  obtain ⟨parts, next, after, nextBegun, covers, scanEq⟩ := Begun.start.exists_scan_append left
  have leftEq := scanEq []
  rw [List.append_nil] at leftEq
  rw [scanEq, nextBegun.scan_narrow narrow, leftEq, List.append_assoc]
  rfl

/-- Behind a narrow byte, reading begins anew. -/
theorem scan_cons_narrow {byte : UInt8} (narrow : ¬ Byte.isWide byte) (rest : List UInt8) :
    scan .start (byte :: rest) = some (Char.ofUInt8 byte) :: scan .start rest := by
  have below : byte < 0x80 := Decidable.not_not.mp fun notNarrow =>
    narrow (isWide_of_not_lt notNarrow)
  rw [scan, step, first, if_pos below]
  rfl

/-- Both sides of a cut can be read on their own. -/
theorem scan_append {left right : List UInt8} (parts : Parts left right) :
    scan .start (left ++ right) = scan .start left ++ scan .start right := by
  cases right with
  | nil => rw [List.append_nil, scan, atEnd, List.append_nil]
  | cons next right =>
      by_cases wide : Byte.isWide next
      · rcases List.eq_nil_or_concat left with rfl | ⟨init, last, rfl⟩
        · rfl
        · rw [List.concat_eq_append] at *
          have narrow : ¬ Byte.isWide last := fun lastWide =>
            parts last (by simp) next rfl ⟨lastWide, wide⟩
          rw [List.append_assoc, List.singleton_append, scan_append_narrow init narrow,
            scan_append_narrow init narrow, scan_cons_narrow narrow, scan_cons_narrow narrow,
            List.append_assoc]
          rfl
      · exact scan_append_narrow left wide right

/-- The first bytes of a character are read as one part: as this character if they are all of
its bytes, and otherwise as an invalid one. -/
theorem length_scan_take_encodeChar (char : Char) {count : Nat} (positive : 0 < count) :
    (scan .start ((String.utf8EncodeChar char).take count)).length = 1 := by
  obtain ⟨parts, next, after, nextBegun, covers, scanEq⟩ :=
    Begun.start.exists_scan_append ((String.utf8EncodeChar char).take count)
  have nonempty : 0 < ((String.utf8EncodeChar char).take count).length := by
    rw [List.length_take]
    exact Nat.lt_min.mpr ⟨positive, List.length_pos_iff.mpr (encodeChar_ne_nil char)⟩
  have takenEq := scanEq []
  have wholeEq := scanEq ((String.utf8EncodeChar char).drop count)
  have oneEq := scan_encodeChar char []
  rw [List.append_nil] at oneEq takenEq
  rw [List.take_append_drop, oneEq] at wholeEq
  have lengthEq : 1 = parts.length +
      (scan next ((String.utf8EncodeChar char).drop count)).length := by
    rw [← List.length_append]
    exact congrArg List.length wholeEq
  rw [takenEq, List.length_append]
  cases nextBegun with
  | start =>
      have partsPos := covers.length_pos (by omega)
      have noneLeft : (scan .start []).length = 0 := rfl
      omega
  | @inside _ missing low high bits begun few wide sized =>
      have restCovers := (Begun.inside begun few wide sized).covers_scan
        ((String.utf8EncodeChar char).drop count)
      have restPos := restCovers.length_pos (by omega)
      have oneLeft : (scan (.inside (missing + 1) low high bits) []).length = 1 := rfl
      omega

end Utf8

/-! ## Reading bytes as characters -/

theorem decodeChars_append {left right : List UInt8} (parts : Parts left right) :
    decodeChars (left ++ right) = decodeChars left ++ decodeChars right := by
  rw [decodeChars, Utf8.scan_append parts, shown_append]
  rfl

theorem decodeChars_concat_narrow (bytes : List UInt8) {byte : UInt8}
    (narrow : ¬ Byte.isWide byte) :
    decodeChars (bytes ++ [byte]) = decodeChars bytes ++ [Char.ofUInt8 byte] := by
  rw [decodeChars, Utf8.scan_append_narrow bytes narrow, Utf8.scan_cons_narrow narrow,
    shown_append]
  rfl

/-- What is shown has the line feeds of the bytes. -/
theorem count_decodeChars (bytes : List UInt8) :
    (decodeChars bytes).count '\n' = bytes.count Byte.lineFeed :=
  (Utf8.Begun.start.covers_scan bytes).feeds

/-- What is shown takes as many bytes at least. -/
theorem length_le_encodeChars_decodeChars (bytes : List UInt8) :
    bytes.length ≤ (encodeChars (decodeChars bytes)).length := by
  have size := (Utf8.Begun.start.covers_scan bytes).size
  rw [Nat.zero_add, Nat.add_zero] at size
  exact size

theorem decodeChars_ne_nil {bytes : List UInt8} (nonempty : bytes ≠ []) :
    decodeChars bytes ≠ [] := by
  intro isNil
  have lengthLe := length_le_encodeChars_decodeChars bytes
  rw [isNil, encodeChars_nil, List.length_nil, Nat.le_zero, List.length_eq_zero_iff] at lengthLe
  exact nonempty lengthLe

/-! ## A text cut at a number of bytes -/

theorem length_decodeChars (bytes : List UInt8) :
    (decodeChars bytes).length = (Utf8.scan .start bytes).length :=
  List.length_map _

/-- Up to some of the bytes of its last character, a text has as many characters as it is
shown with. -/
theorem length_decodeChars_take_concat (chars : List Char) (last : Char) {count : Nat}
    (behind : (encodeChars chars).length < count) :
    (decodeChars ((encodeChars (chars ++ [last])).take count)).length = chars.length + 1 := by
  obtain ⟨more, rfl⟩ := Nat.exists_eq_add_of_lt behind
  rw [Nat.add_assoc, encodeChars_append, List.take_length_add_append, encodeChars_singleton,
    length_decodeChars,
    Utf8.scan_encodeChars_append, List.length_append, List.length_map,
    Utf8.length_scan_take_encodeChar last (Nat.succ_pos more)]

/-- Up to a number of bytes, a text is not shown with more characters than it has. -/
theorem length_decodeChars_take_le (chars : List Char) (count : Nat) :
    (decodeChars ((encodeChars chars).take count)).length ≤ chars.length := by
  induction chars using List.reverseRecOn with
  | nil =>
      rw [encodeChars_nil, List.take_nil]
      exact Nat.le_refl _
  | append_singleton chars last inductionHypothesis =>
      by_cases behind : (encodeChars chars).length < count
      · rw [length_decodeChars_take_concat chars last behind, List.length_append]
        exact Nat.le_refl _
      · rw [encodeChars_append, List.take_append_of_le_length (Nat.le_of_not_lt behind),
          List.length_append]
        exact Nat.le_add_right_of_le inductionHypothesis

/-- It is shown with as many exactly if the first of the bytes of its last character is among
them. -/
theorem length_decodeChars_take_eq_iff (chars : List Char) (count : Nat) :
    (decodeChars ((encodeChars chars).take count)).length = chars.length ↔
      ∀ last ∈ chars.getLast?, (encodeChars chars).length < count + last.utf8Size := by
  rcases List.eq_nil_or_concat chars with rfl | ⟨init, last, rfl⟩
  · simp [decodeChars, shown, Utf8.scan, Utf8.atEnd]
  · rw [List.concat_eq_append]
    have lengthEq : (encodeChars (init ++ [last])).length =
        (encodeChars init).length + last.utf8Size := by
      rw [encodeChars_append, List.length_append, encodeChars_singleton,
        String.length_utf8EncodeChar]
    rw [List.getLast?_concat, lengthEq]
    simp only [Option.mem_some_iff, forall_eq', Nat.add_lt_add_iff_right]
    constructor
    · intro same
      by_contra before
      have lengthLe := length_decodeChars_take_le init count
      rw [encodeChars_append, List.take_append_of_le_length (Nat.le_of_not_lt before),
        List.length_append, List.length_singleton] at same
      omega
    · intro behind
      rw [length_decodeChars_take_concat init last behind, List.length_append,
        List.length_singleton]

end PrattSyntax.Text
