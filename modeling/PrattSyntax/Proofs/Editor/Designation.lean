import Mathlib.Data.List.Forall2
import PrattSyntax.Editor.Range
import PrattSyntax.Proofs.Lexer.Excerpt
import PrattSyntax.Proofs.Places.Sight

/-!
# What editors are shown

A fault is held against a token, on bytes. An editor is shown a range, on lines and 16-bit
units. The range is the one of the token: a token is made of characters, lines of bytes and
lines of characters are the same, and both ends of a token are on one line. The mark of the
end has no characters and is shown as one unit behind the last line.
-/

namespace PrattSyntax.Editor

open Text (encodeChars splitAt utf16)

/-! ## Places -/

/-- The place behind characters, as an editor counts it. -/
def Place.behind (before : List Char) : Place :=
  ⟨(before.count '\n' : Nat), (utf16 (before.rtakeWhile (· ≠ '\n'))).length⟩

/-- Whether a position is on one of the lines of a document, behind whole characters. -/
structure OnLine (lines : List (List UInt8)) (position : Position) : Prop where
  lower : 0 ≤ position.line - 1
  upper : position.line - 1 < lines.length
  whole : ∃ chars, Text.slice 0 (position.column - 1)
    ((lines[(position.line - 1).toNat]?).getD []) = encodeChars chars

theorem documentLines_encodeChars (chars : List Char) :
    documentLines (encodeChars chars) = (splitAt '\n' chars).map encodeChars :=
  Text.splitAt_encodeChars chars

theorem ofOffset_line_sub_one (before rest : List Char) :
    (Position.ofOffset (encodeChars (before ++ rest)) (encodeChars before).length).line - 1 =
      (before.count '\n' : Nat) := by
  simp only [Position.ofOffset_encodeChars]
  omega

theorem ofOffset_column_sub_one (before rest : List Char) :
    (Position.ofOffset (encodeChars (before ++ rest)) (encodeChars before).length).column - 1 =
      ((encodeChars (before.rtakeWhile (· ≠ '\n'))).length : Nat) := by
  simp only [Position.ofOffset_encodeChars]
  omega

/-- The bytes of a line before a position on it. -/
theorem slice_line (before rest : List Char) :
    Text.slice 0 ((encodeChars (before.rtakeWhile (· ≠ '\n'))).length : Nat)
        (((documentLines (encodeChars (before ++ rest)))[before.count '\n']?).getD []) =
      encodeChars (before.rtakeWhile (· ≠ '\n')) := by
  have lineEq := Text.splitAt_getElem?_count '\n' before rest
  rw [documentLines_encodeChars, List.getElem?_map, lineEq, Option.map_some, Option.getD_some,
    Text.encodeChars_append]
  have inside := (List.prefix_append (encodeChars (before.rtakeWhile (· ≠ '\n')))
    (encodeChars (rest.takeWhile (· ≠ '\n')))).length_le
  have sliceEq := Text.slice_of_le (Nat.zero_le _) inside
  rw [List.drop_zero, List.take_left] at sliceEq
  exact sliceEq

theorem count_lt_documentLines_length (before rest : List Char) :
    before.count '\n' < (documentLines (encodeChars (before ++ rest))).length := by
  rw [documentLines_encodeChars, List.length_map, Text.splitAt_length, List.count_append]
  omega

/-- The position behind characters is on a line. -/
theorem onLine_ofOffset (before rest : List Char) :
    OnLine (documentLines (encodeChars (before ++ rest)))
      (.ofOffset (encodeChars (before ++ rest)) (encodeChars before).length) := by
  constructor
  · rw [ofOffset_line_sub_one]
    exact Int.natCast_nonneg _
  · rw [ofOffset_line_sub_one]
    exact Int.ofNat_lt.mpr (count_lt_documentLines_length before rest)
  · rw [ofOffset_line_sub_one, ofOffset_column_sub_one, Int.toNat_natCast]
    exact ⟨_, slice_line before rest⟩

/-- The position behind characters is converted to the place behind them. -/
theorem ofPosition_ofOffset (before rest : List Char) :
    let position := Position.ofOffset (encodeChars (before ++ rest)) (encodeChars before).length
    Place.ofPosition (documentLines (encodeChars (before ++ rest))) position.line
      position.column = .behind before := by
  intro position
  have onLine : OnLine _ position := onLine_ofOffset before rest
  have characterEq := congrArg Text.units16 (congrArg Text.decodeLossy (slice_line before rest))
  rw [Text.decodeLossy_encodeChars, Text.units16_ofList] at characterEq
  rw [Place.ofPosition, if_pos ⟨onLine.lower, onLine.upper⟩, ofOffset_line_sub_one,
    ofOffset_column_sub_one, Int.toNat_natCast]
  exact congrArg (Place.mk _) (congrArg Nat.cast characterEq)

/-! ## Ranges -/

/-- What the range of a token shows: the characters of the token on their line, or one unit
behind the last line. -/
inductive Shows (chars : List Char) (marker : Marker) : Token → Prop
  | characters {token : Token} {before source behind line : List Char}
      (excerpt : token.Excerpt chars before source behind) (notEof : token.kind ≠ .eof)
      (lineEq : (splitAt '\n' chars)[before.count '\n']? = some line)
      (startLine : marker.start.line = (before.count '\n' : Nat))
      (stopLine : marker.stop.line = (before.count '\n' : Nat))
      (nonnegative : 0 ≤ marker.start.character)
      (nonempty : marker.start.character < marker.stop.character)
      (cut : Text.slice marker.start.character marker.stop.character (utf16 line) = utf16 source) :
      Shows chars marker token
  | ending {token : Token} {line : List Char} (excerpt : token.Excerpt chars chars [] [])
      (isEof : token.kind = .eof)
      (lineEq : (splitAt '\n' chars).getLast? = some line)
      (startLine : marker.start.line = (chars.count '\n' : Nat))
      (stopLine : marker.stop.line = (chars.count '\n' : Nat))
      (start : marker.start.character = (utf16 line).length)
      (stop : marker.stop.character = (utf16 line).length + 1) : Shows chars marker token

/-- A stretch of a line is cut out of its UTF-16 form by the units before it and those of it. -/
theorem slice_utf16 (front source back : List Char) :
    Text.slice ((utf16 front).length : Nat) ((utf16 (front ++ source)).length : Nat)
      (utf16 (front ++ source ++ back)) = utf16 source := by
  rw [Text.utf16_append (front ++ source), Text.utf16_append front]
  exact Text.slice_append _ _ _

section

variable {chars before source behind : List Char} {token : Token}

/-- A marker over a token that has characters. -/
theorem shows_characters (excerpt : token.Excerpt chars before source behind)
    (notEof : token.kind ≠ .eof) (nonempty : source ≠ []) (stays : '\n' ∉ source)
    {marker : Marker} (startEq : marker.start = .behind before)
    (stopEq : marker.stop = (Place.behind before).visibleStop (.behind (before ++ source))) :
    Shows chars marker token := by
  have countEq : (before ++ source).count '\n' = before.count '\n' := by
    rw [List.count_append, List.count_eq_zero.mpr stays, Nat.add_zero]
  have lastEq := Text.rtakeWhile_append_of_notMem stays before
  have less : (utf16 (before.rtakeWhile (· ≠ '\n'))).length <
      (utf16 (before.rtakeWhile (· ≠ '\n') ++ source)).length := by
    have sourcePos := Text.utf16_length_pos nonempty
    rw [Text.utf16_append, List.length_append]
    omega
  have stopPlace : marker.stop = ⟨(before.count '\n' : Nat),
      (utf16 (before.rtakeWhile (· ≠ '\n') ++ source)).length⟩ := by
    have differ : Place.behind (before ++ source) ≠ .behind before := by
      intro same
      have characterEq := congrArg Place.character same
      simp only [Place.behind, lastEq] at characterEq
      omega
    rw [stopEq, Place.visibleStop, if_neg differ, Place.behind, countEq, lastEq]
  have onLine : ∀ char ∈ source, decide (char ≠ '\n') = true := by
    intro char charMem
    rw [decide_eq_true_eq]
    rintro rfl
    exact stays charMem
  have lineEq := Text.splitAt_getElem?_count '\n' before (source ++ behind)
  rw [List.takeWhile_append_of_pos onLine, ← List.append_assoc, ← List.append_assoc,
    ← excerpt.chars] at lineEq
  apply Shows.characters excerpt notEof lineEq
  · rw [startEq]
    rfl
  · rw [stopPlace]
  · rw [startEq]
    exact Int.natCast_nonneg _
  · rw [startEq, stopPlace]
    exact Int.ofNat_lt.mpr less
  · rw [startEq, stopPlace]
    exact slice_utf16 _ _ _

/-- A marker over the mark of the end. -/
theorem shows_ending (excerpt : token.Excerpt chars chars [] []) (isEof : token.kind = .eof)
    {marker : Marker}
    (startEq : marker.start = .behind chars)
    (stopEq : marker.stop = (Place.behind chars).visibleStop (.behind chars)) :
    Shows chars marker token := by
  rw [Place.visibleStop, if_pos rfl] at stopEq
  apply Shows.ending excerpt isEof (Text.splitAt_getLast? '\n' chars)
  · rw [startEq]
    rfl
  · rw [stopEq]
    rfl
  · rw [startEq]
    rfl
  · rw [stopEq]
    rfl

/-- The ends of a token are on lines, and are converted to the places around its characters. -/
theorem places_of_excerpt (excerpt : token.Excerpt chars before source behind)
    (placed : token.PlacedIn (encodeChars chars)) :
    let lines := documentLines (encodeChars chars)
    OnLine lines token.span.start ∧ OnLine lines token.span.stop ∧
      Place.ofPosition lines token.span.start.line token.span.start.column = .behind before ∧
      Place.ofPosition lines token.span.stop.line token.span.stop.column =
        .behind (before ++ source) := by
  have startChars : chars = before ++ (source ++ behind) := by
    rw [excerpt.chars, List.append_assoc]
  have startEq := placed.start
  have stopEq := placed.stop
  rw [excerpt.start, startChars] at startEq
  rw [excerpt.stop, excerpt.chars] at stopEq
  have startOn := onLine_ofOffset before (source ++ behind)
  have stopOn := onLine_ofOffset (before ++ source) behind
  have startPlace := ofPosition_ofOffset before (source ++ behind)
  have stopPlace := ofPosition_ofOffset (before ++ source) behind
  rw [← startEq, ← startChars] at startOn startPlace
  rw [← stopEq, ← excerpt.chars] at stopOn stopPlace
  exact ⟨startOn, stopOn, startPlace, stopPlace⟩

end

/-! ## Places that are accepted -/

section

variable {Refusal : Type} {accept : Place → Except Refusal Unit}

/-- Whether a check of places accepts every two numbers that the protocol has, which are those
of 31 bits without a sign. -/
def AcceptsUnsigned (accept : Place → Except Refusal Unit) : Prop :=
  ∀ line character : Nat, line < 2 ^ 31 → character < 2 ^ 31 →
    accept ⟨line, character⟩ = .ok ()

/-- A place has no number greater than the bytes before it. -/
theorem Place.behind_le (before : List Char) :
    before.count '\n' ≤ (encodeChars before).length ∧
      (utf16 (before.rtakeWhile (· ≠ '\n'))).length ≤ (encodeChars before).length := by
  constructor
  · rw [← Text.count_encodeChars]
    exact List.count_le_length
  · apply Nat.le_trans (Text.utf16_length_le _)
    rw [← Text.rtakeWhile_encodeChars]
    exact (List.rtakeWhile_suffix _ _).length_le

theorem AcceptsUnsigned.accept_behind (accepts : AcceptsUnsigned accept) {before : List Char}
    (small : (encodeChars before).length + 1 < 2 ^ 31) :
    accept (.behind before) = .ok () ∧
      ∀ stop, accept stop = .ok () → accept ((Place.behind before).visibleStop stop) = .ok () := by
  have bounds := Place.behind_le before
  constructor
  · apply accepts <;> omega
  · intro stop stopAccepted
    unfold Place.visibleStop
    split
    · have widened : (Place.behind before).character + 1 =
          ((utf16 (before.rtakeWhile (· ≠ '\n'))).length + 1 : Nat) := rfl
      rw [widened]
      apply accepts <;> omega
    · exact stopAccepted

/-- A marker whose places are accepted stays as it is. -/
theorem Marker.checked_eq_ok_iff {marker taken : Marker} :
    marker.checked accept = .ok taken ↔
      accept marker.start = .ok () ∧ accept marker.stop = .ok () ∧ taken = marker := by
  rw [checked]
  cases accept marker.start with
  | error refusal => simp [bind, Except.bind]
  | ok =>
      cases accept marker.stop with
      | error refusal => simp [bind, Except.bind]
      | ok => simp [bind, Except.bind, pure, Except.pure, eq_comm]

theorem mapM_checked_eq_ok_iff {markers taken : List Marker} :
    markers.mapM (Marker.checked accept) = .ok taken ↔
      taken = markers ∧ ∀ marker ∈ markers, marker.checked accept = .ok marker := by
  induction markers generalizing taken with
  | nil => simp [pure, Except.pure, eq_comm]
  | cons marker markers inductionHypothesis =>
      rw [List.mapM_cons, List.forall_mem_cons]
      cases markerEq : marker.checked accept with
      | error refusal => simp [bind, Except.bind]
      | ok first =>
          obtain ⟨_, _, rfl⟩ := Marker.checked_eq_ok_iff.mp markerEq
          cases othersEq : markers.mapM (Marker.checked accept) with
          | error refusal =>
              have notAll : ¬ ∀ other ∈ markers, other.checked accept = .ok other := by
                intro allTaken
                rw [inductionHypothesis.mpr ⟨rfl, allTaken⟩] at othersEq
                contradiction
              simp [bind, Except.bind, notAll]
          | ok others =>
              obtain ⟨rfl, othersTaken⟩ := inductionHypothesis.mp othersEq
              simpa [bind, Except.bind, pure, Except.pure, eq_comm] using fun _ => othersTaken

/-- What is published are the markers of the document, if all of them are accepted. -/
theorem publish_eq_ok_iff {address text : String} {publication : Publication} :
    publish accept address text = .ok publication ↔
      publication = ⟨address, markers text⟩ ∧
        ∀ marker ∈ markers text, marker.checked accept = .ok marker := by
  rw [publish]
  constructor
  · intro published
    cases takenEq : (markers text).mapM (Marker.checked accept) with
    | error refusal =>
        rw [takenEq] at published
        contradiction
    | ok taken =>
        rw [takenEq] at published
        obtain rfl := Except.ok.inj published
        obtain ⟨rfl, allTaken⟩ := mapM_checked_eq_ok_iff.mp takenEq
        exact ⟨rfl, allTaken⟩
  · rintro ⟨rfl, allTaken⟩
    rw [mapM_checked_eq_ok_iff.mpr ⟨rfl, allTaken⟩]
    rfl

end

/-! ## Documents -/

/-- Whether a marker shows a fault of a document: it says what the fault says, over the range
of the token that the fault is held against. Both ends of this token are on lines of the
document, behind whole characters. -/
structure Designates (text : String) (fault : Fault) (marker : Marker) : Prop where
  message : marker.message = fault.message
  severity : marker.severity = "Error"
  source : marker.source = "monkey"
  start : OnLine (documentLines (Text.encode text)) fault.span.start
  stop : OnLine (documentLines (Text.encode text)) fault.span.stop
  shows : ∃ token ∈ tokenize (Text.encode text), fault.span = token.span ∧
    Shows text.toList marker token

section

variable {text : String} {fault : Fault} {token : Token}

/-- The marker of a fault at a token begins and ends at the characters of this token. -/
theorem ofDiagnostic_places {before source behind : List Char}
    (tokenMem : token ∈ tokenize (Text.encode text)) (spanEq : fault.span = token.span)
    (excerpt : token.Excerpt text.toList before source behind) :
    let lines := documentLines (Text.encode text)
    let marker := Marker.ofDiagnostic lines fault.diagnostic
    OnLine lines fault.span.start ∧ OnLine lines fault.span.stop ∧
      marker.start = .behind before ∧
      marker.stop = (Place.behind before).visibleStop (.behind (before ++ source)) := by
  intro lines marker
  have placed : token.PlacedIn (encodeChars text.toList) :=
    (Cursor.ofBytes_placedIn _).drain token tokenMem
  obtain ⟨startOn, stopOn, startEq, stopEq⟩ := places_of_excerpt excerpt placed
  rw [← spanEq] at startOn stopOn startEq stopEq
  exact ⟨startOn, stopOn, startEq, congrArg₂ Place.visibleStop startEq stopEq⟩

theorem ofDiagnostic_designates (tokenMem : token ∈ tokenize (Text.encode text))
    (spanEq : fault.span = token.span) :
    Designates text fault
      (Marker.ofDiagnostic (documentLines (Text.encode text)) fault.diagnostic) := by
  obtain ⟨before, source, behind, excerpt, form⟩ := exists_excerpt text.toList tokenMem
  obtain ⟨startOn, stopOn, startEq, stopEq⟩ := ofDiagnostic_places tokenMem spanEq excerpt
  refine ⟨rfl, rfl, rfl, startOn, stopOn, token, tokenMem, spanEq, ?_⟩
  rcases form with ⟨isEof, rfl, rfl⟩ | ⟨notEof, nonempty, stays⟩
  · obtain rfl : before = text.toList := by simpa using excerpt.chars.symm
    rw [List.append_nil] at stopEq
    exact shows_ending excerpt isEof startEq stopEq
  · exact shows_characters excerpt notEof nonempty stays startEq stopEq

/-- In a document that is not too long, the markers are accepted. -/
theorem checked_ofDiagnostic {Refusal : Type} {accept : Place → Except Refusal Unit}
    (accepts : AcceptsUnsigned accept) (tokenMem : token ∈ tokenize (Text.encode text))
    (spanEq : fault.span = token.span) (small : (Text.encode text).length + 1 < 2 ^ 31) :
    (Marker.ofDiagnostic (documentLines (Text.encode text)) fault.diagnostic).checked accept =
      .ok (Marker.ofDiagnostic (documentLines (Text.encode text)) fault.diagnostic) := by
  obtain ⟨before, source, behind, excerpt, _⟩ := exists_excerpt text.toList tokenMem
  obtain ⟨_, _, startEq, stopEq⟩ := ofDiagnostic_places tokenMem spanEq excerpt
  have lengthEq := congrArg List.length (congrArg encodeChars excerpt.chars)
  rw [Text.encodeChars_append, Text.encodeChars_append, List.length_append,
    List.length_append] at lengthEq
  rw [Text.encode_eq] at small
  have sourceSmall : (encodeChars (before ++ source)).length + 1 < 2 ^ 31 := by
    rw [Text.encodeChars_append, List.length_append]
    omega
  have beforeSmall : (encodeChars before).length + 1 < 2 ^ 31 := by omega
  have beforeAccepted := accepts.accept_behind beforeSmall
  have sourceAccepted := accepts.accept_behind sourceSmall
  refine Marker.checked_eq_ok_iff.mpr ⟨?_, ?_, rfl⟩
  · rw [startEq]
    exact beforeAccepted.1
  · rw [stopEq]
    exact beforeAccepted.2 _ sourceAccepted.1

end

/-- The markers of a document show the faults that it is read with, one for one and in their
order. They are what is published, unless a place in them is not accepted, which does not happen
in a document of less than `2 ^ 31` bytes if all numbers of the protocol are accepted. -/
theorem publish_designates {Refusal : Type} (accept : Place → Except Refusal Unit)
    (address text : String) :
    List.Forall₂ (Designates text) (parse (Text.encode text)).faults (markers text) ∧
      (∀ publication, publish accept address text = .ok publication →
        publication = ⟨address, markers text⟩) ∧
      (AcceptsUnsigned accept → (Text.encode text).length + 1 < 2 ^ 31 →
        publish accept address text = .ok ⟨address, markers text⟩) := by
  have atTokens := parse_faults_within (Text.encode text)
  refine ⟨?_, ?_, ?_⟩
  · rw [markers, List.forall₂_map_right_iff, List.forall₂_same]
    intro fault faultMem
    obtain ⟨token, tokenMem, spanEq⟩ := atTokens fault faultMem
    exact ofDiagnostic_designates tokenMem spanEq
  · intro publication published
    exact (publish_eq_ok_iff.mp published).1
  · intro accepts small
    refine publish_eq_ok_iff.mpr ⟨rfl, ?_⟩
    intro marker markerMem
    obtain ⟨fault, faultMem, rfl⟩ := List.mem_map.mp markerMem
    obtain ⟨token, tokenMem, spanEq⟩ := atTokens fault faultMem
    exact checked_ofDiagnostic accepts tokenMem spanEq small

/-- Two faults under a check that refuses all other numbers. -/
theorem publish_designates_refusing :
    let accept : Place → Except String Unit := fun place =>
      if 0 ≤ place.line ∧ place.line < 2 ^ 31 ∧ 0 ≤ place.character ∧ place.character < 2 ^ 31
      then .ok () else .error "out of range"
    publish accept "file:///t.mk" "let 😀;\n!" = .ok ⟨"file:///t.mk",
      [⟨"expected next token to be IDENT, got ILLEGAL instead", ⟨0, 4⟩, ⟨0, 6⟩, "Error", "monkey"⟩,
        ⟨"no prefix parse function for EOF found", ⟨1, 1⟩, ⟨1, 2⟩, "Error", "monkey"⟩]⟩ := by
  intro accept
  have accepts : AcceptsUnsigned accept := by
    intro line character lineLess characterLess
    exact if_pos (by dsimp only; omega)
  have published := (publish_designates accept "file:///t.mk" "let 😀;\n!").2.2 accepts
    (by decide +kernel)
  rw [published]
  decide +kernel

end PrattSyntax.Editor
