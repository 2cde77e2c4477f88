import PrattSyntax.CommandLine.Run
import PrattSyntax.Proofs.Diagnostic.Drawing
import PrattSyntax.Proofs.Text.Lossy

/-!
# Headings over bytes that may be no text

A fault is found on the bytes of a file and drawn over what these are shown as. Its heading
tells the line of its token, and a column that is counted on the bytes of what is shown: as
many of them are read as stand before the token in the file. An invalid part may have fewer
bytes than what is shown for it, so these can end before the token, and the column is too
small then. It is the one of the token as long as they go into the last character before it.
-/

namespace PrattSyntax

open Text (EndsWithFeed LineFeedsOnly Parts decodeChars decodeLossy encodeChars)

/-! ## The bytes before a token -/

/-- Bytes cut at the beginning of a token: the lines before the one of the token, what is in
front of the token on its own line, and the rest. -/
structure Token.LedBy (token : Token) (bytes front lead behind : List UInt8) : Prop where
  bytes_eq : bytes = front ++ lead ++ behind
  start : token.span.start.offset = (front ++ lead).length
  opened : ∀ last ∈ front.getLast?, last = Byte.lineFeed
  stays : Byte.lineFeed ∉ lead

namespace Token

variable {token : Token} {bytes front lead behind : List UInt8}

/-- A token begins where bytes can be cut, and not with a line feed. -/
theorem parts_of_mem_tokenize (tokenMem : token ∈ tokenize bytes) :
    token.span.start.offset ≤ bytes.length ∧
      Parts (bytes.take token.span.start.offset) (bytes.drop token.span.start.offset) ∧
      (decodeChars (bytes.drop token.span.start.offset)).head? ≠ some '\n' := by
  have segmentation := Cursor.tokens_segmentation (Cursor.ofBytes_standsIn bytes)
  rcases List.mem_append.mp tokenMem with isInside | isFinal
  · have stands := segmentation.stands token isInside
    refine ⟨?_, segmentation.parts_start isInside, ?_⟩
    · exact Nat.le_trans (Nat.le_of_lt stands.nonempty) stands.within
    · have stays : '\n' ∉ decodeChars (token.bytesIn bytes) := by
        rw [← List.count_eq_zero, Text.count_decodeChars, List.count_eq_zero]
        exact fun isMem => stands.munch.fits.not_isBlank _ isMem (by decide)
      have nonempty := Text.decodeChars_ne_nil stands.bytesIn_ne_nil
      rw [stands.drop_start, Text.decodeChars_append stands.parts,
        List.head?_append_of_ne_nil _ nonempty]
      exact fun isHead => stays (List.mem_of_mem_head? isHead)
  · obtain rfl := List.mem_singleton.mp isFinal
    have offsetEq : (eof (Cursor.ofBytes bytes).finish.position).span.start.offset =
        bytes.length := Cursor.ofBytes_finish_offset bytes
    rw [offsetEq, List.drop_length]
    exact ⟨Nat.le_refl _, by simp [Parts], by decide⟩

theorem exists_ledBy (tokenMem : token ∈ tokenize bytes) :
    ∃ front lead behind, token.LedBy bytes front lead behind := by
  let before := bytes.take token.span.start.offset
  have splitEq : before.rdropWhile (· ≠ Byte.lineFeed) ++ before.rtakeWhile (· ≠ Byte.lineFeed) =
      before := List.rdropWhile_append_rtakeWhile
  refine ⟨before.rdropWhile (· ≠ Byte.lineFeed), before.rtakeWhile (· ≠ Byte.lineFeed),
    bytes.drop token.span.start.offset, ?_, ?_, ?_, ?_⟩
  · rw [splitEq]
    exact (List.take_append_drop _ _).symm
  · rw [splitEq, List.length_take]
    exact (Nat.min_eq_left (parts_of_mem_tokenize tokenMem).1).symm
  · intro last isLast
    simpa using Text.not_of_mem_getLast?_rdropWhile isLast
  · exact fun isMem => by simpa using List.mem_rtakeWhile_imp isMem

namespace LedBy

theorem parts (ledBy : token.LedBy bytes front lead behind) (tokenMem : token ∈ tokenize bytes) :
    Parts (front ++ lead) behind ∧ (decodeChars behind).head? ≠ some '\n' := by
  have cut := (parts_of_mem_tokenize tokenMem).2
  rwa [ledBy.start, ledBy.bytes_eq, List.take_left, List.drop_left] at cut

/-- The token begins on the line behind the last line feed, behind the bytes that follow it. -/
theorem start_eq (ledBy : token.LedBy bytes front lead behind)
    (tokenMem : token ∈ tokenize bytes) :
    token.span.start.line = 1 + (front.count Byte.lineFeed : Nat) ∧
      token.span.start.column = 1 + (lead.length : Nat) := by
  have placed : token.PlacedIn bytes := (Cursor.ofBytes_placedIn _).drain token tokenMem
  have noneBefore : front.rtakeWhile (· ≠ Byte.lineFeed) = [] := by
    rw [List.rtakeWhile_eq_nil_iff]
    intro nonempty
    simpa using ledBy.opened _ (List.getLast?_eq_some_getLast nonempty)
  have startEq := placed.start
  rw [ledBy.start, ledBy.bytes_eq, Position.ofOffset_length_append, List.count_append,
    List.count_eq_zero.mpr ledBy.stays, Nat.add_zero,
    Text.rtakeWhile_append_of_notMem ledBy.stays, noneBefore, List.nil_append] at startEq
  rw [startEq]
  exact ⟨rfl, rfl⟩

theorem parts_front (ledBy : token.LedBy bytes front lead behind) (rest : List UInt8) :
    Parts front rest := by
  rintro last isLast next _ ⟨wide, _⟩
  obtain rfl := ledBy.opened last isLast
  exact absurd wide (by decide)

/-- What is shown up to the line of the token ends with a line feed, too. -/
theorem endsWithFeed (ledBy : token.LedBy bytes front lead behind) :
    EndsWithFeed (decodeChars front) := by
  rcases List.eq_nil_or_concat front with rfl | ⟨init, last, rfl⟩
  · intro last isLast
    contradiction
  · rw [List.concat_eq_append] at *
    obtain rfl : last = Byte.lineFeed := ledBy.opened last (by simp)
    intro last isLast
    rw [Text.decodeChars_concat_narrow _ (by decide), List.getLast?_concat,
      Option.mem_some_iff] at isLast
    rw [← isLast]
    rfl

/-- What is shown is divided where the bytes are. -/
theorem decodeChars_eq (ledBy : token.LedBy bytes front lead behind)
    (tokenMem : token ∈ tokenize bytes) :
    decodeChars bytes = decodeChars front ++ (decodeChars lead ++ decodeChars behind) := by
  rw [ledBy.bytes_eq, Text.decodeChars_append (ledBy.parts tokenMem).1,
    Text.decodeChars_append (ledBy.parts_front lead), List.append_assoc]

/-- Where line feeds end all lines, the line of the token is shown with what is shown for the
bytes before the token in front. -/
theorem exists_lineOf_eq (ledBy : token.LedBy bytes front lead behind)
    (tokenMem : token ∈ tokenize bytes) (feeds : LineFeedsOnly (decodeChars bytes)) :
    ∃ rest, Snippet.lineOf (Text.lines (decodeChars bytes)) token.span.start.line =
      decodeChars lead ++ rest := by
  have charsEq := ledBy.decodeChars_eq tokenMem
  rw [charsEq] at feeds
  have whole : '\n' ∉ decodeChars lead := by
    rw [← List.count_eq_zero, Text.count_decodeChars, List.count_eq_zero]
    exact ledBy.stays
  have unbroken : ∀ char ∈ decodeChars lead, ¬ Text.isLineBreak char := by
    rcases feeds.of_append_right.unbroken_or_return whole with unbroken | ⟨_, _, _, followed⟩
    · exact unbroken
    · exact absurd followed (ledBy.parts tokenMem).2
  obtain ⟨rest, shownEq⟩ := (Text.settled_of_unbroken unbroken).prefix_stripBreak
    ((Text.lines (decodeChars behind)).headD [])
  refine ⟨rest, ?_⟩
  rw [charsEq, (ledBy.start_eq tokenMem).1, ← Text.count_decodeChars,
    Snippet.lineOf_of_feeds ledBy.endsWithFeed (feeds.of_append_left ledBy.endsWithFeed),
    Text.headD_lines_append unbroken, shownEq]

end LedBy

end Token

/-! ## The column that is counted -/

/-- The bytes of a line are counted up to a place that its first characters reach. -/
theorem Snippet.width_of_le {chars : List Char} {count : Nat}
    (countLe : count ≤ (encodeChars chars).length) (rest : List Char) :
    width 0 count (Text.encode (String.ofList (chars ++ rest))) =
      (decodeChars ((encodeChars chars).take count)).length := by
  have inside : count ≤ (encodeChars (chars ++ rest)).length := by
    rw [Text.encodeChars_append, List.length_append]
    exact Nat.le_add_right_of_le countLe
  have sliceEq : Text.slice 0 count (encodeChars (chars ++ rest)) =
      (encodeChars chars).take count := by
    refine (Text.slice_of_le (Nat.zero_le _) inside).trans ?_
    rw [List.drop_zero, Text.encodeChars_append, List.take_append_of_le_length countLe]
  rw [width, Text.encode_eq, String.toList_ofList, sliceEq, Text.decodeLossy_eq,
    String.length_ofList]

/-- As many bytes of what is shown are read as stand before the token. -/
theorem Token.LedBy.before_eq {token : Token} {bytes front lead behind : List UInt8}
    (ledBy : token.LedBy bytes front lead behind) (tokenMem : token ∈ tokenize bytes)
    (feeds : LineFeedsOnly (decodeChars bytes)) :
    (Snippet.ofSpan (Text.lines (decodeChars bytes)) token.span).before =
      (decodeChars ((encodeChars (decodeChars lead)).take lead.length)).length := by
  obtain ⟨rest, lineEq⟩ := ledBy.exists_lineOf_eq tokenMem feeds
  have columnEq : token.span.start.column - 1 = (lead.length : Int) := by
    rw [(ledBy.start_eq tokenMem).2]
    omega
  rw [Snippet.ofSpan, lineEq, columnEq,
    Snippet.width_of_le (Text.length_le_encodeChars_decodeChars lead) rest]

/-! ## Headings -/

/-- The first two rows of the drawing of a fault: what it is, and where. -/
def Fault.heading (fault : Fault) (filename : String) (line column : Nat) : String :=
  let gutter := "".pushn ' ' ((toString line).length + 1)
  let place := gutter ++ "--> " ++ filename ++ ":" ++ toString line ++ ":" ++ toString column
  "error: " ++ fault.message ++ "\n" ++ place ++ "\n"

theorem intercalate_cons_cons_cons (separator first second third : String) (more : List String) :
    separator.intercalate (first :: second :: third :: more) =
      first ++ separator ++ second ++ separator ++ separator.intercalate (third :: more) := by
  simp only [String.intercalate_cons_cons, String.append_assoc]

/-- A drawing begins with its heading. -/
theorem Fault.exists_render_eq (fault : Fault) (text filename : String) {line : Nat}
    (lineEq : fault.span.start.line = (line : Nat)) :
    ∃ rows, fault.diagnostic.render text filename =
      fault.heading filename line ((fault.snippet text).before + 1) ++ rows := by
  have numberEq : toString fault.span.start.line = toString line := by
    rw [lineEq]
    rfl
  rw [fault.render_diagnostic, Diagnostic.renderPlaced_eq, numberEq, intercalate_cons_cons_cons]
  exact ⟨_, rfl⟩

/-- Whether the drawing of a fault in bytes begins with the line of a token and the column that
is counted on what is shown for the bytes before the token on its line, as far as these would
go. The column is never behind the characters that are shown. It is directly behind them
exactly if there are more of the bytes than what is shown has before its last character. -/
structure Fault.HeadedAt (fault : Fault) (bytes : List UInt8) (filename : String) (token : Token)
    (front lead behind : List UInt8) (column : Nat) : Prop where
  ledBy : token.LedBy bytes front lead behind
  line : token.span.start.line = (front.count Byte.lineFeed + 1 : Nat)
  heading : ∃ rows, fault.diagnostic.render (decodeLossy bytes) filename =
    fault.heading filename (front.count Byte.lineFeed + 1) column ++ rows
  counted : column =
    (decodeLossy ((Text.encode (decodeLossy lead)).take lead.length)).length + 1
  atMost : column ≤ (decodeLossy lead).length + 1
  exact_iff : column = (decodeLossy lead).length + 1 ↔
    ∀ last ∈ (decodeLossy lead).toList.getLast?,
      (Text.encode (decodeLossy lead)).length < lead.length + last.utf8Size

/-- Where line feeds end all lines of what is shown, every fault has the heading of its token. -/
theorem exists_headedAt (filename : String) (bytes : List UInt8)
    (feeds : LineFeedsOnly (decodeLossy bytes).toList) {fault : Fault}
    (faultMem : fault ∈ (parse bytes).faults) :
    ∃ token ∈ tokenize bytes, fault.span = token.span ∧
      ∃ front lead behind column, fault.HeadedAt bytes filename token front lead behind column := by
  obtain ⟨token, tokenMem, spanEq⟩ := parse_faults_within bytes fault faultMem
  obtain ⟨front, lead, behind, ledBy⟩ := Token.exists_ledBy tokenMem
  have lineEq : token.span.start.line = (front.count Byte.lineFeed + 1 : Nat) := by
    rw [(ledBy.start_eq tokenMem).1]
    omega
  have beforeEq : (fault.snippet (decodeLossy bytes)).before =
      (decodeChars ((encodeChars (decodeChars lead)).take lead.length)).length := by
    rw [Text.decodeLossy_eq, String.toList_ofList] at feeds
    rw [Fault.snippet, spanEq, Text.decodeLossy_eq, String.toList_ofList,
      ledBy.before_eq tokenMem feeds]
  have shownEq : (decodeLossy lead).toList = decodeChars lead := by
    rw [Text.decodeLossy_eq, String.toList_ofList]
  refine ⟨token, tokenMem, spanEq, front, lead, behind,
    (fault.snippet (decodeLossy bytes)).before + 1, ledBy, lineEq, ?_, ?_, ?_, ?_⟩
  · apply fault.exists_render_eq
    rw [spanEq, lineEq]
  · rw [beforeEq, Text.encode_eq, shownEq, Text.decodeLossy_eq, String.length_ofList]
  · rw [beforeEq, Text.decodeLossy_eq, String.length_ofList]
    exact Nat.succ_le_succ (Text.length_decodeChars_take_le _ _)
  · rw [beforeEq, Nat.succ_inj, Text.encode_eq, shownEq, Text.decodeLossy_eq,
      String.length_ofList]
    exact Text.length_decodeChars_take_eq_iff _ _

/-! ## What the commands print -/

namespace CommandLine

theorem renderFaults_eq (path : Path) (bytes : List UInt8) (faults : List Fault) :
    renderFaults path bytes faults = String.join
      (faults.map fun fault => fault.diagnostic.render (decodeLossy bytes) path.toText ++ "\n") := by
  rw [renderFaults, Diagnostic.renderAll, List.map_map, List.map_map]
  rfl

/-- Without a fault, nothing is drawn. -/
theorem runParse_complaints (verbose debug : Bool) (path : Path) (bytes : List UInt8) :
    (runParse verbose debug path bytes).complaints =
      faultNotes verbose (parse bytes).faults ++
        (if debug then (parse bytes).program.dump else "") ++
        renderFaults path bytes (parse bytes).faults := by
  by_cases accepted : (parse bytes).faults = []
  · have noDrawings : renderFaults path bytes [] = "" := rfl
    rw [runParse, if_pos accepted, accepted, noDrawings, String.append_empty]
  · rw [runParse, if_neg accepted]

/-- Without a fault, there is nothing to count. -/
theorem runCheck_complaints (verbose : Bool) (path : Path) (bytes : List UInt8) :
    (runCheck verbose path bytes).complaints =
      faultNotes verbose (parse bytes).faults ++ renderFaults path bytes (parse bytes).faults ++
        if (parse bytes).faults = [] then ""
        else path.toText ++ ": " ++ toString (parse bytes).faults.length ++ " error(s)\n" := by
  by_cases accepted : (parse bytes).faults = []
  · rw [runCheck, if_pos accepted, if_pos accepted, accepted]
    cases verbose <;> rfl
  · rw [runCheck, if_neg accepted, if_neg accepted]
    simp only [String.append_assoc]

/-- The drawings of the faults of a file are what is printed by the commands that read it as a
program, besides notes on the way, an outline and a count. Where line feeds end all lines of
what is shown for the file, each of them has the heading of its token. -/
theorem complaints_headed (verbose debug : Bool) (path : Path) (bytes : List UInt8)
    (feeds : LineFeedsOnly (decodeLossy bytes).toList) :
    let faults := (parse bytes).faults
    let drawings := String.join
      (faults.map fun fault => fault.diagnostic.render (decodeLossy bytes) path.toText ++ "\n")
    (runParse verbose debug path bytes).complaints =
        faultNotes verbose faults ++ (if debug then (parse bytes).program.dump else "") ++
          drawings ∧
      (runCheck verbose path bytes).complaints =
        faultNotes verbose faults ++ drawings ++
          (if faults = [] then ""
          else path.toText ++ ": " ++ toString faults.length ++ " error(s)\n") ∧
      ∀ fault ∈ faults, ∃ token ∈ tokenize bytes, fault.span = token.span ∧
        ∃ front lead behind column,
          fault.HeadedAt bytes path.toText token front lead behind column := by
  intro faults drawings
  have drawingsEq : renderFaults path bytes faults = drawings := renderFaults_eq path bytes faults
  refine ⟨?_, ?_, fun fault faultMem => exists_headedAt path.toText bytes feeds faultMem⟩
  · rw [runParse_complaints, drawingsEq]
  · rw [runCheck_complaints, drawingsEq]

/-- A character without its last byte, and a blank, before the token: what is shown for them
has as many bytes as they have. -/
theorem complaints_headed_cutCharacter :
    let path : Path := ⟨"", ["a.mk"]⟩
    let bytes := Text.encode "x;\n" ++ [0xf0, 0x9f, 0x98, 0x20, 0x40]
    ∃ fault ∈ (parse bytes).faults, ∃ token ∈ tokenize bytes, fault.span = token.span ∧
      ∃ front lead behind column,
        fault.HeadedAt bytes path.toText token front lead behind column := by
  intro path bytes
  have faultMem : ⟨.noOpening .illegal, ⟨⟨2, 5, 7⟩, ⟨2, 6, 8⟩⟩⟩ ∈ (parse bytes).faults := by
    decide +kernel
  have feeds : LineFeedsOnly (decodeLossy bytes).toList := by decide +kernel
  exact ⟨_, faultMem, (complaints_headed false false path bytes feeds).2.2 _ faultMem⟩

/-- An invalid byte and a blank before the token. What is shown for that byte has three, so the
two bytes before the token do not go over it, and the heading tells the second column and not
the third. So the column is not always the one of the token. -/
theorem not_forall_exists_render_eq :
    ¬ ∀ (path : Path) (bytes : List UInt8) (fault : Fault) (token : Token)
        (front lead behind : List UInt8), LineFeedsOnly (decodeLossy bytes).toList →
      fault ∈ (parse bytes).faults → token ∈ tokenize bytes → fault.span = token.span →
      token.LedBy bytes front lead behind →
      ∃ rows, fault.diagnostic.render (decodeLossy bytes) path.toText =
        fault.heading path.toText (front.count Byte.lineFeed + 1)
          ((decodeLossy lead).length + 1) ++ rows := by
  intro ownColumn
  let path : Path := ⟨"", ["a.mk"]⟩
  let bytes : List UInt8 := [0xff, 0x20, 0x40]
  let token : Token := ⟨.illegal, "", ⟨⟨1, 3, 2⟩, ⟨1, 4, 3⟩⟩⟩
  let fault : Fault := ⟨.noOpening .illegal, token.span⟩
  have ledBy : token.LedBy bytes [] [0xff, 0x20] [0x40] := by
    constructor
    case bytes_eq => rfl
    case start => rfl
    case opened => simp
    case stays => decide
  obtain ⟨rows, renderEq⟩ := ownColumn path bytes fault token _ _ _ (by decide +kernel)
    (by decide +kernel) (by decide +kernel) rfl ledBy
  have begins : (fault.heading path.toText 1 3).toList <+:
      (fault.diagnostic.render (decodeLossy bytes) path.toText).toList := by
    refine ⟨rows.toList, ?_⟩
    rw [renderEq, String.toList_append]
    rfl
  exact absurd begins (by decide +kernel)

end CommandLine

end PrattSyntax
