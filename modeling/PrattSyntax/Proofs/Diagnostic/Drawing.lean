import PrattSyntax.Diagnostic.Rejection
import PrattSyntax.Proofs.Lexer.Excerpt
import PrattSyntax.Proofs.Places.Sight
import PrattSyntax.Proofs.Text.Breaks

/-!
# Where carets are drawn

A fault has the place of a token, on a line that the lexer has counted by line feeds, and is
drawn below a line that `Text.lines` has found by all breaks. Where line feeds end all lines,
both are the same line, and the carets stand below the characters of the token. A break that
is no line feed makes a difference: before the line of the token, another line is shown, and
inside of it, only the first part.
-/

namespace PrattSyntax

open Text (EndsWithFeed LineFeedsOnly encodeChars)

/-! ## The line of a token -/

/-- The characters of a token on their line, which goes from one line feed, or the beginning
of the text, to the next one, or the end: what is in front of the line, the line before the
token, the token, the line behind it, and the rest. The mark of the end has no characters and
nothing behind it. -/
structure Token.OnLine (token : Token) (chars front lead source trail rest : List Char) :
    Prop where
  excerpt : token.Excerpt chars (front ++ lead) source (trail ++ rest)
  form : token.kind = .eof ∧ source = [] ∧ trail = [] ∧ rest = [] ∨
    token.kind ≠ .eof ∧ source ≠ []
  opened : EndsWithFeed front
  whole : '\n' ∉ lead ++ source ++ trail
  closed : ∀ next ∈ rest.head?, next = '\n'

/-- Every token of a text is on a line. -/
theorem exists_onLine (chars : List Char) {token : Token}
    (tokenMem : token ∈ tokenize (encodeChars chars)) :
    ∃ front lead source trail rest, token.OnLine chars front lead source trail rest := by
  obtain ⟨before, source, behind, excerpt, form⟩ := exists_excerpt chars tokenMem
  have stays : '\n' ∉ source := by
    rcases form with ⟨_, rfl, _⟩ | ⟨_, _, stays⟩
    · exact List.not_mem_nil
    · exact stays
  refine ⟨before.rdropWhile (· ≠ '\n'), before.rtakeWhile (· ≠ '\n'), source,
    behind.takeWhile (· ≠ '\n'), behind.dropWhile (· ≠ '\n'), ?_, ?_, ?_, ?_, ?_⟩
  · rw [List.rdropWhile_append_rtakeWhile, List.takeWhile_append_dropWhile]
    exact excerpt
  · exact form.imp (fun ⟨isEof, noSource, isEnd⟩ => ⟨isEof, noSource, by simp [isEnd]⟩)
      fun ⟨notEof, nonempty, _⟩ => ⟨notEof, nonempty⟩
  · exact Text.endsWithFeed_rdropWhile before
  · have leadStays : '\n' ∉ before.rtakeWhile (· ≠ '\n') := fun isMem => by
      simpa using List.mem_rtakeWhile_imp isMem
    have trailStays : '\n' ∉ behind.takeWhile (· ≠ '\n') := fun isMem => by
      simpa using List.mem_takeWhile_imp isMem
    simp only [List.mem_append, not_or]
    exact ⟨⟨leadStays, stays⟩, trailStays⟩
  · intro next isNext
    have stops := List.head?_dropWhile_not (· ≠ '\n') behind
    rw [Option.mem_def.mp isNext] at stops
    simpa using stops

/-- The position behind characters, counted from the line feed before the last of them. -/
theorem Position.ofOffset_line {front lead : List Char} (opened : EndsWithFeed front)
    (stays : '\n' ∉ lead) (rest : List Char) :
    ofOffset (encodeChars (front ++ lead ++ rest)) (encodeChars (front ++ lead)).length =
      ⟨1 + (front.count '\n' : Nat), 1 + ((encodeChars lead).length : Nat),
        (encodeChars (front ++ lead)).length⟩ := by
  rw [ofOffset_encodeChars, List.count_append, List.count_eq_zero.mpr stays, Nat.add_zero,
    Text.rtakeWhile_append_of_notMem stays, opened.rtakeWhile_eq_nil, List.nil_append]

namespace Token.OnLine

variable {token : Token} {chars front lead source trail rest : List Char}

theorem chars_eq (onLine : token.OnLine chars front lead source trail rest) :
    chars = front ++ (lead ++ source ++ trail ++ rest) := by
  rw [onLine.excerpt.chars]
  simp only [List.append_assoc]

/-- The token begins and ends on the line of its characters, behind their bytes. -/
theorem span_eq (onLine : token.OnLine chars front lead source trail rest)
    (tokenMem : token ∈ tokenize (encodeChars chars)) :
    token.span.start.line = 1 + (front.count '\n' : Nat) ∧
      token.span.start.column = 1 + ((encodeChars lead).length : Nat) ∧
      token.span.stop.line = 1 + (front.count '\n' : Nat) ∧
      token.span.stop.column = 1 + ((encodeChars (lead ++ source)).length : Nat) := by
  have placed : token.PlacedIn (encodeChars chars) :=
    (Cursor.ofBytes_placedIn _).drain token tokenMem
  have stays := onLine.whole
  simp only [List.mem_append, not_or] at stays
  have startEq := placed.start
  have stopEq := placed.stop
  have startChars : chars = front ++ lead ++ (source ++ (trail ++ rest)) := by
    rw [onLine.excerpt.chars, List.append_assoc (front ++ lead)]
  have stopChars : chars = front ++ (lead ++ source) ++ (trail ++ rest) := by
    rw [onLine.excerpt.chars, List.append_assoc front lead]
  rw [onLine.excerpt.start, startChars, Position.ofOffset_line onLine.opened stays.1.1] at startEq
  rw [onLine.excerpt.stop, List.append_assoc front, stopChars,
    Position.ofOffset_line onLine.opened (by simpa using stays.1)] at stopEq
  rw [startEq, stopEq]
  exact ⟨rfl, rfl, rfl, rfl⟩

end Token.OnLine

/-! ## The line that is shown -/

/-- The rows of a drawing. -/
theorem Diagnostic.renderPlaced_eq (message filename : String) (lineNumber : Int)
    (snippet : Snippet) :
    let number := toString lineNumber
    let gutter := "".pushn ' ' (number.length + 1)
    renderPlaced message filename lineNumber snippet = "\n".intercalate
      ["error: " ++ message,
        gutter ++ "--> " ++ filename ++ ":" ++ number ++ ":" ++ toString (snippet.before + 1),
        gutter ++ "|",
        number ++ " | " ++ String.ofList snippet.line,
        gutter ++ "| " ++ "".pushn ' ' snippet.before ++ "".pushn '^' snippet.carets] := by
  intro number gutter
  change "error: " ++ message ++ "\n"
    ++ gutter ++ "--> " ++ filename ++ ":" ++ number ++ ":" ++ toString (snippet.before + 1) ++ "\n"
    ++ gutter ++ ("|" ++ "\n")
    ++ number ++ " | " ++ String.ofList snippet.line ++ "\n"
    ++ gutter ++ "| " ++ "".pushn ' ' snippet.before ++ "".pushn '^' snippet.carets = _
  simp only [String.intercalate_cons_cons, String.intercalate_singleton, String.append_assoc]

/-- What is drawn of a fault in a text. -/
def Fault.snippet (fault : Fault) (text : String) : Snippet :=
  .ofSpan (Text.lines text.toList) fault.span

theorem Fault.render_diagnostic (fault : Fault) (text filename : String) :
    fault.diagnostic.render text filename =
      Diagnostic.renderPlaced fault.message filename fault.span.start.line (fault.snippet text) :=
  rfl

namespace Snippet

theorem lineOf_one_add (lines : List (List Char)) (index : Nat) :
    lineOf lines (1 + index) = Text.stripBreak ((lines[index]?).getD []) := by
  have indexEq : (1 + index - 1 : Int).toNat = index := by omega
  rw [lineOf, if_pos (by omega), indexEq]

variable {front : List Char}

/-- The first line behind line feeds, where these end all lines before it. -/
theorem lineOf_of_feeds (ended : EndsWithFeed front) (feeds : LineFeedsOnly front)
    (rest : List Char) :
    lineOf (Text.lines (front ++ rest)) (1 + (front.count '\n' : Nat)) =
      Text.stripBreak ((Text.lines rest).headD []) := by
  rw [lineOf_one_add, Text.lines_append ended, ← (Text.length_lines_eq_count_iff ended).mpr feeds,
    List.getElem?_append_right (Nat.le_refl _), Nat.sub_self, ← List.head?_eq_getElem?,
    List.headD_eq_head?_getD]

/-- Where another break has ended a line before, one of the lines in front is taken. -/
theorem lineOf_of_not_feeds (ended : EndsWithFeed front) (broken : ¬ LineFeedsOnly front)
    (rest : List Char) :
    ∃ other ∈ Text.lines front,
      lineOf (Text.lines (front ++ rest)) (1 + (front.count '\n' : Nat)) =
        Text.stripBreak other := by
  have less : front.count '\n' < (Text.lines front).length := by
    apply Nat.lt_of_le_of_ne (Text.count_le_length_lines front)
    exact fun same => broken ((Text.length_lines_eq_count_iff ended).mp same.symm)
  refine ⟨(Text.lines front)[front.count '\n'], List.getElem_mem less, ?_⟩
  rw [lineOf_one_add, Text.lines_append ended, List.getElem?_append_left less,
    List.getElem?_eq_getElem less, Option.getD_some]

end Snippet

/-- Whether a fault is drawn under the number of the line of its token, and the line that is shown
there is the one of the token, up to carriage returns at the end: if line feeds end all lines
before it, it is exactly if no break stands inside of it. Otherwise a line before it is shown. -/
structure Fault.ShownOn (fault : Fault) (text : String) (token : Token)
    (front lead source trail rest : List Char) : Prop where
  onLine : token.OnLine text.toList front lead source trail rest
  drawing : ∀ filename,
    let number := toString (front.count '\n' + 1)
    let gutter := "".pushn ' ' (number.length + 1)
    let snippet := fault.snippet text
    fault.diagnostic.render text filename = "\n".intercalate
      ["error: " ++ fault.message,
        gutter ++ "--> " ++ filename ++ ":" ++ number ++ ":" ++ toString (snippet.before + 1),
        gutter ++ "|",
        number ++ " | " ++ String.ofList snippet.line,
        gutter ++ "| " ++ "".pushn ' ' snippet.before ++ "".pushn '^' snippet.carets]
  own : LineFeedsOnly front →
    ((fault.snippet text).line = (lead ++ source ++ trail).rdropWhile (· = '\r') ↔
      ∀ char ∈ ((lead ++ source ++ trail).rdropWhile (· = '\r')).dropLast,
        ¬ Text.isLineBreak char)
  other : ¬ LineFeedsOnly front →
    ∃ line ∈ Text.lines front, (fault.snippet text).line = Text.stripBreak line

/-- Every fault of a text is shown with the line of its token or one before it. -/
theorem exists_shownOn (text : String) {fault : Fault}
    (faultMem : fault ∈ (parse (Text.encode text)).faults) :
    ∃ token ∈ tokenize (Text.encode text), fault.span = token.span ∧
      ∃ front lead source trail rest, fault.ShownOn text token front lead source trail rest := by
  obtain ⟨token, tokenMem, spanEq⟩ := parse_faults_within (Text.encode text) fault faultMem
  obtain ⟨front, lead, source, trail, rest, onLine⟩ := exists_onLine text.toList tokenMem
  have lineEq : fault.span.start.line = 1 + (front.count '\n' : Nat) := by
    rw [spanEq]
    exact (onLine.span_eq tokenMem).1
  have shownEq : (fault.snippet text).line =
      Snippet.lineOf (Text.lines (front ++ (lead ++ source ++ trail ++ rest)))
        (1 + (front.count '\n' : Nat)) := by
    rw [← onLine.chars_eq, ← lineEq]
    rfl
  refine ⟨token, tokenMem, spanEq, front, lead, source, trail, rest, onLine, ?_, ?_, ?_⟩
  · intro filename
    have numberEq : toString fault.span.start.line = toString (front.count '\n' + 1) := by
      rw [lineEq, Int.add_comm]
      rfl
    rw [fault.render_diagnostic, Diagnostic.renderPlaced_eq, numberEq]
  · intro feeds
    rw [shownEq, Snippet.lineOf_of_feeds onLine.opened feeds]
    exact Text.stripBreak_headD_lines_eq_iff onLine.whole onLine.closed
  · intro broken
    rw [shownEq]
    exact Snippet.lineOf_of_not_feeds onLine.opened broken _

/-- A vertical tab inside of the line of the token. -/
theorem exists_shownOn_verticalTab :
    let text := "x;\ny;\x0b@\r\n"
    ∃ fault ∈ (parse (Text.encode text)).faults,
      ∃ token ∈ tokenize (Text.encode text), fault.span = token.span ∧
        ∃ front lead source trail rest,
          fault.ShownOn text token front lead source trail rest := by
  intro text
  have faultMem : ⟨.noOpening .illegal, ⟨⟨2, 4, 6⟩, ⟨2, 5, 7⟩⟩⟩ ∈
      (parse (Text.encode text)).faults := by
    decide +kernel
  exact ⟨_, faultMem, exists_shownOn text faultMem⟩

/-- A form feed before the line of the token. The lexer counts the line feed behind it, and the
second line of the text is the empty one that this line feed ends. So the line that is shown is
not always the one of the token. -/
theorem not_forall_snippet_line_eq :
    ¬ ∀ (text : String) (fault : Fault) (token : Token)
        (front lead source trail rest : List Char),
      fault ∈ (parse (Text.encode text)).faults →
      token ∈ tokenize (Text.encode text) → fault.span = token.span →
      token.OnLine text.toList front lead source trail rest →
      (fault.snippet text).line = (lead ++ source ++ trail).rdropWhile (· = '\r') := by
  intro ownLine
  let token : Token := ⟨.illegal, "", ⟨⟨2, 1, 2⟩, ⟨2, 2, 3⟩⟩⟩
  have onLine : token.OnLine "\x0c\n@".toList ['\x0c', '\n'] [] ['@'] [] [] := by
    constructor
    case excerpt => exact ⟨rfl, rfl, rfl⟩
    case form => exact .inr ⟨by decide, by decide⟩
    case opened => simp [EndsWithFeed]
    case whole => decide
    case closed => simp
  have shown := ownLine "\x0c\n@" ⟨.noOpening .illegal, token.span⟩ token _ _ _ _ _
    (by decide +kernel) (by decide +kernel) rfl onLine
  exact absurd shown (by decide +kernel)

/-! ## What is below and beside the line -/

namespace Snippet

/-- Between the bytes before a token and those behind it, its own characters are counted. -/
theorem width_encodeChars (lead source trail : List Char) :
    width ((encodeChars lead).length : Nat) ((encodeChars (lead ++ source)).length : Nat)
      (encodeChars (lead ++ source ++ trail)) = source.length := by
  rw [width, Text.encodeChars_append (lead ++ source), Text.encodeChars_append lead,
    Text.slice_append, Text.decodeLossy_encodeChars, String.length_ofList]

/-- Where the line that is shown is the one of the token, all its characters are marked. -/
theorem ofSpan_eq {lines : List (List Char)} {span : Span} {lead source trail : List Char}
    (lineEq : lineOf lines span.start.line = lead ++ source ++ trail)
    (start : span.start.column = 1 + ((encodeChars lead).length : Nat))
    (sameLine : span.stop.line = span.start.line)
    (stop : span.stop.column = 1 + ((encodeChars (lead ++ source)).length : Nat)) :
    ofSpan lines span = ⟨lead ++ source ++ trail, lead.length, max 1 source.length⟩ := by
  have bytesEq : Text.encode (String.ofList (lead ++ source ++ trail)) =
      encodeChars (lead ++ source ++ trail) := by
    rw [Text.encode_eq, String.toList_ofList]
  have beforeEq : width 0 ((encodeChars lead).length : Nat)
      (encodeChars (lead ++ source ++ trail)) = lead.length := by
    rw [List.append_assoc]
    exact width_encodeChars [] lead (source ++ trail)
  have byteEq (count : Nat) : (1 + count - 1 : Int) = count := by omega
  rw [ofSpan, lineEq, bytesEq, if_pos sameLine, start, stop, byteEq, byteEq,
    width_encodeChars lead source trail, beforeEq]

end Snippet

/-- Where line feeds end all lines, the line of a token holds no break but the carriage return
before its line feed, and this one is behind the token. -/
theorem Token.OnLine.exists_ending {token : Token} {chars front lead source trail rest : List Char}
    (onLine : token.OnLine chars front lead source trail rest) (feeds : LineFeedsOnly chars)
    (tokenMem : token ∈ tokenize (encodeChars chars)) :
    ∃ shown ending, trail = shown ++ ending ∧ (ending = [] ∨ ending = ['\r']) ∧
      ∀ char ∈ lead ++ source ++ shown, ¬ Text.isLineBreak char := by
  rw [onLine.chars_eq] at feeds
  rcases feeds.of_append_right.unbroken_or_return onLine.whole with
    unbroken | ⟨init, lineEq, unbroken, followed⟩
  · exact ⟨trail, [], (List.append_nil trail).symm, .inl rfl, unbroken⟩
  · rcases List.eq_nil_or_concat trail with rfl | ⟨shown, last, rfl⟩
    · exfalso
      rw [List.append_nil] at lineEq
      rcases onLine.form with ⟨_, _, _, rfl⟩ | ⟨notEof, nonempty⟩
      · contradiction
      · have stands := Token.standsIn_of_mem_tokenize tokenMem notEof
        have byteEq : String.utf8EncodeChar '\r' = [0x0d] := rfl
        apply onLine.excerpt.notMem_of_isBlank stands byteEq (by decide)
        have lastEq := congrArg List.getLast? lineEq
        rw [List.getLast?_append_of_ne_nil _ nonempty, List.getLast?_concat] at lastEq
        exact List.mem_of_getLast? lastEq
    · rw [List.concat_eq_append, ← List.append_assoc] at lineEq
      obtain ⟨rfl, isReturn⟩ := List.append_inj' lineEq rfl
      exact ⟨shown, ['\r'], by rw [List.concat_eq_append, isReturn], .inr rfl, unbroken⟩

/-- Where line feeds end all lines, the line of the token of a fault is shown up to its break,
and as many marks stand below the token as it has characters. -/
theorem snippet_eq_of_feeds (text : String) (feeds : LineFeedsOnly text.toList) {fault : Fault}
    {token : Token} (tokenMem : token ∈ tokenize (Text.encode text))
    (spanEq : fault.span = token.span) :
    ∃ front lead source trail ending rest,
      token.OnLine text.toList front lead source (trail ++ ending) rest ∧
        (ending = [] ∨ ending = ['\r']) ∧ '\r' ∉ lead ++ source ++ trail ∧
        fault.snippet text = ⟨lead ++ source ++ trail, lead.length, max 1 source.length⟩ := by
  obtain ⟨front, lead, source, behind, rest, onLine⟩ := exists_onLine text.toList tokenMem
  obtain ⟨trail, ending, rfl, isEnding, unbroken⟩ := onLine.exists_ending feeds tokenMem
  have noReturn : '\r' ∉ lead ++ source ++ trail := fun isMem => unbroken '\r' isMem (by decide)
  refine ⟨front, lead, source, trail, ending, rest, onLine, isEnding, noReturn, ?_⟩
  obtain ⟨startLine, startColumn, stopLine, stopColumn⟩ := onLine.span_eq tokenMem
  have charsEq := onLine.chars_eq
  rw [← List.append_assoc (lead ++ source), List.append_assoc (lead ++ source ++ trail)] at charsEq
  rw [Fault.snippet, spanEq]
  refine Snippet.ofSpan_eq ?_ startColumn (stopLine.trans startLine.symm) stopColumn
  have feedsFront : LineFeedsOnly front := by
    rw [charsEq] at feeds
    exact feeds.of_append_left onLine.opened
  have settled := Text.settled_of_unbroken unbroken
  have areReturns : ∀ char ∈ ending, char = '\r' := by
    rcases isEnding with rfl | rfl <;> simp
  rw [startLine, charsEq, Snippet.lineOf_of_feeds onLine.opened feedsFront]
  exact Text.stripBreak_headD_lines_of_unbroken settled areReturns onLine.closed
    fun char charMem => unbroken char (List.dropLast_subset _ charMem)

/-! ## The drawing -/

/-- Whether a fault is drawn at a token of a text: the heading tells the number of the line of
the token and the column behind the characters before it. The line is shown without its break,
and below it, behind a margin of the same width, stand as many blanks as there are characters
before the token and as many carets as it has, or one for the mark of the end. -/
structure Fault.DrawnAt (fault : Fault) (text filename : String) (token : Token)
    (front lead source trail ending rest : List Char) : Prop where
  onLine : token.OnLine text.toList front lead source (trail ++ ending) rest
  isEnding : ending = [] ∨ ending = ['\r']
  noReturn : '\r' ∉ lead ++ source ++ trail
  line : token.span.start.line = (front.count '\n' + 1 : Nat)
  margins : let number := toString (front.count '\n' + 1)
    ("".pushn ' ' (number.length + 1) ++ "| ").length = (number ++ " | ").length
  drawing : let number := toString (front.count '\n' + 1)
    let gutter := "".pushn ' ' (number.length + 1)
    let carets := if token.kind = .eof then 1 else source.length
    fault.diagnostic.render text filename = "\n".intercalate
      ["error: " ++ fault.message,
        gutter ++ "--> " ++ filename ++ ":" ++ number ++ ":" ++ toString (lead.length + 1),
        gutter ++ "|",
        number ++ " | " ++ String.ofList (lead ++ source ++ trail),
        gutter ++ "| " ++ "".pushn ' ' lead.length ++ "".pushn '^' carets]

/-- Where line feeds end all lines, every fault is drawn at its token. -/
theorem drawnAt_of_feeds (text filename : String) (feeds : LineFeedsOnly text.toList)
    {fault : Fault} (faultMem : fault ∈ (parse (Text.encode text)).faults) :
    ∃ token ∈ tokenize (Text.encode text), fault.span = token.span ∧
      ∃ front lead source trail ending rest,
        fault.DrawnAt text filename token front lead source trail ending rest := by
  obtain ⟨token, tokenMem, spanEq⟩ := parse_faults_within (Text.encode text) fault faultMem
  obtain ⟨front, lead, source, trail, ending, rest, onLine, isEnding, noReturn, snippetEq⟩ :=
    snippet_eq_of_feeds text feeds tokenMem spanEq
  have lineEq : token.span.start.line = (front.count '\n' + 1 : Nat) := by
    rw [(onLine.span_eq tokenMem).1]
    omega
  refine ⟨token, tokenMem, spanEq, front, lead, source, trail, ending, rest, onLine, isEnding,
    noReturn, lineEq, ?_, ?_⟩
  · intro number
    have width : "| ".length + 1 = " | ".length := rfl
    have empty : "".length = 0 := rfl
    rw [String.length_append, String.length_append, String.length_pushn]
    omega
  · have caretsEq : max 1 source.length = if token.kind = .eof then 1 else source.length := by
      rcases onLine.form with ⟨isEof, rfl, _⟩ | ⟨notEof, nonempty⟩
      · rw [if_pos isEof]
        rfl
      · rw [if_neg notEof]
        exact Nat.max_eq_right (List.length_pos_iff.mpr nonempty)
    have numberEq : toString fault.span.start.line = toString (front.count '\n' + 1) := by
      rw [spanEq, lineEq]
      rfl
    rw [fault.render_diagnostic, Diagnostic.renderPlaced_eq, snippetEq, numberEq, caretsEq]

/-- Two wide characters behind blanks, on a line that ends with a carriage return and a line
feed. -/
theorem drawnAt_of_feeds_wide :
    let text := "let x = 5;\r\n  é😀; x\r\n!"
    ∃ fault ∈ (parse (Text.encode text)).faults,
      ∃ token ∈ tokenize (Text.encode text), fault.span = token.span ∧
        ∃ front lead source trail ending rest,
          fault.DrawnAt text "input.mk" token front lead source trail ending rest := by
  intro text
  have faultMem : ⟨.noOpening .illegal, ⟨⟨2, 3, 14⟩, ⟨2, 9, 20⟩⟩⟩ ∈
      (parse (Text.encode text)).faults := by
    decide +kernel
  exact ⟨_, faultMem, drawnAt_of_feeds text "input.mk" (by decide +kernel) faultMem⟩

/-- The mark of the end, on a line of its own. -/
example : (parse (Text.encode "é;\n!\n")).faults.map
    (fun fault => fault.diagnostic.render "é;\n!\n" "a.mk") =
    ["error: no prefix parse function for ILLEGAL found\n  --> a.mk:1:1\n  |\n1 | é;\n  | ^",
      "error: no prefix parse function for EOF found\n  --> a.mk:3:1\n  |\n3 | \n  | ^"] := by
  decide +kernel

end PrattSyntax
