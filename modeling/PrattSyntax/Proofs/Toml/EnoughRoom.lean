import PrattSyntax.Toml.Document

/-!
# Enough room

Every settings file has some room that is enough for it: each array and each table begins with
a bracket or a brace of its own, and what is inside of it is behind that. So as many calls as all
of these marks may take are never too few. What a reader does between the arrays and tables never
asks for room, which is shown reader by reader.
-/

namespace PrattSyntax.Toml

/-- The result does not stop at a limit. -/
def Avoids {ε α : Type} (limit : ε) (result : Except ε α) : Prop := result ≠ .error limit

namespace Avoids

variable {ε α β : Type} {limit : ε}

@[simp]
theorem of_ok (value : α) : Avoids limit (.ok value) := nofun

@[simp]
theorem of_pure (value : α) : Avoids limit (pure value : Except ε α) := nofun

@[simp]
theorem of_malformed (cause : Cause) (input : List Char) :
    Avoids .tooDeep (malformed cause input : Except Stop α) := nofun

theorem of_mapError (result : Except Cause α) (left : Nat) :
    Avoids .tooDeep (result.mapError fun cause => Stop.malformed cause left) := by
  cases result <;> nofun

theorem bind {first : Except ε α} {next : α → Except ε β} (starts : Avoids limit first)
    (goesOn : ∀ value, Avoids limit (next value)) : Avoids limit (first >>= next) := by
  cases first with
  | error stop => exact fun stopped => starts (congrArg Except.error (Except.error.inj stopped))
  | ok value => exact goesOn value

/-- What is made of the result in the end stops nowhere. -/
theorem andPure {result : Except ε α} (starts : Avoids limit result) (f : α → β) :
    Avoids limit (result >>= fun value => pure (f value)) :=
  starts.bind fun value => of_pure (f value)

theorem map {result : Except ε α} (starts : Avoids limit result) (f : α → β) :
    Avoids limit (result.map f) := by
  cases result with
  | error stop => exact fun stopped => starts (congrArg Except.error (Except.error.inj stopped))
  | ok value => exact of_ok (f value)

end Avoids

/-- A reader that never asks for room. -/
def Demand.IsFlat {α : Type} (demand : Demand α) : Prop :=
  ∀ input, Avoids .tooDeep (demand input)

namespace Demand.IsFlat

variable {α β : Type}

theorem of_pure (value : α) : Demand.IsFlat (pure value) := fun _ => .of_pure _

theorem bind {first : Demand α} {next : α → Demand β} (starts : first.IsFlat)
    (goesOn : ∀ value, (next value).IsFlat) : Demand.IsFlat (first >>= next) := fun input =>
  (starts input).bind fun piece => (goesOn piece.value piece.rest).andPure _

theorem map {demand : Demand α} (flat : demand.IsFlat) (f : α → β) :
    Demand.IsFlat (f <$> demand) :=
  flat.bind fun value => of_pure (f value)

theorem ofTrial (cause : Cause) (trial : Trial α) : (ofTrial cause trial).IsFlat := by
  intro input
  rw [Demand.ofTrial]
  split <;> simp

theorem ofExcept (result : Except Cause α) : (ofExcept result).IsFlat := by
  intro input
  rw [Demand.ofExcept.eq_def]
  split <;> simp

theorem behind {demand : Demand α} (flat : demand.IsFlat) {rest input : List Char}
    (isEnd : rest <:+ input) : Avoids .tooDeep (demand.behind isEnd) :=
  (flat rest).map _

end Demand.IsFlat

open Demand

/-! ## Readers that never ask for room -/

theorem refuse_avoids (class? : Char → Bool) (input : List Char) (last : Nat) :
    Avoids .tooDeep (refuse class? input last) := by
  rw [refuse]
  split
  · simp
  · split <;> simp

theorem blanks_isFlat : blanks.IsFlat := fun _ => .of_ok _

theorem commentText_isFlat : commentText.IsFlat := fun _ => (refuse_avoids _ _ _).andPure _

theorem comment_isFlat : comment.IsFlat := by
  intro input
  rw [comment.eq_def]
  split
  · exact (commentText_isFlat _).andPure _
  · simp

theorem filler_isFlat : IsFlat filler := by
  intro input
  fun_induction filler input with
  | case1 input front rest opened inductionHypothesis =>
      exact (commentText_isFlat rest).bind fun behind => (inductionHypothesis behind).andPure _
  | case2 input front others => simp

theorem codedChar_isFlat (width : Nat) : (codedChar width).IsFlat := by
  intro input
  rw [codedChar]
  split
  · simp
  · dsimp only
    split
    · simp
    · split <;> simp

theorem lineEscape_isFlat : lineEscape.IsFlat := by
  intro input
  rw [lineEscape]
  split <;> simp

theorem escape_isFlat (overLines : Bool) : (escape overLines).IsFlat := by
  intro input
  rw [escape.eq_def]
  split
  · simp
  · split
    · exact (lineEscape_isFlat _).andPure _
    · split
      · exact (codedChar_isFlat 4 _).andPure _
      · split
        · exact (codedChar_isFlat 8 _).andPure _
        · split <;> simp

theorem quotedBody_isFlat (overLines : Bool) : (quotedBody overLines).IsFlat := by
  intro input
  fun_induction quotedBody overLines input with
  | case2 rest inductionHypothesis =>
      exact (escape_isFlat overLines rest).bind fun escaped =>
        (inductionHypothesis escaped).andPure _
  | case5 rest _ _ inductionHypothesis => exact inductionHypothesis.andPure _
  | case7 char rest _ _ _ inductionHypothesis => exact inductionHypothesis.andPure _
  | _ => simp

theorem literalBody_isFlat (mark : String) (isRefused : Char → Bool) :
    (literalBody mark isRefused).IsFlat := by
  intro input
  rw [literalBody]
  split
  · simp
  · exact (refuse_avoids _ _ _).andPure _

theorem moreMarks_isFlat (mark : Char) : (moreMarks mark).IsFlat := by
  intro input
  rw [moreMarks.eq_def]
  split
  · split
    · split <;> simp
    · simp
  · split <;> simp
  · simp

theorem skipFeed_isFlat : skipFeed.IsFlat := by
  intro input
  rw [skipFeed.eq_def]
  split <;> simp

theorem textInLine_isFlat (cause : Cause) : (textInLine cause).IsFlat := by
  intro input
  rw [textInLine.eq_def]
  split
  · exact ((quotedBody_isFlat false).map _).behind _
  · exact ((literalBody_isFlat _ _).map _).behind _
  · simp

theorem textOverLines_isFlat (mark : Char) {body : Demand (List Char)} (flat : body.IsFlat) :
    (textOverLines mark body).IsFlat :=
  skipFeed_isFlat.bind fun _ => flat.bind fun _ => (moreMarks_isFlat mark).bind fun _ =>
    .of_pure _

theorem text_isFlat : text.IsFlat := by
  intro input
  rw [text.eq_def]
  split
  · exact (textOverLines_isFlat _ (quotedBody_isFlat true)).behind _
  · exact (textOverLines_isFlat _ (literalBody_isFlat _ _)).behind _
  · exact textInLine_isFlat _ _

theorem evaluate_avoids (input : List Char) (literal : Literal) :
    Avoids .tooDeep (literal.evaluate input) := by
  cases literal with
  | plain value => exact .of_ok _
  | moment time =>
      rw [Literal.evaluate]
      split <;> simp
  | integer negative digits =>
      rw [Literal.evaluate]
      split
      · nofun
      · exact .of_ok _
  | float negative digits fraction exponent => exact .of_ok _

theorem scalar_isFlat : scalar.IsFlat := by
  intro input
  rw [scalar]
  split
  · exact text_isFlat.map _ _
  · exact (IsFlat.ofTrial _ _ _).bind fun piece => (evaluate_avoids _ _).andPure _

theorem keyPart_isFlat : keyPart.IsFlat := by
  intro input
  rw [keyPart]
  split
  · simp
  · exact textInLine_isFlat _ _

theorem key_isFlat : IsFlat key := by
  intro input
  induction input using key.induct with
  | case1 input inductionHypothesis =>
      rw [key]
      refine (keyPart_isFlat input).bind fun part => ?_
      dsimp only
      split
      · next rest dotted => exact (inductionHypothesis part rest dotted).andPure _
      · exact .of_pure _

theorem keyEquals_isFlat : keyEquals.IsFlat :=
  IsFlat.bind key_isFlat fun _ => (IsFlat.ofTrial _ _).bind fun _ => blanks_isFlat.bind fun _ =>
    .of_pure _

theorem header_isFlat (document : Document) (brackets : String × String) (unclosed : Cause)
    (change : Document → Key → Except Cause Document) :
    (header document brackets unclosed change).IsFlat :=
  (IsFlat.ofTrial _ _).bind fun _ => blanks_isFlat.bind fun _ =>
    IsFlat.bind key_isFlat fun _ => (IsFlat.ofExcept _).bind fun _ =>
      (IsFlat.ofTrial _ _).bind fun _ => .of_pure _

/-! ## Room for the marks of a text -/

/-- Whether an array or a table may begin with a character. -/
def isOpening (char : Char) : Bool := char = '[' || char = '\x7b'

/-- The calls that are enough for all arrays and tables that may begin in a text. -/
def callsFor (text : List Char) : Nat := tableCalls * text.countP isOpening

theorem callsFor_le_of_suffix {rest text : List Char} (isEnd : rest <:+ text) :
    callsFor rest ≤ callsFor text :=
  Nat.mul_le_mul_left _ isEnd.sublist.countP_le

theorem callsFor_cons {char : Char} (opens : isOpening char) (rest : List Char) :
    callsFor (char :: rest) = callsFor rest + tableCalls := by
  rw [callsFor, List.countP_cons_of_pos opens, Nat.mul_add_one]
  rfl

variable {room : Nat}

/-- There is room for an array or a table that takes no more calls than a table, and for what
is behind its opening mark. -/
theorem callsFor_le_sub {char : Char} {rest inside : List Char} {calls : Nat}
    (opens : isOpening char) (isEnd : inside <:+ rest) (few : calls ≤ tableCalls)
    (enough : callsFor (char :: rest) ≤ room) :
    ¬ room < calls ∧ callsFor inside ≤ room - calls := by
  have insideLe := callsFor_le_of_suffix isEnd
  rw [callsFor_cons opens] at enough
  omega

/-- Values, the entries of a table and the elements of an array have room, together. -/
theorem values_avoid :
    (∀ room input, callsFor input ≤ room → Avoids .tooDeep (value room input)) ∧
      (∀ room inline input, callsFor input ≤ room →
        Avoids .tooDeep (entries room inline input)) ∧
      (∀ room input, callsFor input ≤ room → Avoids .tooDeep (elements room input)) := by
  have arrayLe : arrayCalls ≤ tableCalls := by decide
  refine value.mutual_induct _ _ _ ?tightArray ?array ?tightTable ?emptyTable ?table ?scalar
    ?entries ?elements
  case tightArray =>
    intro room rest tight enough
    exact absurd tight (callsFor_le_sub rfl (List.suffix_refl rest) arrayLe enough).1
  case array =>
    intro room rest roomy inductionHypothesis enough
    have inside := callsFor_le_sub rfl (List.suffix_refl rest) arrayLe enough
    rw [value_array roomy]
    exact (inductionHypothesis inside.2).andPure _
  case tightTable =>
    intro room rest tight enough
    exact absurd tight (callsFor_le_sub rfl (List.suffix_refl rest) (Nat.le_refl _) enough).1
  case emptyTable =>
    intro room rest roomy front behind closed _
    rw [value_emptyTable roomy closed]
    exact .of_ok _
  case table =>
    intro room rest roomy front others inductionHypothesis enough
    have inside := callsFor_le_sub rfl front.suffix (Nat.le_refl _) enough
    rw [value_table roomy others]
    exact (inductionHypothesis inside.2).andPure _
  case scalar =>
    intro room input noArray noTable _
    rw [value.eq_3 room input noArray noTable]
    exact scalar_isFlat input
  case entries =>
    intro room inline input valueAvoids restAvoids enough
    have behind {rest : List Char} (isEnd : rest <:+ input) : callsFor rest ≤ room :=
      Nat.le_trans (callsFor_le_of_suffix isEnd) enough
    rw [entries]
    refine (keyEquals_isFlat input).bind fun path => ?_
    refine (valueAvoids path (behind path.suffix)).bind fun first => ?_
    refine .bind (.of_mapError _ _) fun inline => ?_
    have firstEnds := first.suffix.trans path.suffix
    dsimp only
    split
    · exact .of_pure _
    · next rest comma =>
        have restEnds := (Piece.suffix_of_rest_eq _ comma).trans firstEnds
        have nextEnds := (skipWhile isBlank rest).suffix.trans restEnds
        exact (restAvoids path first inline rest comma (behind nextEnds)).andPure _
    · exact .of_malformed _ _
  case elements =>
    intro room input valueAvoids restAvoids enough
    have behind {rest : List Char} (isEnd : rest <:+ input) : callsFor rest ≤ room :=
      Nat.le_trans (callsFor_le_of_suffix isEnd) enough
    rw [elements]
    refine (filler_isFlat input).bind fun front => ?_
    split
    · exact .of_pure _
    · refine (valueAvoids front (behind front.suffix)).bind fun first => ?_
      refine (filler_isFlat first.rest).bind fun past => ?_
      split
      · exact .of_pure _
      · next rest comma =>
          have restEnds := (past.suffix_of_rest_eq comma).trans (first.suffix.trans front.suffix)
          exact (restAvoids front first past rest comma (behind restEnds)).andPure _
      · exact .of_malformed _ _

/-! ## Room for statements -/

theorem entry_avoids {input : List Char} (enough : callsFor input ≤ room) :
    Avoids .tooDeep (entry room input) := by
  refine (keyEquals_isFlat input).bind fun path => .andPure (.andPure ?_ _) _
  exact values_avoid.1 room path.rest (Nat.le_trans (callsFor_le_of_suffix path.suffix) enough)

theorem statement_avoids {input : List Char} (enough : callsFor input ≤ room)
    (document : Document) : Avoids .tooDeep (statement room document input) := by
  rw [statement.eq_def]
  split
  · exact header_isFlat _ _ _ _ _
  · exact header_isFlat _ _ _ _ _
  · simp
  · split
    · exact (entry_avoids enough).bind fun piece => (IsFlat.ofExcept _ _).andPure _
    · simp
  · simp

theorem statementLine_avoids {input : List Char} (enough : callsFor input ≤ room)
    (document : Document) : Avoids .tooDeep (statementLine room document input) := by
  refine (statement_avoids enough document).bind fun piece => .andPure ?_ _
  exact blanks_isFlat.bind (fun _ => comment_isFlat.bind fun _ => .of_pure _) piece.rest

theorem statements_avoid {input : List Char} (enough : callsFor input ≤ room)
    (document : Document) : Avoids .tooDeep (statements room document input) := by
  induction document, input using statements.induct with
  | case1 document input front ended =>
      rw [statements_of_end ended]
      exact .of_ok _
  | case2 document input front rest fed inductionHypothesis =>
      have restEnds : rest <:+ input := front.suffix_of_rest_eq fed
      rw [statements_of_feed fed]
      exact inductionHypothesis (Nat.le_trans (callsFor_le_of_suffix restEnds) enough)
  | case3 document input front notEnded notFed inductionHypothesis =>
      have frontEnough := Nat.le_trans (callsFor_le_of_suffix front.suffix) enough
      rw [statements_of_statement notEnded notFed]
      refine (statementLine_avoids frontEnough document).bind fun said => ?_
      split
      · exact .of_pure _
      · next rest fed =>
          have restEnds := said.suffix_of_rest_eq fed
          have restEnough := Nat.le_trans (callsFor_le_of_suffix restEnds) frontEnough
          exact inductionHypothesis said rest fed restEnough
      · exact .of_malformed _ _

theorem callsFor_withoutReturns (text : List Char) :
    callsFor (withoutReturns text) = callsFor text := by
  fun_induction withoutReturns text with
  | case1 rest inductionHypothesis => simpa [callsFor, isOpening] using inductionHypothesis
  | case2 char rest _ inductionHypothesis =>
      simpa [callsFor, List.countP_cons, Nat.mul_add] using inductionHypothesis
  | case3 => rfl

/-- A settings file has room where there are enough calls for all brackets and braces in it. -/
theorem load_avoids {bytes : List UInt8} {text : String} (decoded : Text.decode? bytes = some text)
    (enough : callsFor text.toList ≤ room) : Avoids .tooDeep (load room bytes) := by
  rw [← callsFor_withoutReturns] at enough
  have readAvoids := statements_avoid enough {}
  rw [load, decoded]
  dsimp only [parse]
  generalize statements room {} (withoutReturns text.toList) = result at readAvoids
  cases result with
  | ok table => exact .of_ok _
  | error stop =>
      cases stop with
      | tooDeep => exact absurd rfl readAvoids
      | _ => nofun

theorem exists_room_for_load (bytes : List UInt8) :
    ∃ room, Avoids .tooDeep (load room bytes) := by
  cases decoded : Text.decode? bytes with
  | none =>
      refine ⟨0, ?_⟩
      rw [load, decoded]
      nofun
  | some text => exact ⟨callsFor text.toList, load_avoids decoded (Nat.le_refl _)⟩

/-! ## Room for shown values -/

namespace Value

mutual

/-- The calls that are open at a time while a value is shown inside another one. -/
def callsInside : Value → Nat
  | array elements => callsInElements elements + 1
  | table entries => callsInEntries entries + 1
  | other => other.calls

/-- The most calls that an element of an array takes. -/
def callsInElements : List Value → Nat
  | [] => 0
  | value :: rest => max value.callsInside (callsInElements rest)

/-- The most calls that a value of a table takes. -/
def callsInEntries : List (String × Value) → Nat
  | [] => 0
  | entry :: rest => max entry.2.callsInside (callsInEntries rest)

end

theorem calls_le_callsInside (value : Value) : value.calls ≤ value.callsInside := by
  cases value with
  | array elements => exact Nat.le_add_left 1 _
  | table entries => exact Nat.le_add_left 1 _
  | _ => exact Nat.le_refl _

theorem shownInteger_avoids (value : Int) : Avoids .tooDeep (shownInteger value) := by
  rw [shownInteger]
  split
  · exact .of_ok _
  · nofun

mutual

theorem shownInside_avoids {room : Nat} (value : Value) (enough : value.callsInside ≤ room) :
    Avoids .tooDeep (value.shownInside room) := by
  have roomy : ¬ room < value.calls :=
    Nat.not_lt_of_le (Nat.le_trans value.calls_le_callsInside enough)
  rw [shownInside.eq_def, if_neg roomy]
  cases value with
  | array elements =>
      exact (shownElements_avoid elements (Nat.le_sub_of_add_le enough)).andPure _
  | table entries => exact (shownEntries_avoid entries (Nat.le_sub_of_add_le enough)).andPure _
  | integer value => exact shownInteger_avoids value
  | _ => exact .of_ok _

theorem shownElements_avoid {room : Nat} (elements : List Value)
    (enough : callsInElements elements ≤ room) :
    Avoids .tooDeep (shownElements room elements) := by
  cases elements with
  | nil => exact .of_ok _
  | cons value rest =>
      rw [callsInElements, Nat.max_le] at enough
      rw [shownElements]
      exact (shownInside_avoids value enough.1).bind fun _ =>
        (shownElements_avoid rest enough.2).andPure _

theorem shownEntries_avoid {room : Nat} (entries : List (String × Value))
    (enough : callsInEntries entries ≤ room) :
    Avoids .tooDeep (shownEntries room entries) := by
  cases entries with
  | nil => exact .of_ok _
  | cons entry rest =>
      rw [callsInEntries, Nat.max_le] at enough
      rw [shownEntries]
      exact (shownInside_avoids entry.2 enough.1).bind fun _ =>
        (shownEntries_avoid rest enough.2).andPure _

end

/-- A value is shown where there is room for the values in it. -/
theorem shown_avoids {room : Nat} {value : Value} (enough : value.callsInside ≤ room) :
    Avoids .tooDeep (value.shown room) := by
  cases value with
  | text content => exact .of_ok _
  | moment time => exact .of_ok _
  | _ => exact shownInside_avoids _ enough

end Value

end PrattSyntax.Toml
