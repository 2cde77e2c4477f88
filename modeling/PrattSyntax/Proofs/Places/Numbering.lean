import PrattSyntax.Proofs.Lexer.Segmentation
import PrattSyntax.Proofs.Parser.OneFault
import PrattSyntax.Proofs.Places.Reading
import PrattSyntax.Proofs.Places.Sight

/-!
# Texts with the same tokens

What is read depends on the kinds and the literals of the tokens alone. To follow
the places as well, the tokens of a stream are numbered: each has its index for its
place. The streams of two texts with the same tokens come from one numbered stream,
moved to the places of the one text and to those of the other, and so do their
readings; a fault is held against the token at one index in both.
-/

namespace PrattSyntax

theorem Rules.sumsAndCalls_builtIn : Rules.sumsAndCalls.BuiltIn := by
  intro kind rule ruleEq
  cases kind <;> cases ruleEq <;> trivial

theorem Rules.BuiltIn.unplaced {rules : Rules} (builtIn : rules.BuiltIn) : rules.Unplaced := by
  intro kind rule ruleEq
  have ruleBuiltIn := builtIn kind rule ruleEq
  cases rule with
  | custom fold => exact ruleBuiltIn.elim
  | _ => trivial

/-! ## Forgetting places that were moved -/

section Moved

variable (move : Position → Position)

theorem Token.unplaced_moved (token : Token) : (token.moved move).unplaced = token.unplaced := rfl

theorem Expr.unplaced_moved (expr : Expr) : (expr.moved move).unplaced = expr.unplaced := by
  induction expr with
  | name identifier => rfl
  | integer token value => rfl
  | prefixed token operator operand inductionHypothesis =>
      simp only [moved, unplaced, inductionHypothesis, Token.unplaced_moved]
  | infixed token text => rfl

theorem Statement.unplaced_moved (statement : Statement) :
    (statement.moved move).unplaced = statement.unplaced := by
  have exprEq : Expr.unplaced ∘ Expr.moved move = Expr.unplaced :=
    funext (Expr.unplaced_moved move)
  cases statement <;> simp only [moved, unplaced, Option.map_map, exprEq] <;> rfl

theorem Program.unplaced_moved (program : Program) :
    (program.moved move).unplaced = program.unplaced := by
  have statementEq : Statement.unplaced ∘ Statement.moved move = Statement.unplaced :=
    funext (Statement.unplaced_moved move)
  rw [moved, unplaced, unplaced, List.map_map, statementEq]

theorem Reading.messages_moved (reading : Reading) :
    (reading.moved move).faults.map Fault.message = reading.faults.map Fault.message := by
  simp only [moved, List.map_map]
  rfl

theorem Parser.window_moved (parser : Parser) :
    (parser.moved move).window = parser.window.map (Token.moved move) := by
  rw [window, window, List.map_append]
  rfl

end Moved

/-! ## Numbered streams -/

/-- The span that stands for the token at an index. Its offsets are the index; its start
is on line zero and its end on line one, so that the two stay apart. -/
def Span.numbered (index : Nat) : Span := ⟨⟨0, 0, index⟩, ⟨1, 0, index⟩⟩

namespace TokenStream

/-- A stream with its tokens numbered in place of their places. -/
def numbered (stream : TokenStream) : TokenStream :=
  ⟨stream.ahead.mapIdx fun index token => { token with span := .numbered index },
    ⟨0, 0, stream.remaining⟩⟩

/-- The place that a place of the numbered stream stands for. -/
def placeOf (stream : TokenStream) (place : Position) : Position :=
  let token := stream.ahead[place.offset]?.getD stream.eof
  if place.line = 0 then token.span.start else token.span.stop

/-- Moved to the places that it stands for, the numbered stream is the stream. -/
theorem numbered_moved (stream : TokenStream) : stream.numbered.moved stream.placeOf = stream := by
  rcases stream with ⟨ahead, stop⟩
  have stopEq : placeOf ⟨ahead, stop⟩ ⟨0, 0, ahead.length⟩ = stop := by
    rw [placeOf, List.getElem?_eq_none (Nat.le_refl _)]
    rfl
  have aheadEq : (numbered ⟨ahead, stop⟩).ahead.map (Token.moved (placeOf ⟨ahead, stop⟩)) =
      ahead := by
    apply List.ext_getElem?
    intro index
    rw [List.getElem?_map, numbered, List.getElem?_mapIdx]
    cases found : ahead[index]? with
    | none => rfl
    | some token => simp [Token.moved, Span.moved, Span.numbered, placeOf, found]
  rw [moved, aheadEq]
  exact congrArg _ stopEq

theorem numbered_getElem? (stream : TokenStream) (index : Nat) :
    stream.numbered.ahead[index]? = (stream.ahead.map Token.unplaced)[index]?.map
      fun token => { token with span := .numbered index } := by
  rw [numbered, List.getElem?_mapIdx, List.getElem?_map, Option.map_map]
  rfl

/-- The numbered stream knows kinds and literals only. -/
theorem numbered_eq_of_unplaced {first second : TokenStream}
    (same : first.ahead.map Token.unplaced = second.ahead.map Token.unplaced) :
    first.numbered = second.numbered := by
  have aheadEq : first.numbered.ahead = second.numbered.ahead := by
    apply List.ext_getElem?
    intro index
    rw [numbered_getElem?, numbered_getElem?, same]
  have lengthEq := congrArg List.length same
  rw [List.length_map, List.length_map] at lengthEq
  have stopEq : first.numbered.stop = second.numbered.stop :=
    congrArg (Position.mk 0 0) lengthEq
  exact congrArg₂ TokenStream.mk aheadEq stopEq

end TokenStream

/-! ## Readings of texts -/

/-- A parser in front of the numbered tokens of a text. -/
def Parser.ofNumbered (text : List UInt8) : Parser := ⟨(TokenStream.ofBytes text).numbered, 0⟩

/-- Moved to the places in the text, the numbered tokens are those of the text. -/
theorem Parser.ofNumbered_moved (text : List UInt8) :
    (ofNumbered text).moved (TokenStream.ofBytes text).placeOf = ofBytes text :=
  congrArg (fun stream => (⟨stream, 0⟩ : Parser)) (TokenStream.ofBytes text).numbered_moved

variable {rules : Rules}

/-- A text is read as its numbered tokens are, moved to the places in the text. -/
theorem parseWith_eq_moved (unplaced : rules.Unplaced) (text : List UInt8) :
    parseWith rules text =
      ((Parser.ofNumbered text).program rules).moved (TokenStream.ofBytes text).placeOf := by
  rw [← Parser.program_moved _ unplaced, Parser.ofNumbered_moved, parseWith]

theorem tokenize_eq_map_window (text : List UInt8) :
    tokenize text =
      (Parser.ofNumbered text).window.map (Token.moved (TokenStream.ofBytes text).placeOf) := by
  rw [← Parser.window_moved, Parser.ofNumbered_moved]
  rfl

/-- Texts with the same tokens, up to places, have the same numbered tokens. -/
theorem ofNumbered_eq_of_tokenize {first second : List UInt8}
    (same : (tokenize first).map Token.unplaced = (tokenize second).map Token.unplaced) :
    Parser.ofNumbered first = Parser.ofNumbered second := by
  have aheadEq := congrArg List.dropLast same
  rw [← List.map_dropLast, ← List.map_dropLast, tokenize_dropLast, tokenize_dropLast] at aheadEq
  have numberedEq : (TokenStream.ofBytes first).numbered = (TokenStream.ofBytes second).numbered :=
    TokenStream.numbered_eq_of_unplaced aheadEq
  rw [Parser.ofNumbered, Parser.ofNumbered, numberedEq]

/-- Two texts whose tokens have the same kinds and literals are read as the same
program, with the same messages, under rules that come with the parser; and of each
message the two faults are at the tokens of one index. -/
theorem parseWith_of_same_tokens (builtIn : rules.BuiltIn) {first second : List UInt8}
    (same : (tokenize first).map Token.unplaced = (tokenize second).map Token.unplaced) :
    (parseWith rules first).program.unplaced = (parseWith rules second).program.unplaced ∧
      (parseWith rules first).faults.map Fault.message =
        (parseWith rules second).faults.map Fault.message ∧
      ∀ (number : Nat) (one other : Fault), (parseWith rules first).faults[number]? = some one →
        (parseWith rules second).faults[number]? = some other →
        ∃ (index : Nat) (token twin : Token), (tokenize first)[index]? = some token ∧
          (tokenize second)[index]? = some twin ∧
          one.span = token.span ∧ other.span = twin.span := by
  have within := Parser.program_faults_within builtIn (Parser.ofNumbered first)
  have firstTokens := tokenize_eq_map_window first
  have secondTokens := tokenize_eq_map_window second
  rw [← ofNumbered_eq_of_tokenize same] at secondTokens
  rw [parseWith_eq_moved builtIn.unplaced first, parseWith_eq_moved builtIn.unplaced second,
    ← ofNumbered_eq_of_tokenize same, firstTokens, secondTokens]
  refine ⟨?_, ?_, ?_⟩
  · exact (Program.unplaced_moved _ _).trans (Program.unplaced_moved _ _).symm
  · exact (Reading.messages_moved _ _).trans (Reading.messages_moved _ _).symm
  · intro number one other oneEq otherEq
    simp only [Reading.moved, List.getElem?_map, Option.map_eq_some_iff] at oneEq otherEq
    obtain ⟨fault, found, rfl⟩ := oneEq
    obtain ⟨_, foundAgain, rfl⟩ := otherEq
    obtain rfl := Option.some.inj (found.symm.trans foundAgain)
    obtain ⟨token, tokenMem, spanEq⟩ := within fault (List.mem_of_getElem? found)
    obtain ⟨index, tokenAt⟩ := List.mem_iff_getElem?.mp tokenMem
    refine ⟨index, token.moved (TokenStream.ofBytes first).placeOf,
      token.moved (TokenStream.ofBytes second).placeOf, ?_, ?_, ?_, ?_⟩
    · rw [List.getElem?_map, tokenAt, Option.map_some]
    · rw [List.getElem?_map, tokenAt, Option.map_some]
    · exact congrArg (Span.moved _) spanEq
    · exact congrArg (Span.moved _) spanEq

/-- One text on one line and one on three, with different bytes that are illegal. In
both, an illegal token is called with, a parenthesis follows it, and a `let` has a
number for its name. -/
theorem parseWith_of_same_tokens_illegalBytes :
    let first := "f(é); let 5; 1+2".toUTF8.toList
    let second := "f(\n$)\n;let\t5;1 + 2".toUTF8.toList
    Rules.sumsAndCalls.BuiltIn ∧
      (tokenize first).map Token.unplaced = (tokenize second).map Token.unplaced ∧
      (parseWith .sumsAndCalls first).program.unplaced =
        (parseWith .sumsAndCalls second).program.unplaced ∧
      (parseWith .sumsAndCalls first).faults.map Fault.message =
        (parseWith .sumsAndCalls second).faults.map Fault.message ∧
      (parseWith .sumsAndCalls first).faults.length = 3 := by
  intro first second
  have same : (tokenize first).map Token.unplaced = (tokenize second).map Token.unplaced := by
    decide +kernel
  obtain ⟨program, messages, _⟩ := parseWith_of_same_tokens Rules.sumsAndCalls_builtIn same
  exact ⟨Rules.sumsAndCalls_builtIn, same, program, messages, by decide +kernel⟩

end PrattSyntax
