import PrattSyntax.Proofs.Grammar.Ending
import PrattSyntax.Proofs.Lexer.Concatenation
import PrattSyntax.Proofs.Parser.Progress
import PrattSyntax.Proofs.Places.Reading

/-!
# Broken `let` statements

A `let` that lacks its name or its `=` costs one fault and nothing else. Giving it up
ends at one of two boundaries, and the search stands on them differently: on a
semicolon with the current token, before a word that opens a statement with the next
one. One token further it is the same place, the first one that does not belong to the
broken statement, and what is there is read as a text of its own.
-/

namespace PrattSyntax

/-- Whether a token bounds a broken statement: a semicolon ends it, and a word that
opens a statement begins the next one. -/
def Token.IsBoundary (token : Token) : Prop :=
  token.kind ∈ [TokenKind.semicolon, .letWord, .returnWord]

instance (token : Token) : Decidable token.IsBoundary :=
  inferInstanceAs (Decidable (token.kind ∈ _))

/-- What closes a broken statement, and what is behind it: a semicolon and any tokens,
or nothing in front of a word that opens a statement or of the end. -/
inductive Resumes : List Token → List Token → Prop
  | semicolon {token : Token} (closes : token.kind = .semicolon) (rest : List Token) :
      Resumes [token] rest
  | opening {rest : List Token}
      (opens : ∀ next ∈ rest.head?, next.kind = .letWord ∨ next.kind = .returnWord) :
      Resumes [] rest

/-- What is held against a `let` that the given tokens follow: a first token that is no
name, or behind a name a token that is not `=`. -/
inductive LetFault : List Token → Fault → Prop
  | nameless {found : Token} (behind : List Token) (notName : found.kind ≠ .ident) :
      LetFault (found :: behind) ⟨.unexpected .ident found.kind, found.span⟩
  | signless {name found : Token} (behind : List Token) (isName : name.kind = .ident)
      (notSign : found.kind ≠ .assign) :
      LetFault (name :: found :: behind) ⟨.unexpected .assign found.kind, found.span⟩

/-! ## Where the search ends -/

namespace TokenStream.synchronize

variable {token : Token} {closing rest : List Token}

theorem not_opensStatement_of_not_isBoundary (inside : ¬ token.IsBoundary) :
    ¬ opensStatement token := by
  simp only [Token.IsBoundary, List.mem_cons, List.not_mem_nil, or_false, not_or] at inside
  simp [opensStatement, inside]

/-- From the last token of a broken statement on, the search ends with the token in
front of what is read next. -/
theorem tail_untilBoundary_of_resumes (notClosing : token.kind ≠ .semicolon)
    (resumes : Resumes closing rest) :
    (untilBoundary (token :: (closing ++ rest))).tail = rest := by
  cases resumes with
  | @semicolon semicolon closes =>
      have closesHere : semicolon.kind = .semicolon ∨ rest.head?.any opensStatement :=
        .inl closes
      have goesOn : ¬ (token.kind = .semicolon ∨ opensStatement semicolon = true) := by
        simp [notClosing, opensStatement, closes]
      rw [List.singleton_append, untilBoundary, List.head?_cons, Option.any_some, if_neg goesOn,
        untilBoundary, if_pos closesHere, List.tail_cons]
  | opening opens =>
      cases rest with
      | nil => simp [untilBoundary, notClosing]
      | cons next rest =>
          have opensNext : opensStatement next := by simpa [opensStatement] using opens next rfl
          simp [untilBoundary, opensNext]

/-- No token of a broken statement stops the search. -/
theorem tail_untilBoundary {junk : List Token} (notClosing : token.kind ≠ .semicolon)
    (inside : ∀ other ∈ junk, ¬ other.IsBoundary) (resumes : Resumes closing rest) :
    (untilBoundary (token :: (junk ++ (closing ++ rest)))).tail = rest := by
  induction junk generalizing token with
  | nil => exact tail_untilBoundary_of_resumes notClosing resumes
  | cons next junk inductionHypothesis =>
      rw [List.forall_mem_cons] at inside
      have nextNotClosing : next.kind ≠ .semicolon := by
        intro closes
        exact inside.1 (by simp [Token.IsBoundary, closes])
      have goesOn : ¬ (token.kind = .semicolon ∨ opensStatement next = true) := by
        rw [not_or]
        exact ⟨notClosing, not_opensStatement_of_not_isBoundary inside.1⟩
      rw [List.cons_append, untilBoundary, List.head?_cons, Option.any_some, if_neg goesOn]
      exact inductionHypothesis nextNotClosing inside.2

end TokenStream.synchronize

namespace Parser

variable {word : Token} {junk closing rest : List Token} {stop : Position} {depth : Nat}

theorem advance_synchronize (notClosing : word.kind ≠ .semicolon)
    (inside : ∀ token ∈ junk, ¬ token.IsBoundary) (resumes : Resumes closing rest) :
    (⟨⟨word :: (junk ++ (closing ++ rest)), stop⟩, depth⟩ : Parser).synchronize.advance =
      ⟨⟨rest, stop⟩, depth⟩ :=
  congrArg (fun ahead => (⟨⟨ahead, stop⟩, depth⟩ : Parser))
    (TokenStream.synchronize.tail_untilBoundary notClosing inside resumes)

/-! ## What a broken `let` lacks -/

theorem expect_eq_error_iff {parser : Parser} {required : TokenKind} {fault : Fault} :
    parser.expect required = .error fault ↔
      parser.peek.kind ≠ required ∧ fault = parser.unexpectedPeek required := by
  unfold expect
  by_cases found : parser.peek.kind = required
  · simp [found]
  · simp [found, eq_comm]

/-- Where a broken statement is over, there is no name and no `=`. -/
theorem current_of_resumes (resumes : Resumes closing rest) :
    let parser : Parser := ⟨⟨closing ++ rest, stop⟩, depth⟩
    parser.current.kind ≠ .ident ∧ parser.current.kind ≠ .assign := by
  cases resumes with
  | semicolon closes => simp [current, TokenStream.current, closes]
  | opening opens =>
      cases rest with
      | nil => simp [current, TokenStream.current, TokenStream.eof, Token.eof]
      | cons next rest =>
          rcases opens next rfl with isLet | isReturn
          · simp [current, TokenStream.current, isLet]
          · simp [current, TokenStream.current, isReturn]

/-- A name behind the word of a broken `let` belongs to it. -/
theorem exists_name_of_resumes (resumes : Resumes closing rest)
    (isName : (⟨⟨junk ++ (closing ++ rest), stop⟩, depth⟩ : Parser).current.kind = .ident) :
    ∃ name others, junk = name :: others ∧ name.kind = .ident := by
  cases junk with
  | nil => exact absurd isName (current_of_resumes resumes).1
  | cons name others => exact ⟨name, others, rfl, isName⟩

/-- A `let` that does not go on with a name and `=` is no statement. What it lacks is
held against it, and one token behind the place where it is given up is what comes
behind it. -/
theorem statement_brokenLet (rules : Rules) (isLet : word.kind = .letWord)
    (inside : ∀ token ∈ junk, ¬ token.IsBoundary)
    (broken : ¬ [TokenKind.ident, .assign] <+: junk.map Token.kind)
    (resumes : Resumes closing rest) :
    ∃ fault behind, LetFault (junk ++ (closing ++ rest) ++ [Token.eof stop]) fault ∧
      (⟨⟨word :: (junk ++ (closing ++ rest)), stop⟩, depth⟩ : Parser).statement rules =
        .failed fault behind ∧
      behind.advance = ⟨⟨rest, stop⟩, depth⟩ := by
  let parser : Parser := ⟨⟨word :: (junk ++ (closing ++ rest)), stop⟩, depth⟩
  have windowEq : parser.advance.window = junk ++ (closing ++ rest) ++ [Token.eof stop] := rfl
  have reads := parser.statement_reads rules
  rw [← windowEq]
  change ∃ fault behind, _ ∧ parser.statement rules = _ ∧ _
  generalize parser.statement rules = outcome at reads
  cases reads with
  | nameless _ missed =>
      obtain ⟨notName, rfl⟩ := expect_eq_error_iff.mp missed
      obtain ⟨behind, behindEq, _⟩ := parser.advance.exists_window_cons
      refine ⟨_, _, ?_, rfl, advance_synchronize (by simp [isLet]) inside resumes⟩
      rw [behindEq]
      exact .nameless behind notName
  | signless _ isName missed =>
      obtain ⟨notSign, rfl⟩ := expect_eq_error_iff.mp missed
      obtain ⟨name, others, rfl, nameIsName⟩ := exists_name_of_resumes resumes isName
      obtain ⟨behind, behindEq, _⟩ := parser.advance.advance.exists_window_cons
      refine ⟨_, _, ?_, rfl, advance_synchronize (by simp [nameIsName])
        (List.forall_mem_cons.mp inside).2 resumes⟩
      have advanceEq : parser.advance.window = name :: parser.advance.advance.window := rfl
      rw [advanceEq, behindEq]
      exact .signless behind nameIsName notSign
  | binding _ isName isSign =>
      obtain ⟨name, others, rfl, nameIsName⟩ := exists_name_of_resumes resumes isName
      cases others with
      | nil => exact absurd isSign (current_of_resumes resumes).2
      | cons sign others =>
          have signIsSign : sign.kind = .assign := isSign
          exact absurd (by simp [nameIsName, signIsSign]) broken
  | closedReturn isReturn => exact absurd (isLet.symm.trans isReturn) (by decide)
  | lastReturn isReturn => exact absurd (isLet.symm.trans isReturn) (by decide)
  | returning isReturn => exact absurd (isLet.symm.trans isReturn) (by decide)
  | alone notLet => exact absurd isLet notLet

end Parser

/-! ## Texts -/

/-- A text that begins with a broken `let` loses this statement only, for one fault: the
name or the `=` that is not there. Up to a semicolon, or to a word that opens a
statement, nothing is looked at any more, and the text behind is read on its own. -/
theorem parseWith_of_brokenLet {limit : Int} {text : List UInt8} {word : Token}
    {junk closing rest : List Token}
    (tokensEq : (tokenize text).dropLast = word :: (junk ++ (closing ++ rest)))
    (isLet : word.kind = .letWord) (inside : ∀ token ∈ junk, ¬ token.IsBoundary)
    (broken : ¬ [TokenKind.ident, .assign] <+: junk.map Token.kind)
    (resumes : Resumes closing rest) :
    let origin := ((word :: (junk ++ closing)).getLast (List.cons_ne_nil _ _)).span.stop
    let alone := (parseWith { maxDepth := limit } (text.drop origin.offset)).moved origin.relocate
    (tokenize (text.drop origin.offset)).dropLast.map (Token.moved origin.relocate) = rest ∧
      ∃ fault, LetFault (tokenize text).tail fault ∧
        parseWith { maxDepth := limit } text = ⟨alone.program, fault :: alone.faults⟩ := by
  intro origin alone
  rw [tokenize_dropLast] at tokensEq
  have aheadEq : (TokenStream.ofBytes text).ahead =
      (word :: (junk ++ closing)).dropLast ++
        (word :: (junk ++ closing)).getLast (List.cons_ne_nil _ _) :: rest := by
    rw [List.append_cons, List.dropLast_concat_getLast, List.cons_append, List.append_assoc]
    exact tokensEq
  have streamEq := TokenStream.ofBytes_behind aheadEq
  let stop := (TokenStream.ofBytes text).stop
  let parser : Parser := ⟨⟨word :: (junk ++ (closing ++ rest)), stop⟩, 0⟩
  have parserEq : Parser.ofBytes text = parser :=
    congrArg (fun ahead => (⟨⟨ahead, stop⟩, 0⟩ : Parser)) tokensEq
  have aloneEq : (⟨⟨rest, stop⟩, 0⟩ : Parser) =
      (Parser.ofBytes (text.drop origin.offset)).moved origin.relocate :=
    congrArg (fun input => (⟨input, 0⟩ : Parser)) streamEq
  obtain ⟨fault, behind, lacks, statementEq, behindEq⟩ :=
    @Parser.statement_brokenLet word junk closing rest stop 0 (.plain limit) isLet inside broken
      resumes
  have tailEq : (tokenize text).tail = junk ++ (closing ++ rest) ++ [Token.eof stop] := by
    rw [tokenize, Cursor.drain, tokensEq]
    rfl
  refine ⟨?_, fault, by rwa [tailEq], ?_⟩
  · rw [tokenize_dropLast]
    exact (congrArg TokenStream.ahead streamEq).symm
  · have notEof : parser.current.kind ≠ .eof := by
      change word.kind ≠ .eof
      simp [isLet]
    change (Parser.ofBytes text).program (.plain limit) = _
    rw [parserEq, Parser.program_cons _ notEof, statementEq]
    simp only [Outcome.failed, behindEq, aloneEq,
      Parser.program_moved _ (Rules.plain_unplaced limit)]
    rfl

/-- A name without `=` before a second `let`, which is read, and then a fault of its own. -/
theorem parseWith_of_brokenLet_second :
    let text := "let a 5 -\nlet b = 1;@".toUTF8.toList
    let alone := (parseWith { maxDepth := 256 } (text.drop 9)).moved
      (Position.relocate ⟨1, 10, 9⟩)
    ∃ fault, LetFault (tokenize text).tail fault ∧
      parseWith { maxDepth := 256 } text = ⟨alone.program, fault :: alone.faults⟩ := by
  intro text alone
  let word : Token := ⟨.letWord, "let", ⟨⟨1, 1, 0⟩, ⟨1, 4, 3⟩⟩⟩
  let junk := ((tokenize text).drop 1).take 3
  have originEq : ((word :: (junk ++ [])).getLast (List.cons_ne_nil _ _)).span.stop =
      ⟨1, 10, 9⟩ := by
    decide +kernel
  obtain ⟨_, fault, lacks, readingEq⟩ :=
    @parseWith_of_brokenLet 256 text word junk [] ((tokenize text).dropLast.drop 4)
      (by decide +kernel) rfl (by decide +kernel) (by decide +kernel)
      (.opening (by decide +kernel))
  rw [originEq] at readingEq
  exact ⟨fault, lacks, readingEq⟩

end PrattSyntax
