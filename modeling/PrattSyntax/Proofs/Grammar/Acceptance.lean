import PrattSyntax.Proofs.Grammar.Derivation
import PrattSyntax.Proofs.Parser.OneFault

/-!
# Texts without faults

Under the rules of the language, a text is read without a fault exactly when its
tokens have a derivation, and its program is then the tree of the derivation.

One statement is compared with one sentence: a parser in front of a sentence
reads the tree of it and stops behind it, and a statement without a fault is the
reading of some sentence. Both carry over to programs, because a program goes on
where its first statement stopped.
-/

namespace PrattSyntax

/-- The rules of the language under a limit of depth: no operator stands between
operands. -/
def Rules.plain (limit : Int) : Rules := { maxDepth := limit }

theorem Rules.plain_report (limit : Int) : (plain limit).Report := by
  intro kind rule ruleEq
  contradiction

namespace Parser

variable {limit : Int} {stop : Position}

/-! ## Sentences are read -/

theorem climb_plain (bound : Int) (left : Expr) (parser : Parser) :
    parser.climb (.plain limit) bound left = .done left parser := by
  rw [climb_eq]
  split <;> rfl

/-- Where no operator stands between operands, a phrase is read as its tree. -/
theorem expression_of_within {phrase : Phrase} (within : phrase.Within limit)
    (lexical : ∀ token ∈ phrase.tokens, token.Lexical) (rest : List Token) (bound : Int) :
    (⟨⟨phrase.tokens ++ rest, stop⟩, 0⟩ : Parser).expression (.plain limit) bound =
      .done phrase.tree ⟨⟨phrase.last :: rest, stop⟩, 0⟩ := by
  have shallow : ((0 : Nat) : Int) + phrase.operatorCount < (Rules.plain limit).maxDepth := by
    simpa [Rules.plain] using within.2
  rw [expression_phrase within.1 lexical 0 bound shallow fun left depth => climb_plain _ left _,
    climb_plain]
  rfl

/-- Before fresh tokens the next token is no semicolon. -/
theorem peek_ne_semicolon (token : Token) {rest : List Token} (fresh : Fresh rest) (depth : Nat) :
    (⟨⟨token :: rest, stop⟩, depth⟩ : Parser).peek.kind ≠ .semicolon := by
  cases rest with
  | nil => simp [peek, TokenStream.peek, TokenStream.eof, Token.eof]
  | cons next more => exact fresh next rfl

/-- A statement ends at its semicolon, or at its value if no semicolon follows. -/
theorem finishStatement_done (build : Option Expr → Statement) (value : Expr) (last : Token)
    {close : Option Token} {rest : List Token} (isClose : Sentence.IsClose close)
    (fresh : close = none → Fresh rest) :
    ∃ behind, finishStatement build
        (.done value ⟨⟨last :: (close.toList ++ rest), stop⟩, 0⟩) =
          .done (build (some value)) behind ∧ behind.advance = ⟨⟨rest, stop⟩, 0⟩ := by
  refine ⟨_, rfl, ?_⟩
  cases close with
  | none =>
      exact congrArg advance (if_neg (peek_ne_semicolon last (fresh rfl) 0))
  | some token => exact congrArg advance (if_pos (isClose token rfl))

theorem current_of_phrase (phrase : Phrase) (rest : List Token) (depth : Nat) :
    (⟨⟨phrase.tokens ++ rest, stop⟩, depth⟩ : Parser).current = phrase.first := by
  rcases phrase.tokens_eq_first_cons with ⟨more, tokensEq⟩
  rw [tokensEq]
  rfl

/-- What begins with a phrase is a statement of an expression. -/
theorem statement_of_first (rules : Rules) {parser : Parser} {phrase : Phrase}
    (fits : phrase.Fits) (currentEq : parser.current = phrase.first) :
    parser.statement rules = finishStatement (.expression phrase.first)
      (parser.expression rules Precedence.lowest.rank) := by
  have notLet : parser.current.kind ≠ .letWord := currentEq ▸ fits.first_ne (by decide)
  have notReturn : parser.current.kind ≠ .returnWord := currentEq ▸ fits.first_ne (by decide)
  rw [statement_eq_expressionStatement rules notLet notReturn, expressionStatement, currentEq]

section

variable {phrase : Phrase} (within : phrase.Within limit)
  (lexical : ∀ token ∈ phrase.tokens, token.Lexical) {word : Token} {rest : List Token}

include within lexical

/-- A `let` in front of a name, `=` and a phrase binds the tree of the phrase. -/
theorem statement_of_let (isLet : word.kind = .letWord) {name sign : Token}
    (isName : name.kind = .ident) (isSign : sign.kind = .assign) :
    (⟨⟨word :: name :: sign :: (phrase.tokens ++ rest), stop⟩, 0⟩ : Parser).statement
        (.plain limit) =
      finishStatement (.binding word ⟨name, name.literal⟩)
        (.done phrase.tree ⟨⟨phrase.last :: rest, stop⟩, 0⟩) := by
  let parser : Parser := ⟨⟨word :: name :: sign :: (phrase.tokens ++ rest), stop⟩, 0⟩
  have opens : parser.current.kind = .letWord := isLet
  have named : parser.expect .ident = .ok parser.advance := if_pos isName
  have assigned : parser.advance.expect .assign = .ok parser.advance.advance := if_pos isSign
  have valueEq : parser.advance.advance.advance.expression (.plain limit)
      Precedence.lowest.rank = .done phrase.tree ⟨⟨phrase.last :: rest, stop⟩, 0⟩ :=
    expression_of_within within lexical rest _
  change parser.statement _ = _
  rw [statement_eq_letStatement _ opens, letStatement, named]
  simp only [assigned, valueEq]
  rfl

/-- A `return` in front of a phrase returns the tree of the phrase. -/
theorem statement_of_return (isReturn : word.kind = .returnWord) :
    (⟨⟨word :: (phrase.tokens ++ rest), stop⟩, 0⟩ : Parser).statement (.plain limit) =
      finishStatement (.returning word)
        (.done phrase.tree ⟨⟨phrase.last :: rest, stop⟩, 0⟩) := by
  let parser : Parser := ⟨⟨word :: (phrase.tokens ++ rest), stop⟩, 0⟩
  have opens : parser.current.kind = .returnWord := isReturn
  have peekEq : parser.peek = phrase.first := current_of_phrase phrase rest 0
  have notClosed : parser.peek.kind ≠ .semicolon := peekEq ▸ within.1.first_ne (by decide)
  have notEnded : parser.peek.kind ≠ .eof := peekEq ▸ within.1.first_ne (by decide)
  have valueEq : parser.advance.expression (.plain limit) Precedence.lowest.rank =
      .done phrase.tree ⟨⟨phrase.last :: rest, stop⟩, 0⟩ :=
    expression_of_within within lexical rest _
  change parser.statement _ = _
  rw [statement_eq_returnStatement _ opens, returnStatement, if_neg notClosed, if_neg notEnded,
    valueEq]
  rfl

/-- A phrase alone is read as its tree. -/
theorem statement_of_phrase :
    (⟨⟨phrase.tokens ++ rest, stop⟩, 0⟩ : Parser).statement (.plain limit) =
      finishStatement (.expression phrase.first)
        (.done phrase.tree ⟨⟨phrase.last :: rest, stop⟩, 0⟩) := by
  rw [statement_of_first _ within.1 (current_of_phrase phrase rest 0),
    expression_of_within within lexical rest _]

end

/-- A sentence is read as its tree, and the next statement begins behind it. -/
theorem statement_of_fits {sentence : Sentence} (fits : sentence.Fits limit)
    {rest : List Token} (lexical : ∀ token ∈ sentence.tokens, token.Lexical)
    (fresh : sentence.close = none → Fresh rest)
    (last : ∀ word, sentence = .bareReturn word none → rest = []) :
    ∃ behind, (⟨⟨sentence.tokens ++ rest, stop⟩, 0⟩ : Parser).statement (.plain limit) =
      .done sentence.tree behind ∧ behind.advance = ⟨⟨rest, stop⟩, 0⟩ := by
  cases sentence with
  | binding word name sign value close =>
      rcases fits with ⟨isLet, isName, isSign, within, isClose⟩
      have valueLexical : ∀ token ∈ value.tokens, token.Lexical := fun token tokenMem =>
        lexical token (Sentence.value_tokens_subset rfl tokenMem)
      simp only [Sentence.tokens, List.cons_append, List.append_assoc]
      rw [statement_of_let within valueLexical isLet isName isSign]
      exact finishStatement_done _ value.tree value.last isClose fresh
  | returning word value close =>
      rcases fits with ⟨isReturn, within, isClose⟩
      have valueLexical : ∀ token ∈ value.tokens, token.Lexical := fun token tokenMem =>
        lexical token (Sentence.value_tokens_subset rfl tokenMem)
      simp only [Sentence.tokens, List.cons_append, List.append_assoc]
      rw [statement_of_return within valueLexical isReturn]
      exact finishStatement_done _ value.tree value.last isClose fresh
  | bareReturn word close =>
      rcases fits with ⟨isReturn, isClose⟩
      let parser : Parser := ⟨⟨word :: (close.toList ++ rest), stop⟩, 0⟩
      have opens : parser.current.kind = .returnWord := isReturn
      change ∃ behind, parser.statement _ = _ ∧ _
      rw [statement_eq_returnStatement _ opens]
      cases close with
      | none =>
          obtain rfl := last word rfl
          exact ⟨parser, rfl, rfl⟩
      | some token =>
          exact ⟨parser.advance, if_pos (isClose token rfl), rfl⟩
  | expression value close =>
      rcases fits with ⟨within, isClose⟩
      have valueLexical : ∀ token ∈ value.tokens, token.Lexical := fun token tokenMem =>
        lexical token (Sentence.value_tokens_subset rfl tokenMem)
      simp only [Sentence.tokens, List.append_assoc]
      rw [statement_of_phrase within valueLexical]
      exact finishStatement_done _ value.tree value.last isClose fresh

/-! ## What is read is a sentence -/

/-- A token that is required and found is in the text. -/
theorem exists_cons_of_expect {word : Token} {ahead : List Token} {required : TokenKind}
    {behind : Parser} (notEof : required ≠ .eof)
    (taken : (⟨⟨word :: ahead, stop⟩, 0⟩ : Parser).expect required = .ok behind) :
    ∃ next rest, ahead = next :: rest ∧ next.kind = required ∧
      behind = ⟨⟨next :: rest, stop⟩, 0⟩ := by
  unfold expect at taken
  split at taken
  · next isNext =>
      cases taken
      cases ahead with
      | nil => exact absurd isNext.symm notEof
      | cons next rest => exact ⟨next, rest, rfl, isNext, rfl⟩
  · contradiction

theorem exists_close (ahead : List Token) :
    ∃ close rest, ahead = close.toList ++ rest ∧ Sentence.IsClose close ∧
      (close = none → Fresh rest) := by
  cases ahead with
  | nil => exact ⟨none, [], rfl, by simp [Sentence.IsClose], fun _ => by simp [Fresh]⟩
  | cons token rest =>
      by_cases isClose : token.kind = .semicolon
      · exact ⟨some token, rest, rfl, by simp [Sentence.IsClose, isClose], by simp⟩
      · exact ⟨none, token :: rest, rfl, by simp [Sentence.IsClose], fun _ =>
          fresh_cons.mpr isClose⟩

/-- An expression without a fault is read off a phrase, with or without a
semicolon behind it. -/
theorem exists_closed_phrase {ahead : List Token} {bound : Int}
    (faultless :
      ((⟨⟨ahead, stop⟩, 0⟩ : Parser).expression (.plain limit) bound).faults = []) :
    ∃ (phrase : Phrase) (close : Option Token) (rest : List Token),
      ahead = phrase.tokens ++ (close.toList ++ rest) ∧ phrase.Within limit ∧
        Sentence.IsClose close ∧ (close = none → Fresh rest) := by
  have settled := expression_settled (Rules.plain_report limit) bound ⟨⟨ahead, stop⟩, 0⟩
  rcases settled.faults_eq_nil_iff.mp faultless with ⟨value, read⟩
  rcases exists_phrase read with ⟨phrase, behind, aheadEq, fits, shallow⟩
  rcases exists_close behind with ⟨close, rest, behindEq, isClose, fresh⟩
  have within : phrase.Within limit := ⟨fits, by simpa [Rules.plain] using shallow⟩
  exact ⟨phrase, close, rest, by rw [aheadEq, behindEq], within, isClose, fresh⟩

/-- Whether a list of tokens begins with a sentence that a parser would stop
behind. -/
def OpensWithSentence (limit : Int) (tokens : List Token) : Prop :=
  ∃ (sentence : Sentence) (rest : List Token), tokens = sentence.tokens ++ rest ∧
    sentence.Fits limit ∧ (sentence.close = none → Fresh rest) ∧
      ∀ word, sentence = .bareReturn word none → rest = []

theorem opensWithSentence_of_let {word : Token} {ahead : List Token}
    (isLet : word.kind = .letWord)
    (faultless :
      ((⟨⟨word :: ahead, stop⟩, 0⟩ : Parser).letStatement (.plain limit)).faults = []) :
    OpensWithSentence limit (word :: ahead) := by
  unfold letStatement at faultless
  split at faultless
  · contradiction
  · next named nameTaken =>
      rcases exists_cons_of_expect (by simp) nameTaken with ⟨name, afterName, rfl, isName, rfl⟩
      split at faultless
      · contradiction
      · next assigned signTaken =>
          obtain ⟨sign, afterSign, rfl, isSign, rfl⟩ :=
            exists_cons_of_expect (by simp) signTaken
          obtain ⟨phrase, close, rest, rfl, within, isClose, fresh⟩ :=
            exists_closed_phrase faultless
          exact ⟨.binding word name sign phrase close, rest, by simp [Sentence.tokens],
            ⟨isLet, isName, isSign, within, isClose⟩, fresh, by simp⟩

theorem opensWithSentence_of_return {word : Token} {ahead : List Token}
    (notEof : ∀ token ∈ ahead, token.kind ≠ .eof) (isReturn : word.kind = .returnWord)
    (faultless :
      ((⟨⟨word :: ahead, stop⟩, 0⟩ : Parser).returnStatement (.plain limit)).faults = []) :
    OpensWithSentence limit (word :: ahead) := by
  cases ahead with
  | nil =>
      exact ⟨.bareReturn word none, [], rfl, ⟨isReturn, by simp [Sentence.IsClose]⟩,
        by simp [Fresh], by simp⟩
  | cons next more =>
      by_cases isClose : next.kind = .semicolon
      · exact ⟨.bareReturn word (some next), more, rfl,
          ⟨isReturn, by simp [Sentence.IsClose, isClose]⟩, by simp [Sentence.close], by simp⟩
      · let parser : Parser := ⟨⟨word :: next :: more, stop⟩, 0⟩
        have notClosed : parser.peek.kind ≠ .semicolon := isClose
        have notEnded : parser.peek.kind ≠ .eof := notEof next List.mem_cons_self
        change (parser.returnStatement _).faults = [] at faultless
        rw [returnStatement, if_neg notClosed, if_neg notEnded] at faultless
        obtain ⟨phrase, close, rest, (aheadEq : next :: more = _), within, isClose, fresh⟩ :=
          exists_closed_phrase faultless
        exact ⟨.returning word phrase close, rest, by simp [Sentence.tokens, aheadEq],
          ⟨isReturn, within, isClose⟩, fresh, by simp⟩

/-- A statement without a fault is the reading of a sentence. -/
theorem opensWithSentence_of_statement {word : Token} {ahead : List Token}
    (notEof : ∀ token ∈ ahead, token.kind ≠ .eof)
    (faultless :
      ((⟨⟨word :: ahead, stop⟩, 0⟩ : Parser).statement (.plain limit)).faults = []) :
    OpensWithSentence limit (word :: ahead) := by
  unfold statement at faultless
  split at faultless
  · next isLet => exact opensWithSentence_of_let isLet faultless
  · split at faultless
    · next isReturn => exact opensWithSentence_of_return notEof isReturn faultless
    · obtain ⟨phrase, close, rest, aheadEq, within, isClose, fresh⟩ :=
        exists_closed_phrase faultless
      exact ⟨.expression phrase close, rest, by simp [Sentence.tokens, aheadEq],
        ⟨within, isClose⟩, fresh, by simp⟩

/-! ## Programs -/

theorem program_nil (rules : Rules) (stop : Position) :
    (⟨⟨[], stop⟩, 0⟩ : Parser).program rules = ⟨⟨[]⟩, []⟩ := by
  rw [program, statements]
  rfl

/-- A program that is not over is its first statement and the program from the
token after it on. -/
theorem program_cons (rules : Rules) {parser : Parser} (notEof : parser.current.kind ≠ .eof) :
    parser.program rules =
      ⟨⟨(parser.statement rules).result.toList ++
          ((parser.statement rules).parser.advance.program rules).program.statements⟩,
        (parser.statement rules).faults ++
          ((parser.statement rules).parser.advance.program rules).faults⟩ := by
  have notEnd : ¬ parser.atEnd := by simp [atEnd, notEof]
  rw [program, statements, dif_neg notEnd]
  cases resultEq : (parser.statement rules).result with
  | none => simp [program, resultEq]
  | some statement => simp [program, resultEq]

/-- A derivation is read as its trees, without a fault. -/
theorem program_of_derives {sentences : List Sentence} {tokens : List Token}
    (derives : Derives limit sentences tokens) (lexical : ∀ token ∈ tokens, token.Lexical) :
    (⟨⟨tokens, stop⟩, 0⟩ : Parser).program (.plain limit) =
      ⟨⟨sentences.map Sentence.tree⟩, []⟩ := by
  induction derives with
  | nil => exact program_nil _ stop
  | @cons sentence sentences rest fits last more inductionHypothesis =>
      rcases List.forall_mem_append.mp lexical with ⟨sentenceLexical, restLexical⟩
      have programEq := inductionHypothesis restLexical
      obtain ⟨behind, statementEq, behindEq⟩ :=
        statement_of_fits fits sentenceLexical (fun _ => more.fresh) last
      rcases sentence.tokens_eq_head_cons with ⟨tail, tokensEq⟩
      have notEof : (⟨⟨sentence.tokens ++ rest, stop⟩, 0⟩ : Parser).current.kind ≠ .eof := by
        rw [tokensEq] at sentenceLexical ⊢
        exact (sentenceLexical _ List.mem_cons_self).notEof
      rw [program_cons _ notEof, statementEq]
      simp only [Outcome.done, behindEq, programEq]
      rfl

/-- What is read without a fault has a derivation. -/
theorem exists_derivation {tokens : List Token} (lexical : ∀ token ∈ tokens, token.Lexical)
    (faultless : ((⟨⟨tokens, stop⟩, 0⟩ : Parser).program (.plain limit)).faults = []) :
    ∃ sentences, Derives limit sentences tokens := by
  induction lengthEq : tokens.length using Nat.strong_induction_on generalizing tokens with
  | _ length inductionHypothesis =>
      cases tokens with
      | nil => exact ⟨[], .nil⟩
      | cons word ahead =>
          rcases List.forall_mem_cons.mp lexical with ⟨wordLexical, aheadLexical⟩
          have notEof : (⟨⟨word :: ahead, stop⟩, 0⟩ : Parser).current.kind ≠ .eof :=
            wordLexical.notEof
          rw [program_cons _ notEof] at faultless
          rcases List.append_eq_nil_iff.mp faultless with ⟨statementFaultless, moreFaultless⟩
          obtain ⟨sentence, rest, tokensEq, fits, fresh, last⟩ := opensWithSentence_of_statement
            (fun token tokenMem => (aheadLexical token tokenMem).notEof) statementFaultless
          rw [tokensEq] at lexical moreFaultless ⊢
          rcases List.forall_mem_append.mp lexical with ⟨sentenceLexical, restLexical⟩
          obtain ⟨behind, statementEq, behindEq⟩ :=
            statement_of_fits fits sentenceLexical fresh last
          rw [statementEq, Outcome.done, behindEq] at moreFaultless
          have shorter : rest.length < length := by
            rcases sentence.tokens_eq_head_cons with ⟨tail, headEq⟩
            rw [← lengthEq, tokensEq, headEq, List.length_append, List.length_cons]
            omega
          obtain ⟨sentences, more⟩ :=
            inductionHypothesis rest.length shorter restLexical moreFaultless rfl
          exact ⟨sentence :: sentences, .cons fits last more⟩

end Parser

/-- With no operator between operands, and under any limit, a text is read without
a fault exactly when its tokens before the mark of the end are derived from the
grammar. Its program is then the tree of the derivation, which is unique. -/
theorem parseWith_faults_eq_nil_iff_derives (text : List UInt8) (limit : Int) :
    ((parseWith { maxDepth := limit } text).faults = [] ↔
      ∃ sentences, Derives limit sentences (tokenize text).dropLast) ∧
    ∀ sentences, Derives limit sentences (tokenize text).dropLast →
      (parseWith { maxDepth := limit } text).program = ⟨sentences.map Sentence.tree⟩ ∧
        ∀ others, Derives limit others (tokenize text).dropLast → others = sentences := by
  have lexical : ∀ token ∈ (Cursor.ofBytes text).tokens, token.Lexical :=
    lexical_of_mem_tokens text
  have readingEq : ∀ sentences, Derives limit sentences (Cursor.ofBytes text).tokens →
      parseWith { maxDepth := limit } text = ⟨⟨sentences.map Sentence.tree⟩, []⟩ :=
    fun sentences derives => Parser.program_of_derives derives lexical
  rw [tokenize_dropLast]
  constructor
  · constructor
    · exact Parser.exists_derivation lexical
    · rintro ⟨sentences, derives⟩
      rw [readingEq sentences derives]
  · intro sentences derives
    rw [readingEq sentences derives]
    exact ⟨rfl, fun others derivesOther => derives.unique derivesOther⟩

end PrattSyntax
