import PrattSyntax.Proofs.Grammar.Phrase

/-!
# The grammar of programs

A program is a sequence of sentences: a `let`, a `return` or a phrase alone, each
closed by a semicolon or not. A bare `return` without a semicolon ends its text.
A text has one derivation at most, because no sentence begins with a semicolon
and none is a proper beginning of another one.
-/

namespace PrattSyntax

/-- A statement as it is written. -/
inductive Sentence where
  | binding (word name sign : Token) (value : Phrase) (close : Option Token)
  | returning (word : Token) (value : Phrase) (close : Option Token)
  | bareReturn (word : Token) (close : Option Token)
  | expression (value : Phrase) (close : Option Token)
deriving DecidableEq, Repr

namespace Sentence

/-- The semicolon of a sentence, if it has one. -/
def close : Sentence → Option Token
  | binding _ _ _ _ close => close
  | returning _ _ close => close
  | bareReturn _ close => close
  | expression _ close => close

/-- The phrase of a sentence, if it has one. -/
def value? : Sentence → Option Phrase
  | binding _ _ _ value _ => some value
  | returning _ value _ => some value
  | bareReturn _ _ => none
  | expression value _ => some value

/-- The tokens of a sentence. -/
def tokens : Sentence → List Token
  | binding word name sign value close => word :: name :: sign :: (value.tokens ++ close.toList)
  | returning word value close => word :: (value.tokens ++ close.toList)
  | bareReturn word close => word :: close.toList
  | expression value close => value.tokens ++ close.toList

/-- The statement that a sentence stands for. The semicolon leaves no trace. -/
def tree : Sentence → Statement
  | binding word name _ value _ => .binding word ⟨name, name.literal⟩ (some value.tree)
  | returning word value _ => .returning word (some value.tree)
  | bareReturn word _ => .returning word none
  | expression value _ => .expression value.first (some value.tree)

theorem value_tokens_subset {sentence : Sentence} {phrase : Phrase}
    (isValue : sentence.value? = some phrase) : phrase.tokens ⊆ sentence.tokens := by
  intro token tokenMem
  cases sentence <;> cases isValue <;> simp [tokens, tokenMem]

/-- Whether the semicolon of a sentence is one. -/
def IsClose (close : Option Token) : Prop := ∀ token ∈ close, token.kind = .semicolon

/-- The tokens of a sentence are of the kinds that its form requires, and its
phrase is within a limit. -/
def Fits (limit : Int) : Sentence → Prop
  | binding word name sign value close =>
      word.kind = .letWord ∧ name.kind = .ident ∧ sign.kind = .assign ∧
        value.Within limit ∧ IsClose close
  | returning word value close =>
      word.kind = .returnWord ∧ value.Within limit ∧ IsClose close
  | bareReturn word close => word.kind = .returnWord ∧ IsClose close
  | expression value close => value.Within limit ∧ IsClose close

end Sentence

/-- Sentences in sequence make up a list of tokens. A bare `return` without a
semicolon has nothing behind it. -/
inductive Derives (limit : Int) : List Sentence → List Token → Prop
  | nil : Derives limit [] []
  | cons {sentence : Sentence} {sentences : List Sentence} {rest : List Token}
      (fits : sentence.Fits limit)
      (last : ∀ word, sentence = .bareReturn word none → rest = [])
      (more : Derives limit sentences rest) :
      Derives limit (sentence :: sentences) (sentence.tokens ++ rest)

/-! ## Where sentences end -/

/-- Whether no semicolon comes first. -/
def Fresh (tokens : List Token) : Prop :=
  ∀ next, tokens.head? = some next → next.kind ≠ .semicolon

theorem fresh_cons {token : Token} {rest : List Token} :
    Fresh (token :: rest) ↔ token.kind ≠ .semicolon := by
  simp [Fresh]

/-- A phrase begins with a prefix operator, a name or a number, and with no other
kind. -/
theorem Phrase.Fits.first_ne {phrase : Phrase} (fits : phrase.Fits) {kind : TokenKind}
    (other : kind ∉ [TokenKind.bang, .minus, .ident, .int]) : phrase.first.kind ≠ kind := by
  rintro rfl
  apply other
  rcases fits.first_isPrefix_or_isOperand with (kindEq | kindEq) | (kindEq | ⟨kindEq, _⟩) <;>
    simp [kindEq]

theorem Phrase.Fits.fresh {phrase : Phrase} (fits : phrase.Fits) (rest : List Token) :
    Fresh (phrase.tokens ++ rest) := by
  rcases phrase.tokens_eq_first_cons with ⟨more, tokensEq⟩
  rw [tokensEq, List.cons_append, fresh_cons]
  exact fits.first_ne (by decide)

namespace Sentence

/-- No sentence begins with a semicolon. -/
theorem Fits.fresh {limit : Int} {sentence : Sentence} (fits : sentence.Fits limit)
    (rest : List Token) : Fresh (sentence.tokens ++ rest) := by
  cases sentence with
  | binding word name sign value close => exact fresh_cons.mpr (by simp [fits.1])
  | returning word value close => exact fresh_cons.mpr (by simp [fits.1])
  | bareReturn word close => exact fresh_cons.mpr (by simp [fits.1])
  | expression value close =>
      rw [tokens, List.append_assoc]
      exact fits.1.1.fresh _

theorem close_append_inj {first second : Option Token} {firstRest secondRest : List Token}
    (firstClose : IsClose first) (secondClose : IsClose second)
    (firstFresh : Fresh firstRest) (secondFresh : Fresh secondRest)
    (tokensEq : first.toList ++ firstRest = second.toList ++ secondRest) :
    first = second ∧ firstRest = secondRest := by
  cases first with
  | none =>
      cases second with
      | none => exact ⟨rfl, tokensEq⟩
      | some token =>
          have restEq : firstRest = token :: secondRest := tokensEq
          rw [restEq, fresh_cons] at firstFresh
          exact absurd (secondClose token rfl) firstFresh
  | some token =>
      cases second with
      | none =>
          have restEq : token :: firstRest = secondRest := tokensEq
          rw [← restEq, fresh_cons] at secondFresh
          exact absurd (firstClose token rfl) secondFresh
      | some other =>
          rcases List.cons.inj tokensEq with ⟨rfl, restEq⟩
          exact ⟨rfl, restEq⟩

/-- A phrase and the semicolon behind it are known by their tokens. -/
theorem value_append_inj {first second : Phrase} {firstClose secondClose : Option Token}
    {firstRest secondRest : List Token} (firstFits : first.Fits) (secondFits : second.Fits)
    (firstIsClose : IsClose firstClose) (secondIsClose : IsClose secondClose)
    (firstFresh : Fresh firstRest) (secondFresh : Fresh secondRest)
    (tokensEq : first.tokens ++ (firstClose.toList ++ firstRest) =
      second.tokens ++ (secondClose.toList ++ secondRest)) :
    first = second ∧ firstClose = secondClose ∧ firstRest = secondRest := by
  rcases Phrase.append_inj firstFits secondFits tokensEq with ⟨valueEq, closeEq⟩
  exact ⟨valueEq, close_append_inj firstIsClose secondIsClose firstFresh secondFresh closeEq⟩

/-! ## Sentences are told apart -/

/-- The first token of a sentence. -/
def head : Sentence → Token
  | binding word _ _ _ _ => word
  | returning word _ _ => word
  | bareReturn word _ => word
  | expression value _ => value.first

/-- The kind of the word that opens a sentence, if a word opens it. -/
def opener : Sentence → Option TokenKind
  | binding .. => some .letWord
  | returning .. => some .returnWord
  | bareReturn .. => some .returnWord
  | expression .. => none

theorem tokens_eq_head_cons (sentence : Sentence) :
    ∃ more, sentence.tokens = sentence.head :: more := by
  cases sentence with
  | binding word name sign value close => exact ⟨_, rfl⟩
  | returning word value close => exact ⟨_, rfl⟩
  | bareReturn word close => exact ⟨_, rfl⟩
  | expression value close =>
      rcases value.tokens_eq_first_cons with ⟨more, tokensEq⟩
      exact ⟨more ++ close.toList, by rw [tokens, tokensEq, head, List.cons_append]⟩

theorem Fits.opener_eq {limit : Int} {sentence : Sentence} (fits : sentence.Fits limit) :
    sentence.opener = if sentence.head.kind = .letWord ∨ sentence.head.kind = .returnWord then
      some sentence.head.kind else none := by
  cases sentence with
  | binding word name sign value close => simp [opener, head, fits.1]
  | returning word value close => simp [opener, head, fits.1]
  | bareReturn word close => simp [opener, head, fits.1]
  | expression value close =>
      have notLet : value.first.kind ≠ .letWord := fits.1.1.first_ne (by decide)
      have notReturn : value.first.kind ≠ .returnWord := fits.1.1.first_ne (by decide)
      simp [opener, head, notLet, notReturn]

/-- A phrase is not what follows a bare `return`. -/
theorem phrase_ne_close {phrase : Phrase} (fits : phrase.Fits) {close : Option Token}
    (isClose : IsClose close) {rest otherRest : List Token} (last : close = none → rest = []) :
    phrase.tokens ++ otherRest ≠ close.toList ++ rest := by
  intro tokensEq
  have fresh := fits.fresh otherRest
  rw [tokensEq] at fresh
  cases close with
  | none =>
      rcases phrase.tokens_eq_first_cons with ⟨more, phraseEq⟩
      rw [last rfl, phraseEq] at tokensEq
      simp at tokensEq
  | some token => exact absurd (isClose token rfl) (fresh_cons.mp fresh)

/-- No sentence is a proper beginning of another one, if what is behind both does
not begin with a semicolon. -/
theorem append_inj {limit : Int} {first second : Sentence} (firstFits : first.Fits limit)
    (secondFits : second.Fits limit) {firstRest secondRest : List Token}
    (firstFresh : Fresh firstRest) (secondFresh : Fresh secondRest)
    (firstLast : ∀ word, first = .bareReturn word none → firstRest = [])
    (secondLast : ∀ word, second = .bareReturn word none → secondRest = [])
    (tokensEq : first.tokens ++ firstRest = second.tokens ++ secondRest) :
    first = second ∧ firstRest = secondRest := by
  have openerEq : first.opener = second.opener := by
    rcases first.tokens_eq_head_cons with ⟨firstMore, firstEq⟩
    rcases second.tokens_eq_head_cons with ⟨secondMore, secondEq⟩
    rw [firstEq, secondEq] at tokensEq
    rw [firstFits.opener_eq, secondFits.opener_eq, (List.cons.inj tokensEq).1]
  cases first with
  | binding word name sign value close =>
      cases second with
      | binding otherWord otherName otherSign otherValue otherClose =>
          simp only [tokens, List.cons_append, List.append_assoc, List.cons.injEq] at tokensEq
          rcases tokensEq with ⟨rfl, rfl, rfl, tokensEq⟩
          rcases firstFits with ⟨_, _, _, within, isClose⟩
          rcases secondFits with ⟨_, _, _, otherWithin, otherIsClose⟩
          obtain ⟨rfl, rfl, restEq⟩ := value_append_inj within.1 otherWithin.1 isClose
            otherIsClose firstFresh secondFresh tokensEq
          exact ⟨rfl, restEq⟩
      | _ => cases openerEq
  | returning word value close =>
      cases second with
      | returning otherWord otherValue otherClose =>
          simp only [tokens, List.cons_append, List.append_assoc, List.cons.injEq] at tokensEq
          rcases tokensEq with ⟨rfl, tokensEq⟩
          rcases firstFits with ⟨_, within, isClose⟩
          rcases secondFits with ⟨_, otherWithin, otherIsClose⟩
          obtain ⟨rfl, rfl, restEq⟩ := value_append_inj within.1 otherWithin.1 isClose
            otherIsClose firstFresh secondFresh tokensEq
          exact ⟨rfl, restEq⟩
      | bareReturn otherWord otherClose =>
          simp only [tokens, List.cons_append, List.append_assoc, List.cons.injEq] at tokensEq
          apply absurd tokensEq.2
          apply phrase_ne_close firstFits.2.1.1 secondFits.2
          rintro rfl
          exact secondLast otherWord rfl
      | _ => cases openerEq
  | bareReturn word close =>
      cases second with
      | returning otherWord otherValue otherClose =>
          simp only [tokens, List.cons_append, List.append_assoc, List.cons.injEq] at tokensEq
          apply absurd tokensEq.2.symm
          apply phrase_ne_close secondFits.2.1.1 firstFits.2
          rintro rfl
          exact firstLast word rfl
      | bareReturn otherWord otherClose =>
          simp only [tokens, List.cons_append, List.cons.injEq] at tokensEq
          rcases tokensEq with ⟨rfl, closeEq⟩
          obtain ⟨rfl, restEq⟩ :=
            close_append_inj firstFits.2 secondFits.2 firstFresh secondFresh closeEq
          exact ⟨rfl, restEq⟩
      | _ => cases openerEq
  | expression value close =>
      cases second with
      | expression otherValue otherClose =>
          simp only [tokens, List.append_assoc] at tokensEq
          rcases firstFits with ⟨within, isClose⟩
          rcases secondFits with ⟨otherWithin, otherIsClose⟩
          obtain ⟨rfl, rfl, restEq⟩ := value_append_inj within.1 otherWithin.1 isClose
            otherIsClose firstFresh secondFresh tokensEq
          exact ⟨rfl, restEq⟩
      | _ => cases openerEq

end Sentence

/-! ## Derivations are unique -/

/-- What has a derivation does not begin with a semicolon. -/
theorem Derives.fresh {limit : Int} {sentences : List Sentence} {tokens : List Token}
    (derives : Derives limit sentences tokens) : Fresh tokens := by
  cases derives with
  | nil => simp [Fresh]
  | cons fits last more => exact fits.fresh _

theorem Derives.unique {limit : Int} {sentences others : List Sentence} {tokens : List Token}
    (derives : Derives limit sentences tokens) (derivesOther : Derives limit others tokens) :
    others = sentences := by
  induction derives generalizing others with
  | nil =>
      generalize tokensEq : ([] : List Token) = tokens at derivesOther
      cases derivesOther with
      | nil => rfl
      | @cons sentence _ _ _ _ _ =>
          rcases sentence.tokens_eq_head_cons with ⟨more, headEq⟩
          rw [headEq] at tokensEq
          contradiction
  | @cons sentence sentences rest fits last more inductionHypothesis =>
      generalize tokensEq : sentence.tokens ++ rest = tokens at derivesOther
      cases derivesOther with
      | nil =>
          rcases sentence.tokens_eq_head_cons with ⟨more, headEq⟩
          rw [headEq] at tokensEq
          contradiction
      | cons otherFits otherLast otherMore =>
          obtain ⟨rfl, rfl⟩ := Sentence.append_inj fits otherFits more.fresh otherMore.fresh last
            otherLast tokensEq
          rw [inductionHypothesis otherMore]

end PrattSyntax
