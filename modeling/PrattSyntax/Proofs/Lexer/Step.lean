import PrattSyntax.Lexer.Move
import PrattSyntax.Proofs.Lexer.Lexeme

/-!
# Steps of a cursor

One step of a cursor, characterised by the bytes it passes: blanks, then a
lexeme that what is behind does not continue. The tokens of a text and the
answers to repeated requests are the same list, closed for ever by the mark of
the end.
-/

namespace PrattSyntax.Cursor

/-! ## Blanks -/

theorem skipBlanks_of_append {cursor : Cursor} {gap rest : List UInt8}
    (restEq : cursor.rest = gap ++ rest) (blank : ∀ byte ∈ gap, Byte.isBlank byte)
    (boundary : ∀ byte, rest.head? = some byte → ¬ Byte.isBlank byte) :
    cursor.skipBlanks = ⟨rest, cursor.position.after gap⟩ := by
  have divides : Text.Divides Byte.isBlank gap rest := ⟨blank, boundary⟩
  rw [skipBlanks, skipWhile, restEq, divides.takeWhile_eq, divides.dropWhile_eq]

theorem exists_blanks (cursor : Cursor) :
    ∃ gap, cursor.rest = gap ++ cursor.skipBlanks.rest ∧
      (∀ byte ∈ gap, Byte.isBlank byte) ∧
      (∀ byte, cursor.skipBlanks.rest.head? = some byte → ¬ Byte.isBlank byte) ∧
      cursor.skipBlanks.position = cursor.position.after gap := by
  refine ⟨cursor.rest.takeWhile Byte.isBlank, List.takeWhile_append_dropWhile.symm,
    fun byte byteMem => List.mem_takeWhile_imp byteMem, fun byte byteHead => ?_, rfl⟩
  have outside := List.head?_dropWhile_not Byte.isBlank cursor.rest
  have headEq : (cursor.rest.dropWhile Byte.isBlank).head? = some byte := byteHead
  rw [headEq] at outside
  exact Bool.eq_false_iff.mp outside

theorem skipBlanks_eq_finish {cursor : Cursor} (blank : ∀ byte ∈ cursor.rest, Byte.isBlank byte) :
    cursor.skipBlanks = cursor.finish :=
  skipBlanks_of_append (List.append_nil _).symm blank (by simp)

/-! ## One token -/

/-- No token is taken exactly when only blanks are left. -/
theorem next?_eq_none_iff (cursor : Cursor) :
    cursor.next? = none ↔ ∀ byte ∈ cursor.rest, Byte.isBlank byte := by
  constructor
  · intro spent
    unfold next? at spent
    split at spent
    · next restNil =>
        obtain ⟨gap, restEq, blank, _⟩ := cursor.exists_blanks
        rw [restNil, List.append_nil] at restEq
        rwa [restEq]
    · contradiction
  · intro blank
    unfold next?
    rw [skipBlanks_eq_finish blank]
    rfl

/-- A token is taken exactly when blanks and a lexeme that is not continued are
ahead. -/
theorem next?_eq_some_iff {cursor behind : Cursor} {token : Token} :
    cursor.next? = some (token, behind) ↔
      ∃ gap bytes kind, cursor.rest = gap ++ (bytes ++ behind.rest) ∧
        (∀ byte ∈ gap, Byte.isBlank byte) ∧ Munch kind bytes behind.rest ∧
        token = Token.ofLexeme bytes ⟨cursor.position.after gap, behind.position⟩ ∧
        behind.position = (cursor.position.after gap).after bytes := by
  constructor
  · intro taken
    unfold next? at taken
    split at taken
    · contradiction
    · next first after ahead =>
        obtain ⟨gap, restEq, blank, boundary, positionEq⟩ := cursor.exists_blanks
        rw [ahead] at restEq boundary
        obtain ⟨kind, rest, aheadEq, munch⟩ := munch_lexeme (boundary first rfl)
        have behindEq : cursor.skipBlanks.skip (lexeme first after).length =
            ⟨rest, (cursor.position.after gap).after (lexeme first after)⟩ := by
          rw [skip, ahead, aheadEq, List.drop_left, List.take_left, positionEq]
        obtain ⟨rfl, rfl⟩ := Prod.mk.inj (Option.some.inj taken)
        rw [behindEq, positionEq]
        exact ⟨gap, lexeme first after, kind, by rw [restEq, aheadEq], blank, munch, rfl, rfl⟩
  · rintro ⟨gap, bytes, kind, restEq, blank, munch, rfl, positionEq⟩
    cases bytes with
    | nil => exact absurd rfl munch.fits.ne_nil
    | cons first more =>
        have boundary : ∀ byte, (first :: (more ++ behind.rest)).head? = some byte →
            ¬ Byte.isBlank byte := by
          intro byte byteHead
          cases byteHead
          exact munch.fits.not_isBlank first List.mem_cons_self
        have skipped := skipBlanks_of_append restEq blank boundary
        have lexemeEq := lexeme_eq_of_munch munch
        have behindEq : cursor.skipBlanks.skip (first :: more).length = behind := by
          rw [skip, skipped, List.drop_left, List.take_left, ← positionEq]
        unfold next?
        rw [skipped, List.cons_append]
        simp only [lexemeEq]
        rw [← List.cons_append, ← skipped, behindEq]

/-- The kind of a token that is taken is the one its bytes fit. -/
theorem ofLexeme_kind_of_munch {kind : TokenKind} {bytes rest : List UInt8} {span : Span}
    (munch : Munch kind bytes rest) : (Token.ofLexeme bytes span).kind = kind :=
  munch.fits.ofLexeme_eq

/-! ## All tokens -/

theorem tokens_of_next?_eq_none {cursor : Cursor} (spent : cursor.next? = none) :
    cursor.tokens = [] := by
  rw [tokens]
  split
  · rfl
  · next taken =>
      rw [spent] at taken
      contradiction

theorem tokens_of_next?_eq_some {cursor behind : Cursor} {token : Token}
    (taken : cursor.next? = some (token, behind)) : cursor.tokens = token :: behind.tokens := by
  rw [tokens]
  split
  · next spent =>
      rw [taken] at spent
      contradiction
  · next otherTaken =>
      rw [taken] at otherTaken
      cases otherTaken
      rfl

theorem finish_of_next?_eq_some {cursor behind : Cursor} {token : Token}
    (taken : cursor.next? = some (token, behind)) : cursor.finish = behind.finish := by
  obtain ⟨gap, bytes, _, restEq, _, _, _, positionEq⟩ := next?_eq_some_iff.mp taken
  rw [finish, finish, restEq, Position.after_append, Position.after_append, positionEq]

theorem finish_next (cursor : Cursor) :
    cursor.finish.next = (Token.eof cursor.finish.position, cursor.finish) := rfl

theorem next_of_next?_eq_none {cursor : Cursor} (spent : cursor.next? = none) :
    cursor.next = (Token.eof cursor.finish.position, cursor.finish) := by
  rw [next, spent, skipBlanks_eq_finish ((next?_eq_none_iff cursor).mp spent)]
  rfl

end PrattSyntax.Cursor

/-! ## Requests one by one -/

namespace PrattSyntax.Lexer

theorem run_nextToken_succ (lexer : Lexer) (count : Nat) :
    lexer.run (List.replicate (count + 1) .nextToken) =
      (lexer.follow lexer.cursor.next.2).run (List.replicate count .nextToken) := rfl

theorem run_nextToken_finish {lexer : Lexer} {cursor : Cursor}
    (finished : lexer.cursor = cursor.finish) (count : Nat) :
    (lexer.run (List.replicate count .nextToken)).cursor = cursor.finish := by
  induction count generalizing lexer with
  | zero => exact finished
  | succ count inductionHypothesis =>
      rw [run_nextToken_succ, finished, Cursor.finish_next]
      exact inductionHypothesis rfl

/-- Requests one by one are answered with the tokens in order, and with the mark
of the end from then on. -/
theorem next_run_nextToken (lexer : Lexer) (count : Nat) :
    some (lexer.run (List.replicate count .nextToken)).cursor.next.1 =
      lexer.cursor.drain.1[count]?.or lexer.cursor.drain.1.getLast? := by
  have drainEq : lexer.cursor.drain.1 =
      lexer.cursor.tokens ++ [Token.eof lexer.cursor.finish.position] := rfl
  rw [drainEq, List.getLast?_concat]
  generalize cursorEq : lexer.cursor = cursor
  induction cursor using Cursor.tokens.induct generalizing lexer count with
  | case1 cursor spent =>
      have nextEq := Cursor.next_of_next?_eq_none spent
      rw [Cursor.tokens_of_next?_eq_none spent]
      cases count with
      | zero =>
          rw [← cursorEq] at nextEq ⊢
          exact congrArg (some ·.1) nextEq
      | succ count =>
          have finished : (lexer.follow cursor.next.2).cursor = cursor.finish :=
            congrArg Prod.snd nextEq
          rw [run_nextToken_succ, cursorEq, run_nextToken_finish finished, Cursor.finish_next]
          rfl
  | case2 cursor token behind taken inductionHypothesis =>
      have nextEq : cursor.next = (token, behind) := by rw [Cursor.next, taken]; rfl
      rw [Cursor.tokens_of_next?_eq_some taken, Cursor.finish_of_next?_eq_some taken]
      cases count with
      | zero =>
          rw [← cursorEq] at nextEq
          exact congrArg (some ·.1) nextEq
      | succ count =>
          rw [run_nextToken_succ, cursorEq, nextEq]
          exact inductionHypothesis (lexer.follow behind) count rfl rfl

end PrattSyntax.Lexer
