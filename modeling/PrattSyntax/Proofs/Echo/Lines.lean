import PrattSyntax.Echo
import PrattSyntax.Proofs.Lexer.Seam
import PrattSyntax.Proofs.Text.Lines

/-!
# Tokens line by line

The echo loop reads one line after the other, and each line is a text of its own to the
lexer. As a line feed joins no byte, no token goes over the end of a line, and the lexer
keeps nothing from one line to the next but places. So the tokens that are echoed are
those of the whole input.
-/

namespace PrattSyntax

/-! ## Lines as they are read -/

namespace Text

/-- The lines of an input: each is finished by the first line feed behind it, and the last
one may be unfinished, if it is not empty. -/
inductive LinesOf : List Char → List (List Char) → Prop
  | none : LinesOf [] []
  | unfinished {line : List Char} (nonempty : line ≠ []) (stays : '\n' ∉ line) :
      LinesOf line [line]
  | finished {line rest : List Char} {lines : List (List Char)} (stays : '\n' ∉ line)
      (more : LinesOf rest lines) :
      LinesOf (line ++ '\n' :: rest) ((line ++ ['\n']) :: lines)

theorem readLines_append_feed {line : List Char} (stays : '\n' ∉ line) (rest : List Char) :
    readLines (line ++ '\n' :: rest) = (line ++ ['\n']) :: readLines rest := by
  induction line with
  | nil => exact if_pos rfl
  | cons char line inductionHypothesis =>
      rw [List.mem_cons, not_or] at stays
      rw [List.cons_append, readLines, if_neg (Ne.symm stays.1), inductionHypothesis stays.2,
        List.cons_append]

theorem readLines_of_notMem {line : List Char} (nonempty : line ≠ []) (stays : '\n' ∉ line) :
    readLines line = [line] := by
  induction line with
  | nil => exact absurd rfl nonempty
  | cons char line inductionHypothesis =>
      rw [List.mem_cons, not_or] at stays
      rw [readLines, if_neg (Ne.symm stays.1)]
      cases line with
      | nil => rfl
      | cons next line => rw [inductionHypothesis (List.cons_ne_nil _ _) stays.2]

theorem LinesOf.eq_readLines {chars : List Char} {lines : List (List Char)}
    (linesOf : LinesOf chars lines) : lines = readLines chars := by
  induction linesOf with
  | none => rfl
  | unfinished nonempty stays => rw [readLines_of_notMem nonempty stays]
  | finished stays _ inductionHypothesis =>
      rw [readLines_append_feed stays, inductionHypothesis]

theorem linesOf_readLines (chars : List Char) : LinesOf chars (readLines chars) := by
  induction chars with
  | nil => exact .none
  | cons char rest inductionHypothesis =>
      by_cases ends : char = '\n'
      · subst ends
        have noLine : '\n' ∉ ([] : List Char) := List.not_mem_nil
        rw [readLines, if_pos rfl]
        exact .finished noLine inductionHypothesis
      · rw [readLines, if_neg ends]
        generalize readLines rest = lines at inductionHypothesis
        cases inductionHypothesis with
        | none => exact .unfinished (List.cons_ne_nil _ _) (by simpa using Ne.symm ends)
        | unfinished _ stays =>
            exact .unfinished (List.cons_ne_nil _ _) (by simp [Ne.symm ends, stays])
        | @finished line _ _ stays more =>
            have staysOn : '\n' ∉ char :: line := by simp [Ne.symm ends, stays]
            exact .finished staysOn more

end Text

/-! ## Tokens of lines -/

/-- Up to their places, the tokens of two texts that no token connects are those of the one
and then those of the other. -/
theorem tokenize_unplaced_append {front back : List UInt8} (separates : Separates front back) :
    (tokenize (front ++ back)).dropLast.map Token.unplaced =
      (tokenize front).dropLast.map Token.unplaced ++
        (tokenize back).dropLast.map Token.unplaced := by
  have aheadEq := congrArg TokenStream.ahead (TokenStream.ofBytes_append separates)
  have forgets : Token.unplaced ∘ Token.moved (Position.start.after front).relocate =
      Token.unplaced := rfl
  simp only [TokenStream.ofBytes, TokenStream.moved] at aheadEq
  simp only [tokenize_dropLast]
  rw [aheadEq, List.map_append, List.map_map, forgets]

/-- A line feed connects nothing. -/
theorem separates_of_feed (line rest : List Char) :
    Separates (Text.encodeChars (line ++ ['\n'])) (Text.encodeChars rest) := by
  apply separates_of_not_joins
  intro last isLast next _ joins
  have bytesEq : Text.encodeChars (line ++ ['\n']) =
      Text.encodeChars line ++ [Byte.lineFeed] := Text.encodeChars_append line ['\n']
  rw [bytesEq, List.getLast?_concat, Option.mem_some_iff] at isLast
  subst isLast
  rcases joins with ⟨letter, _⟩ | ⟨digit, _⟩ | ⟨wide, _⟩ | ⟨sign, _⟩
  · exact absurd letter (by decide)
  · exact absurd digit (by decide)
  · exact absurd wide (by decide)
  · exact absurd sign (by decide)

namespace Echo

open Text (LinesOf)

/-- The tokens of a text, up to their places and without the mark of the end. -/
def tokensOf (chars : List Char) : List Token :=
  (tokenize (Text.encode (String.ofList chars))).dropLast.map Token.unplaced

theorem tokensOf_nil : tokensOf [] = [] := by
  have spent : (Cursor.ofBytes (Text.encode (String.ofList []))).next? = none := rfl
  rw [tokensOf, tokenize_dropLast, Cursor.tokens_of_next?_eq_none spent, List.map_nil]

theorem tokensOf_append_feed (line rest : List Char) :
    tokensOf (line ++ '\n' :: rest) = tokensOf (line ++ ['\n']) ++ tokensOf rest := by
  have charsEq : line ++ '\n' :: rest = line ++ ['\n'] ++ rest := List.append_cons ..
  simp only [tokensOf, Text.encode_eq, String.toList_ofList]
  rw [charsEq, Text.encodeChars_append]
  exact tokenize_unplaced_append (separates_of_feed line rest)

/-- The tokens of a text are those of its lines. -/
theorem tokensOf_eq_flatMap {chars : List Char} {lines : List (List Char)}
    (linesOf : LinesOf chars lines) : tokensOf chars = lines.flatMap tokensOf := by
  induction linesOf with
  | none => exact tokensOf_nil
  | unfinished _ _ => rw [List.flatMap_singleton]
  | finished _ _ inductionHypothesis =>
      rw [tokensOf_append_feed, inductionHypothesis, List.flatMap_cons]

/-! ## The loop -/

/-- Rows do not show places. -/
theorem tokenRows_ofList (chars : List Char) :
    tokenRows (String.ofList chars) = String.join ((tokensOf chars).map tokenRow) := by
  have forgets : tokenRow ∘ Token.unplaced = tokenRow := rfl
  rw [tokenRows, tokensOf, tokenize_dropLast, List.map_map, forgets]

theorem join_map_tokenRows (lines : List (List Char)) :
    String.join (lines.map fun line => tokenRows (String.ofList line)) =
      String.join ((lines.flatMap tokensOf).map tokenRow) := by
  induction lines with
  | nil => rfl
  | cons line lines inductionHypothesis =>
      rw [List.map_cons, String.join_cons, inductionHypothesis, List.flatMap_cons,
        List.map_append, String.join_append, tokenRows_ofList]

/-- The echo of an input as tokens: for each of its lines the prompt and a row for each of its
tokens, with the kind and the quoted literal of the token, and at the end the prompt and a line
feed. The tokens of the lines are those of the whole input, so that without a prompt nothing
tells whether the input was read by lines. -/
theorem run_tokens_eq (prompt input : String) :
    let row : Token → String := fun token =>
      "Token(" ++ token.kind.name ++ ", " ++ Text.quote token.literal ++ ")\n"
    ∃ lines, LinesOf input.toList lines ∧
      (∀ others, LinesOf input.toList others → others = lines) ∧
      run prompt .tokens input =
        String.join (lines.map fun line => prompt ++ String.join ((tokensOf line).map row))
          ++ prompt ++ "\n" ∧
      tokensOf input.toList = lines.flatMap tokensOf ∧
      tokenRows input = String.join ((tokensOf input.toList).map row) ∧
      run "" .tokens input = tokenRows input ++ "\n" := by
  intro row
  have linesOf := Text.linesOf_readLines input.toList
  have rowsEq : tokenRows input = String.join ((tokensOf input.toList).map row) := by
    rw [← String.ofList_toList (s := input), tokenRows_ofList, String.toList_ofList]
    rfl
  refine ⟨Text.readLines input.toList, linesOf, fun others othersOf => othersOf.eq_readLines, ?_,
    tokensOf_eq_flatMap linesOf, rowsEq, ?_⟩
  · simp only [run, rows, tokenRows_ofList]
    rfl
  · have joinEq := join_map_tokenRows (Text.readLines input.toList)
    rw [← tokensOf_eq_flatMap linesOf] at joinEq
    simp only [run, rows, String.empty_append, String.append_empty]
    rw [joinEq, rowsEq]
    rfl

end Echo

end PrattSyntax
