import PrattSyntax.Proofs.Lexer.Place
import PrattSyntax.Proofs.Lexer.Segmentation
import PrattSyntax.Proofs.Text.Lines

/-!
# Tokens are made of characters

The lexer knows bytes. Where these are the bytes of characters, no token begins or ends
inside of one: wide bytes are taken as a run, so that a token goes on to the last of them
and the next one does not begin before it.
-/

namespace PrattSyntax

open Text (Parts encodeChars)

namespace Token

/-- The characters of a text before a token, of it and behind it. -/
structure Excerpt (token : Token) (chars before source behind : List Char) : Prop where
  chars : chars = before ++ source ++ behind
  start : token.span.start.offset = (encodeChars before).length
  stop : token.span.stop.offset = (encodeChars (before ++ source)).length

variable {token : Token} {text : List UInt8}

/-- Where a token stands, its text is cut into the bytes before it, its own and the others. -/
theorem StandsIn.take_stop (stands : token.StandsIn text) :
    text.take token.span.stop.offset =
      text.take token.span.start.offset ++ token.bytesIn text := by
  have startLe := Nat.le_of_lt stands.nonempty
  rw [bytesIn, ← List.take_add, Nat.add_sub_cancel' startLe]

theorem StandsIn.bytesIn_ne_nil (stands : token.StandsIn text) : token.bytesIn text ≠ [] :=
  stands.munch.fits.ne_nil

/-- A token takes all of the wide bytes that it ends with. -/
theorem StandsIn.parts (stands : token.StandsIn text) :
    Parts (token.bytesIn text) (text.drop token.span.stop.offset) := by
  rintro last lastMem next nextMem ⟨lastWide, nextWide⟩
  apply stands.munch.maximal next nextMem
  have inside := List.mem_of_getLast? lastMem
  rcases stands.munch.fits.form with ⟨runClass, run⟩ | mark
  · have classEq : runClass = .wides := Byte.RunClass.eq_of_holds (run.2 last inside) lastWide
    subst classEq
    exact .run run nextWide
  · exact absurd lastWide (mark.all_isLone last inside).2.2.1

theorem StandsIn.parts_stop (stands : token.StandsIn text) :
    Parts (text.take token.span.stop.offset) (text.drop token.span.stop.offset) := by
  rw [stands.take_stop]
  exact stands.parts.append stands.bytesIn_ne_nil _

end Token

namespace Segmentation

variable {text : List UInt8} {tokens : List Token} {token : Token}

/-- The token that the byte before another token is in ends with this byte. -/
theorem stop_eq_start (segmentation : Segmentation text 0 tokens) (tokenMem : token ∈ tokens)
    {other : Token} (otherMem : other ∈ tokens) {offset : Nat} (covers : other.Covers offset)
    (startEq : token.span.start.offset = offset + 1) :
    other.span.stop.offset = token.span.start.offset := by
  have tokenStands := (segmentation.stands token tokenMem).nonempty
  rcases covers with ⟨startLe, stopLt⟩
  obtain ⟨before, behind, rfl⟩ := List.append_of_mem tokenMem
  obtain ⟨_, laterOrdered, ordered⟩ := List.pairwise_append.mp segmentation.ordered
  rcases List.mem_append.mp otherMem with isBefore | isHere
  · have stopLe := ordered other isBefore token List.mem_cons_self
    omega
  · rcases List.mem_cons.mp isHere with rfl | isBehind
    · omega
    · have stopLe := (List.pairwise_cons.mp laterOrdered).1 other isBehind
      omega

/-- A byte that is not blank is in a token. -/
theorem exists_covers (segmentation : Segmentation text 0 tokens) {offset : Nat} {byte : UInt8}
    (found : text[offset]? = some byte) (notBlank : ¬ Byte.isBlank byte) :
    ∃ token ∈ tokens, token.Covers offset := by
  by_contra free
  apply notBlank
  apply segmentation.covered offset byte (Nat.zero_le _) found
  intro token tokenMem covers
  exact free ⟨token, tokenMem, covers⟩

/-- No token begins between two wide bytes: the token before it would go on. -/
theorem parts_start (segmentation : Segmentation text 0 tokens) (tokenMem : token ∈ tokens) :
    Parts (text.take token.span.start.offset) (text.drop token.span.start.offset) := by
  intro last lastMem next nextMem wide
  have tokenStands := segmentation.stands token tokenMem
  obtain ⟨offset, startEq⟩ : ∃ offset, token.span.start.offset = offset + 1 := by
    apply Nat.exists_eq_add_one_of_ne_zero
    intro isZero
    rw [isZero, List.take_zero] at lastMem
    contradiction
  have inside : offset < text.length := by
    have startLt := tokenStands.nonempty
    have stopLe := tokenStands.within
    omega
  have found : text[offset]? = some last := by
    rw [startEq, List.take_add_one, List.getElem?_eq_getElem inside, Option.toList_some,
      List.getLast?_concat] at lastMem
    rw [List.getElem?_eq_getElem inside, Option.mem_def.mp lastMem]
  have inWides : Byte.RunClass.wides.holds last := wide.1
  obtain ⟨other, otherMem, covers⟩ :=
    segmentation.exists_covers found (Byte.RunClass.not_isBlank inWides)
  have stopEq := segmentation.stop_eq_start tokenMem otherMem covers startEq
  have parts := (segmentation.stands other otherMem).parts_stop
  rw [stopEq] at parts
  exact parts last lastMem next nextMem wide

end Segmentation

namespace Token

variable {token : Token} {chars before source behind : List Char}

/-- The bytes of a token are those of its characters. -/
theorem Excerpt.bytesIn_eq (excerpt : token.Excerpt chars before source behind) :
    token.bytesIn (encodeChars chars) = encodeChars source := by
  have charsEq : encodeChars chars =
      encodeChars before ++ (encodeChars source ++ encodeChars behind) := by
    rw [excerpt.chars, Text.encodeChars_append, Text.encodeChars_append, List.append_assoc]
  rw [bytesIn, excerpt.start, excerpt.stop, charsEq, List.drop_left, Text.encodeChars_append,
    List.length_append, Nat.add_sub_cancel_left, List.take_left]

/-- No character of a token is a blank. -/
theorem Excerpt.notMem_of_isBlank (excerpt : token.Excerpt chars before source behind)
    (stands : token.StandsIn (encodeChars chars)) {char : Char} {byte : UInt8}
    (byteEq : String.utf8EncodeChar char = [byte]) (blank : Byte.isBlank byte) :
    char ∉ source := by
  intro charMem
  have byteMem : byte ∈ token.bytesIn (encodeChars chars) := by
    rw [excerpt.bytesIn_eq]
    exact List.mem_flatMap.mpr ⟨char, charMem, by simp [byteEq]⟩
  exact stands.munch.fits.not_isBlank byte byteMem blank

/-- Every token of a text stands in it, except for the mark of the end. -/
theorem standsIn_of_mem_tokenize {text : List UInt8} (tokenMem : token ∈ tokenize text)
    (notEof : token.kind ≠ .eof) : token.StandsIn text := by
  have segmentation := Cursor.tokens_segmentation (Cursor.ofBytes_standsIn text)
  rcases List.mem_append.mp tokenMem with isInside | isFinal
  · exact segmentation.stands token isInside
  · obtain rfl := List.mem_singleton.mp isFinal
    exact absurd rfl notEof

end Token

/-- The position behind characters, on bytes. -/
theorem Position.ofOffset_encodeChars (before rest : List Char) :
    ofOffset (encodeChars (before ++ rest)) (encodeChars before).length =
      ⟨1 + (before.count '\n' : Nat),
        1 + ((encodeChars (before.rtakeWhile (· ≠ '\n'))).length : Nat),
        (encodeChars before).length⟩ := by
  rw [Text.encodeChars_append, ofOffset_length_append, Text.count_encodeChars,
    Text.rtakeWhile_encodeChars]

/-- A token of a text stands between characters. It is the mark of the end and holds none,
or it holds some and no line feed. -/
theorem exists_excerpt (chars : List Char) {token : Token}
    (tokenMem : token ∈ tokenize (encodeChars chars)) :
    ∃ before source behind, token.Excerpt chars before source behind ∧
      (token.kind = .eof ∧ source = [] ∧ behind = [] ∨
        token.kind ≠ .eof ∧ source ≠ [] ∧ '\n' ∉ source) := by
  have segmentation := Cursor.tokens_segmentation (Cursor.ofBytes_standsIn (encodeChars chars))
  rcases List.mem_append.mp tokenMem with isInside | isFinal
  · have stands := segmentation.stands token isInside
    have splitEq : encodeChars chars = (encodeChars chars).take token.span.start.offset ++
        (encodeChars chars).drop token.span.start.offset := (List.take_append_drop _ _).symm
    obtain ⟨before, rest, charsEq, beforeEq, restEq⟩ :=
      Text.exists_chars_of_parts splitEq (segmentation.parts_start isInside)
    rw [stands.drop_start] at restEq
    obtain ⟨source, behind, rfl, sourceEq, behindEq⟩ :=
      Text.exists_chars_of_parts restEq stands.parts
    have startEq : token.span.start.offset = (encodeChars before).length := by
      have startLt := stands.nonempty
      have stopLe := stands.within
      rw [beforeEq, List.length_take]
      omega
    have stopEq : token.span.stop.offset = (encodeChars (before ++ source)).length := by
      rw [Text.encodeChars_append, List.length_append, sourceEq, ← startEq,
        stands.start_add_length]
    have excerpt : token.Excerpt chars before source behind :=
      ⟨by rw [charsEq, List.append_assoc], startEq, stopEq⟩
    refine ⟨before, source, behind, excerpt,
      .inr ⟨segmentation.kind_ne_eof token isInside, ?_, ?_⟩⟩
    · rintro rfl
      exact stands.bytesIn_ne_nil sourceEq.symm
    · exact excerpt.notMem_of_isBlank stands Text.encodeChar_lineFeed (by decide)
  · obtain rfl := List.mem_singleton.mp isFinal
    have offsetEq := Cursor.ofBytes_finish_offset (encodeChars chars)
    refine ⟨chars, [], [], ⟨?_, offsetEq, ?_⟩, .inl ⟨rfl, rfl, rfl⟩⟩
    · rw [List.append_nil, List.append_nil]
    · rw [List.append_nil]
      exact offsetEq

end PrattSyntax
