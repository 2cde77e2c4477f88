import PrattSyntax.Proofs.Text.Lines

/-!
# Line feeds and other breaks

`Text.lines` breaks at every character that ends a line, `Text.splitAt` at line feeds
only. Both count the lines before a place alike exactly if line feeds, alone or behind a
carriage return, are all the breaks there: any other break opens a line that the line
feeds do not count. Within one line, another break does no harm at the end only, where
it is all that the first of the broken lines has more.
-/

namespace PrattSyntax.Text

/-- Whether line feeds end all lines of a text: each carriage return is directly followed
by one, and no other character that ends a line occurs. -/
structure LineFeedsOnly (chars : List Char) : Prop where
  returns : ∀ index : Nat, chars[index]? = some '\r' → chars[index + 1]? = some '\n'
  others : ∀ char ∈ chars, isLineBreak char → char = '\n' ∨ char = '\r'

theorem LineFeedsOnly.nil : LineFeedsOnly [] :=
  ⟨fun _ found => by simp at found, by simp⟩

theorem lineFeedsOnly_cons_iff {char : Char} {rest : List Char} :
    LineFeedsOnly (char :: rest) ↔
      (isLineBreak char → char = '\n' ∨ char = '\r' ∧ rest.head? = some '\n') ∧
        LineFeedsOnly rest := by
  constructor
  · rintro ⟨returns, others⟩
    rw [List.forall_mem_cons] at others
    refine ⟨fun ends => ?_, fun index => returns (index + 1), others.2⟩
    rcases others.1 ends with isFeed | rfl
    · exact .inl isFeed
    · exact .inr ⟨rfl, by simpa [List.head?_eq_getElem?] using returns 0 rfl⟩
  · rintro ⟨here, returns, others⟩
    constructor
    · rintro (_ | index) found
      · obtain rfl : char = '\r' := by simpa using found
        rcases here (by decide) with isFeed | ⟨_, followed⟩
        · exact absurd isFeed (by decide)
        · simpa [List.head?_eq_getElem?] using followed
      · exact returns index found
    · rw [List.forall_mem_cons]
      exact ⟨fun ends => (here ends).imp_right And.left, others⟩

theorem LineFeedsOnly.of_append_right {front rest : List Char}
    (feeds : LineFeedsOnly (front ++ rest)) : LineFeedsOnly rest := by
  induction front with
  | nil => exact feeds
  | cons char front inductionHypothesis =>
      exact inductionHypothesis (lineFeedsOnly_cons_iff.mp feeds).2

/-- Characters that are no line feeds hold one break at most: a carriage return at their end,
before the line feed that follows. -/
theorem LineFeedsOnly.unbroken_or_return {run rest : List Char}
    (feeds : LineFeedsOnly (run ++ rest)) (whole : '\n' ∉ run) :
    (∀ char ∈ run, ¬ isLineBreak char) ∨
      ∃ init, run = init ++ ['\r'] ∧ (∀ char ∈ init, ¬ isLineBreak char) ∧
        rest.head? = some '\n' := by
  induction run with
  | nil => exact .inl fun char charMem => absurd charMem List.not_mem_nil
  | cons char run inductionHypothesis =>
      rw [List.mem_cons, not_or] at whole
      rw [List.cons_append, lineFeedsOnly_cons_iff] at feeds
      by_cases ends : isLineBreak char
      · obtain ⟨rfl, followed⟩ := (feeds.1 ends).resolve_left (Ne.symm whole.1)
        cases run with
        | nil => exact .inr ⟨[], rfl, fun char charMem => absurd charMem List.not_mem_nil, followed⟩
        | cons next run =>
            obtain rfl : next = '\n' := by simpa using followed
            exact absurd List.mem_cons_self whole.2
      · rcases inductionHypothesis feeds.2 whole.2 with unbroken | ⟨init, rfl, unbroken, followed⟩
        · exact .inl (List.forall_mem_cons.mpr ⟨ends, unbroken⟩)
        · exact .inr ⟨char :: init, rfl, List.forall_mem_cons.mpr ⟨ends, unbroken⟩, followed⟩

instance : DecidablePred LineFeedsOnly
  | [] => isTrue .nil
  | _ :: rest =>
      have : Decidable (LineFeedsOnly rest) := instDecidablePredListCharLineFeedsOnly rest
      decidable_of_iff _ lineFeedsOnly_cons_iff.symm

/-! ## Lines one character at a time -/

theorem lines_cons_of_not_isLineBreak {char : Char} (goesOn : ¬ isLineBreak char)
    (rest : List Char) :
    lines (char :: rest) = (char :: (lines rest).headD []) :: (lines rest).tail := by
  rw [lines, if_neg goesOn]
  · cases lines rest <;> rfl
  · rintro _ rfl
    exact absurd (by decide) goesOn

/-- A break ends a line, unless it is a carriage return before a line feed. -/
theorem lines_cons_of_isLineBreak {char : Char} {rest : List Char} (ends : isLineBreak char)
    (alone : char = '\r' → rest.head? ≠ some '\n') :
    lines (char :: rest) = [char] :: lines rest := by
  rw [lines, if_pos ends]
  rintro more rfl rfl
  exact alone rfl rfl

/-- The three ways in which a text goes on: with a carriage return and a line feed, with
another break, or with a character that breaks nothing. -/
@[elab_as_elim]
theorem lines_induction {motive : List Char → Prop} (nil : motive [])
    (pair : ∀ rest, motive rest → motive ('\r' :: '\n' :: rest))
    (ending : ∀ char rest, isLineBreak char → (char = '\r' → rest.head? ≠ some '\n') →
      motive rest → motive (char :: rest))
    (within : ∀ char rest, ¬ isLineBreak char → motive rest → motive (char :: rest))
    (chars : List Char) : motive chars := by
  induction chars using lines.induct with
  | case1 => exact nil
  | case2 rest inductionHypothesis => exact pair rest inductionHypothesis
  | case3 char rest alone ends inductionHypothesis =>
      refine ending char rest ends ?_ inductionHypothesis
      rintro rfl followed
      obtain ⟨more, rfl⟩ := List.head?_eq_some_iff.mp followed
      exact alone more rfl rfl
  | case4 char rest _ goesOn _ inductionHypothesis
  | case5 char rest _ goesOn _ _ _ inductionHypothesis =>
      exact within char rest goesOn inductionHypothesis

theorem lines_ne_nil {chars : List Char} (nonempty : chars ≠ []) : lines chars ≠ [] := by
  fun_cases lines chars <;> simp_all

/-- What does not break goes to the first line. -/
theorem headD_lines_append {run : List Char} (unbroken : ∀ char ∈ run, ¬ isLineBreak char)
    (rest : List Char) : (lines (run ++ rest)).headD [] = run ++ (lines rest).headD [] := by
  induction run with
  | nil => rfl
  | cons char run inductionHypothesis =>
      rw [List.forall_mem_cons] at unbroken
      rw [List.cons_append, lines_cons_of_not_isLineBreak unbroken.1, List.headD_cons,
        inductionHypothesis unbroken.2, List.cons_append]

/-! ## Lines up to a line feed -/

theorem ne_feed_of_not_isLineBreak {char : Char} (goesOn : ¬ isLineBreak char) :
    char ≠ '\n' := by
  rintro rfl
  exact goesOn (by decide)

/-- Whether a text ends with a line feed, if it has an end at all. -/
def EndsWithFeed (chars : List Char) : Prop := ∀ last ∈ chars.getLast?, last = '\n'

theorem EndsWithFeed.of_cons {char : Char} {rest : List Char}
    (ended : EndsWithFeed (char :: rest)) : EndsWithFeed rest := by
  cases rest with
  | nil => simp [EndsWithFeed]
  | cons next rest => simpa [EndsWithFeed] using ended

/-- Behind a character that breaks nothing, a text that ends with a line feed has more. -/
theorem EndsWithFeed.ne_nil {char : Char} {rest : List Char}
    (ended : EndsWithFeed (char :: rest)) (goesOn : ¬ isLineBreak char) : rest ≠ [] := by
  rintro rfl
  exact ne_feed_of_not_isLineBreak goesOn (ended char rfl)

/-- What is left of a list without the run at its end does not end with the run. -/
theorem not_of_mem_getLast?_rdropWhile {α : Type} {drops : α → Bool} {elements : List α} {last : α}
    (isLast : last ∈ (elements.rdropWhile drops).getLast?) : ¬ drops last := by
  have nonempty : elements.rdropWhile drops ≠ [] := by
    intro isNil
    rw [isNil] at isLast
    contradiction
  rw [List.getLast?_eq_some_getLast nonempty, Option.mem_some_iff] at isLast
  subst isLast
  exact List.rdropWhile_last_not drops elements nonempty

theorem endsWithFeed_rdropWhile (chars : List Char) :
    EndsWithFeed (chars.rdropWhile (· ≠ '\n')) := by
  intro last isLast
  simpa using not_of_mem_getLast?_rdropWhile isLast

theorem EndsWithFeed.rtakeWhile_eq_nil {front : List Char} (ended : EndsWithFeed front) :
    front.rtakeWhile (· ≠ '\n') = [] := by
  rw [List.rtakeWhile_eq_nil_iff]
  intro nonempty
  simpa using ended _ (List.getLast?_eq_some_getLast nonempty)

theorem LineFeedsOnly.of_append_left {front rest : List Char}
    (feeds : LineFeedsOnly (front ++ rest)) (ended : EndsWithFeed front) :
    LineFeedsOnly front := by
  induction front with
  | nil => exact .nil
  | cons char front inductionHypothesis =>
      rw [List.cons_append, lineFeedsOnly_cons_iff] at feeds
      refine lineFeedsOnly_cons_iff.mpr ⟨fun ends => ?_, inductionHypothesis feeds.2 ended.of_cons⟩
      cases front with
      | nil => exact .inl (ended char rfl)
      | cons next front => exact feeds.1 ends

/-- Behind a line feed, a text is divided on its own. -/
theorem lines_append {front : List Char} (ended : EndsWithFeed front) (rest : List Char) :
    lines (front ++ rest) = lines front ++ lines rest := by
  induction front using lines_induction with
  | nil => rfl
  | pair front inductionHypothesis =>
      rw [List.cons_append, List.cons_append, lines, lines,
        inductionHypothesis ended.of_cons.of_cons, List.cons_append]
  | ending char front ends stays inductionHypothesis =>
      have staysOn : char = '\r' → (front ++ rest).head? ≠ some '\n' := by
        rintro rfl
        cases front with
        | nil => exact absurd (ended '\r' rfl) (by decide)
        | cons next front => exact stays rfl
      rw [List.cons_append, lines_cons_of_isLineBreak ends stays,
        lines_cons_of_isLineBreak ends staysOn, inductionHypothesis ended.of_cons,
        List.cons_append]
  | within char front goesOn inductionHypothesis =>
      rw [List.cons_append, lines_cons_of_not_isLineBreak goesOn,
        lines_cons_of_not_isLineBreak goesOn, inductionHypothesis ended.of_cons]
      cases linesEq : lines front with
      | nil => exact absurd linesEq (lines_ne_nil (ended.ne_nil goesOn))
      | cons line lines => rfl

/-- Every line feed ends a line. -/
theorem count_le_length_lines (chars : List Char) : chars.count '\n' ≤ (lines chars).length := by
  induction chars using lines_induction with
  | nil => exact Nat.le_refl _
  | pair rest inductionHypothesis =>
      rw [lines, List.length_cons, List.count_cons_of_ne (by decide), List.count_cons_self]
      exact Nat.succ_le_succ inductionHypothesis
  | ending char rest ends stays inductionHypothesis =>
      rw [lines_cons_of_isLineBreak ends stays, List.length_cons, List.count_cons]
      split <;> omega
  | within char rest goesOn inductionHypothesis =>
      rw [lines_cons_of_not_isLineBreak goesOn, List.length_cons, List.length_tail,
        List.count_cons_of_ne (ne_feed_of_not_isLineBreak goesOn)]
      omega

/-- A text that ends with a line feed has a line for each, and no others exactly if there
are no other breaks. -/
theorem length_lines_eq_count_iff {front : List Char} (ended : EndsWithFeed front) :
    (lines front).length = front.count '\n' ↔ LineFeedsOnly front := by
  induction front using lines_induction with
  | nil => exact iff_of_true rfl .nil
  | pair rest inductionHypothesis =>
      rw [lines, List.length_cons, List.count_cons_of_ne (by decide), List.count_cons_self,
        Nat.succ_inj, inductionHypothesis ended.of_cons.of_cons, lineFeedsOnly_cons_iff,
        lineFeedsOnly_cons_iff]
      simp
  | ending char rest ends stays inductionHypothesis =>
      rw [lines_cons_of_isLineBreak ends stays, List.length_cons, lineFeedsOnly_cons_iff,
        ← inductionHypothesis ended.of_cons]
      by_cases isFeed : char = '\n'
      · subst isFeed
        rw [List.count_cons_self, Nat.succ_inj]
        simp
      · have counted := count_le_length_lines rest
        rw [List.count_cons_of_ne isFeed]
        refine iff_of_false (by omega) ?_
        rintro ⟨here, _⟩
        rcases here ends with isFeedHere | ⟨isReturn, followed⟩
        · exact isFeed isFeedHere
        · exact stays isReturn followed
  | within char rest goesOn inductionHypothesis =>
      have more := List.length_pos_iff.mpr (lines_ne_nil (ended.ne_nil goesOn))
      rw [lines_cons_of_not_isLineBreak goesOn, List.length_cons, List.length_tail,
        Nat.sub_add_cancel more, List.count_cons_of_ne (ne_feed_of_not_isLineBreak goesOn),
        inductionHypothesis ended.of_cons, lineFeedsOnly_cons_iff]
      simp [goesOn]

/-! ## The first line behind a line feed -/

theorem stripBreak_eq (line : List Char) :
    stripBreak line = (line.rdropWhile (· = '\n')).rdropWhile (· = '\r') := rfl

theorem length_stripBreak_le (line : List Char) : (stripBreak line).length ≤ line.length :=
  ((List.rdropWhile_prefix _ _).trans (List.rdropWhile_prefix _ _)).length_le

/-- Whether nothing can be stripped from the end of a line. -/
def Settled (line : List Char) : Prop := ∀ last ∈ line.getLast?, last ≠ '\n' ∧ last ≠ '\r'

theorem Settled.rdropWhile_eq {line : List Char} (settled : Settled line) {char : Char}
    (strips : char = '\n' ∨ char = '\r') : line.rdropWhile (· = char) = line := by
  rw [List.rdropWhile_eq_self_iff]
  intro nonempty isChar
  have last := settled _ (List.getLast?_eq_some_getLast nonempty)
  rw [decide_eq_true_eq] at isChar
  rcases strips with rfl | rfl
  · exact last.1 isChar
  · exact last.2 isChar

theorem settled_of_unbroken {line : List Char} (unbroken : ∀ char ∈ line, ¬ isLineBreak char) :
    Settled line := by
  intro last isLast
  have goesOn := unbroken last (List.mem_of_getLast? isLast)
  constructor
  · exact ne_feed_of_not_isLineBreak goesOn
  · rintro rfl
    exact goesOn (by decide)

/-- The one break that may stand behind a line is stripped. -/
theorem Settled.stripBreak_append {line : List Char} (settled : Settled line) {ending : List Char}
    (isEnding : ending ∈ [[], ['\n'], ['\r'], ['\r', '\n']]) :
    stripBreak (line ++ ending) = line := by
  have noFeeds := settled.rdropWhile_eq (.inl rfl)
  have noReturns := settled.rdropWhile_eq (.inr rfl)
  rw [stripBreak_eq]
  simp only [List.mem_cons, List.not_mem_nil, or_false] at isEnding
  rcases isEnding with rfl | rfl | rfl | rfl
  · rw [List.append_nil, noFeeds, noReturns]
  · rw [List.rdropWhile_concat_pos _ _ _ (by simp), noFeeds, noReturns]
  · rw [List.rdropWhile_concat_neg _ _ _ (by simp), List.rdropWhile_concat_pos _ _ _ (by simp),
      noReturns]
  · rw [List.append_cons, List.rdropWhile_concat_pos _ _ _ (by simp),
      List.rdropWhile_concat_neg _ _ _ (by simp), List.rdropWhile_concat_pos _ _ _ (by simp),
      noReturns]

/-- A list that would not be cut at its end stays a prefix when more is put behind it. -/
theorem prefix_rdropWhile_append {α : Type} {drops : α → Bool} {elements : List α}
    (kept : elements.rdropWhile drops = elements) (more : List α) :
    elements <+: (elements ++ more).rdropWhile drops := by
  induction more using List.reverseRecOn with
  | nil => exact ⟨[], by rw [List.append_nil, kept]⟩
  | append_singleton more last inductionHypothesis =>
      rw [← List.append_assoc]
      by_cases cuts : drops last
      · rwa [List.rdropWhile_concat_pos _ _ _ cuts]
      · rw [List.rdropWhile_concat_neg _ _ _ cuts, List.append_assoc]
        exact List.prefix_append _ _

/-- Whatever is stripped from a line, it is behind its settled beginning. -/
theorem Settled.prefix_stripBreak {line : List Char} (settled : Settled line)
    (more : List Char) : line <+: stripBreak (line ++ more) := by
  obtain ⟨kept, keptEq⟩ :=
    prefix_rdropWhile_append (settled.rdropWhile_eq (.inl rfl)) more
  rw [stripBreak_eq, ← keptEq]
  exact prefix_rdropWhile_append (settled.rdropWhile_eq (.inr rfl)) kept

/-- Carriage returns before a line feed or the end give one break at most. -/
theorem headD_lines_returns {returns behind : List Char}
    (areReturns : ∀ char ∈ returns, char = '\r') (closed : ∀ next ∈ behind.head?, next = '\n') :
    (lines (returns ++ behind)).headD [] ∈ [[], ['\n'], ['\r'], ['\r', '\n']] := by
  cases returns with
  | nil =>
      cases behind with
      | nil => simp [lines]
      | cons next behind =>
          obtain rfl := closed next rfl
          rw [List.nil_append, lines_cons_of_isLineBreak (by decide) (by simp)]
          simp
  | cons char returns =>
      rw [List.forall_mem_cons] at areReturns
      obtain rfl := areReturns.1
      rw [List.cons_append]
      by_cases followed : (returns ++ behind).head? = some '\n'
      · obtain ⟨more, moreEq⟩ := List.head?_eq_some_iff.mp followed
        rw [moreEq, lines]
        simp
      · rw [lines_cons_of_isLineBreak (by decide) fun _ => followed]
        simp

/-- The first line goes on to the first break. -/
theorem headD_lines_of_break {run : List Char} (unbroken : ∀ char ∈ run, ¬ isLineBreak char)
    {char : Char} (ends : isLineBreak char) {rest : List Char}
    (alone : char = '\r' → rest.head? ≠ some '\n') :
    (lines (run ++ char :: rest)).headD [] = run ++ [char] := by
  rw [headD_lines_append unbroken, lines_cons_of_isLineBreak ends alone, List.headD_cons]

theorem settled_rdropWhile {line : List Char} (whole : '\n' ∉ line) :
    Settled (line.rdropWhile (· = '\r')) := by
  intro last isLast
  constructor
  · rintro rfl
    exact whole ((List.rdropWhile_prefix _ _).subset (List.mem_of_getLast? isLast))
  · simpa using not_of_mem_getLast?_rdropWhile isLast

/-- Without a break before its last character, a stretch is shown as a whole. -/
theorem stripBreak_headD_lines_of_unbroken {body returns behind : List Char}
    (settled : Settled body) (areReturns : ∀ char ∈ returns, char = '\r')
    (closed : ∀ next ∈ behind.head?, next = '\n')
    (unbroken : ∀ char ∈ body.dropLast, ¬ isLineBreak char) :
    stripBreak ((lines (body ++ (returns ++ behind))).headD []) = body := by
  have ending := headD_lines_returns areReturns closed
  rcases List.eq_nil_or_concat body with rfl | ⟨init, last, rfl⟩
  · exact settled.stripBreak_append ending
  · simp only [List.concat_eq_append] at *
    rw [List.dropLast_concat] at unbroken
    by_cases ends : isLineBreak last
    · have notReturn : last ≠ '\r' := (settled last (by simp)).2
      rw [List.append_assoc, List.singleton_append,
        headD_lines_of_break unbroken ends (fun isReturn => absurd isReturn notReturn)]
      simpa using @Settled.stripBreak_append _ settled [] (by simp)
    · have allUnbroken : ∀ char ∈ init ++ [last], ¬ isLineBreak char :=
        List.forall_mem_append.mpr ⟨unbroken, List.forall_mem_singleton.mpr ends⟩
      rw [headD_lines_append allUnbroken]
      exact settled.stripBreak_append ending

/-- A stretch that is shown as a whole has no break before its last character: at the first
of them the line shown would end. -/
theorem unbroken_of_stripBreak_headD_lines_eq {body rest : List Char} (whole : '\n' ∉ body)
    (shown : stripBreak ((lines (body ++ rest)).headD []) = body) :
    ∀ char ∈ body.dropLast, ¬ isLineBreak char := by
  intro char charMem ends
  obtain ⟨first, found⟩ := Option.isSome_iff_exists.mp
    (List.find?_isSome.mpr ⟨char, List.dropLast_subset _ charMem, ends⟩)
  obtain ⟨firstEnds, run, more, rfl, before⟩ := List.find?_eq_some_iff_append.mp found
  have unbroken : ∀ other ∈ run, ¬ isLineBreak other := by simpa using before
  cases more with
  | nil =>
      rw [List.dropLast_concat] at charMem
      exact unbroken char charMem ends
  | cons next more =>
      have notFeed : next ≠ '\n' := by
        rintro rfl
        exact whole (by simp)
      rw [List.append_assoc, List.cons_append, headD_lines_of_break unbroken firstEnds
        (fun _ => by simpa using notFeed)] at shown
      have shorter := length_stripBreak_le (run ++ [first])
      rw [shown] at shorter
      simp at shorter

/-- The first of the lines that a stretch between line feeds is divided into is the whole
stretch, up to carriage returns at its end, exactly if no break is inside of it. -/
theorem stripBreak_headD_lines_eq_iff {line behind : List Char} (whole : '\n' ∉ line)
    (closed : ∀ next ∈ behind.head?, next = '\n') :
    stripBreak ((lines (line ++ behind)).headD []) = line.rdropWhile (· = '\r') ↔
      ∀ char ∈ (line.rdropWhile (· = '\r')).dropLast, ¬ isLineBreak char := by
  have lineEq : line.rdropWhile (· = '\r') ++ line.rtakeWhile (· = '\r') = line :=
    List.rdropWhile_append_rtakeWhile
  have areReturns : ∀ char ∈ line.rtakeWhile (· = '\r'), char = '\r' := by
    intro char charMem
    simpa using List.mem_rtakeWhile_imp charMem
  have bodyWhole : '\n' ∉ line.rdropWhile (· = '\r') := fun isMem =>
    whole ((List.rdropWhile_prefix _ _).subset isMem)
  nth_rewrite 1 [← lineEq]
  rw [List.append_assoc]
  exact ⟨unbroken_of_stripBreak_headD_lines_eq bodyWhole,
    stripBreak_headD_lines_of_unbroken (settled_rdropWhile whole) areReturns closed⟩

end PrattSyntax.Text
