import Lookahead.Text.Basic

/-!
# Lines and words by the layout of a text

`Lined` and `Spaced` say how a text is made of its lines and of its words, and not how these are
found. Every text has one list of lines and one of words by them, which are those that `lines` and
`words` give (`lines_eq_iff`, `words_eq_iff`).
-/

set_option autoImplicit false

namespace Lookahead.Text

/-! ## Lines -/

/-- A text and its lines. A line ends at a line feed or at a carriage return with a line feed. The
last one may end with the text instead, if it is not empty. -/
inductive Lined : List (List Char) → List Char → Prop
  | nil : Lined [] []
  | last {line : List Char} (nonempty : line ≠ []) (whole : '\n' ∉ line) : Lined [line] line
  | feed {line rest : List Char} {lines : List (List Char)} (whole : '\n' ∉ line)
      (bare : line.getLast? ≠ some '\r') (later : Lined lines rest) :
      Lined (line :: lines) (line ++ '\n' :: rest)
  | returnFeed {line rest : List Char} {lines : List (List Char)} (whole : '\n' ∉ line)
      (later : Lined lines rest) : Lined (line :: lines) (line ++ '\r' :: '\n' :: rest)

theorem linesFrom_append (held : List Char) {line : List Char} (whole : '\n' ∉ line)
    (text : List Char) : linesFrom held (line ++ text) = linesFrom (line.reverse ++ held) text := by
  induction line generalizing held with
  | nil => rfl
  | cons c line ih =>
      rw [List.mem_cons, not_or] at whole
      rw [List.cons_append, linesFrom, if_neg (Ne.symm whole.1), ih (c :: held) whole.2]
      simp

theorem dropReturn_of_head? {held : List Char} (bare : held.head? ≠ some '\r') :
    dropReturn held = held := by
  cases held with
  | nil => rfl
  | cons c held =>
      rw [List.head?_cons, ne_eq, Option.some.injEq] at bare
      unfold dropReturn
      split
      · rename_i same
        exact absurd (List.cons.inj same).1 bare
      · rfl

theorem lines_of_lined {found : List (List Char)} {text : List Char} (lined : Lined found text) :
    lines text = found := by
  induction lined with
  | nil => rfl
  | @last line nonempty whole =>
      have read := linesFrom_append [] whole []
      rw [List.append_nil, List.append_nil] at read
      rw [lines, read, linesFrom]
      simp [nonempty]
  | @feed line rest found whole bare later ih =>
      rw [lines] at ih
      have kept : dropReturn line.reverse = line.reverse := by
        apply dropReturn_of_head?
        rwa [List.head?_reverse]
      rw [lines, linesFrom_append [] whole, List.append_nil, linesFrom, if_pos rfl, kept, ih,
        List.reverse_reverse]
  | @returnFeed line rest found whole later ih =>
      rw [lines] at ih
      rw [lines, linesFrom_append [] whole, List.append_nil, linesFrom, if_neg (by decide),
        linesFrom, if_pos rfl, dropReturn, ih, List.reverse_reverse]

theorem lined_linesFrom {held : List Char} (whole : '\n' ∉ held) (text : List Char) :
    Lined (linesFrom held text) (held.reverse ++ text) := by
  induction text generalizing held with
  | nil =>
      cases held with
      | nil => exact .nil
      | cons c held =>
          rw [List.append_nil]
          rw [← List.mem_reverse] at whole
          exact .last (by simp) whole
  | cons c text ih =>
      by_cases feed : c = '\n'
      · subst feed
        have later := ih List.not_mem_nil
        rw [linesFrom, if_pos rfl]
        by_cases returned : held.head? = some '\r'
        · obtain ⟨before, rfl⟩ : ∃ before, held = '\r' :: before := by
            cases held <;> simp_all
          have wholeBefore : '\n' ∉ before.reverse := by simp_all
          have lined := Lined.returnFeed wholeBefore later
          simpa [dropReturn] using lined
        · have bare : held.reverse.getLast? ≠ some '\r' := by rwa [List.getLast?_reverse]
          rw [dropReturn_of_head? returned]
          exact .feed (by simpa using whole) bare later
      · have wholeNow : '\n' ∉ c :: held := by
          rw [List.mem_cons, not_or]
          exact ⟨Ne.symm feed, whole⟩
        have lined := ih wholeNow
        rw [linesFrom, if_neg feed]
        simpa using lined

theorem lines_eq_iff {text : List Char} {found : List (List Char)} :
    lines text = found ↔ Lined found text := by
  constructor
  · rintro rfl
    exact lined_linesFrom List.not_mem_nil text
  · exact lines_of_lined

/-! ## Words -/

def IsGap (text : List Char) : Prop :=
  ∀ c ∈ text, isBlank c = true

structure IsWord (word : List Char) : Prop where
  nonempty : word ≠ []
  solid : ∀ c ∈ word, isBlank c = false

/-- A text and its words, with gaps around them. A word goes on to the next blank. -/
inductive Spaced : List (List Char) → List Char → Prop
  | gap {text : List Char} (blank : IsGap text) : Spaced [] text
  | word {gap word rest : List Char} {words : List (List Char)} (before : IsGap gap)
      (isWord : IsWord word) (ends : ∀ c ∈ rest.head?, isBlank c = true)
      (later : Spaced words rest) : Spaced (word :: words) (gap ++ (word ++ rest))

theorem isGap_iff_isAllBlank {text : List Char} : IsGap text ↔ isAllBlank text = true := by
  rw [IsGap, isAllBlank, List.all_eq_true]

theorem isGap_append {front back : List Char} :
    IsGap (front ++ back) ↔ IsGap front ∧ IsGap back := by
  simp only [IsGap, List.mem_append, or_imp, forall_and]

theorem isGap_cons {c : Char} {text : List Char} :
    IsGap (c :: text) ↔ isBlank c = true ∧ IsGap text := by
  simp only [IsGap, List.forall_mem_cons]

theorem isGap_nil : IsGap [] :=
  fun _ inside => absurd inside List.not_mem_nil

theorem IsWord.spaced {word : List Char} (isWord : IsWord word) : Spaced [word] word := by
  have alone : Spaced [word] ([] ++ (word ++ [])) :=
    .word isGap_nil isWord (by simp) (.gap isGap_nil)
  rwa [List.nil_append, List.append_nil] at alone

namespace Spaced

variable {words : List (List Char)} {word text gap : List Char}

theorem gap_append (blank : IsGap gap) (spaced : Spaced words text) :
    Spaced words (gap ++ text) := by
  cases spaced with
  | gap rest => exact .gap (isGap_append.mpr ⟨blank, rest⟩)
  | word before isWord ends later =>
      rw [← List.append_assoc]
      exact .word (isGap_append.mpr ⟨blank, before⟩) isWord ends later

theorem append_gap (spaced : Spaced words text) (blank : IsGap gap) :
    Spaced words (text ++ gap) := by
  induction spaced with
  | gap rest => exact .gap (isGap_append.mpr ⟨rest, blank⟩)
  | @word front word rest words before isWord ends later ih =>
      have endsNow : ∀ c ∈ (rest ++ gap).head?, isBlank c = true := by
        intro c first
        cases rest with
        | nil => exact blank c (List.mem_of_mem_head? first)
        | cons other rest => exact ends c first
      rw [List.append_assoc, List.append_assoc]
      exact .word before isWord endsNow ih

theorem isWord_of_mem (spaced : Spaced words text) (inside : word ∈ words) : IsWord word := by
  induction spaced with
  | gap => cases inside
  | word _ isWord _ _ ih =>
      rcases List.mem_cons.mp inside with rfl | later
      · exact isWord
      · exact ih later

theorem isInfix_of_mem (spaced : Spaced words text) (inside : word ∈ words) : word <:+: text := by
  induction spaced with
  | gap => cases inside
  | @word gap first rest words _ _ _ _ ih =>
      rcases List.mem_cons.mp inside with rfl | later
      · exact ⟨gap, rest, by rw [List.append_assoc]⟩
      · exact ((ih later).trans (List.suffix_append first rest).isInfix).trans
          (List.suffix_append gap _).isInfix

end Spaced

theorem wordsFrom_append (held : List Char) {word : List Char}
    (solid : ∀ c ∈ word, isBlank c = false) (text : List Char) :
    wordsFrom held (word ++ text) = wordsFrom (word.reverse ++ held) text := by
  induction word generalizing held with
  | nil => rfl
  | cons c word ih =>
      rw [List.forall_mem_cons] at solid
      rw [List.cons_append, wordsFrom, solid.1, if_neg (by decide), ih (c :: held) solid.2]
      simp

theorem words_gap_append {gap : List Char} (blank : IsGap gap) (text : List Char) :
    words (gap ++ text) = words text := by
  induction gap with
  | nil => rfl
  | cons c gap ih =>
      rw [isGap_cons] at blank
      rw [words] at ih ⊢
      simpa [wordsFrom, blank.1] using ih blank.2

theorem wordsFrom_of_ends {held rest : List Char} (nonempty : held ≠ [])
    (ends : ∀ c ∈ rest.head?, isBlank c = true) :
    wordsFrom held rest = held.reverse :: words rest := by
  cases rest with
  | nil => simp [wordsFrom, words, nonempty]
  | cons c rest =>
      have blank := ends c rfl
      simp [wordsFrom, words, nonempty, blank]

theorem words_of_spaced {found : List (List Char)} {text : List Char} (spaced : Spaced found text) :
    words text = found := by
  induction spaced with
  | @gap text blank =>
      have read := words_gap_append blank []
      rwa [List.append_nil] at read
  | @word gap word rest found before isWord ends later ih =>
      have held : word.reverse ≠ [] := by simpa using isWord.nonempty
      rw [words_gap_append before, words, wordsFrom_append [] isWord.solid, List.append_nil,
        wordsFrom_of_ends held ends, List.reverse_reverse, ih]

theorem spaced_wordsFrom {held : List Char} (solid : ∀ c ∈ held, isBlank c = false)
    (text : List Char) : Spaced (wordsFrom held text) (held.reverse ++ text) := by
  induction text generalizing held with
  | nil =>
      rw [wordsFrom, List.append_nil]
      by_cases empty : held = []
      · subst empty
        exact .gap isGap_nil
      · have isWord : IsWord held.reverse := ⟨by simpa using empty, by simpa using solid⟩
        simpa [empty] using isWord.spaced
  | cons c text ih =>
      by_cases blank : isBlank c = true
      · have gap : IsGap [c] := isGap_cons.mpr ⟨blank, isGap_nil⟩
        have spacedText : Spaced (words text) text := ih (List.forall_mem_nil _)
        have later : Spaced (words text) (c :: text) := spacedText.gap_append gap
        by_cases empty : held = []
        · subst empty
          simpa [wordsFrom, blank, words] using later
        · have isWord : IsWord held.reverse := ⟨by simpa using empty, by simpa using solid⟩
          have ends : ∀ first ∈ (c :: text).head?, isBlank first = true := by simpa using blank
          rw [wordsFrom_of_ends empty ends, words_of_spaced later]
          exact .word isGap_nil isWord ends later
      · have solidNow : ∀ other ∈ c :: held, isBlank other = false := by
          rw [List.forall_mem_cons]
          exact ⟨by simpa using blank, solid⟩
        have spaced := ih solidNow
        simpa [wordsFrom, blank] using spaced

theorem words_eq_iff {text : List Char} {found : List (List Char)} :
    words text = found ↔ Spaced found text := by
  constructor
  · rintro rfl
    exact spaced_wordsFrom (List.forall_mem_nil _) text
  · exact words_of_spaced

/-! ## Trimming -/

theorem skipBlank_append {gap text : List Char} (blank : IsGap gap) :
    skipBlank (gap ++ text) = skipBlank text := by
  exact List.dropWhile_append_of_pos blank

theorem skipBlank_of_head? {text : List Char} (solid : ∀ c ∈ text.head?, isBlank c = false) :
    skipBlank text = text := by
  cases text with
  | nil => rfl
  | cons c text => simp [skipBlank, solid c rfl]

theorem exists_gap_skipBlank (text : List Char) :
    ∃ gap, IsGap gap ∧ text = gap ++ skipBlank text := by
  refine ⟨text.takeWhile isBlank, ?_, List.takeWhile_append_dropWhile.symm⟩
  rw [isGap_iff_isAllBlank]
  exact List.all_takeWhile

theorem exists_gaps_trim (text : List Char) :
    ∃ before after, IsGap before ∧ IsGap after ∧ text = before ++ (trim text ++ after) := by
  obtain ⟨before, blank, split⟩ := exists_gap_skipBlank text
  obtain ⟨after, blankAfter, splitAfter⟩ := exists_gap_skipBlank (skipBlank text).reverse
  refine ⟨before, after.reverse, blank, by simpa [IsGap] using blankAfter, ?_⟩
  rw [trim, ← List.reverse_append, ← splitAfter, List.reverse_reverse]
  exact split

theorem words_trim (text : List Char) : words (trim text) = words text := by
  obtain ⟨before, after, blank, blankAfter, split⟩ := exists_gaps_trim text
  have spaced : Spaced (words (trim text)) (trim text) := words_eq_iff.mp rfl
  have whole := (spaced.append_gap blankAfter).gap_append blank
  rw [← split] at whole
  exact (words_of_spaced whole).symm

theorem trim_of_spaced {word text : List Char} (spaced : Spaced [word] text) :
    trim text = word := by
  cases spaced with
  | @word gap _ rest _ before isWord ends later =>
      cases later with
      | gap after =>
          have first : ∀ c ∈ (word ++ rest).head?, isBlank c = false := by
            intro c inside
            obtain ⟨start, others, rfl⟩ := List.exists_cons_of_ne_nil isWord.nonempty
            obtain rfl : start = c := by simpa using inside
            exact isWord.solid _ List.mem_cons_self
          have last : ∀ c ∈ word.reverse.head?, isBlank c = false := by
            intro c inside
            have held := List.mem_of_mem_head? inside
            exact isWord.solid c (List.mem_reverse.mp held)
          have afterReversed : IsGap rest.reverse := by simpa [IsGap] using after
          rw [trim, skipBlank_append before, skipBlank_of_head? first, List.reverse_append,
            skipBlank_append afterReversed, skipBlank_of_head? last, List.reverse_reverse]

end Lookahead.Text
