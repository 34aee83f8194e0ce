import Lookahead.Proofs.Arrows

/-!
# Which texts are grammars

`Notation.Layout` says which texts stand for a list of rules: lines that are blank or render the
next rule, with any gaps and either arrow. `readRules` accepts exactly these texts and gives the
rules they stand for; any other text has a first line that is neither blank nor a rendering, and
that line is reported (`readRules_exact`).

A line is read if and only if it renders something (`readLine_eq_ok_iff`), and then it is not blank,
so reading the lines in order follows `RendersAll`. The kinds of names are settled at the end, from
all lines.
-/

set_option autoImplicit false

namespace Lookahead

open Text (IsGap IsWord Spaced Lined)

def Symbol.name {α : Type} : Symbol α α → α
  | terminal name => name
  | nonTerminal name => name

namespace Notation

/-! ## Lines -/

/-- A text spells the names of a right side. A lone epsilon spells no names, as a gap does. -/
def SpellsRight (names : List String) (text : List Char) : Prop :=
  Spaced (names.map String.toList) text ∨ names = [] ∧ Spaced [epsilon.toList] text

structure Line.Renders (line : Line) (text : List Char) : Prop where
  parts : ∃ before arrow after, text = before ++ (arrow ++ after) ∧ IsArrow arrow ∧
    Spaced [line.left.toList] before ∧ SpellsRight line.right after
  names : ∀ name ∈ line.left :: line.right, IsName name
  noEpsilon : epsilon ∉ line.right

theorem words_eq_toList_iff {text : List Char} {names : List String} :
    (Text.words text).map String.ofList = names ↔ Spaced (names.map String.toList) text := by
  rw [← Text.words_eq_iff]
  constructor
  · rintro rfl
    simp [Function.comp_def]
  · intro same
    rw [same]
    simp [Function.comp_def]

theorem readRight_eq_ok_iff {text : List Char} {names : List String} :
    readRight text = .ok names ↔ SpellsRight names text ∧ epsilon ∉ names := by
  have spaced : Spaced (((Text.words text).map String.ofList).map String.toList) text :=
    words_eq_toList_iff.mp rfl
  constructor
  · intro read
    unfold readRight at read
    dsimp only at read
    split at read
    · rename_i lone
      obtain rfl := Except.ok.inj read
      rw [lone] at spaced
      exact ⟨.inr ⟨rfl, spaced⟩, List.not_mem_nil⟩
    · split at read
      · cases read
      · rename_i without
        obtain rfl := Except.ok.inj read
        exact ⟨.inl spaced, without⟩
  · rintro ⟨spells, without⟩
    unfold readRight
    dsimp only
    rcases spells with spells | ⟨rfl, lone⟩
    · have several : names ≠ [epsilon] := by
        rintro rfl
        exact without List.mem_cons_self
      rw [words_eq_toList_iff.mpr spells, if_neg several, if_neg without]
    · have alone : (Text.words text).map String.ofList = [epsilon] := words_eq_toList_iff.mpr lone
      rw [if_pos alone]

theorem SpellsRight.isName_of_mem {names : List String} {text : List Char}
    (spells : SpellsRight names text) (free : ArrowFree text) {name : String}
    (inside : name ∈ names) : IsName name := by
  rcases spells with spaced | ⟨rfl, _⟩
  · have listed : name.toList ∈ names.map String.toList := List.mem_map_of_mem inside
    exact ⟨spaced.isWord_of_mem listed, free.of_isInfix (spaced.isInfix_of_mem listed)⟩
  · cases inside

theorem SpellsRight.arrowFree {names : List String} {text : List Char}
    (spells : SpellsRight names text) (named : ∀ name ∈ names, IsName name) : ArrowFree text := by
  rcases spells with spaced | ⟨_, lone⟩
  · apply arrowFree_of_spaced spaced
    intro word inside
    obtain ⟨name, listed, rfl⟩ := List.mem_map.mp inside
    exact (named name listed).free
  · apply arrowFree_of_spaced lone
    intro word inside
    obtain rfl := List.mem_singleton.mp inside
    refine arrowFree_cons_iff.mpr ⟨?_, arrowFree_nil⟩
    rw [startsArrow_cons_iff]
    decide

theorem readLine_ok_iff {text : List Char} {line : Line} :
    readLine text = .ok line ↔ ∃ left right, arrowParts text = [left, right] ∧
      Text.words left = [line.left.toList] ∧ readRight right = .ok line.right := by
  constructor
  · intro read
    unfold readLine at read
    split at read
    · rename_i left right found
      dsimp only at read
      split at read
      · cases read
      · split at read
        · cases read
        · rename_i single
          split at read
          · cases read
          · rename_i names readNames
            obtain rfl := Except.ok.inj read
            obtain ⟨word, alone⟩ := List.length_eq_one_iff.mp (Decidable.not_not.mp single)
            rw [Text.words_trim] at alone
            have trimmed : Text.trim left = word := Text.trim_of_spaced (Text.words_eq_iff.mp alone)
            refine ⟨left, right, found, ?_, readNames⟩
            rw [trimmed, String.toList_ofList, alone]
    · cases read
    · cases read
  · rintro ⟨left, right, found, single, readNames⟩
    have spaced := Text.words_eq_iff.mp single
    have isWord : IsWord line.left.toList := spaced.isWord_of_mem List.mem_cons_self
    have nonempty : line.left.toList.isEmpty = false :=
      List.isEmpty_eq_false_iff.mpr isWord.nonempty
    have alone : (Text.words line.left.toList).length = 1 := by
      rw [Text.words_of_spaced isWord.spaced, List.length_singleton]
    simp [readLine, found, Text.trim_of_spaced spaced, nonempty, alone, readNames]

theorem renders_of_readLine {text : List Char} {line : Line} (read : readLine text = .ok line) :
    line.Renders text := by
  obtain ⟨left, right, found, single, readNames⟩ := readLine_ok_iff.mp read
  have spaced := Text.words_eq_iff.mp single
  obtain ⟨spells, without⟩ := readRight_eq_ok_iff.mp readNames
  cases arrowParts_eq_iff.mp found with
  | @arrow _ arrow _ _ freeLeft isArrow later =>
      cases later with
      | whole freeRight =>
          refine ⟨⟨left, arrow, right, rfl, isArrow, spaced, spells⟩, ?_, without⟩
          rw [List.forall_mem_cons]
          constructor
          · exact ⟨spaced.isWord_of_mem List.mem_cons_self,
              freeLeft.of_isInfix (spaced.isInfix_of_mem List.mem_cons_self)⟩
          · exact fun name inside => spells.isName_of_mem freeRight inside
      | arrow _ _ last => cases last

theorem readLine_of_renders {text : List Char} {line : Line} (renders : line.Renders text) :
    readLine text = .ok line := by
  obtain ⟨⟨before, arrow, after, rfl, isArrow, spaced, spells⟩, names, without⟩ := renders
  rw [List.forall_mem_cons] at names
  obtain ⟨isName, isNames⟩ := names
  have freeBefore : ArrowFree before := arrowFree_of_spaced spaced (by simpa using isName.free)
  have parts : arrowParts (before ++ (arrow ++ after)) = [before, after] :=
    arrowParts_of_parted (.arrow freeBefore isArrow (.whole (spells.arrowFree isNames)))
  exact readLine_ok_iff.mpr ⟨before, after, parts, Text.words_of_spaced spaced,
    readRight_eq_ok_iff.mpr ⟨spells, without⟩⟩

theorem readLine_eq_ok_iff {text : List Char} {line : Line} :
    readLine text = .ok line ↔ line.Renders text :=
  ⟨renders_of_readLine, readLine_of_renders⟩

theorem Line.Renders.not_isGap {line : Line} {text : List Char} (renders : line.Renders text) :
    ¬ IsGap text := by
  obtain ⟨⟨before, arrow, after, rfl, _, spaced, _⟩, names, _⟩ := renders
  intro blank
  have isWord := (names line.left List.mem_cons_self).isWord
  obtain ⟨c, others, split⟩ := List.exists_cons_of_ne_nil isWord.nonempty
  have inWord : c ∈ line.left.toList := by
    rw [split]
    exact List.mem_cons_self
  have inside : c ∈ before := (spaced.isInfix_of_mem List.mem_cons_self).subset inWord
  have isBlank := blank c (List.mem_append_left _ inside)
  rw [isWord.solid c inWord] at isBlank
  cases isBlank

/-- Lines of a text, some of them blank, and what the others stand for. -/
inductive RendersAll : List Line → List (List Char) → Prop
  | nil : RendersAll [] []
  | blank {lines : List Line} {text : List Char} {texts : List (List Char)} (gap : IsGap text)
      (later : RendersAll lines texts) : RendersAll lines (text :: texts)
  | line {line : Line} {lines : List Line} {text : List Char} {texts : List (List Char)}
      (renders : line.Renders text) (later : RendersAll lines texts) :
      RendersAll (line :: lines) (text :: texts)

theorem readLines_of_rendersAll {lines : List Line} {texts : List (List Char)}
    (renders : RendersAll lines texts) (number : Nat) : readLines number texts = .ok lines := by
  induction renders generalizing number with
  | nil => rfl
  | blank gap later ih => rw [readLines, if_pos (Text.isGap_iff_isAllBlank.mp gap), ih]
  | line renders later ih =>
      have solid := renders.not_isGap
      rw [Text.isGap_iff_isAllBlank] at solid
      rw [readLines, if_neg solid, readLine_eq_ok_iff.mpr renders]
      simp only [ih]

def IsWrong (text : List Char) : Prop :=
  ¬ IsGap text ∧ ∀ line : Line, ¬ line.Renders text

theorem readLines_cases (number : Nat) (texts : List (List Char)) :
    (∃ lines, readLines number texts = .ok lines ∧ RendersAll lines texts) ∨
      ∃ before lines wrong after error, texts = before ++ wrong :: after ∧
        RendersAll lines before ∧ IsWrong wrong ∧
        readLines number texts = .error (.line (number + before.length) error) := by
  induction texts generalizing number with
  | nil => exact .inl ⟨[], rfl, .nil⟩
  | cons text texts ih =>
      by_cases gap : IsGap text
      · rw [readLines, if_pos (Text.isGap_iff_isAllBlank.mp gap)]
        rcases ih (number + 1) with ⟨lines, read, renders⟩ |
          ⟨before, lines, wrong, after, error, split, renders, isWrong, failed⟩
        · exact .inl ⟨lines, read, .blank gap renders⟩
        · refine .inr ⟨text :: before, lines, wrong, after, error, ?_, .blank gap renders, isWrong,
            ?_⟩
          · rw [split, List.cons_append]
          · rw [failed, List.length_cons, Nat.add_assoc, Nat.add_comm 1]
      · have solid := gap
        rw [Text.isGap_iff_isAllBlank] at solid
        rw [readLines, if_neg solid]
        cases readFirst : readLine text with
        | error error =>
            have isWrong : IsWrong text := by
              refine ⟨gap, fun line renders => ?_⟩
              rw [readLine_eq_ok_iff.mpr renders] at readFirst
              cases readFirst
            exact .inr ⟨[], [], text, texts, error, rfl, .nil, isWrong, rfl⟩
        | ok line =>
            have renders := readLine_eq_ok_iff.mp readFirst
            rcases ih (number + 1) with ⟨lines, read, rendersLater⟩ |
              ⟨before, lines, wrong, after, error, split, rendersLater, isWrong, failed⟩
            · exact .inl ⟨line :: lines, by rw [read], .line renders rendersLater⟩
            · refine .inr ⟨text :: before, line :: lines, wrong, after, error, ?_,
                .line renders rendersLater, isWrong, ?_⟩
              · rw [split, List.cons_append]
              · rw [failed, List.length_cons, Nat.add_assoc, Nat.add_comm 1]

/-! ## Rules -/

def Line.ofRule (rule : Rule String String) : Line :=
  ⟨rule.lhs, rule.rhs.map Symbol.name⟩

def IsNumbered (rules : List (Rule String String)) : Prop :=
  ∀ (position : Nat) (rule : Rule String String), rules[position]? = some rule →
    rule.index = position

/-- The non terminals of right sides are the names that are some rule's left side. -/
def IsClassified (rules : List (Rule String String)) : Prop :=
  ∀ rule ∈ rules, ∀ symbol ∈ rule.rhs,
    symbol.isTerminal = false ↔ ∃ other ∈ rules, other.lhs = symbol.name

structure Layout (rules : List (Rule String String)) (text : List Char) : Prop where
  rendered : ∃ lines, Lined lines text ∧ RendersAll (rules.map Line.ofRule) lines
  numbered : IsNumbered rules
  classified : IsClassified rules

/-- The line of a number, blank ones counted and the first being 1, is the first wrong one. -/
def FirstWrong (number : Nat) (text : List Char) : Prop :=
  ∃ before lines wrong after, Lined (before ++ wrong :: after) text ∧ RendersAll lines before ∧
    IsWrong wrong ∧ number = before.length + 1

theorem name_classify (defined : List String) (name : String) :
    (classify defined name).name = name := by
  unfold classify
  split <;> rfl

theorem isTerminal_classify {defined : List String} {name : String} :
    (classify defined name).isTerminal = false ↔ name ∈ defined := by
  unfold classify
  split <;> simp_all [Symbol.isTerminal]

theorem classify_name {defined : List String} {symbol : Symbol String String}
    (right : symbol.isTerminal = false ↔ symbol.name ∈ defined) :
    classify defined symbol.name = symbol := by
  unfold classify
  cases symbol <;> simp_all [Symbol.isTerminal, Symbol.name]

theorem getElem?_rulesOfLines {lines : List Line} {position : Nat} :
    (rulesOfLines lines)[position]? = lines[position]?.map fun line =>
      ⟨position, line.left, line.right.map (classify (lines.map Line.left))⟩ := by
  simp [rulesOfLines, Rule.numbered, Function.comp_def]

theorem left_ofRule (rules : List (Rule String String)) :
    (rules.map Line.ofRule).map Line.left = rules.map Rule.lhs := by
  rw [List.map_map]
  rfl

theorem map_ofRule_rulesOfLines (lines : List Line) :
    (rulesOfLines lines).map Line.ofRule = lines := by
  apply List.ext_getElem?
  intro position
  rw [List.getElem?_map, getElem?_rulesOfLines, Option.map_map]
  cases lines[position]? with
  | none => rfl
  | some line => simp [Line.ofRule, Function.comp_def, name_classify]

theorem isNumbered_rulesOfLines (lines : List Line) : IsNumbered (rulesOfLines lines) := by
  intro position rule found
  rw [getElem?_rulesOfLines] at found
  obtain ⟨line, _, rfl⟩ := Option.map_eq_some_iff.mp found
  rfl

theorem isClassified_rulesOfLines (lines : List Line) : IsClassified (rulesOfLines lines) := by
  have lefts : (rulesOfLines lines).map Rule.lhs = lines.map Line.left := by
    rw [← left_ofRule, map_ofRule_rulesOfLines]
  intro rule listed symbol inside
  obtain ⟨position, found⟩ := List.mem_iff_getElem?.mp listed
  rw [getElem?_rulesOfLines] at found
  obtain ⟨line, _, rfl⟩ := Option.map_eq_some_iff.mp found
  obtain ⟨name, _, rfl⟩ := List.mem_map.mp inside
  rw [isTerminal_classify, name_classify, ← lefts, List.mem_map]

theorem rulesOfLines_ofRule {rules : List (Rule String String)} (numbered : IsNumbered rules)
    (classified : IsClassified rules) : rulesOfLines (rules.map Line.ofRule) = rules := by
  apply List.ext_getElem?
  intro position
  rw [getElem?_rulesOfLines, left_ofRule, List.getElem?_map, Option.map_map]
  cases found : rules[position]? with
  | none => rfl
  | some rule =>
      have place := numbered position rule found
      have restored : ∀ symbol ∈ rule.rhs, classify (rules.map Rule.lhs) symbol.name = symbol := by
        intro symbol inside
        apply classify_name
        rw [classified rule (List.mem_of_getElem? found) symbol inside, List.mem_map]
      have side : (rule.rhs.map Symbol.name).map (classify (rules.map Rule.lhs)) = rule.rhs := by
        rw [List.map_map]
        exact (List.map_congr_left restored).trans (List.map_id _)
      simp [Line.ofRule, side, ← place]

theorem readRules_of_layout {text : String} {rules : List (Rule String String)}
    (layout : Layout rules text.toList) : readRules text = .ok rules := by
  obtain ⟨⟨lines, lined, renders⟩, numbered, classified⟩ := layout
  rw [readRules, Text.lines_eq_iff.mpr lined, readLines_of_rendersAll renders]
  exact congrArg Except.ok (rulesOfLines_ofRule numbered classified)

theorem readRules_cases (text : String) :
    (∃ rules, readRules text = .ok rules ∧ Layout rules text.toList) ∨
      ∃ number error, readRules text = .error (.line number error) ∧
        FirstWrong number text.toList := by
  have lined := Text.lines_eq_iff.mp (rfl : Text.lines text.toList = Text.lines text.toList)
  rcases readLines_cases 1 (Text.lines text.toList) with ⟨lines, read, renders⟩ |
    ⟨before, lines, wrong, after, error, split, renders, isWrong, failed⟩
  · refine .inl ⟨rulesOfLines lines, ?_, ⟨_, lined, ?_⟩, isNumbered_rulesOfLines lines,
      isClassified_rulesOfLines lines⟩
    · rw [readRules, read]
      rfl
    · rwa [map_ofRule_rulesOfLines]
  · refine .inr ⟨1 + before.length, error, ?_, before, lines, wrong, after, split ▸ lined, renders,
      isWrong, Nat.add_comm 1 _⟩
    rw [readRules, failed]
    rfl

/-- A text is read as some rules exactly if it is a layout of them. Any other is refused at its
first line that is neither blank nor a rendering. -/
theorem readRules_exact (text : String) :
    (∀ rules, readRules text = .ok rules ↔ Layout rules text.toList) ∧
      ((¬ ∃ rules, Layout rules text.toList) →
        ∃ number error, readRules text = .error (.line number error) ∧
          FirstWrong number text.toList) := by
  constructor
  · intro rules
    constructor
    · intro read
      rcases readRules_cases text with ⟨others, readOthers, layout⟩ | ⟨_, _, failed, _⟩
      · rw [readOthers] at read
        obtain rfl := Except.ok.inj read
        exact layout
      · rw [failed] at read
        cases read
    · exact readRules_of_layout
  · intro noLayout
    rcases readRules_cases text with ⟨rules, _, layout⟩ | refused
    · exact absurd ⟨rules, layout⟩ noLayout
    · exact refused

end Notation

end Lookahead
