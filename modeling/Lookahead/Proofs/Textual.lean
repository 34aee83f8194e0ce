import Lookahead.Proofs.Notation
import Lookahead.Proofs.Validation
import Lookahead.Proofs.Follow

/-!
# Textual grammars

Which texts are grammars, what these grammars list, and where the name `ε` can stand in them.
-/

set_option autoImplicit false

namespace Lookahead

/-!
## Grammars read from a text

A name of a textual grammar is a non terminal exactly if it is the left side of a rule, and all lines
are read before that is settled. So the rules of a text are closed but for a start symbol that comes
from elsewhere (`Notation.IsClassified.isClosed`). `Grammar.Makes` says what is made of a text, given
the rules that it is read as; the ways in which it can fail follow by cases. The symbol lists of the
grammar divide its names between them (`Grammar.KeepsKindsApart`).
-/

open Text (IsGap)

namespace Notation

theorem IsClassified.isClosed {rules : List (Rule String String)} {start : String}
    (classified : IsClassified rules) (begins : start ∈ rules.map Rule.lhs) :
    Grammar.IsClosed rules start where
  start := begins
  used := by
    intro rule listed name used
    rw [List.mem_map]
    exact (classified rule listed _ used).mp rfl

theorem rendersAll_nil_iff {texts : List (List Char)} :
    RendersAll [] texts ↔ ∀ text ∈ texts, IsGap text := by
  induction texts with
  | nil => exact ⟨fun _ => List.forall_mem_nil _, fun _ => .nil⟩
  | cons text texts ih =>
      rw [List.forall_mem_cons, ← ih]
      constructor
      · rintro (_ | ⟨gap, later⟩)
        exact ⟨gap, later⟩
      · rintro ⟨gap, later⟩
        exact .blank gap later

theorem layout_of_readRules {text : String} {rules : List (Rule String String)}
    (read : readRules text = .ok rules) : Layout rules text.toList := by
  rcases readRules_cases text with ⟨others, readToo, layout⟩ | ⟨_, _, failed, _⟩
  · rw [readToo] at read
    obtain rfl := Except.ok.inj read
    exact layout
  · rw [failed] at read
    cases read

theorem readRules_eq_nil_iff {text : String} :
    readRules text = .ok [] ↔ ∀ line ∈ Text.lines text.toList, IsGap line := by
  rw [← rendersAll_nil_iff]
  constructor
  · intro read
    obtain ⟨lines, lined, renders⟩ := (layout_of_readRules read).rendered
    rwa [Text.lines_eq_iff.mpr lined]
  · intro renders
    rw [readRules, readLines_of_rendersAll renders]
    rfl

end Notation

namespace Grammar

open Notation (readRules readRules_cases readRules_eq_nil_iff layout_of_readRules IsClassified
  Layout)

/-- What is made of a text, given what is read of it. -/
inductive Makes (start : Option String) : Except NotationError (List (Rule String String)) →
    Except NotationError (Grammar String String) → Prop
  | refused (number : Nat) (error : LineError) :
      Makes start (.error (.line number error)) (.error (.line number error))
  | nothing (unset : start = none) : Makes start (.ok []) (.error .empty)
  | undefined {rules : List (Rule String String)} {name : String} (given : start = some name)
      (missing : name ∉ rules.map Rule.lhs) :
      Makes start (.ok rules) (.error (.grammar (.undefinedStart name)))
  | grammar {rules : List (Rule String String)} {name : String} {grammar : Grammar String String}
      (chosen : (start <|> rules.head?.map Rule.lhs) = some name)
      (accepted : ofRules rules name = .ok grammar) : Makes start (.ok rules) (.ok grammar)

theorem makes_ofNotation (text : String) (start : Option String) :
    Makes start (readRules text) (ofNotation text start) := by
  unfold ofNotation
  rcases readRules_cases text with ⟨rules, read, layout⟩ | ⟨number, error, failed, _⟩
  · have accepted : ∀ name ∈ rules.map Rule.lhs, ∃ grammar, ofRules rules name = .ok grammar :=
      fun name begins => ⟨_, ofRules_ok_iff.mpr ⟨layout.classified.isClosed begins, rfl⟩⟩
    rw [read]
    cases start with
    | none =>
        cases rules with
        | nil => exact .nothing rfl
        | cons first rest =>
            obtain ⟨grammar, made⟩ := accepted first.lhs List.mem_cons_self
            simp only [List.head?_cons, Option.map_some, Option.orElse_eq_orElse, Option.orElse_eq_or,
              Option.none_or, made]
            exact .grammar rfl made
    | some name =>
        by_cases begins : name ∈ rules.map Rule.lhs
        · obtain ⟨grammar, made⟩ := accepted name begins
          simp only [Option.orElse_eq_orElse, Option.orElse_eq_or, Option.some_or, made]
          exact .grammar rfl made
        · have refused := ofRules_error_iff.mpr (openness?_eq_undefinedStart_iff.mpr ⟨rfl, begins⟩)
          simp only [Option.orElse_eq_orElse, Option.orElse_eq_or, Option.some_or, refused]
          exact .undefined rfl begins
  · rw [failed]
    exact .refused number error

namespace Makes

variable {start : Option String} {read : Except NotationError (List (Rule String String))}
  {outcome : Except NotationError (Grammar String String)}

theorem ne_underived (made : Makes start read outcome) (name : String) :
    outcome ≠ .error (.grammar (.underived name)) := by
  rintro rfl
  cases made

theorem undefinedStart_iff (made : Makes start read outcome) {name : String} :
    outcome = .error (.grammar (.undefinedStart name)) ↔
      start = some name ∧ ∃ rules, read = .ok rules ∧ name ∉ rules.map Rule.lhs := by
  constructor
  · rintro rfl
    cases made with
    | undefined given missing => exact ⟨given, _, rfl, missing⟩
  · rintro ⟨given, rules, rfl, missing⟩
    cases made with
    | nothing unset =>
        rw [unset] at given
        cases given
    | undefined givenToo _ =>
        rw [given] at givenToo
        cases givenToo
        rfl
    | grammar chosen accepted =>
        obtain rfl : name = _ := Option.some.inj (given ▸ chosen)
        exact absurd (ofRules_ok_iff.mp accepted).1.start missing

theorem empty_iff (made : Makes start read outcome) :
    outcome = .error .empty ↔ start = none ∧ read = .ok [] := by
  constructor
  · rintro rfl
    cases made with
    | nothing unset => exact ⟨unset, rfl⟩
  · rintro ⟨unset, rfl⟩
    cases made with
    | nothing _ => rfl
    | undefined given _ =>
        rw [unset] at given
        cases given
    | grammar chosen _ =>
        rw [unset] at chosen
        cases chosen

theorem line_iff (made : Makes start read outcome) {number : Nat} {error : LineError} :
    outcome = .error (.line number error) ↔ read = .error (.line number error) := by
  constructor
  · rintro rfl
    cases made
    rfl
  · rintro rfl
    cases made
    rfl

theorem exists_accepted {grammar : Grammar String String} (made : Makes start read (.ok grammar)) :
    ∃ rules name, read = .ok rules ∧ ofRules rules name = .ok grammar := by
  cases made with
  | grammar _ accepted => exact ⟨_, _, rfl, accepted⟩

end Makes

theorem exists_layout_of_ofNotation {text : String} {start : Option String}
    {grammar : Grammar String String} (read : ofNotation text start = .ok grammar) :
    ∃ rules name, Layout rules text.toList ∧ ofRules rules name = .ok grammar := by
  have made := makes_ofNotation text start
  rw [read] at made
  obtain ⟨rules, name, readToo, accepted⟩ := made.exists_accepted
  exact ⟨rules, name, layout_of_readRules readToo, accepted⟩

/-- A symbol is in the list of its kind, and its name is not in the other one. -/
def ListsOnly (grammar : Grammar String String) : Symbol String String → Prop
  | .terminal name => name ∈ grammar.terminals ∧ name ∉ grammar.nonTerminals
  | .nonTerminal name => name ∈ grammar.nonTerminals ∧ name ∉ grammar.terminals

/-- The symbol lists have no name in common and none twice, and each symbol of a right side is in one
of them only. -/
structure KeepsKindsApart (grammar : Grammar String String) : Prop where
  apart : ∀ name, ¬ (name ∈ grammar.terminals ∧ name ∈ grammar.nonTerminals)
  listed : ∀ rule ∈ grammar.rules, ∀ symbol ∈ rule.rhs, grammar.ListsOnly symbol
  terminals : grammar.terminals.Nodup
  nonTerminals : grammar.nonTerminals.Nodup

theorem keepsKindsApart_of_classified {rules : List (Rule String String)} {name : String}
    {grammar : Grammar String String} (classified : IsClassified rules)
    (accepted : ofRules rules name = .ok grammar) : grammar.KeepsKindsApart := by
  have presents := presents_iff.mpr (ofRules_ok_iff.mp accepted).2
  have apart : ∀ name, ¬ (name ∈ grammar.terminals ∧ name ∈ grammar.nonTerminals) := by
    rintro name ⟨terminal, nonTerminal⟩
    have used := (presents.terminals.mem_iff _).mp (List.mem_map_of_mem terminal)
    obtain ⟨rule, listed, inside⟩ := Rule.mem_uses.mp (List.mem_filter.mp used).1
    have derived := (presents.nonTerminals.mem_iff name).mp nonTerminal
    have kind := (classified rule listed _ inside).mpr (List.mem_map.mp derived)
    cases kind
  constructor
  case apart => exact apart
  case listed =>
    intro rule listed symbol used
    have known := (presents.listed (ofRules_ok_iff.mp accepted).1).2 rule listed symbol used
    cases symbol with
    | terminal name => exact ⟨known, fun other => apart name ⟨known, other⟩⟩
    | nonTerminal name => exact ⟨known, fun other => apart name ⟨other, known⟩⟩
  case terminals => exact List.Nodup.of_map _ presents.terminals.once
  case nonTerminals => exact presents.nonTerminals.once

/-- A text is refused for a line that is not read, for a given start symbol without a rule, or for
having no rules and no start symbol. In any other grammar every symbol of a right side is in one of
the symbol lists and not in both. -/
theorem ofNotation_exact (text : String) (start : Option String) :
    (∀ name, ofNotation text start ≠ .error (.grammar (.underived name))) ∧
    (∀ name, ofNotation text start = .error (.grammar (.undefinedStart name)) ↔
      start = some name ∧ ∃ rules, readRules text = .ok rules ∧ name ∉ rules.map Rule.lhs) ∧
    (ofNotation text start = .error .empty ↔
      start = none ∧ ∀ line ∈ Text.lines text.toList, Text.IsGap line) ∧
    (∀ number error, ofNotation text start = .error (.line number error) ↔
      readRules text = .error (.line number error)) ∧
    ∀ grammar, ofNotation text start = .ok grammar → grammar.KeepsKindsApart := by
  have made := makes_ofNotation text start
  refine ⟨made.ne_underived, fun _ => made.undefinedStart_iff, ?_, fun _ _ => made.line_iff, ?_⟩
  · rw [made.empty_iff, readRules_eq_nil_iff]
  · intro grammar read
    obtain ⟨rules, name, layout, accepted⟩ := exists_layout_of_ofNotation read
    exact keepsKindsApart_of_classified layout.classified accepted

theorem ofNotation_exact_forward : ∃ grammar,
    ofNotation "S → A x\nA -> y A\n\nA → ε" none = .ok grammar ∧ grammar.KeepsKindsApart := by
  obtain ⟨grammar, read⟩ : ∃ grammar,
      ofNotation "S → A x\nA -> y A\n\nA → ε" none = .ok grammar := ⟨_, rfl⟩
  obtain ⟨_, _, _, _, divided⟩ := ofNotation_exact "S → A x\nA -> y A\n\nA → ε" none
  exact ⟨grammar, read, divided grammar read⟩

end Grammar

/-!
## The epsilon of textual grammars

An `ε` on the right side of a line stands for no symbols at all, and a line is refused if it has one
among other names. So no symbol of a right side has that name, nor has a terminal, and it is in no
FIRST or FOLLOW set (`Grammar.NeverUses`). On the left side it is a name like any other: a line
`ε → a` makes a non terminal of it. A grammar that is read is free of the name exactly if its text
has no such line (`Grammar.ofNotation_epsilon`).
-/

open Notation (Line epsilon)

theorem Notation.RendersAll.mem_iff {lines : List Line} {texts : List (List Char)}
    (renders : RendersAll lines texts) {line : Line} :
    line ∈ lines ↔ ∃ text ∈ texts, line.Renders text := by
  induction renders with
  | nil => simp
  | @blank _ text _ gap _ ih =>
      have none : ¬ line.Renders text := fun here => here.not_isGap gap
      simp only [List.mem_cons, exists_eq_or_imp, none, false_or, ih]
  | @line first _ text _ here _ ih =>
      have same : line.Renders text ↔ line = first := by
        rw [← readLine_eq_ok_iff, readLine_of_renders here, Except.ok.injEq, eq_comm]
      simp only [List.mem_cons, exists_eq_or_imp, same, ih]

namespace Grammar

/-- A name is that of no symbol of a right side and of no terminal, and it is in no set. -/
structure NeverUses (grammar : Grammar String String) (name : String) : Prop where
  right : ∀ rule ∈ grammar.rules, ∀ symbol ∈ rule.rhs, symbol.name ≠ name
  terminals : name ∉ grammar.terminals
  first : ∀ symbol row, (Sets.ofGrammar grammar).first? symbol = some row → name ∉ row
  follow : ∀ other row, (Sets.ofGrammar grammar).follow? other = some row → name ∉ row

structure IsFreeOf (grammar : Grammar String String) (name : String) : Prop
    extends grammar.NeverUses name where
  left : ∀ rule ∈ grammar.rules, rule.lhs ≠ name
  nonTerminals : name ∉ grammar.nonTerminals
  nullable : name ∉ (Sets.ofGrammar grammar).nullable
  firstEntry : ∀ symbol row, (Sets.ofGrammar grammar).first? symbol = some row →
    symbol.name ≠ name
  followEntry : (Sets.ofGrammar grammar).follow? name = none

section Accepted

variable {rules : List (Rule String String)} {start name : String}
  {grammar : Grammar String String} (accepted : ofRules rules start = .ok grammar)

include accepted

theorem neverUses_of_uses (unused : ∀ symbol ∈ Rule.uses rules, symbol.name ≠ name) :
    grammar.NeverUses name := by
  have presents := presents_iff.mpr (ofRules_ok_iff.mp accepted).2
  have terminals : name ∉ grammar.terminals := by
    intro listed
    have used := (presents.terminals.mem_iff _).mp (List.mem_map_of_mem listed)
    exact unused _ (List.mem_filter.mp used).1 rfl
  constructor
  case right =>
    intro rule listed symbol used
    apply unused
    rw [← presents.uses]
    exact Rule.mem_uses.mpr ⟨rule, listed, used⟩
  case terminals => exact terminals
  case first =>
    intro symbol row entry inside
    have held := (Sets.mem_firstOf_singleton entry).mpr inside
    exact terminals (Sets.mem_firstOf_iff.mp held).1
  case follow =>
    intro other row entry inside
    have held : name ∈ (Sets.ofGrammar grammar).follow.row other := by
      rw [Sets.follow?] at entry
      rwa [Rows.row, entry]
    exact terminals (Sets.mem_follow_iff.mp held).1

theorem isFreeOf_iff (unused : grammar.NeverUses name) :
    grammar.IsFreeOf name ↔ name ∉ rules.map Rule.lhs := by
  have presents := presents_iff.mpr (ofRules_ok_iff.mp accepted).2
  constructor
  · intro free missing
    exact free.nonTerminals ((presents.nonTerminals.mem_iff name).mpr missing)
  · intro missing
    have left : ∀ rule ∈ grammar.rules, rule.lhs ≠ name := by
      rintro rule listed rfl
      apply missing
      rw [← presents.lefts]
      exact List.mem_map_of_mem listed
    have nonTerminals : name ∉ grammar.nonTerminals :=
      fun listed => missing ((presents.nonTerminals.mem_iff name).mp listed)
    refine { unused with left, nonTerminals, nullable := ?_, firstEntry := ?_, followEntry := ?_ }
    · intro erasable
      obtain ⟨rule, listed, same, _⟩ := (Sets.mem_nullable_iff.mp erasable).exists_rule_of_nil
      exact left rule listed same
    · rintro symbol row entry rfl
      have known : ((Sets.ofGrammar grammar).first? symbol).isSome = true := by rw [entry]; rfl
      cases symbol with
      | terminal name => exact unused.terminals (Sets.first?_terminal_isSome_iff.mp known)
      | nonTerminal name => exact nonTerminals ((Sets.first?_isSome_iff accepted).mp known)
    · rw [← Option.not_isSome_iff_eq_none, Sets.follow?_isSome_iff accepted]
      exact nonTerminals

end Accepted

/-- A grammar that is read from a text has no epsilon but as a left side, and it has that exactly if
a line of the text does. -/
theorem ofNotation_epsilon {text : String} {start : Option String} {grammar : Grammar String String}
    (read : ofNotation text start = .ok grammar) :
    grammar.NeverUses epsilon ∧
      (grammar.IsFreeOf epsilon ↔
        ∀ line ∈ Text.lines text.toList, ∀ right, ¬ Line.Renders ⟨epsilon, right⟩ line) := by
  obtain ⟨rules, name, layout, accepted⟩ := exists_layout_of_ofNotation read
  obtain ⟨lines, lined, renders⟩ := layout.rendered
  have unused : ∀ symbol ∈ Rule.uses rules, symbol.name ≠ epsilon := by
    intro symbol used same
    obtain ⟨rule, listed, inside⟩ := Rule.mem_uses.mp used
    obtain ⟨_, _, here⟩ := renders.mem_iff.mp (List.mem_map_of_mem listed)
    exact here.noEpsilon (same ▸ List.mem_map_of_mem inside)
  have never := neverUses_of_uses accepted unused
  refine ⟨never, (isFreeOf_iff accepted never).trans ?_⟩
  rw [Text.lines_eq_iff.mpr lined, ← Notation.left_ofRule]
  constructor
  · intro missing line inside right here
    exact missing (List.mem_map_of_mem (renders.mem_iff.mpr ⟨line, inside, here⟩))
  · intro none found
    obtain ⟨⟨left, right⟩, listed, rfl⟩ := List.mem_map.mp found
    obtain ⟨line, inside, here⟩ := renders.mem_iff.mp listed
    exact none line inside right here

theorem ofNotation_epsilon_optional : ∃ grammar,
    ofNotation "S → a S\nS → ε" none = .ok grammar ∧ grammar.NeverUses epsilon ∧
      grammar.IsFreeOf epsilon := by
  obtain ⟨grammar, read⟩ : ∃ grammar, ofNotation "S → a S\nS → ε" none = .ok grammar := ⟨_, rfl⟩
  obtain ⟨never, free_iff⟩ := ofNotation_epsilon read
  refine ⟨grammar, read, never, free_iff.mpr ?_⟩
  have lines : Text.lines "S → a S\nS → ε".toList = ["S → a S".toList, "S → ε".toList] := rfl
  have first : Notation.readLine "S → a S".toList = .ok ⟨"S", ["a", "S"]⟩ := rfl
  have second : Notation.readLine "S → ε".toList = .ok ⟨"S", []⟩ := rfl
  rw [lines]
  simp only [← Notation.readLine_eq_ok_iff, List.forall_mem_cons, first, second]
  simp [epsilon]

/-- A left side may be an epsilon, and then it is a non terminal. -/
theorem not_isFreeOf_epsilon : ∃ grammar,
    ofNotation "ε → a" none = .ok grammar ∧ ¬ grammar.IsFreeOf epsilon := by
  refine ⟨_, rfl, fun free => free.nonTerminals ?_⟩
  exact List.mem_cons_self

end Grammar

end Lookahead
