import Lookahead.Proofs.Closed
import Lookahead.Proofs.Table
import Lookahead.SExpr.Lexer
import Lookahead.Table
import Mathlib.Algebra.Ring.Nat
import Mathlib.Data.List.Forall2
import Mathlib.Data.List.Nodup

/-!
# The views of a table

A table is read through its cells, through the lists of its grammar, and as a text. A claim fills a
cell only where there is none, so no two cells are for one place (`Filling.nodup_run`), and in an
accepted grammar a cell is filled exactly where there is a rule to expand with. So the cells are the
places that the rows of the grammar's symbols list (`Table.perm_places`), each once, and the text has
a line for each of them.
-/

set_option autoImplicit false

namespace Lookahead

variable {T N : Type} [DecidableEq T] [DecidableEq N]

/-! ## The places of cells -/

omit [DecidableEq T] [DecidableEq N] in
def Cell.place (cell : Cell T N) : N × T :=
  (cell.nonTerminal, cell.terminal)

theorem Cell.indexAt?_isSome_iff {cells : List (Cell T N)} {name : N} {terminal : T} :
    (indexAt? cells name terminal).isSome ↔ (name, terminal) ∈ cells.map place := by
  induction cells with
  | nil => simp [indexAt?]
  | cons cell cells ih =>
      rw [indexAt?_cons, List.map_cons, List.mem_cons, ← ih]
      by_cases here : cell.nonTerminal = name ∧ cell.terminal = terminal
      · simp [here, place]
      · rw [if_neg here]
        constructor
        · exact .inr
        · intro found
          rcases found with own | later
          · simp only [place, Prod.mk.injEq] at own
            exact absurd ⟨own.1.symm, own.2.symm⟩ here
          · exact later

namespace Filling

variable {rules : List (Rule T N)} {claims : List (Claim T N)} {cells filled : List (Cell T N)}

theorem Step.nodup {claim : Claim T N} (step : Step rules claim cells (.ok filled))
    (apart : (cells.map Cell.place).Nodup) : (filled.map Cell.place).Nodup := by
  cases step with
  | fills free =>
      refine List.nodup_cons.mpr ⟨fun taken => ?_, apart⟩
      have held := Cell.indexAt?_isSome_iff.mpr taken
      rw [free] at held
      cases held
  | repeats held => exact apart

theorem nodup_run (ran : (run rules claims cells).outcome = .ok filled)
    (apart : (cells.map Cell.place).Nodup) : (filled.map Cell.place).Nodup := by
  induction claims generalizing cells with
  | nil =>
      cases ran
      exact apart
  | cons claim rest ih =>
      obtain ⟨made, step, chain⟩ := outcome_cons rules claim cells
      rw [chain] at ran
      cases made with
      | error error => cases ran
      | ok next => exact ih ran (step.nodup apart)

end Filling

/-! ## Rows -/

namespace Table

def places (table : Table T N) : List (N × T) :=
  table.grammar.nonTerminals.flatMap fun name =>
    (table.expected name).map fun terminal => (name, terminal)

theorem mem_places_iff {table : Table T N} {name : N} {terminal : T} :
    (name, terminal) ∈ table.places ↔
      name ∈ table.grammar.nonTerminals ∧ terminal ∈ table.expected name := by
  simp [places]

theorem length_places (table : Table T N) :
    table.places.length =
      (table.grammar.nonTerminals.map fun name => (table.expected name).length).sum := by
  simp [places, List.length_flatMap]

section Built

variable {rules : List (Rule T N)} {start : N} {grammar : Grammar T N} {table : Table T N}
  (accepted : Grammar.ofRules rules start = .ok grammar) (built : ofGrammar grammar = .ok table)

include accepted built

theorem expected_eq_filter (name : N) :
    table.expected name =
      table.grammar.terminals.filter fun terminal => (table.get? name terminal).isSome := by
  rw [expected]
  congr 1
  funext terminal
  rw [indexAt?_of_ofGrammar accepted built, Option.isSome_map]

theorem mem_expected_iff {name : N} {terminal : T} :
    terminal ∈ table.expected name ↔ ∃ rule, table.get? name terminal = some rule := by
  have reading := (predictive_of_ofGrammar accepted built).2
  rw [expected_eq_filter accepted built, List.mem_filter, Option.isSome_iff_exists]
  constructor
  · intro held
    exact held.2
  · intro held
    obtain ⟨rule, chosen⟩ := held
    exact ⟨(reading.chosen.mp chosen).2.2.1, rule, chosen⟩

theorem nodup_terminals : table.grammar.terminals.Nodup := by
  rw [(predictive_of_ofGrammar accepted built).1, (Grammar.ofRules_ok_iff.mp accepted).2]
  exact nodup_eraseDups _

theorem nodup_nonTerminals : table.grammar.nonTerminals.Nodup := by
  rw [(predictive_of_ofGrammar accepted built).1, (Grammar.ofRules_ok_iff.mp accepted).2]
  exact nodup_eraseDups _

theorem nodup_expected (name : N) : (table.expected name).Nodup :=
  (nodup_terminals accepted built).filter _

theorem listed_of_get? {name : N} {terminal : T} {rule : Rule T N}
    (chosen : table.get? name terminal = some rule) : name ∈ table.grammar.nonTerminals := by
  obtain ⟨same, reading⟩ := predictive_of_ofGrammar accepted built
  obtain ⟨listed, left, _⟩ := reading.chosen.mp chosen
  rw [← left]
  rw [same] at listed ⊢
  exact Grammar.lhs_mem_nonTerminals accepted listed

theorem mem_places_iff_get? {name : N} {terminal : T} :
    (name, terminal) ∈ table.places ↔ ∃ rule, table.get? name terminal = some rule := by
  rw [mem_places_iff, mem_expected_iff accepted built]
  constructor
  · intro held
    exact held.2
  · intro held
    obtain ⟨rule, chosen⟩ := held
    exact ⟨listed_of_get? accepted built chosen, rule, chosen⟩

theorem nodup_places : table.places.Nodup := by
  refine List.nodup_flatMap.mpr ⟨fun name _ => ?_, ?_⟩
  · exact (nodup_expected accepted built name).map fun _ _ same => (Prod.mk.inj same).2
  · refine (nodup_nonTerminals accepted built).imp fun {first second} apart => ?_
    intro place inFirst inSecond
    obtain ⟨_, _, atFirst⟩ := List.mem_map.mp inFirst
    obtain ⟨_, _, atSecond⟩ := List.mem_map.mp inSecond
    rw [← atFirst] at atSecond
    exact apart (Prod.mk.inj atSecond).1.symm

theorem perm_places : (table.cells.map Cell.place).Perm table.places := by
  have apart : (table.cells.map Cell.place).Nodup := by
    obtain ⟨cells, filled, rfl⟩ := ofGrammar_ok_iff.mp built
    exact Filling.nodup_run filled List.nodup_nil
  rw [List.perm_ext_iff_of_nodup apart (nodup_places accepted built)]
  intro place
  obtain ⟨name, terminal⟩ := place
  rw [← Cell.indexAt?_isSome_iff, indexAt?_of_ofGrammar accepted built,
    mem_places_iff_get? accepted built, Option.isSome_map, Option.isSome_iff_exists]

end Built

/-! ## Lines -/

variable [Labelled T] [Labelled N]

/-- The line of a place: its symbols, and the right side of its rule. -/
def IsLine (table : Table T N) (place : N × T) (line : String) : Prop :=
  ∃ rule, table.get? place.1 place.2 = some rule ∧
    line = label place.1 ++ ", " ++ label place.2 ++ " => " ++ Rule.describeSide rule.rhs ++ "\n"

theorem forall₂_row (table : Table T N) (name : N) (terminals : List T) :
    List.Forall₂ table.IsLine
      ((terminals.filter fun terminal => (table.get? name terminal).isSome).map
        fun terminal => (name, terminal))
      ((terminals.filterMap fun terminal =>
        (table.get? name terminal).map fun rule => (name, terminal, rule)).map describeEntry) := by
  induction terminals with
  | nil => exact .nil
  | cons terminal terminals ih =>
      cases chosen : table.get? name terminal with
      | none =>
          rw [List.filter_cons_of_neg (by simp [chosen]), List.filterMap_cons_none (by simp [chosen])]
          exact ih
      | some rule =>
          rw [List.filter_cons_of_pos (by simp [chosen]),
            List.filterMap_cons_some (by rw [chosen]; rfl)]
          exact .cons ⟨rule, chosen, rfl⟩ ih

theorem forall₂_entries {rules : List (Rule T N)} {start : N} {grammar : Grammar T N}
    {table : Table T N} (accepted : Grammar.ofRules rules start = .ok grammar)
    (built : ofGrammar grammar = .ok table) :
    List.Forall₂ table.IsLine table.places (table.entries.map describeEntry) := by
  rw [places, entries]
  induction table.grammar.nonTerminals with
  | nil => exact .nil
  | cons name names ih =>
      rw [List.flatMap_cons, List.flatMap_cons, List.map_append]
      refine List.rel_append ?_ ih
      rw [expected_eq_filter accepted built]
      exact forall₂_row table name table.grammar.terminals

/-- What is read off a table in one way is what is read off it in the others. Names and terminals are
any, in the grammar or not. -/
structure ViewsAgree (table : Table T N) : Prop where
  get : ∀ name terminal rule, table.get? name terminal = some rule →
    rule.lhs = name ∧ table.grammar.rules[rule.index]? = some rule ∧
      terminal ∈ table.grammar.terminals
  expected : ∀ name terminal,
    terminal ∈ table.expected name ↔ ∃ rule, table.get? name terminal = some rule
  inOrder : ∀ name, (table.expected name).Sublist table.grammar.terminals
  once : table.grammar.terminals.Nodup ∧ ∀ name, (table.expected name).Nodup
  size : table.size =
    (table.grammar.nonTerminals.map fun name => (table.expected name).length).sum
  places : table.places.Nodup ∧ ∀ name terminal,
    (name, terminal) ∈ table.places ↔ ∃ rule, table.get? name terminal = some rule
  listing : ∃ lines, table.listing = String.join lines ∧
    List.Forall₂ table.IsLine table.places lines

/-- The views of the table of an accepted grammar agree. -/
theorem viewsAgree_of_ofGrammar {rules : List (Rule T N)} {start : N} {grammar : Grammar T N}
    {table : Table T N} (accepted : Grammar.ofRules rules start = .ok grammar)
    (built : ofGrammar grammar = .ok table) : table.grammar = grammar ∧ table.ViewsAgree := by
  obtain ⟨same, reading⟩ := predictive_of_ofGrammar accepted built
  refine ⟨same, ?_⟩
  constructor
  case get =>
    intro name terminal rule chosen
    obtain ⟨listed, left, known, _⟩ := reading.chosen.mp chosen
    exact ⟨left, reading.rule_at listed, known⟩
  case expected =>
    intro name terminal
    exact mem_expected_iff accepted built
  case inOrder =>
    intro name
    exact List.filter_sublist
  case once => exact ⟨nodup_terminals accepted built, nodup_expected accepted built⟩
  case size =>
    have lengths := (perm_places accepted built).length_eq
    rw [List.length_map, length_places] at lengths
    exact lengths
  case places =>
    refine ⟨nodup_places accepted built, ?_⟩
    intro name terminal
    exact mem_places_iff_get? accepted built
  case listing => exact ⟨_, rfl, forall₂_entries accepted built⟩

theorem viewsAgree_of_ofGrammar_expressions : ∃ grammar table,
    Grammar.ofRules SExpr.rules .document = .ok grammar ∧ ofGrammar grammar = .ok table ∧
      table.grammar = grammar ∧ table.ViewsAgree := by
  obtain ⟨grammar, table, accepted, built⟩ : ∃ grammar table,
      Grammar.ofRules SExpr.rules .document = .ok grammar ∧ ofGrammar grammar = .ok table :=
    ⟨_, _, rfl, rfl⟩
  exact ⟨grammar, table, accepted, built, viewsAgree_of_ofGrammar accepted built⟩

end Table

end Lookahead
