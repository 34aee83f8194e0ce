import Lookahead.Sets.Basic
import Lookahead.Text.Grid

/-!
# Tables

The table of a grammar, and its forms as text.
-/

set_option autoImplicit false

namespace Lookahead

/-!
## LL(1) tables

A table tells a predictive parser which rule to expand a non terminal with when it sees a terminal
ahead. Every rule claims the cells of its left side at its lookaheads. A cell that two rules claim
is a conflict, and the grammar has no table.

A cell holds the index that its rule carries, and the rule is looked up by position. The two agree
in a grammar made by `Grammar.ofRules`. In other grammars an index may name another rule or none,
so reporting a conflict may fail too.
-/

structure Claim (T N : Type) where
  rule : Rule T N
  terminal : T
  deriving DecidableEq

structure Cell (T N : Type) where
  nonTerminal : N
  terminal : T
  index : Nat
  deriving DecidableEq

/-- Two rules that claim one cell: the one that has it and the one that came later. -/
structure Conflict (T N : Type) where
  nonTerminal : N
  terminal : T
  existing : Rule T N
  candidate : Rule T N
  deriving DecidableEq

inductive TableError (T N : Type) where
  | invalidGrammar (error : GrammarError N)
  | conflict (conflict : Conflict T N)
  /-- Two rules claim one cell, and no rule stands at the index that the cell holds. -/
  | strayIndex (claim : Claim T N) (index : Nat)
  deriving DecidableEq

section Messages

variable {T N : Type} [Labelled T] [Labelled N]

def Claim.describe (claim : Claim T N) : String :=
  "table[" ++ label claim.rule.lhs ++ "][" ++ label claim.terminal ++ "] = " ++
    claim.rule.describe

def Conflict.message (conflict : Conflict T N) : String :=
  "grammar is not LL(1): on " ++ label conflict.nonTerminal ++ " with lookahead " ++
    label conflict.terminal ++ ", rule `" ++ conflict.existing.describe ++
    "` conflicts with rule `" ++ conflict.candidate.describe ++ "`"

def TableError.message : TableError T N → String
  | .invalidGrammar error => "invalid grammar: " ++ error.message
  | .conflict found => found.message
  | .strayIndex claim index =>
      "no rule has index " ++ toString index ++ ", which " ++ claim.describe ++ " met"

end Messages

/-- What becomes of a list of claims: those that were made, in order, and the cells they fill
unless the last one failed. -/
structure Filling (T N : Type) where
  made : List (Claim T N)
  outcome : Except (TableError T N) (List (Cell T N))

/-- No two cells are for the same place. -/
structure Table (T N : Type) where
  grammar : Grammar T N
  sets : Sets T N
  cells : List (Cell T N)

variable {T N : Type} [DecidableEq T] [DecidableEq N]

def Cell.indexAt? (cells : List (Cell T N)) (name : N) (terminal : T) : Option Nat :=
  (cells.find? fun cell => cell.nonTerminal = name ∧ cell.terminal = terminal).map Cell.index

@[simp]
theorem Cell.indexAt?_cons {cell : Cell T N} {cells : List (Cell T N)} {name : N} {terminal : T} :
    indexAt? (cell :: cells) name terminal =
      if cell.nonTerminal = name ∧ cell.terminal = terminal then some cell.index
      else indexAt? cells name terminal := by
  by_cases here : cell.nonTerminal = name ∧ cell.terminal = terminal <;>
    simp [indexAt?, here]

def Claim.ofRule (grammar : Grammar T N) (sets : Sets T N) (rule : Rule T N) :
    List (Claim T N) :=
  let lookaheads := sets.lookaheads rule
  (grammar.terminals.filter (· ∈ lookaheads)).map fun terminal => ⟨rule, terminal⟩

def Claim.all (grammar : Grammar T N) (sets : Sets T N) : List (Claim T N) :=
  grammar.rules.flatMap (Claim.ofRule grammar sets)

theorem Claim.mem_all {grammar : Grammar T N} {sets : Sets T N} {claim : Claim T N} :
    claim ∈ Claim.all grammar sets ↔ claim.rule ∈ grammar.rules ∧
      claim.terminal ∈ grammar.terminals ∧ claim.terminal ∈ sets.lookaheads claim.rule := by
  obtain ⟨rule, terminal⟩ := claim
  simp only [Claim.all, Claim.ofRule, List.mem_flatMap, List.mem_map, List.mem_filter,
    decide_eq_true_eq, Claim.mk.injEq]
  constructor
  · rintro ⟨_, listed, _, held, rfl, rfl⟩
    exact ⟨listed, held⟩
  · rintro ⟨listed, held⟩
    exact ⟨rule, listed, terminal, held, rfl, rfl⟩

/-- Makes claims up to the first that meets another rule's index. A rule may claim a cell again. -/
def Filling.run (rules : List (Rule T N)) :
    List (Claim T N) → List (Cell T N) → Filling T N
  | [], cells => ⟨[], .ok cells⟩
  | claim :: rest, cells =>
      let name := claim.rule.lhs
      match Cell.indexAt? cells name claim.terminal with
      | none =>
          let filling := run rules rest (⟨name, claim.terminal, claim.rule.index⟩ :: cells)
          { filling with made := claim :: filling.made }
      | some index =>
          if index = claim.rule.index then
            let filling := run rules rest cells
            { filling with made := claim :: filling.made }
          else
            match rules[index]? with
            | some existing =>
                ⟨[claim], .error (.conflict ⟨name, claim.terminal, existing, claim.rule⟩)⟩
            | none => ⟨[claim], .error (.strayIndex claim index)⟩

namespace Table

def fill (grammar : Grammar T N) (sets : Sets T N) : Filling T N :=
  Filling.run grammar.rules (Claim.all grammar sets) []

def ofGrammar (grammar : Grammar T N) : Except (TableError T N) (Table T N) :=
  let sets := Sets.ofGrammar grammar
  match (fill grammar sets).outcome with
  | .error error => .error error
  | .ok cells => .ok ⟨grammar, sets, cells⟩

def ofRules (rules : List (Rule T N)) (start : N) : Except (TableError T N) (Table T N) :=
  match Grammar.ofRules rules start with
  | .error error => .error (.invalidGrammar error)
  | .ok grammar => ofGrammar grammar

def records [Labelled T] [Labelled N] (grammar : Grammar T N) : List Record :=
  let sets := Sets.ofGrammar grammar
  let filling := fill grammar sets
  sets.records grammar ++
    filling.made.map (fun claim => ⟨.trace, .table, claim.describe⟩) ++
    match filling.outcome with
    | .error _ => []
    | .ok cells =>
        [⟨.debug, .table, "built LL(1) table: " ++ toString grammar.rules.length ++ " rules, " ++
          toString cells.length ++ " filled cells"⟩]

def get? (table : Table T N) (name : N) (terminal : T) : Option (Rule T N) :=
  (Cell.indexAt? table.cells name terminal).bind table.grammar.rule?

def expected (table : Table T N) (name : N) : List T :=
  table.grammar.terminals.filter fun terminal =>
    (Cell.indexAt? table.cells name terminal).isSome

omit [DecidableEq T] [DecidableEq N] in
def size (table : Table T N) : Nat :=
  table.cells.length

def entries (table : Table T N) : List (N × T × Rule T N) :=
  table.grammar.nonTerminals.flatMap fun name =>
    table.grammar.terminals.filterMap fun terminal =>
      (table.get? name terminal).map fun rule => (name, terminal, rule)

theorem mem_rules_of_get? {table : Table T N} {name : N} {terminal : T} {rule : Rule T N}
    (found : table.get? name terminal = some rule) : rule ∈ table.grammar.rules := by
  obtain ⟨index, _, atIndex⟩ := Option.bind_eq_some_iff.mp found
  exact List.mem_of_getElem? atIndex

/-!
## Tables as text

A table is shown as a list of its filled places, one a line, or as a grid with a row for every non
terminal and a column for every terminal.
-/

variable [Labelled T] [Labelled N]

def describeEntry (entry : N × T × Rule T N) : String :=
  label entry.1 ++ ", " ++ label entry.2.1 ++ " => " ++ Rule.describeSide entry.2.2.rhs ++ "\n"

def listing (table : Table T N) : String :=
  String.join (table.entries.map describeEntry)

def describeCell (table : Table T N) (name : N) (terminal : T) : String :=
  match table.get? name terminal with
  | some rule => toString rule.index ++ ": " ++ Rule.describeSide rule.rhs
  | none => ""

def gridCells (table : Table T N) : List (List String) :=
  let terminals := table.grammar.terminals
  ("LL(1)" :: terminals.map label) ::
    table.grammar.nonTerminals.map fun name =>
      label name :: terminals.map (table.describeCell name)

def grid (table : Table T N) : String :=
  Text.grid (gridCells table)

end Table

end Lookahead
