import Lookahead.Proofs.Closed
import Lookahead.Proofs.Conflict
import Lookahead.Proofs.Simulation
import Mathlib.Algebra.Group.End
import Mathlib.Data.List.FinRange

/-!
# Grammars with their rules in another order

The passes that compute sets, the filling of a table, and the conflict that may be reported all
depend on the order of the rules. What comes of them does not. A grammar and the one with its rules
in another order have the same rules up to their indices (`Grammar.Moved`), so they derive the same.
Hence they have the same sets, they are LL(1) together, and their tables choose the same rules up to
the indices, which is all that parsing depends on (`Table.Alike`).
-/

set_option autoImplicit false

namespace Lookahead

variable {T N : Type}

namespace Rule

/-- Rules in another order. The permutation tells for each place the one that its rule goes to. -/
def reordered (rules : List (Rule T N)) (order : Equiv.Perm (Fin rules.length)) :
    List (Rule T N) :=
  List.ofFn fun place => rules[order.symm place]

/-- Where a permutation of places moves an index. What is no place is not moved. -/
def place {count : Nat} (order : Equiv.Perm (Fin count)) : Equiv.Perm Nat :=
  order.extendDomain Fin.equivSubtype

theorem getElem?_reordered (rules : List (Rule T N)) (order : Equiv.Perm (Fin rules.length))
    (index : Nat) : (reordered rules order)[place order index]? = rules[index]? := by
  by_cases below : index < rules.length
  · have moved : place order index = order ⟨index, below⟩ :=
      order.extendDomain_apply_subtype Fin.equivSubtype below
    rw [moved, reordered, List.getElem?_ofFn]
    simp [below]
  · have kept : place order index = index :=
      order.extendDomain_apply_not_subtype Fin.equivSubtype below
    rw [kept, reordered, List.getElem?_ofFn]
    simp [below]

theorem reordered_perm (rules : List (Rule T N)) (order : Equiv.Perm (Fin rules.length)) :
    (reordered rules order).Perm rules := by
  have perm := Equiv.Perm.ofFn_comp_perm order.symm rules.get
  rw [List.ofFn_get] at perm
  exact perm

theorem moved_symm (place : Equiv.Perm Nat) (rule : Rule T N) :
    (rule.moved place.symm).moved place = rule := by
  rw [moved, moved, Equiv.apply_symm_apply]

end Rule

namespace Grammar

/-- Two grammars with the same rules up to their indices, and with the same symbols. -/
structure Moved (place : Equiv.Perm Nat) (grammar other : Grammar T N) : Prop where
  mem_rules : ∀ {rule : Rule T N}, rule.moved place ∈ other.rules ↔ rule ∈ grammar.rules
  terminals : other.terminals.Perm grammar.terminals
  nonTerminals : other.nonTerminals.Perm grammar.nonTerminals

namespace Moved

variable {place : Equiv.Perm Nat} {grammar other : Grammar T N}

theorem symm (moved : grammar.Moved place other) : other.Moved place.symm grammar where
  mem_rules := by
    intro rule
    rw [← moved.mem_rules, Rule.moved_symm]
  terminals := moved.terminals.symm
  nonTerminals := moved.nonTerminals.symm

theorem yields (moved : grammar.Moved place other) {first second : List (Symbol T N)}
    (yields : grammar.Yields first second) : other.Yields first second := by
  induction yields with
  | nil => exact .nil
  | keep symbol _ ih => exact .keep symbol ih
  | @expand rule rest inner form listed _ _ ihSide ih =>
      have expanded : other.Yields (.nonTerminal (rule.moved place).lhs :: rest) (inner ++ form) :=
        .expand (moved.mem_rules.mpr listed) ihSide ih
      exact expanded

theorem yields_iff (moved : grammar.Moved place other) {first second : List (Symbol T N)} :
    other.Yields first second ↔ grammar.Yields first second :=
  ⟨moved.symm.yields, moved.yields⟩

theorem predicts_iff (moved : grammar.Moved place other) {rule : Rule T N} {terminal : T} :
    other.Predicts (rule.moved place) terminal ↔ grammar.Predicts rule terminal := by
  simp only [Grammar.predicts_iff, Starts, Follows, moved.yields_iff]
  rfl

theorem isLL1 (moved : grammar.Moved place other) (separate : grammar.IsLL1) : other.IsLL1 := by
  intro first listed second listedSecond apart same terminal calls callsSecond
  have apartBefore : (first.moved place.symm).index ≠ (second.moved place.symm).index :=
    place.symm.injective.ne apart
  exact separate _ (moved.symm.mem_rules.mpr listed) _ (moved.symm.mem_rules.mpr listedSecond)
    apartBefore same terminal (moved.symm.predicts_iff.mpr calls)
    (moved.symm.predicts_iff.mpr callsSecond)

end Moved

end Grammar

/-- Two entries that are both missing, or hold the same terminals. -/
def SameRow : Option (List T) → Option (List T) → Prop :=
  Option.Rel fun row other => ∀ terminal, terminal ∈ other ↔ terminal ∈ row

theorem sameRow_of {row other : Option (List T)} (present : other.isSome = true ↔ row.isSome = true)
    (content : ∀ terminal, terminal ∈ other.getD [] ↔ terminal ∈ row.getD []) :
    SameRow row other := by
  cases row with
  | none =>
      cases other with
      | none => exact .none
      | some others => simp at present
  | some terminals =>
      cases other with
      | none => simp at present
      | some others => exact .some content

variable [DecidableEq T] [DecidableEq N]

structure Sets.Same (sets other : Sets T N) : Prop where
  nullable : ∀ name, other.isNullable name = sets.isNullable name
  first : ∀ symbol, SameRow (sets.first? symbol) (other.first? symbol)
  follow : ∀ name, SameRow (sets.follow? name) (other.follow? name)

section Moved

variable {place : Equiv.Perm Nat} {rules others : List (Rule T N)} {start : N}
  {grammar other : Grammar T N} {table otherTable : Table T N}
  (accepted : Grammar.ofRules rules start = .ok grammar)
  (otherAccepted : Grammar.ofRules others start = .ok other)
  (moved : grammar.Moved place other)

include accepted otherAccepted moved

theorem Sets.same_of_moved : (Sets.ofGrammar grammar).Same (Sets.ofGrammar other) where
  nullable := by
    intro name
    rw [Bool.eq_iff_iff, isNullable, isNullable, decide_eq_true_eq, decide_eq_true_eq,
      mem_nullable_iff, mem_nullable_iff, moved.yields_iff]
  first := by
    intro symbol
    apply sameRow_of
    · cases symbol with
      | terminal name =>
          rw [first?_terminal_isSome_iff, first?_terminal_isSome_iff, moved.terminals.mem_iff]
      | nonTerminal name =>
          rw [first?_isSome_iff accepted, first?_isSome_iff otherAccepted,
            moved.nonTerminals.mem_iff]
    · intro terminal
      rw [mem_first?_iff, mem_first?_iff, mem_firstOf_iff, mem_firstOf_iff, Grammar.Starts,
        Grammar.Starts, moved.terminals.mem_iff]
      simp only [moved.yields_iff]
  follow := by
    intro name
    apply sameRow_of
    · rw [follow?_isSome_iff accepted, follow?_isSome_iff otherAccepted,
        moved.nonTerminals.mem_iff]
    · intro terminal
      change terminal ∈ (Sets.ofGrammar other).follow.row name ↔
        terminal ∈ (Sets.ofGrammar grammar).follow.row name
      rw [mem_follow_iff, mem_follow_iff, Grammar.Follows, Grammar.Follows,
        moved.terminals.mem_iff]
      simp only [moved.yields_iff]

theorem Table.exists_iff_of_moved :
    (∃ table, ofGrammar other = .ok table) ↔ ∃ table, ofGrammar grammar = .ok table := by
  rw [exists_table_iff accepted, exists_table_iff otherAccepted]
  exact ⟨moved.symm.isLL1, moved.isLL1⟩

theorem Table.alike_of_moved (built : ofGrammar grammar = .ok table)
    (otherBuilt : ofGrammar other = .ok otherTable) : table.Alike place List.Perm otherTable := by
  have chosen : ∀ name terminal,
      otherTable.get? name terminal = (table.get? name terminal).map (Rule.moved place) := by
    intro name terminal
    apply Option.ext
    intro rule
    rw [Option.map_eq_some_iff, get?_iff_predicts otherAccepted otherBuilt]
    constructor
    · rintro ⟨listed, same, calls⟩
      have original : table.get? name terminal = some (rule.moved place.symm) :=
        (get?_iff_predicts accepted built).mpr
          ⟨moved.symm.mem_rules.mpr listed, same, moved.symm.predicts_iff.mpr calls⟩
      exact ⟨_, original, Rule.moved_symm place rule⟩
    · rintro ⟨original, found, rfl⟩
      obtain ⟨listed, same, calls⟩ := (get?_iff_predicts accepted built).mp found
      exact ⟨moved.mem_rules.mpr listed, same, moved.predicts_iff.mpr calls⟩
  refine ⟨chosen, fun name => ?_⟩
  obtain ⟨rfl, _⟩ := predictive_of_ofGrammar accepted built
  obtain ⟨rfl, _⟩ := predictive_of_ofGrammar otherAccepted otherBuilt
  -- the same terminals are expected, in the orders in which the grammars list them
  have filled : ∀ terminal, (Cell.indexAt? otherTable.cells name terminal).isSome =
      (Cell.indexAt? table.cells name terminal).isSome := by
    intro terminal
    rw [indexAt?_of_ofGrammar otherAccepted otherBuilt, indexAt?_of_ofGrammar accepted built,
      chosen]
    simp only [Option.isSome_map]
  simp only [expected, filled]
  exact (moved.terminals.filter _).symm

end Moved

section Reordered

variable {rules : List (Rule T N)} {start : N} {grammar : Grammar T N}
  (accepted : Grammar.ofRules rules start = .ok grammar)
  (order : Equiv.Perm (Fin rules.length))

include accepted

theorem Grammar.exists_moved : ∃ other, ofRules (Rule.reordered rules order) start = .ok other ∧
    grammar.Moved (Rule.place order) other := by
  have perm := Rule.reordered_perm rules order
  obtain ⟨closed, rfl⟩ := ofRules_ok_iff.mp accepted
  have closedOther : IsClosed (Rule.reordered rules order) start := by
    constructor
    · exact (perm.map Rule.lhs).mem_iff.mpr closed.start
    · intro rule listed name used
      exact (perm.map Rule.lhs).mem_iff.mpr (closed.used rule (perm.mem_iff.mp listed) name used)
  refine ⟨_, ofRules_ok_iff.mpr ⟨closedOther, rfl⟩, ?_, ?_, ?_⟩
  · intro rule
    rw [Rule.mem_renumber, Rule.mem_renumber]
    have same : (Rule.reordered rules order)[(rule.moved (Rule.place order)).index]? =
        rules[rule.index]? := Rule.getElem?_reordered rules order rule.index
    rw [same]
    rfl
  · rw [List.perm_ext_iff_of_nodup (nodup_eraseDups _) (nodup_eraseDups _)]
    intro terminal
    rw [List.mem_eraseDups, List.mem_eraseDups, (perm.flatMap_right Rule.terminals).mem_iff]
  · rw [List.perm_ext_iff_of_nodup (nodup_eraseDups _) (nodup_eraseDups _)]
    intro name
    rw [List.mem_eraseDups, List.mem_eraseDups, (perm.map Rule.lhs).mem_iff]

end Reordered

namespace Table

/-- Rules in another order give the same sets, the same tables up to the new indices, and the same
parses up to these and the order of the expected terminals. -/
theorem ofRules_reordered {rules : List (Rule T N)} {start : N} {grammar : Grammar T N}
    (accepted : Grammar.ofRules rules start = .ok grammar)
    (order : Equiv.Perm (Fin rules.length)) :
    ∃ other, Grammar.ofRules (Rule.reordered rules order) start = .ok other ∧
      (Sets.ofGrammar grammar).Same (Sets.ofGrammar other) ∧
      ((∃ conflict, ofRules rules start = .error (.conflict conflict)) ∧
          (∃ conflict, ofRules (Rule.reordered rules order) start = .error (.conflict conflict)) ∨
        ∃ table otherTable, ofRules rules start = .ok table ∧
          ofRules (Rule.reordered rules order) start = .ok otherTable ∧
          (∀ name terminal, otherTable.get? name terminal =
            (table.get? name terminal).map (Rule.moved (Rule.place order))) ∧
          ∀ (Source : Type) (kind : TokenSource Source T) (source : Source),
            AlikeOutcomes (Rule.place order) List.Perm (table.parse kind source).outcome
              (otherTable.parse kind source).outcome) := by
  obtain ⟨other, otherAccepted, moved⟩ := Grammar.exists_moved accepted order
  refine ⟨other, otherAccepted, Sets.same_of_moved accepted otherAccepted moved, ?_⟩
  have tables := exists_iff_of_moved accepted otherAccepted moved
  simp only [ofRules, accepted, otherAccepted]
  -- both grammars are LL(1), or neither is
  cases outcome : ofGrammar grammar with
  | error error =>
      obtain ⟨conflict, rfl, _⟩ := conflict_of_error accepted outcome
      cases otherOutcome : ofGrammar other with
      | error otherError =>
          obtain ⟨otherConflict, rfl, _⟩ := conflict_of_error otherAccepted otherOutcome
          exact .inl ⟨⟨conflict, rfl⟩, otherConflict, rfl⟩
      | ok otherTable =>
          obtain ⟨table, built⟩ := tables.mp ⟨otherTable, otherOutcome⟩
          rw [outcome] at built
          cases built
  | ok table =>
      obtain ⟨otherTable, otherBuilt⟩ := tables.mpr ⟨table, outcome⟩
      have alike := alike_of_moved accepted otherAccepted moved outcome otherBuilt
      refine .inr ⟨table, otherTable, rfl, otherBuilt, alike.chosen, ?_⟩
      intro Source kind source
      obtain ⟨rfl, reading⟩ := predictive_of_ofGrammar accepted outcome
      obtain ⟨rfl, otherReading⟩ := predictive_of_ofGrammar otherAccepted otherBuilt
      have started : otherTable.grammar.start = table.grammar.start := by
        rw [(Grammar.ofRules_ok_iff.mp accepted).2, (Grammar.ofRules_ok_iff.mp otherAccepted).2]
      rw [parse, parse, started]
      exact Parsing.parseSymbol_alike reading otherReading alike _ rfl

theorem ofRules_reordered_nested : ∃ (order : Equiv.Perm (Fin nested.length))
    (table otherTable : Table Char Char), ofRules nested 'S' = .ok table ∧
      ofRules (Rule.reordered nested order) 'S' = .ok otherTable ∧
      table.get? 'S' 'b' = some ⟨1, 'S', []⟩ ∧ otherTable.get? 'S' 'b' = some ⟨0, 'S', []⟩ ∧
      ∀ tokens, AlikeOutcomes (Rule.place order) List.Perm (table.parse .list tokens).outcome
        (otherTable.parse .list tokens).outcome := by
  let order : Equiv.Perm (Fin nested.length) := Equiv.swap ⟨0, by decide⟩ ⟨1, by decide⟩
  have exchanged : Rule.place order 1 = 0 := by decide
  obtain ⟨grammar, table, accepted, built, chosen⟩ : ∃ grammar table,
      Grammar.ofRules nested 'S' = .ok grammar ∧ ofRules nested 'S' = .ok table ∧
        table.get? 'S' 'b' = some ⟨1, 'S', []⟩ := ⟨_, _, rfl, rfl, rfl⟩
  obtain ⟨other, _, _, outcomes⟩ := ofRules_reordered accepted order
  rcases outcomes with
    ⟨⟨conflict, failed⟩, _⟩ | ⟨same, otherTable, builtSame, otherBuilt, moved, alike⟩
  · rw [built] at failed
    cases failed
  · rw [built] at builtSame
    obtain rfl := Except.ok.inj builtSame
    refine ⟨order, table, otherTable, built, otherBuilt, chosen, ?_, fun tokens => ?_⟩
    · rw [moved, chosen, Option.map_some, Rule.moved, exchanged]
    · exact alike _ .list tokens

end Table

end Lookahead
