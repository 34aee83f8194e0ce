import Lookahead.Proofs.Filling
import Lookahead.Proofs.Follow

/-!
# What a table chooses

When the filling of a table succeeds, every claim holds its cell and every filled cell has a claim
(`Filling.indexAt?_run`). Together with the meaning of the sets this gives the reading of a table
that parsing relies on (`Table.Predictive`): a rule is chosen on a terminal exactly if its right
side can start with it, or can be empty before it. Cells hold one rule, so a non terminal that can
be empty before a terminal cannot start with it (`Predictive.not_starts_of_empty`).
-/

set_option autoImplicit false

namespace Lookahead

variable {T N : Type} [DecidableEq T] [DecidableEq N]

namespace Table

theorem ofGrammar_ok_iff {grammar : Grammar T N} {table : Table T N} :
    ofGrammar grammar = .ok table ↔
      ∃ cells, (fill grammar (Sets.ofGrammar grammar)).outcome = .ok cells ∧
        ⟨grammar, Sets.ofGrammar grammar, cells⟩ = table := by
  cases filled : (fill grammar (Sets.ofGrammar grammar)).outcome <;> simp [ofGrammar, filled]

theorem ofGrammar_error_iff {grammar : Grammar T N} {error : TableError T N} :
    ofGrammar grammar = .error error ↔
      (fill grammar (Sets.ofGrammar grammar)).outcome = .error error := by
  cases filled : (fill grammar (Sets.ofGrammar grammar)).outcome <;> simp [ofGrammar, filled]

theorem exists_ok_iff_agree {grammar : Grammar T N} :
    (∃ table, ofGrammar grammar = .ok table) ↔
      Filling.Agree (Claim.all grammar (Sets.ofGrammar grammar)) := by
  rw [← Filling.outcome_ok_iff]
  constructor
  · rintro ⟨table, built⟩
    obtain ⟨cells, filled, _⟩ := ofGrammar_ok_iff.mp built
    exact ⟨cells, filled⟩
  · rintro ⟨cells, filled⟩
    exact ⟨_, ofGrammar_ok_iff.mpr ⟨cells, filled, rfl⟩⟩

/-- The reading of a table: its rules carry their positions, the terminals of its right sides are
listed, its sets are those of its grammar, and a rule is chosen exactly on its lookaheads. -/
structure Predictive (table : Table T N) : Prop where
  numbered : ∀ {position : Nat} {rule : Rule T N},
    table.grammar.rules[position]? = some rule → rule.index = position
  known : ∀ {rule : Rule T N} {terminal : T}, rule ∈ table.grammar.rules →
    .terminal terminal ∈ rule.rhs → terminal ∈ table.grammar.terminals
  computed : table.sets = Sets.ofGrammar table.grammar
  chosen : ∀ {name : N} {terminal : T} {rule : Rule T N}, table.get? name terminal = some rule ↔
    rule ∈ table.grammar.rules ∧ rule.lhs = name ∧ terminal ∈ table.grammar.terminals ∧
      terminal ∈ table.sets.lookaheads rule

theorem predictive_of_ofGrammar {rules : List (Rule T N)} {start : N} {grammar : Grammar T N}
    {table : Table T N} (accepted : Grammar.ofRules rules start = .ok grammar)
    (built : ofGrammar grammar = .ok table) : table.grammar = grammar ∧ table.Predictive := by
  obtain ⟨cells, filled, rfl⟩ := ofGrammar_ok_iff.mp built
  have numbered : ∀ {position : Nat} {rule : Rule T N},
      grammar.rules[position]? = some rule → rule.index = position :=
    Grammar.index_of_ofRules accepted
  refine ⟨rfl, numbered, fun listed used => Grammar.mem_terminals_of_ofRules accepted listed used,
    rfl, ?_⟩
  intro name terminal rule
  simp only [get?, Grammar.rule?, Option.bind_eq_some_iff]
  constructor
  · rintro ⟨index, found, atIndex⟩
    rcases (Filling.indexAt?_run filled).mp found with empty | ⟨claim, made, own⟩
    · cases empty
    · obtain ⟨rfl, rfl, rfl⟩ := own
      obtain ⟨listed, held⟩ := Claim.mem_all.mp made
      -- both rules stand at the index that the claim's rule carries
      rw [Rule.getElem?_index numbered listed] at atIndex
      cases atIndex
      exact ⟨listed, rfl, held⟩
  · rintro ⟨listed, rfl, held⟩
    refine ⟨rule.index, (Filling.indexAt?_run filled).mpr (.inr ?_),
      Rule.getElem?_index numbered listed⟩
    exact ⟨⟨rule, terminal⟩, Claim.mem_all.mpr ⟨listed, held⟩, rfl, rfl, rfl⟩

theorem indexAt?_of_ofGrammar {rules : List (Rule T N)} {start : N} {grammar : Grammar T N}
    {table : Table T N} (accepted : Grammar.ofRules rules start = .ok grammar)
    (built : ofGrammar grammar = .ok table) (name : N) (terminal : T) :
    Cell.indexAt? table.cells name terminal = (table.get? name terminal).map Rule.index := by
  obtain ⟨cells, filled, rfl⟩ := ofGrammar_ok_iff.mp built
  cases held : Cell.indexAt? cells name terminal with
  | none => simp [get?, held]
  | some index =>
      rcases (Filling.indexAt?_run filled).mp held with empty | ⟨claim, made, own⟩
      · cases empty
      · obtain ⟨_, _, rfl⟩ := own
        have atIndex : grammar.rules[claim.rule.index]? = some claim.rule :=
          Rule.getElem?_index (Grammar.index_of_ofRules accepted) (Claim.mem_all.mp made).1
        simp [get?, held, Grammar.rule?, atIndex]

namespace Predictive

variable {table : Table T N} {name : N} {terminal : T} {rule : Rule T N}

theorem rule_at (reading : table.Predictive) (listed : rule ∈ table.grammar.rules) :
    table.grammar.rules[rule.index]? = some rule :=
  Rule.getElem?_index reading.numbered listed

theorem mem_follow_iff (reading : table.Predictive) :
    terminal ∈ table.sets.follow.row name ↔
      terminal ∈ table.grammar.terminals ∧
        table.grammar.Follows [.nonTerminal name] terminal := by
  rw [reading.computed]
  exact Sets.mem_follow_iff

theorem get?_iff (reading : table.Predictive) :
    table.get? name terminal = some rule ↔
      rule ∈ table.grammar.rules ∧ rule.lhs = name ∧ terminal ∈ table.grammar.terminals ∧
        (table.grammar.Starts rule.rhs terminal ∨
          table.grammar.Yields rule.rhs [] ∧ terminal ∈ table.sets.follow.row name) := by
  rw [reading.chosen, Sets.mem_lookaheads, reading.computed, Sets.mem_firstOf_iff,
    Sets.isNullableSequence_iff]
  constructor
  · rintro ⟨listed, rfl, known, ⟨_, starts⟩ | follows⟩
    · exact ⟨listed, rfl, known, .inl starts⟩
    · exact ⟨listed, rfl, known, .inr follows⟩
  · rintro ⟨listed, rfl, known, starts | follows⟩
    · exact ⟨listed, rfl, known, .inl ⟨known, starts⟩⟩
    · exact ⟨listed, rfl, known, .inr follows⟩

theorem known_of_starts (reading : table.Predictive) (listed : rule ∈ table.grammar.rules)
    (starts : table.grammar.Starts rule.rhs terminal) : terminal ∈ table.grammar.terminals := by
  obtain ⟨form, yields⟩ := starts
  exact yields.mem_terminals reading.known (reading.known listed) List.mem_cons_self

theorem get?_of_starts (reading : table.Predictive) (listed : rule ∈ table.grammar.rules)
    (starts : table.grammar.Starts rule.rhs terminal) :
    table.get? rule.lhs terminal = some rule :=
  reading.get?_iff.mpr ⟨listed, rfl, reading.known_of_starts listed starts, .inl starts⟩

theorem get?_of_empty (reading : table.Predictive) (listed : rule ∈ table.grammar.rules)
    (empty : table.grammar.Yields rule.rhs [])
    (follows : terminal ∈ table.sets.follow.row rule.lhs) :
    table.get? rule.lhs terminal = some rule :=
  reading.get?_iff.mpr
    ⟨listed, rfl, (reading.mem_follow_iff.mp follows).1, .inr ⟨empty, follows⟩⟩

theorem covers (reading : table.Predictive) (listed : rule ∈ table.grammar.rules) :
    table.sets.Covers rule.rhs (· ∈ table.sets.follow.row rule.lhs) := by
  rw [reading.computed]
  exact (Sets.follow_rows table.grammar).2 rule listed

theorem head_mem_follow (reading : table.Predictive) {rest after : List (Symbol T N)}
    {beyond : T → Prop} (covers : table.sets.Covers (.nonTerminal name :: rest) beyond)
    (yields : table.grammar.Yields rest after) (known : terminal ∈ table.grammar.terminals)
    (next : (∃ later, after = .terminal terminal :: later) ∨ after = [] ∧ beyond terminal) :
    terminal ∈ table.sets.follow.row name := by
  rw [reading.computed] at covers ⊢
  exact covers.head yields known next

theorem mem_follow_of_next (reading : table.Predictive) (listed : rule ∈ table.grammar.rules)
    {before rest after : List (Symbol T N)} (split : rule.rhs = before ++ .nonTerminal name :: rest)
    (yields : table.grammar.Yields rest after)
    (next : (∃ later, after = .terminal terminal :: later) ∨
      after = [] ∧ terminal ∈ table.sets.follow.row rule.lhs) :
    terminal ∈ table.sets.follow.row name := by
  have known : terminal ∈ table.grammar.terminals := by
    rcases next with ⟨later, rfl⟩ | ⟨_, follows⟩
    · refine yields.mem_terminals reading.known (fun own => reading.known listed ?_) List.mem_cons_self
      rw [split]
      exact List.mem_append_right before (List.mem_cons_of_mem _ own)
    · exact (reading.mem_follow_iff.mp follows).1
  have covers : table.sets.Covers (.nonTerminal name :: rest)
      (· ∈ table.sets.follow.row rule.lhs) :=
    Sets.Covers.suffix (split ▸ reading.covers listed)
  exact reading.head_mem_follow covers yields known next

theorem not_starts_of_empty (reading : table.Predictive) {symbols : List (Symbol T N)}
    {beyond : T → Prop} (covers : table.sets.Covers symbols beyond)
    (empty : table.grammar.Yields symbols []) (known : terminal ∈ table.grammar.terminals)
    (trails : beyond terminal) : ¬ table.grammar.Starts symbols terminal := by
  rintro ⟨later, yields⟩
  generalize whole : Symbol.terminal terminal :: later = form at yields
  induction yields generalizing beyond later with
  | nil => cases whole
  | keep symbol _ _ =>
      obtain ⟨rfl, _⟩ := List.cons.inj whole
      cases empty
  | @expand rule rest inner form listed side last ihSide ih =>
      obtain ⟨other, listedOther, same, sideEmpty, restEmpty⟩ := empty.exists_rule_of_nil
      have follows : terminal ∈ table.sets.follow.row rule.lhs :=
        reading.head_mem_follow covers restEmpty known (.inr ⟨rfl, trails⟩)
      cases inner with
      | nil => exact ih covers.tail restEmpty trails later whole
      | cons first inner =>
          obtain ⟨rfl, _⟩ := List.cons.inj whole
          -- the rules of both expansions claim this cell, so they are one, and its right side is in the
          -- same position as the symbols were
          have chosen := reading.get?_of_starts listed ⟨inner, side⟩
          have chosenOther := reading.get?_of_empty listedOther sideEmpty (same ▸ follows)
          rw [same, chosen] at chosenOther
          obtain rfl := Option.some.inj chosenOther
          exact ihSide (reading.covers listed) sideEmpty follows inner rfl

end Predictive

end Table

/-- Some `a` before as many `b`, a grammar whose table has a cell for each of its rules. -/
def nested : List (Rule Char Char) :=
  [⟨0, 'S', [.terminal 'a', .nonTerminal 'S', .terminal 'b']⟩, ⟨1, 'S', []⟩]

end Lookahead
