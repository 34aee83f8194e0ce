import Lookahead.Proofs.Table

/-!
# Conflicts

A table exists exactly if the grammar is LL(1). Each cell of a table is owed either to what the rule
derives or to what follows its left side, never to both.
-/

set_option autoImplicit false

namespace Lookahead

/-!
## Which grammars have a table

A grammar is LL(1) if no terminal calls for two rules of one left side, where a terminal calls for a
rule if the right side derives something that starts with it, or derives the empty string where the
terminal can stand after the left side (`Grammar.Predicts`). The lookaheads of a rule are the listed
terminals that call for it (`Sets.mem_lookaheads_iff_predicts`), so its claims on the cells of a table
are those terminals, and all of them in an accepted grammar (`Claim.mem_all_iff_predicts`). Claims
that disagree are then what keeps a grammar from being LL(1), and what a conflict reports.
-/

variable {T N : Type}

namespace Grammar

/-- Why a terminal calls for a rule: the right side derives a form that starts with it, or derives
nothing, and the terminal can stand right after the left side. -/
def Predicts (grammar : Grammar T N) (rule : Rule T N) (terminal : T) : Prop :=
  (∃ form, grammar.Derives rule.rhs (.terminal terminal :: form)) ∨
    grammar.Derives rule.rhs [] ∧ ∃ top before after, grammar.Derives [.nonTerminal top]
      (before ++ .nonTerminal rule.lhs :: .terminal terminal :: after)

/-- Rules of one left side are not called for by the same terminal. -/
def IsLL1 (grammar : Grammar T N) : Prop :=
  ∀ first ∈ grammar.rules, ∀ second ∈ grammar.rules, first.index ≠ second.index →
    first.lhs = second.lhs → ∀ terminal, grammar.Predicts first terminal →
      ¬ grammar.Predicts second terminal

theorem predicts_iff {grammar : Grammar T N} {rule : Rule T N} {terminal : T} :
    grammar.Predicts rule terminal ↔ grammar.Starts rule.rhs terminal ∨
      grammar.Yields rule.rhs [] ∧ grammar.Follows [.nonTerminal rule.lhs] terminal := by
  simp only [Predicts, derives_iff_yields]
  rfl

end Grammar

/-- The rules are two of the grammar's for the non terminal, and the terminal calls for both. -/
structure Conflict.IsReal (grammar : Grammar T N) (conflict : Conflict T N) : Prop where
  existing_mem : conflict.existing ∈ grammar.rules
  candidate_mem : conflict.candidate ∈ grammar.rules
  apart : conflict.existing.index ≠ conflict.candidate.index
  existing_lhs : conflict.existing.lhs = conflict.nonTerminal
  candidate_lhs : conflict.candidate.lhs = conflict.nonTerminal
  existing_predicts : grammar.Predicts conflict.existing conflict.terminal
  candidate_predicts : grammar.Predicts conflict.candidate conflict.terminal

variable [DecidableEq T] [DecidableEq N]

theorem Sets.mem_lookaheads_iff_predicts {grammar : Grammar T N} {rule : Rule T N} {terminal : T} :
    terminal ∈ (Sets.ofGrammar grammar).lookaheads rule ↔
      terminal ∈ grammar.terminals ∧ grammar.Predicts rule terminal := by
  rw [mem_lookaheads, mem_firstOf_iff, isNullableSequence_iff, mem_follow_iff,
    Grammar.predicts_iff]
  tauto

section Accepted

variable {rules : List (Rule T N)} {start : N} {grammar : Grammar T N}
  (accepted : Grammar.ofRules rules start = .ok grammar)

include accepted

theorem Grammar.Predicts.mem_terminals {rule : Rule T N} {terminal : T}
    (predicts : grammar.Predicts rule terminal) (listed : rule ∈ grammar.rules) :
    terminal ∈ grammar.terminals := by
  have known : ∀ {rule : Rule T N} {terminal : T}, rule ∈ grammar.rules →
      .terminal terminal ∈ rule.rhs → terminal ∈ grammar.terminals :=
    fun listed used => Grammar.mem_terminals_of_ofRules accepted listed used
  rcases Grammar.predicts_iff.mp predicts with ⟨form, yields⟩ | ⟨_, top, before, after, yields⟩
  · exact yields.mem_terminals known (known listed) List.mem_cons_self
  · apply yields.mem_terminals known
    · intro own
      simp at own
    · simp

theorem Sets.mem_lookaheads_iff_of_mem {rule : Rule T N} {terminal : T}
    (listed : rule ∈ grammar.rules) :
    terminal ∈ grammar.terminals ∧ terminal ∈ (Sets.ofGrammar grammar).lookaheads rule ↔
      grammar.Predicts rule terminal := by
  rw [Sets.mem_lookaheads_iff_predicts]
  constructor
  · rintro ⟨_, _, predicts⟩
    exact predicts
  · intro predicts
    have known := predicts.mem_terminals accepted listed
    exact ⟨known, known, predicts⟩

theorem Claim.mem_all_iff_predicts {claim : Claim T N} :
    claim ∈ Claim.all grammar (Sets.ofGrammar grammar) ↔
      claim.rule ∈ grammar.rules ∧ grammar.Predicts claim.rule claim.terminal := by
  rw [Claim.mem_all]
  apply and_congr_right
  intro listed
  exact Sets.mem_lookaheads_iff_of_mem accepted listed

theorem Filling.agree_all_iff :
    Filling.Agree (Claim.all grammar (Sets.ofGrammar grammar)) ↔ grammar.IsLL1 := by
  constructor
  · intro agree first listedFirst second listedSecond apart same terminal calls callsOther
    have claimed : ⟨first, terminal⟩ ∈ Claim.all grammar (Sets.ofGrammar grammar) :=
      (Claim.mem_all_iff_predicts accepted).mpr ⟨listedFirst, calls⟩
    have claimedOther : ⟨second, terminal⟩ ∈ Claim.all grammar (Sets.ofGrammar grammar) :=
      (Claim.mem_all_iff_predicts accepted).mpr ⟨listedSecond, callsOther⟩
    exact apart (agree _ claimed _ claimedOther same rfl)
  · intro separate first claimed second claimedOther same sameTerminal
    obtain ⟨listedFirst, calls⟩ := (Claim.mem_all_iff_predicts accepted).mp claimed
    obtain ⟨listedSecond, callsOther⟩ := (Claim.mem_all_iff_predicts accepted).mp claimedOther
    by_contra apart
    rw [← sameTerminal] at callsOther
    exact separate _ listedFirst _ listedSecond apart same _ calls callsOther

namespace Table

theorem conflict_of_error {error : TableError T N} (failed : ofGrammar grammar = .error error) :
    ∃ conflict, error = .conflict conflict ∧ conflict.IsReal grammar := by
  obtain ⟨earlier, claimedEarlier, claim, claimed, sameName, sameTerminal, apart, reported⟩ :=
    Filling.exists_earlier_of_error (ofGrammar_error_iff.mp failed)
  obtain ⟨listed, calls⟩ := (Claim.mem_all_iff_predicts accepted).mp claimed
  obtain ⟨listedEarlier, callsEarlier⟩ := (Claim.mem_all_iff_predicts accepted).mp claimedEarlier
  -- the rules are numbered by position, so the index that is met leads to the rule that claimed it
  have atIndex : grammar.rules[earlier.rule.index]? = some earlier.rule :=
    Rule.getElem?_index (Grammar.index_of_ofRules accepted) listedEarlier
  refine ⟨_, reported earlier.rule atIndex, ?_⟩
  exact {
    existing_mem := listedEarlier
    candidate_mem := listed
    apart := apart
    existing_lhs := sameName
    candidate_lhs := rfl
    existing_predicts := sameTerminal ▸ callsEarlier
    candidate_predicts := calls }

theorem exists_table_iff : (∃ table, ofGrammar grammar = .ok table) ↔ grammar.IsLL1 :=
  exists_ok_iff_agree.trans (Filling.agree_all_iff accepted)

theorem get?_iff_predicts {table : Table T N} (built : ofGrammar grammar = .ok table) {name : N}
    {terminal : T} {rule : Rule T N} :
    table.get? name terminal = some rule ↔
      rule ∈ grammar.rules ∧ rule.lhs = name ∧ grammar.Predicts rule terminal := by
  obtain ⟨rfl, reading⟩ := predictive_of_ofGrammar accepted built
  rw [reading.chosen, reading.computed]
  apply and_congr_right
  intro listed
  apply and_congr_right
  intro _
  exact Sets.mem_lookaheads_iff_of_mem accepted listed

end Table

end Accepted

namespace Table

/-- An accepted grammar has a table exactly if it is LL(1), and the table then chooses a rule on
exactly the terminals that call for it. Filled cells never change. -/
theorem ofGrammar_exact {rules : List (Rule T N)} {start : N} {grammar : Grammar T N}
    (accepted : Grammar.ofRules rules start = .ok grammar) :
    ((∃ table, ofGrammar grammar = .ok table) ↔ grammar.IsLL1) ∧
      (∀ table, ofGrammar grammar = .ok table → ∀ name terminal,
        (∀ rule, table.get? name terminal = some rule ↔
          rule ∈ grammar.rules ∧ rule.lhs = name ∧ grammar.Predicts rule terminal) ∧
        (table.get? name terminal = none ↔
          ∀ rule ∈ grammar.rules, rule.lhs = name → ¬ grammar.Predicts rule terminal)) ∧
      (¬ grammar.IsLL1 →
        ∃ conflict, ofGrammar grammar = .error (.conflict conflict) ∧ conflict.IsReal grammar) ∧
      Filling.Keeps grammar.rules (Claim.all grammar (Sets.ofGrammar grammar)) := by
  have exists_iff := exists_table_iff accepted
  refine ⟨exists_iff, ?_, ?_, Filling.keeps_run _ _⟩
  · intro table built name terminal
    have chosen : ∀ rule, table.get? name terminal = some rule ↔
        rule ∈ grammar.rules ∧ rule.lhs = name ∧ grammar.Predicts rule terminal :=
      fun rule => get?_iff_predicts accepted built
    refine ⟨chosen, ?_⟩
    rw [Option.eq_none_iff_forall_ne_some]
    constructor
    · intro unfilled rule listed same predicts
      exact unfilled rule ((chosen rule).mpr ⟨listed, same, predicts⟩)
    · intro uncalled rule found
      obtain ⟨listed, same, predicts⟩ := (chosen rule).mp found
      exact uncalled rule listed same predicts
  · intro ambiguous
    cases outcome : ofGrammar grammar with
    | ok table => exact absurd (exists_iff.mp ⟨table, outcome⟩) ambiguous
    | error error =>
        obtain ⟨conflict, rfl, real⟩ := conflict_of_error accepted outcome
        exact ⟨conflict, rfl, real⟩

end Table

def disputed : List (Rule Char Char) :=
  [⟨0, 'S', [.nonTerminal 'E', .terminal 'i']⟩, ⟨1, 'E', [.terminal 'i']⟩, ⟨2, 'E', []⟩]

theorem Table.ofGrammar_exact_nested_disputed :
    (∃ grammar table rule, Grammar.ofRules nested 'S' = .ok grammar ∧
      ofGrammar grammar = .ok table ∧ grammar.IsLL1 ∧
        table.get? 'S' 'b' = some rule ∧ grammar.Predicts rule 'b' ∧ table.get? 'S' 'c' = none ∧
          ∀ rule ∈ grammar.rules, rule.lhs = 'S' → ¬ grammar.Predicts rule 'c') ∧
      ∃ grammar conflict, Grammar.ofRules disputed 'S' = .ok grammar ∧ ¬ grammar.IsLL1 ∧
        ofGrammar grammar = .error (.conflict conflict) ∧ conflict.IsReal grammar := by
  constructor
  · obtain ⟨grammar, table, accepted, built, atB, atC⟩ : ∃ grammar table,
        Grammar.ofRules nested 'S' = .ok grammar ∧ ofGrammar grammar = .ok table ∧
          table.get? 'S' 'b' = some ⟨1, 'S', []⟩ ∧ table.get? 'S' 'c' = none :=
      ⟨_, _, rfl, rfl, rfl, rfl⟩
    obtain ⟨exists_iff, chosen, _, _⟩ := ofGrammar_exact accepted
    have called := ((chosen table built 'S' 'b').1 _).mp atB
    have uncalled := (chosen table built 'S' 'c').2.mp atC
    exact ⟨grammar, table, _, accepted, built, exists_iff.mp ⟨table, built⟩, atB, called.2.2, atC,
      uncalled⟩
  · obtain ⟨grammar, error, accepted, failed⟩ : ∃ grammar error,
        Grammar.ofRules disputed 'S' = .ok grammar ∧ ofGrammar grammar = .error error :=
      ⟨_, _, rfl, rfl⟩
    obtain ⟨exists_iff, _, reported, _⟩ := ofGrammar_exact accepted
    have ambiguous : ¬ grammar.IsLL1 := by
      intro separate
      obtain ⟨table, built⟩ := exists_iff.mpr separate
      rw [failed] at built
      cases built
    obtain ⟨conflict, outcome, real⟩ := reported ambiguous
    exact ⟨grammar, conflict, accepted, ambiguous, outcome, real⟩

/-!
## FIRST and FOLLOW in a table

A rule claims a cell for one of two reasons: its right side can start with the terminal, or it can
be empty before the terminal. Filling a table lets a rule claim a cell again, so it does not look at
which of the two holds, or whether both do. Still only one does (`Table.first_follow_disjoint`): if
a rule had both reasons, the derivation of what its right side starts with would lead, through right
sides that can be empty, to a non terminal at which two rules meet.
-/

namespace Table

namespace Predictive

variable {table : Table T N} {name : N} {terminal : T} {rule : Rule T N}

theorem not_mem_follow (reading : table.Predictive) (empty : name ∈ table.sets.nullable)
    (starts : terminal ∈ table.sets.firstOf [.nonTerminal name]) :
    terminal ∉ table.sets.follow.row name := by
  rw [reading.computed] at empty starts
  obtain ⟨known, starts⟩ := Sets.mem_firstOf_iff.mp starts
  intro follows
  have covers : table.sets.Covers [.nonTerminal name] (· ∈ table.sets.follow.row name) :=
    .singleton fun _ inside => inside
  exact reading.not_starts_of_empty covers (Sets.mem_nullable_iff.mp empty) known follows starts

theorem reason_of_get? (reading : table.Predictive) (found : table.get? name terminal = some rule) :
    Xor (terminal ∈ table.sets.firstOf rule.rhs)
      (table.sets.isNullableSequence rule.rhs = true ∧ terminal ∈ table.sets.follow.row name) := by
  obtain ⟨listed, rfl, known, held⟩ := reading.chosen.mp found
  have apart : terminal ∈ table.sets.firstOf rule.rhs →
      ¬ (table.sets.isNullableSequence rule.rhs = true ∧
        terminal ∈ table.sets.follow.row rule.lhs) := by
    rintro inFirst ⟨erasable, follows⟩
    rw [reading.computed] at inFirst erasable
    have starts := (Sets.mem_firstOf_iff.mp inFirst).2
    have empty := Sets.isNullableSequence_iff.mp erasable
    exact reading.not_starts_of_empty (reading.covers listed) empty known follows starts
  rcases Sets.mem_lookaheads.mp held with inFirst | behind
  · exact .inl ⟨inFirst, apart inFirst⟩
  · exact .inr ⟨behind, fun inFirst => apart inFirst behind⟩

end Predictive

/-- FIRST and FOLLOW of a non terminal that can be empty are disjoint, and the rule of a filled cell
is there by one of them alone. -/
theorem first_follow_disjoint {rules : List (Rule T N)} {start : N} {grammar : Grammar T N}
    {table : Table T N} (accepted : Grammar.ofRules rules start = .ok grammar)
    (built : ofGrammar grammar = .ok table) :
    (∀ name, table.sets.isNullable name = true →
      List.Disjoint ((table.sets.first? (.nonTerminal name)).getD [])
        ((table.sets.follow? name).getD [])) ∧
      ∀ name terminal index, Cell.indexAt? table.cells name terminal = some index →
        ∃ rule, table.get? name terminal = some rule ∧ rule.index = index ∧
          Xor (terminal ∈ table.sets.firstOf rule.rhs)
            (table.sets.isNullableSequence rule.rhs = true ∧
              terminal ∈ (table.sets.follow? name).getD []) := by
  obtain ⟨rfl, reading⟩ := predictive_of_ofGrammar accepted built
  constructor
  · intro name nullable terminal inFirst follows
    rw [Sets.isNullable, decide_eq_true_eq] at nullable
    exact reading.not_mem_follow nullable (Sets.mem_first?_iff.mp inFirst) follows
  · intro name terminal index held
    rw [indexAt?_of_ofGrammar accepted built] at held
    obtain ⟨rule, found, rfl⟩ := Option.map_eq_some_iff.mp held
    exact ⟨rule, found, rfl, reading.reason_of_get? found⟩

end Table

def optional : List (Rule Char Char) :=
  [⟨0, 'L', [.nonTerminal 'B', .terminal 'a', .nonTerminal 'L']⟩, ⟨1, 'L', []⟩,
    ⟨2, 'B', [.nonTerminal 'O']⟩, ⟨3, 'O', [.terminal 'b']⟩, ⟨4, 'O', []⟩]

theorem Table.first_follow_disjoint_optional : ∃ grammar table,
    Grammar.ofRules optional 'L' = .ok grammar ∧ ofGrammar grammar = .ok table ∧
      table.sets.isNullable 'B' = true ∧ table.sets.first? (.nonTerminal 'B') = some ['b'] ∧
      table.sets.follow? 'B' = some ['a'] ∧ List.Disjoint ['b'] ['a'] ∧
      Cell.indexAt? table.cells 'B' 'a' = some 2 ∧ ∃ rule, table.get? 'B' 'a' = some rule ∧
        rule.index = 2 ∧ Xor ('a' ∈ table.sets.firstOf rule.rhs)
          (table.sets.isNullableSequence rule.rhs = true ∧ 'a' ∈ ['a']) := by
  obtain ⟨grammar, table, accepted, built, nullable, first, follow, held⟩ : ∃ grammar table,
      Grammar.ofRules optional 'L' = .ok grammar ∧ ofGrammar grammar = .ok table ∧
        table.sets.isNullable 'B' = true ∧ table.sets.first? (.nonTerminal 'B') = some ['b'] ∧
        table.sets.follow? 'B' = some ['a'] ∧ Cell.indexAt? table.cells 'B' 'a' = some 2 :=
    ⟨_, _, rfl, rfl, by decide, by decide, by decide, by decide⟩
  obtain ⟨apart, reasons⟩ := first_follow_disjoint accepted built
  have disjoint := apart 'B' nullable
  have reason := reasons 'B' 'a' 2 held
  rw [first, follow] at disjoint
  rw [follow] at reason
  exact ⟨grammar, table, accepted, built, nullable, first, follow, disjoint, held, reason⟩

end Lookahead
