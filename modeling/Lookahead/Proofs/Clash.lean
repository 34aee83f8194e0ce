import Lookahead.Proofs.FirstConflict

/-!
# Tables of grammars with any indices

A rule claims cells under the index that it carries, and in a grammar that was not made by
`Grammar.ofRules` that index need not be its position, nor be the position of any rule. Here a table
is built for any grammar at all. The building fails at the first clash, where a claim meets another
index in its cell (`Grammar.IsFirstClash`), and there is one first clash at most
(`IsFirstClash.unique`). If a rule stands at the index that is met, that rule is reported; if none
does, the conflict has no rule to name (`Table.ofGrammar_clashes`). The latter does not happen where
all indices are positions.
-/

set_option autoImplicit false

namespace Lookahead

/-- A rule and a terminal of a grammar, by their positions. -/
structure Place where
  rule : Nat
  terminal : Nat

def Place.Before (first second : Place) : Prop :=
  first.rule < second.rule ∨ first.rule = second.rule ∧ first.terminal < second.terminal

theorem Place.before_or_eq_or_after (first second : Place) :
    first.Before second ∨ first = second ∨ second.Before first := by
  obtain ⟨rule, terminal⟩ := first
  obtain ⟨otherRule, otherTerminal⟩ := second
  simp only [Before, Place.mk.injEq]
  omega

variable {T N : Type}

structure Claim.Clashes (first second : Claim T N) : Prop where
  lhs : first.rule.lhs = second.rule.lhs
  terminal : first.terminal = second.terminal
  apart : first.rule.index ≠ second.rule.index

namespace Grammar

structure CallsAt (grammar : Grammar T N) (place : Place) (claim : Claim T N) : Prop where
  rule_at : grammar.rules[place.rule]? = some claim.rule
  terminal_at : grammar.terminals[place.terminal]? = some claim.terminal
  predicts : grammar.Predicts claim.rule claim.terminal

/-- A claim meets the index of an earlier one in its cell, and no two claims before it clash. -/
structure IsFirstClash (grammar : Grammar T N) (place : Place) (claim : Claim T N) (index : Nat) :
    Prop where
  calls : grammar.CallsAt place claim
  met : ∃ earlier other, earlier.Before place ∧ grammar.CallsAt earlier other ∧
    other.Clashes claim ∧ other.rule.index = index
  quiet : ∀ first second claim other, first.Before place → second.Before place →
    grammar.CallsAt first claim → grammar.CallsAt second other → ¬ claim.Clashes other

variable {grammar : Grammar T N} {place : Place} {claim : Claim T N} {index : Nat}

theorem CallsAt.unique {other : Claim T N} (calls : grammar.CallsAt place claim)
    (callsToo : grammar.CallsAt place other) : claim = other := by
  obtain ⟨rule, terminal⟩ := claim
  obtain ⟨otherRule, otherTerminal⟩ := other
  rw [Claim.mk.injEq]
  exact ⟨Option.some.inj (calls.rule_at.symm.trans callsToo.rule_at),
    Option.some.inj (calls.terminal_at.symm.trans callsToo.terminal_at)⟩

namespace IsFirstClash

theorem not_before {later : Place} {other : Claim T N} {otherIndex : Nat}
    (first : grammar.IsFirstClash place claim index)
    (second : grammar.IsFirstClash later other otherIndex) : ¬ place.Before later := by
  intro before
  obtain ⟨earlier, met, ahead, calls, clashes, _⟩ := first.met
  have aheadToo : earlier.Before later := by
    simp only [Place.Before] at ahead before ⊢
    omega
  exact second.quiet _ _ _ _ aheadToo before calls first.calls clashes

theorem unique {otherPlace : Place} {other : Claim T N} {otherIndex : Nat}
    (first : grammar.IsFirstClash place claim index)
    (second : grammar.IsFirstClash otherPlace other otherIndex) :
    claim = other ∧ index = otherIndex := by
  have same : place = otherPlace := by
    rcases place.before_or_eq_or_after otherPlace with before | same | after
    · exact absurd before (first.not_before second)
    · exact same
    · exact absurd after (second.not_before first)
  subst same
  obtain rfl := first.calls.unique second.calls
  obtain ⟨_, met, ahead, calls, clashes, rfl⟩ := first.met
  obtain ⟨_, metToo, aheadToo, callsToo, clashesToo, rfl⟩ := second.met
  refine ⟨rfl, ?_⟩
  -- both indices are met in the cell of the claim, so they would clash if they differed
  by_contra apart
  exact first.quiet _ _ _ _ ahead aheadToo calls callsToo
    ⟨clashes.lhs.trans clashesToo.lhs.symm, clashes.terminal.trans clashesToo.terminal.symm, apart⟩

end IsFirstClash

end Grammar

variable [DecidableEq T] [DecidableEq N] {grammar : Grammar T N}

theorem Claim.mem_all_iff_callsAt {claim : Claim T N} :
    claim ∈ Claim.all grammar (Sets.ofGrammar grammar) ↔
      ∃ place, grammar.CallsAt place claim := by
  rw [Claim.mem_all, Sets.mem_lookaheads_iff_predicts]
  constructor
  · rintro ⟨listed, _, known, predicts⟩
    obtain ⟨rule, atRule⟩ := List.mem_iff_getElem?.mp listed
    obtain ⟨terminal, atTerminal⟩ := List.mem_iff_getElem?.mp known
    exact ⟨⟨rule, terminal⟩, atRule, atTerminal, predicts⟩
  · rintro ⟨place, calls⟩
    have known := List.mem_of_getElem? calls.terminal_at
    exact ⟨List.mem_of_getElem? calls.rule_at, known, known, calls.predicts⟩

theorem Claim.mem_ofRule_iff_predicts {rule : Rule T N} {claim : Claim T N} :
    claim ∈ Claim.ofRule grammar (Sets.ofGrammar grammar) rule ↔ claim.rule = rule ∧
      claim.terminal ∈ grammar.terminals ∧ grammar.Predicts rule claim.terminal := by
  rw [Claim.mem_ofRule, Sets.mem_lookaheads_iff_predicts, and_self_left]

theorem Claim.exists_place {early late : List (Claim T N)} {claim : Claim T N}
    (split : Claim.all grammar (Sets.ofGrammar grammar) = early ++ claim :: late) :
    ∃ place, grammar.CallsAt place claim ∧ ∀ other,
      other ∈ early ↔ ∃ earlier : Place, earlier.Before place ∧ grammar.CallsAt earlier other := by
  obtain ⟨front, rule, back, inner, outer, rules, own, rfl⟩ := exists_split_of_flatMap split
  have claimed : claim ∈ Claim.ofRule grammar (Sets.ofGrammar grammar) rule := by simp [own]
  obtain ⟨rfl, known, predicts⟩ := Claim.mem_ofRule_iff_predicts.mp claimed
  obtain ⟨before, after, terminals, rfl⟩ := Claim.ofRule_split own
  refine ⟨⟨front.length, before.length⟩, ⟨by simp [rules], by simp [terminals], predicts⟩, ?_⟩
  intro other
  rw [List.mem_append, List.mem_flatMap, Claim.mem_map_filter]
  constructor
  · rintro (⟨source, inFront, made⟩ | ⟨same, inBefore, held⟩)
    · obtain ⟨rfl, knownOther, predictsOther⟩ := Claim.mem_ofRule_iff_predicts.mp made
      obtain ⟨position, within, atRule⟩ := (mem_front_iff_getElem? rules).mp inFront
      obtain ⟨column, atColumn⟩ := List.mem_iff_getElem?.mp knownOther
      exact ⟨⟨position, column⟩, .inl within, atRule, atColumn, predictsOther⟩
    · obtain ⟨column, within, atColumn⟩ := (mem_front_iff_getElem? terminals).mp inBefore
      rw [← same, Sets.mem_lookaheads_iff_predicts] at held
      exact ⟨⟨front.length, column⟩, .inr ⟨rfl, within⟩, by simp [rules, same], atColumn, held.2⟩
  · rintro ⟨⟨position, column⟩, ahead, atRule, atColumn, predictsOther⟩
    have knownOther := List.mem_of_getElem? atColumn
    rcases ahead with within | ⟨here, within⟩
    · have inFront := (mem_front_iff_getElem? rules).mpr ⟨position, within, atRule⟩
      exact .inl ⟨other.rule, inFront,
        Claim.mem_ofRule_iff_predicts.mpr ⟨rfl, knownOther, predictsOther⟩⟩
    · obtain rfl : position = front.length := here
      have same : other.rule = claim.rule := by simpa [rules, eq_comm] using atRule
      have inBefore := (mem_front_iff_getElem? terminals).mpr ⟨column, within, atColumn⟩
      have held := Sets.mem_lookaheads_iff_predicts.mpr ⟨knownOther, predictsOther⟩
      exact .inr ⟨same, inBefore, same ▸ held⟩

omit [DecidableEq T] [DecidableEq N] in
def TableError.ofClash (rules : List (Rule T N)) (claim : Claim T N) (index : Nat) :
    TableError T N :=
  match rules[index]? with
  | some existing => .conflict ⟨claim.rule.lhs, claim.terminal, existing, claim.rule⟩
  | none => .strayIndex claim index

namespace TableError

variable {rules : List (Rule T N)} {claim : Claim T N} {index : Nat}

omit [DecidableEq T] [DecidableEq N] in
theorem ofClash_eq_conflict_iff {conflict : Conflict T N} :
    ofClash rules claim index = .conflict conflict ↔
      rules[index]? = some conflict.existing ∧ conflict.nonTerminal = conflict.candidate.lhs ∧
        claim = ⟨conflict.candidate, conflict.terminal⟩ := by
  obtain ⟨name, terminal, existing, candidate⟩ := conflict
  obtain ⟨rule, own⟩ := claim
  unfold ofClash
  cases rules[index]? with
  | none => simp
  | some found =>
      simp only [conflict.injEq, Conflict.mk.injEq, Option.some.injEq, Claim.mk.injEq]
      constructor
      · rintro ⟨rfl, rfl, rfl, rfl⟩
        exact ⟨rfl, rfl, rfl, rfl⟩
      · rintro ⟨rfl, rfl, rfl, rfl⟩
        exact ⟨rfl, rfl, rfl, rfl⟩

omit [DecidableEq T] [DecidableEq N] in
theorem ofClash_eq_strayIndex_iff {other : Claim T N} {stray : Nat} :
    ofClash rules claim index = .strayIndex other stray ↔
      rules.length ≤ index ∧ claim = other ∧ index = stray := by
  rw [← List.getElem?_eq_none_iff]
  unfold ofClash
  cases rules[index]? with
  | none => simp
  | some found => simp

omit [DecidableEq T] [DecidableEq N] in
theorem ofClash_ne_invalidGrammar (error : GrammarError N) :
    ofClash rules claim index ≠ .invalidGrammar error := by
  unfold ofClash
  cases rules[index]? with
  | none => simp
  | some found => simp

end TableError

theorem Filling.Step.error_eq_ofClash {rules : List (Rule T N)} {claim : Claim T N}
    {cells : List (Cell T N)} {error : TableError T N} (step : Step rules claim cells (.error error)) :
    ∃ index, Cell.indexAt? cells claim.rule.lhs claim.terminal = some index ∧
      index ≠ claim.rule.index ∧ error = .ofClash rules claim index := by
  cases step with
  | meets held apart found => exact ⟨_, held, apart, by rw [TableError.ofClash, found]⟩
  | strays held apart missing => exact ⟨_, held, apart, by rw [TableError.ofClash, missing]⟩

namespace Table

theorem exists_firstClash_of_error {error : TableError T N}
    (failed : ofGrammar grammar = .error error) :
    ∃ place claim index, grammar.IsFirstClash place claim index ∧
      error = .ofClash grammar.rules claim index := by
  obtain ⟨early, claim, late, cells, split, ran, step⟩ :=
    Filling.error_cases (ofGrammar_error_iff.mp failed)
  have agree : Filling.Agree early := Filling.outcome_ok_iff.mp ⟨cells, ran⟩
  obtain ⟨index, held, apart, reported⟩ := step.error_eq_ofClash
  obtain ⟨place, calls, early_iff⟩ := Claim.exists_place split
  refine ⟨place, claim, index, ⟨calls, ?_, ?_⟩, reported⟩
  · rcases (Filling.indexAt?_run ran).mp held with empty | ⟨met, made, lhs, terminal, rfl⟩
    · cases empty
    · obtain ⟨earlier, ahead, callsToo⟩ := (early_iff met).mp made
      exact ⟨earlier, met, ahead, callsToo, ⟨lhs, terminal, apart⟩, rfl⟩
  · intro first second one other ahead aheadToo callsOne callsOther clashes
    have made := (early_iff one).mpr ⟨first, ahead, callsOne⟩
    have madeToo := (early_iff other).mpr ⟨second, aheadToo, callsOther⟩
    exact clashes.apart (agree one made other madeToo clashes.lhs clashes.terminal)

theorem exists_table_iff_quiet : (∃ table, ofGrammar grammar = .ok table) ↔
    ∀ first second claim other, grammar.CallsAt first claim → grammar.CallsAt second other →
      ¬ claim.Clashes other := by
  rw [exists_ok_iff_agree]
  constructor
  · intro agree first second claim other calls callsToo clashes
    have made := Claim.mem_all_iff_callsAt.mpr ⟨first, calls⟩
    have madeToo := Claim.mem_all_iff_callsAt.mpr ⟨second, callsToo⟩
    exact clashes.apart (agree claim made other madeToo clashes.lhs clashes.terminal)
  · intro quiet claim made other madeToo lhs terminal
    obtain ⟨first, calls⟩ := Claim.mem_all_iff_callsAt.mp made
    obtain ⟨second, callsToo⟩ := Claim.mem_all_iff_callsAt.mp madeToo
    by_contra apart
    exact quiet first second claim other calls callsToo ⟨lhs, terminal, apart⟩

theorem error_iff_firstClash {error : TableError T N} :
    ofGrammar grammar = .error error ↔ ∃ place claim index,
      grammar.IsFirstClash place claim index ∧ error = .ofClash grammar.rules claim index := by
  constructor
  · exact exists_firstClash_of_error
  · rintro ⟨place, claim, index, isFirst, rfl⟩
    cases outcome : ofGrammar grammar with
    | ok table =>
        have quiet := exists_table_iff_quiet.mp ⟨table, outcome⟩
        obtain ⟨earlier, other, _, calls, clashes, _⟩ := isFirst.met
        exact absurd clashes (quiet earlier place other claim calls isFirst.calls)
    | error reported =>
        obtain ⟨_, _, _, isFirstToo, rfl⟩ := exists_firstClash_of_error outcome
        obtain ⟨rfl, rfl⟩ := isFirst.unique isFirstToo
        rfl

theorem error_conflict_iff {conflict : Conflict T N} :
    ofGrammar grammar = .error (.conflict conflict) ↔
      conflict.nonTerminal = conflict.candidate.lhs ∧ ∃ place index,
        grammar.IsFirstClash place ⟨conflict.candidate, conflict.terminal⟩ index ∧
          grammar.rules[index]? = some conflict.existing := by
  rw [error_iff_firstClash]
  constructor
  · rintro ⟨place, claim, index, isFirst, reported⟩
    obtain ⟨found, name, rfl⟩ := TableError.ofClash_eq_conflict_iff.mp reported.symm
    exact ⟨name, place, index, isFirst, found⟩
  · rintro ⟨name, place, index, isFirst, found⟩
    refine ⟨place, _, index, isFirst, ?_⟩
    exact (TableError.ofClash_eq_conflict_iff.mpr ⟨found, name, rfl⟩).symm

theorem error_strayIndex_iff {claim : Claim T N} {index : Nat} :
    ofGrammar grammar = .error (.strayIndex claim index) ↔
      (∃ place, grammar.IsFirstClash place claim index) ∧ grammar.rules.length ≤ index := by
  rw [error_iff_firstClash]
  constructor
  · rintro ⟨place, own, met, isFirst, reported⟩
    obtain ⟨outside, rfl, rfl⟩ := TableError.ofClash_eq_strayIndex_iff.mp reported.symm
    exact ⟨⟨place, isFirst⟩, outside⟩
  · rintro ⟨⟨place, isFirst⟩, outside⟩
    refine ⟨place, claim, index, isFirst, ?_⟩
    exact (TableError.ofClash_eq_strayIndex_iff.mpr ⟨outside, rfl, rfl⟩).symm

theorem ne_invalidGrammar (error : GrammarError N) :
    ofGrammar grammar ≠ .error (.invalidGrammar error) := by
  intro failed
  obtain ⟨_, _, _, _, reported⟩ := exists_firstClash_of_error failed
  exact TableError.ofClash_ne_invalidGrammar error reported.symm

theorem ne_strayIndex (within : ∀ rule ∈ grammar.rules, rule.index < grammar.rules.length)
    (claim : Claim T N) (index : Nat) : ofGrammar grammar ≠ .error (.strayIndex claim index) := by
  intro failed
  obtain ⟨⟨place, isFirst⟩, outside⟩ := error_strayIndex_iff.mp failed
  obtain ⟨_, met, _, calls, _, rfl⟩ := isFirst.met
  exact Nat.not_lt_of_le outside (within met.rule (List.mem_of_getElem? calls.rule_at))

/-- Any grammar has a table unless two of its claims clash. The first clash is reported, if there is
a rule at the index that is met. -/
theorem ofGrammar_clashes (grammar : Grammar T N) :
    ((∃ table, ofGrammar grammar = .ok table) ↔
      ∀ first second claim other, grammar.CallsAt first claim → grammar.CallsAt second other →
        ¬ claim.Clashes other) ∧
    (∀ conflict, ofGrammar grammar = .error (.conflict conflict) ↔
      conflict.nonTerminal = conflict.candidate.lhs ∧ ∃ place index,
        grammar.IsFirstClash place ⟨conflict.candidate, conflict.terminal⟩ index ∧
          grammar.rules[index]? = some conflict.existing) ∧
    (∀ claim index, ofGrammar grammar = .error (.strayIndex claim index) ↔
      (∃ place, grammar.IsFirstClash place claim index) ∧ grammar.rules.length ≤ index) ∧
    (∀ error, ofGrammar grammar ≠ .error (.invalidGrammar error)) ∧
    ((∀ rule ∈ grammar.rules, rule.index < grammar.rules.length) →
      ∀ claim index, ofGrammar grammar ≠ .error (.strayIndex claim index)) :=
  ⟨exists_table_iff_quiet, fun _ => error_conflict_iff, fun _ _ => error_strayIndex_iff,
    ne_invalidGrammar, ne_strayIndex⟩

end Table

def exchanged : Grammar Char Char where
  rules := [⟨1, 'S', [.terminal 'x']⟩, ⟨0, 'S', [.terminal 'x']⟩]
  start := 'S'
  terminals := ['x']
  nonTerminals := ['S']

theorem Table.ofGrammar_clashes_exchanged : ∃ conflict place index,
    ofGrammar exchanged = .error (.conflict conflict) ∧
      exchanged.IsFirstClash place ⟨conflict.candidate, conflict.terminal⟩ index ∧
        conflict.existing = conflict.candidate := by
  obtain ⟨conflict, failed, same⟩ : ∃ conflict,
      ofGrammar exchanged = .error (.conflict conflict) ∧
        conflict.existing = conflict.candidate := ⟨_, rfl, rfl⟩
  obtain ⟨_, conflicts_iff, _⟩ := ofGrammar_clashes exchanged
  obtain ⟨_, place, index, isFirst, _⟩ := (conflicts_iff conflict).mp failed
  exact ⟨conflict, place, index, failed, isFirst, same⟩

def strayed : Grammar Char Char where
  rules := [⟨99, 'S', [.terminal 'x']⟩, ⟨1, 'S', [.terminal 'x']⟩]
  start := 'S'
  terminals := ['x']
  nonTerminals := ['S']

/-- No rule has the index that is met, so no conflict can be reported. -/
theorem Table.ofGrammar_strayed : ∃ claim index,
    ofGrammar strayed = .error (.strayIndex claim index) ∧ strayed.rules[index]? = none :=
  ⟨_, _, rfl, rfl⟩

end Lookahead
