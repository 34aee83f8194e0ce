import Lookahead.Proofs.Conflict

/-!
# The conflict that is reported

Claims are made rule by rule, and for each rule in the order of the terminals (`Claim.all_split`). So
when a claim fails, those made before it are the claims of the earlier rules and those of its own
rule at earlier terminals, and they agree with each other. A conflict that is reported is therefore
the first there is, in the order of the rules and then of the terminals (`Conflict.IsFirst`), and no
two conflicts are the first (`Conflict.IsFirst.unique`).
-/

set_option autoImplicit false

namespace Lookahead

theorem exists_split_of_flatMap {α β : Type} {f : α → List β} {list : List α} {early late : List β}
    {item : β} (split : list.flatMap f = early ++ item :: late) :
    ∃ front element back before after, list = front ++ element :: back ∧
      f element = before ++ item :: after ∧ early = front.flatMap f ++ before := by
  induction list generalizing early with
  | nil => simp at split
  | cons first rest ih =>
      rw [List.flatMap_cons] at split
      rcases List.append_eq_append_iff.mp split with ⟨extra, rfl, later⟩ | ⟨extra, here, tail⟩
      · obtain ⟨front, element, back, before, after, rfl, parts, rfl⟩ := ih later
        exact ⟨first :: front, element, back, before, after, rfl, parts, by simp⟩
      · cases extra with
        | nil =>
            obtain ⟨front, element, back, before, after, rfl, parts, empty⟩ := @ih [] tail.symm
            refine ⟨first :: front, element, back, before, after, rfl, parts, ?_⟩
            rw [List.flatMap_cons, List.append_assoc, ← empty, here]
            simp
        | cons other extra =>
            obtain ⟨rfl, _⟩ := List.cons.inj tail
            exact ⟨[], first, rest, early, extra, rfl, here, rfl⟩

theorem eq_of_splits {α : Type} {before after otherBefore otherAfter : List α} {item other : α}
    (same : before ++ item :: after = otherBefore ++ other :: otherAfter)
    (apart : item ∉ otherBefore) (otherApart : other ∉ before) : item = other := by
  rcases List.append_eq_append_iff.mp same with ⟨extra, rfl, rest⟩ | ⟨extra, rfl, rest⟩
  · cases extra with
    | nil => exact (List.cons.inj rest).1
    | cons next extra =>
        obtain ⟨rfl, _⟩ := List.cons.inj rest
        exact absurd (by simp) apart
  · cases extra with
    | nil => exact (List.cons.inj rest).1.symm
    | cons next extra =>
        obtain ⟨rfl, _⟩ := List.cons.inj rest
        exact absurd (by simp) otherApart

theorem mem_front_iff_getElem? {α : Type} {list front back : List α} {item : α}
    (split : list = front ++ back) :
    item ∈ front ↔ ∃ position < front.length, list[position]? = some item := by
  rw [List.mem_iff_getElem?]
  constructor
  · rintro ⟨position, found⟩
    have within : position < front.length := (List.getElem?_eq_some_iff.mp found).1
    exact ⟨position, within, by rw [split, List.getElem?_append_left within, found]⟩
  · rintro ⟨position, within, found⟩
    rw [split, List.getElem?_append_left within] at found
    exact ⟨position, found⟩

variable {T N : Type} [DecidableEq T] [DecidableEq N] {grammar : Grammar T N}

def Grammar.TakenBefore (grammar : Grammar T N) (rule : Rule T N) (terminal : T) : Prop :=
  ∃ other ∈ grammar.rules, other.index < rule.index ∧ other.lhs = rule.lhs ∧
    terminal ∈ (Sets.ofGrammar grammar).lookaheads other

/-- The candidate is the first rule that shares a lookahead with an earlier rule of its left side,
the terminal is the first such lookahead, and the existing rule is the only earlier one that has it
too. -/
structure Conflict.IsFirst (grammar : Grammar T N) (conflict : Conflict T N) : Prop where
  existing_at : grammar.rules[conflict.existing.index]? = some conflict.existing
  candidate_at : grammar.rules[conflict.candidate.index]? = some conflict.candidate
  existing_lhs : conflict.existing.lhs = conflict.nonTerminal
  candidate_lhs : conflict.candidate.lhs = conflict.nonTerminal
  earlier : conflict.existing.index < conflict.candidate.index
  existing_claims : conflict.terminal ∈ (Sets.ofGrammar grammar).lookaheads conflict.existing
  candidate_claims : conflict.terminal ∈ (Sets.ofGrammar grammar).lookaheads conflict.candidate
  only : ∀ other ∈ grammar.rules, other.index < conflict.candidate.index →
    other.lhs = conflict.nonTerminal →
    conflict.terminal ∈ (Sets.ofGrammar grammar).lookaheads other → other = conflict.existing
  first_terminal : ∃ before after, grammar.terminals = before ++ conflict.terminal :: after ∧
    ∀ terminal ∈ before, terminal ∈ (Sets.ofGrammar grammar).lookaheads conflict.candidate →
      ¬ grammar.TakenBefore conflict.candidate terminal
  first_rule : ∀ rule ∈ grammar.rules, ∀ terminal ∈ (Sets.ofGrammar grammar).lookaheads rule,
    grammar.TakenBefore rule terminal → conflict.candidate.index ≤ rule.index

namespace Conflict.IsFirst

variable {first second : Conflict T N}

theorem taken (isFirst : first.IsFirst grammar) :
    grammar.TakenBefore first.candidate first.terminal :=
  ⟨first.existing, List.mem_of_getElem? isFirst.existing_at, isFirst.earlier,
    isFirst.existing_lhs.trans isFirst.candidate_lhs.symm, isFirst.existing_claims⟩

theorem candidate_le (isFirst : first.IsFirst grammar) (isFirstToo : second.IsFirst grammar) :
    first.candidate.index ≤ second.candidate.index :=
  isFirst.first_rule _ (List.mem_of_getElem? isFirstToo.candidate_at) _ isFirstToo.candidate_claims
    isFirstToo.taken

theorem unique (isFirst : first.IsFirst grammar) (isFirstToo : second.IsFirst grammar) :
    first = second := by
  obtain ⟨name, terminal, existing, candidate⟩ := first
  obtain ⟨otherName, otherTerminal, otherExisting, otherCandidate⟩ := second
  have sameRule : candidate = otherCandidate := by
    have sameIndex : candidate.index = otherCandidate.index :=
      Nat.le_antisymm (isFirst.candidate_le isFirstToo) (isFirstToo.candidate_le isFirst)
    have atIndex := isFirst.candidate_at
    rw [show Conflict.candidate _ = candidate from rfl, sameIndex, isFirstToo.candidate_at] at atIndex
    exact (Option.some.inj atIndex).symm
  subst sameRule
  obtain rfl : name = otherName := isFirst.candidate_lhs.symm.trans isFirstToo.candidate_lhs
  have sameTerminal : terminal = otherTerminal := by
    obtain ⟨before, after, list, free⟩ := isFirst.first_terminal
    obtain ⟨otherBefore, otherAfter, otherList, otherFree⟩ := isFirstToo.first_terminal
    apply eq_of_splits (list.symm.trans otherList)
    · exact fun inside => otherFree _ inside isFirst.candidate_claims isFirst.taken
    · exact fun inside => free _ inside isFirstToo.candidate_claims isFirstToo.taken
  subst sameTerminal
  have sameExisting : existing = otherExisting :=
    isFirstToo.only _ (List.mem_of_getElem? isFirst.existing_at) isFirst.earlier
      isFirst.existing_lhs isFirst.existing_claims
  rw [sameExisting]

end Conflict.IsFirst

theorem Sets.mem_terminals_of_mem_lookaheads {rule : Rule T N} {terminal : T}
    (held : terminal ∈ (Sets.ofGrammar grammar).lookaheads rule) : terminal ∈ grammar.terminals :=
  (Sets.mem_lookaheads_iff_predicts.mp held).1

theorem Claim.mem_map_filter {sets : Sets T N} {rule : Rule T N} {terminals : List T}
    {claim : Claim T N} :
    claim ∈ (terminals.filter (· ∈ sets.lookaheads rule)).map (fun terminal => ⟨rule, terminal⟩) ↔
      claim.rule = rule ∧ claim.terminal ∈ terminals ∧ claim.terminal ∈ sets.lookaheads rule := by
  obtain ⟨own, terminal⟩ := claim
  simp only [List.mem_map, List.mem_filter, decide_eq_true_eq, Claim.mk.injEq]
  constructor
  · rintro ⟨_, held, rfl, rfl⟩
    exact ⟨rfl, held⟩
  · rintro ⟨rfl, held⟩
    exact ⟨terminal, held, rfl, rfl⟩

theorem Claim.mem_ofRule {sets : Sets T N} {rule : Rule T N} {claim : Claim T N} :
    claim ∈ Claim.ofRule grammar sets rule ↔ claim.rule = rule ∧
      claim.terminal ∈ grammar.terminals ∧ claim.terminal ∈ sets.lookaheads rule :=
  Claim.mem_map_filter

theorem Claim.ofRule_split {sets : Sets T N} {rule : Rule T N} {early late : List (Claim T N)}
    {claim : Claim T N} (split : Claim.ofRule grammar sets rule = early ++ claim :: late) :
    ∃ before after, grammar.terminals = before ++ claim.terminal :: after ∧
      early = (before.filter (· ∈ sets.lookaheads rule)).map fun terminal => ⟨rule, terminal⟩ := by
  rw [Claim.ofRule, List.map_eq_append_iff] at split
  obtain ⟨_, _, kept, rfl, ahead⟩ := split
  obtain ⟨terminal, left, rfl, rfl, _⟩ := List.map_eq_cons_iff.mp ahead
  obtain ⟨before, rest, listed, rfl, keptLater⟩ := List.filter_eq_append_iff.mp kept
  obtain ⟨skipped, after, rfl, free, _, _⟩ := List.filter_eq_cons_iff.mp keptLater
  refine ⟨before ++ skipped, after, by simp [listed], ?_⟩
  -- the terminals passed over make no claims
  have none : skipped.filter (· ∈ sets.lookaheads rule) = [] := List.filter_eq_nil_iff.mpr free
  rw [List.filter_append, none, List.append_nil]

namespace Table

theorem not_built_of_isFirst {conflict : Conflict T N} (isFirst : conflict.IsFirst grammar)
    (table : Table T N) : ofGrammar grammar ≠ .ok table := by
  intro built
  obtain ⟨cells, filled, _⟩ := ofGrammar_ok_iff.mp built
  have agree := Filling.outcome_ok_iff.mp ⟨cells, filled⟩
  have claimed : ∀ rule, grammar.rules[rule.index]? = some rule →
      conflict.terminal ∈ (Sets.ofGrammar grammar).lookaheads rule →
        ⟨rule, conflict.terminal⟩ ∈ Claim.all grammar (Sets.ofGrammar grammar) :=
    fun rule found held => Claim.mem_all.mpr
      ⟨List.mem_of_getElem? found, Sets.mem_terminals_of_mem_lookaheads held, held⟩
  have same : conflict.existing.index = conflict.candidate.index :=
    agree _ (claimed _ isFirst.existing_at isFirst.existing_claims)
      _ (claimed _ isFirst.candidate_at isFirst.candidate_claims)
      (isFirst.existing_lhs.trans isFirst.candidate_lhs.symm) rfl
  exact absurd same (Nat.ne_of_lt isFirst.earlier)

end Table

section Accepted

variable {rules : List (Rule T N)} {start : N} (accepted : Grammar.ofRules rules start = .ok grammar)

include accepted

theorem Grammar.mem_front_iff {front back : List (Rule T N)} {rule other : Rule T N}
    (split : grammar.rules = front ++ rule :: back) (listed : other ∈ grammar.rules) :
    other ∈ front ↔ other.index < rule.index := by
  have numbered : ∀ {position : Nat} {rule : Rule T N},
      grammar.rules[position]? = some rule → rule.index = position :=
    Grammar.index_of_ofRules accepted
  have place : rule.index = front.length := numbered (by simp [split])
  rw [mem_front_iff_getElem? split, place]
  constructor
  · rintro ⟨position, within, found⟩
    rwa [numbered found]
  · intro before
    exact ⟨other.index, before, Rule.getElem?_index numbered listed⟩

theorem Claim.all_split {early late : List (Claim T N)} {claim : Claim T N}
    (split : Claim.all grammar (Sets.ofGrammar grammar) = early ++ claim :: late) :
    ∃ before after, grammar.terminals = before ++ claim.terminal :: after ∧
      ∀ rule ∈ grammar.rules, ∀ terminal ∈ (Sets.ofGrammar grammar).lookaheads rule,
        ⟨rule, terminal⟩ ∈ early ↔
          rule.index < claim.rule.index ∨ rule = claim.rule ∧ terminal ∈ before := by
  obtain ⟨front, rule, back, inner, outer, parts, own, rfl⟩ := exists_split_of_flatMap split
  have ownRule : claim.rule = rule := (Claim.mem_ofRule.mp (by rw [own]; simp)).1
  obtain ⟨before, after, terminals, rfl⟩ := Claim.ofRule_split own
  refine ⟨before, after, terminals, ?_⟩
  intro other listed terminal held
  have known := Sets.mem_terminals_of_mem_lookaheads held
  rw [ownRule, ← Grammar.mem_front_iff accepted parts listed, List.mem_append]
  apply or_congr
  · rw [List.mem_flatMap]
    constructor
    · rintro ⟨source, inFront, made⟩
      obtain ⟨rfl, _⟩ := Claim.mem_ofRule.mp made
      exact inFront
    · intro inFront
      exact ⟨other, inFront, Claim.mem_ofRule.mpr ⟨rfl, known, held⟩⟩
  · rw [Claim.mem_map_filter]
    constructor
    · rintro ⟨rfl, inside, _⟩
      exact ⟨rfl, inside⟩
    · rintro ⟨rfl, inside⟩
      exact ⟨rfl, inside, held⟩

namespace Table

theorem isFirst_of_error {error : TableError T N} (failed : ofGrammar grammar = .error error) :
    ∃ conflict, error = .conflict conflict ∧ conflict.IsFirst grammar := by
  have rule_at : ∀ rule ∈ grammar.rules, grammar.rules[rule.index]? = some rule :=
    fun rule => Rule.getElem?_index (Grammar.index_of_ofRules accepted)
  obtain ⟨early, claim, late, cells, split, ran, step⟩ :=
    Filling.error_cases (ofGrammar_error_iff.mp failed)
  have agree : Filling.Agree early := Filling.outcome_ok_iff.mp ⟨cells, ran⟩
  obtain ⟨before, after, terminals, made_iff⟩ := Claim.all_split accepted split
  obtain ⟨index, held, apart, reported⟩ := step.meets_index
  rcases (Filling.indexAt?_run ran).mp held with empty | ⟨met, made, sameName, sameTerminal, rfl⟩
  · cases empty
  have claimed : claim ∈ Claim.all grammar (Sets.ofGrammar grammar) := by simp [split]
  have claimedMet : met ∈ Claim.all grammar (Sets.ofGrammar grammar) := by simp [split, made]
  obtain ⟨listed, _, claims⟩ := Claim.mem_all.mp claimed
  obtain ⟨listedMet, _, claimsMet⟩ := Claim.mem_all.mp claimedMet
  have earlier : met.rule.index < claim.rule.index := by
    rcases (made_iff _ listedMet _ claimsMet).mp made with ahead | ⟨own, _⟩
    · exact ahead
    · exact absurd (congrArg Rule.index own) apart
  -- the claims so far agree, so an earlier rule shares no lookahead with a rule that has made its claim
  have untaken : ∀ rule ∈ grammar.rules, ∀ terminal ∈ (Sets.ofGrammar grammar).lookaheads rule,
      rule.index < claim.rule.index ∨ rule = claim.rule ∧ terminal ∈ before →
        ¬ grammar.TakenBefore rule terminal := by
    rintro rule listedRule terminal claimsRule place ⟨other, listedOther, less, name, claimsOther⟩
    have madeRule := (made_iff rule listedRule terminal claimsRule).mpr place
    have lessToo : other.index < claim.rule.index := by
      rcases place with ahead | ⟨rfl, _⟩ <;> omega
    have madeOther := (made_iff other listedOther terminal claimsOther).mpr (.inl lessToo)
    have same : other.index = rule.index := agree _ madeOther _ madeRule name rfl
    omega
  refine ⟨_, reported met.rule (rule_at _ listedMet), ?_⟩
  exact {
    existing_at := rule_at _ listedMet
    candidate_at := rule_at _ listed
    existing_lhs := sameName
    candidate_lhs := rfl
    earlier := earlier
    existing_claims := sameTerminal ▸ claimsMet
    candidate_claims := claims
    only := by
      intro other listedOther less name claimsOther
      have madeOther := (made_iff other listedOther _ claimsOther).mpr (.inl less)
      have same : other.index = met.rule.index :=
        agree _ madeOther _ made (name.trans sameName.symm) sameTerminal.symm
      have atIndex := rule_at other listedOther
      rw [same, rule_at _ listedMet] at atIndex
      exact (Option.some.inj atIndex).symm
    first_terminal := ⟨before, after, terminals, fun terminal inside claimsToo =>
      untaken _ listed terminal claimsToo (.inr ⟨rfl, inside⟩)⟩
    first_rule := by
      intro rule listedRule terminal claimsRule taken
      apply Nat.le_of_not_lt
      intro less
      exact untaken rule listedRule terminal claimsRule (.inl less) taken }

/-- While the cells are filled, each holds the index of a rule of its left side that has its terminal
among the lookaheads. -/
theorem rule_at_of_filled {claims : List (Claim T N)} {cells : List (Cell T N)}
    (begins : claims <+: Claim.all grammar (Sets.ofGrammar grammar))
    (filled : (Filling.run grammar.rules claims []).outcome = .ok cells) {name : N} {terminal : T}
    {index : Nat} (held : Cell.indexAt? cells name terminal = some index) :
    ∃ rule, grammar.rules[index]? = some rule ∧ rule.lhs = name ∧
      terminal ∈ (Sets.ofGrammar grammar).lookaheads rule := by
  rcases (Filling.indexAt?_run filled).mp held with empty | ⟨claim, made, rfl, rfl, rfl⟩
  · cases empty
  · obtain ⟨listed, _, claims⟩ := Claim.mem_all.mp (begins.subset made)
    exact ⟨claim.rule, Rule.getElem?_index (Grammar.index_of_ofRules accepted) listed, rfl, claims⟩

end Table

end Accepted

namespace Table

/-- What is reported is the first conflict. At all times before, the index in a filled cell leads to
the rule that has claimed it. -/
theorem error_iff_isFirst {rules : List (Rule T N)} {start : N}
    (accepted : Grammar.ofRules rules start = .ok grammar) :
    (∀ error, ofGrammar grammar = .error error ↔
      ∃ conflict, error = .conflict conflict ∧ conflict.IsFirst grammar) ∧
    ∀ claims cells, claims <+: Claim.all grammar (Sets.ofGrammar grammar) →
      (Filling.run grammar.rules claims []).outcome = .ok cells →
      ∀ name terminal index, Cell.indexAt? cells name terminal = some index →
        ∃ rule, grammar.rules[index]? = some rule ∧ rule.lhs = name ∧
          terminal ∈ (Sets.ofGrammar grammar).lookaheads rule := by
  constructor
  · intro error
    constructor
    · exact isFirst_of_error accepted
    · rintro ⟨conflict, rfl, isFirst⟩
      cases outcome : ofGrammar grammar with
      | ok table => exact absurd outcome (not_built_of_isFirst isFirst table)
      | error other =>
          obtain ⟨reported, rfl, isFirstToo⟩ := isFirst_of_error accepted outcome
          rw [isFirst.unique isFirstToo]
  · intro claims cells begins filled name terminal index held
    exact rule_at_of_filled accepted begins filled held

end Table

/-- The rule `A → C` meets two earlier rules, and the two rules of `B` are a later conflict. -/
def contested : List (Rule Char Char) :=
  [⟨0, 'S', [.nonTerminal 'A', .nonTerminal 'B']⟩, ⟨1, 'A', [.terminal 'b']⟩,
    ⟨2, 'A', [.terminal 'a']⟩, ⟨3, 'B', [.terminal 'a']⟩, ⟨4, 'A', [.nonTerminal 'C']⟩,
    ⟨5, 'B', [.terminal 'a', .terminal 'b']⟩, ⟨6, 'C', [.terminal 'a']⟩,
    ⟨7, 'C', [.terminal 'b', .terminal 'a']⟩]

theorem Table.error_iff_isFirst_contested : ∃ grammar conflict,
    Grammar.ofRules contested 'S' = .ok grammar ∧
      ofGrammar grammar = .error (.conflict conflict) ∧ conflict.IsFirst grammar ∧
      (conflict.terminal, conflict.existing.index, conflict.candidate.index) = ('b', 1, 4) ∧
      ∃ cells, (Filling.run grammar.rules
          ((Claim.all grammar (Sets.ofGrammar grammar)).take 5) []).outcome = .ok cells ∧
        Cell.indexAt? cells 'B' 'a' = some 3 ∧
        ∃ rule, grammar.rules[3]? = some rule ∧ rule.lhs = 'B' ∧
          'a' ∈ (Sets.ofGrammar grammar).lookaheads rule := by
  obtain ⟨grammar, conflict, accepted, failed, parts⟩ : ∃ grammar conflict,
      Grammar.ofRules contested 'S' = .ok grammar ∧
        ofGrammar grammar = .error (.conflict conflict) ∧
        (conflict.terminal, conflict.existing.index, conflict.candidate.index) = ('b', 1, 4) :=
    ⟨_, _, rfl, rfl, rfl⟩
  obtain ⟨cells, filled, held⟩ : ∃ cells, (Filling.run grammar.rules
      ((Claim.all grammar (Sets.ofGrammar grammar)).take 5) []).outcome = .ok cells ∧
        Cell.indexAt? cells 'B' 'a' = some 3 := by
    cases accepted
    exact ⟨_, rfl, rfl⟩
  obtain ⟨error_iff, inRange⟩ := error_iff_isFirst accepted
  obtain ⟨reported, same, isFirst⟩ := (error_iff _).mp failed
  cases same
  refine ⟨grammar, conflict, accepted, failed, isFirst, parts, cells, filled, held, ?_⟩
  exact inRange _ cells (List.take_prefix _ _) filled _ _ _ held

end Lookahead
