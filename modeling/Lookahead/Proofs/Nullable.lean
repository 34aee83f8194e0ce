import Lookahead.Proofs.Derivation
import Lookahead.Sets.Basic

/-!
# The nullable non terminals are those that derive the empty string

A pass adds the left side of every rule whose right side is nullable so far, and a left side is
added only for that. So the passes end in a set that is closed under the rules and holds nothing
without a derivation. The main statement is `isNullableSequence_iff`, for every grammar there is.
-/

set_option autoImplicit false

namespace Lookahead

variable {T N : Type} [DecidableEq N] {grammar : Grammar T N}

namespace Nullable

omit [DecidableEq N] in
def Derivable (grammar : Grammar T N) (nullable : List N) : Prop :=
  ∀ name ∈ nullable, grammar.Yields [.nonTerminal name] []

theorem grown_stepRule (state : List N × Bool) (rule : Rule T N) :
    Grown (· ∈ state.1) (· ∈ (stepRule state rule).1) state.2 (stepRule state rule).2 := by
  unfold stepRule
  by_cases known : rule.lhs ∈ state.1
  · rw [if_pos known]
    exact .refl _ _
  · rw [if_neg known]
    split
    · refine ⟨fun name inside => List.mem_cons_of_mem _ inside, ?_⟩
      simp only [true_iff]
      exact .inr ⟨rule.lhs, List.mem_cons_self, known⟩
    · exact .refl _ _

theorem grown_pass (rules : List (Rule T N)) (nullable : List N) :
    Grown (· ∈ nullable) (· ∈ (pass rules nullable).1) false (pass rules nullable).2 :=
  Grown.foldl (fun state name => name ∈ state.1) Prod.snd grown_stepRule rules (nullable, false)

theorem all_isNullable_iff_names {nullable : List N} {symbols : List (Symbol T N)} :
    symbols.all (Symbol.isNullable nullable) = true ↔
      ∀ symbol ∈ symbols, ∃ other, symbol = .nonTerminal other ∧ other ∈ nullable := by
  rw [List.all_eq_true]
  refine forall₂_congr fun symbol _ => ?_
  cases symbol with
  | terminal name => simp [Symbol.isNullable]
  | nonTerminal name => simp [Symbol.isNullable]

theorem all_isNullable_mono {smaller larger : List N} {symbols : List (Symbol T N)}
    (within : ∀ name ∈ smaller, name ∈ larger)
    (nullable : symbols.all (Symbol.isNullable smaller) = true) :
    symbols.all (Symbol.isNullable larger) = true := by
  rw [all_isNullable_iff_names] at nullable ⊢
  intro symbol inside
  obtain ⟨name, own, held⟩ := nullable symbol inside
  exact ⟨name, own, within name held⟩

theorem lhs_mem_pass {rules : List (Rule T N)} {rule : Rule T N} {nullable : List N}
    (listed : rule ∈ rules) (side : rule.rhs.all (Symbol.isNullable nullable) = true) :
    rule.lhs ∈ (pass rules nullable).1 := by
  refine Grown.held_foldl (fun state name => name ∈ state.1) Prod.snd grown_stepRule listed
    fun later within => ?_
  by_cases known : rule.lhs ∈ later.1
  · exact (grown_stepRule later rule).within _ known
  · have sideNow := all_isNullable_mono within side
    simp [stepRule, known, sideNow]

omit [DecidableEq N] in
def Calls (rules : List (Rule T N)) (held : N → Prop) (name : N) : Prop :=
  ∃ rule ∈ rules, rule.lhs = name ∧
    ∀ symbol ∈ rule.rhs, ∃ other, symbol = .nonTerminal other ∧ held other

omit [DecidableEq N] in
theorem Calls.mono {rules : List (Rule T N)} {smaller larger : N → Prop} {name : N}
    (called : Calls rules smaller name) (within : ∀ other, smaller other → larger other) :
    Calls rules larger name := by
  obtain ⟨rule, listed, left, side⟩ := called
  refine ⟨rule, listed, left, fun symbol inside => ?_⟩
  obtain ⟨other, own, held⟩ := side symbol inside
  exact ⟨other, own, within other held⟩

theorem closed_pass {rules : List (Rule T N)} {closed : N → Prop}
    (stable : ∀ name, Calls rules closed name → closed name) {nullable : List N}
    (within : ∀ name ∈ nullable, closed name) : ∀ name ∈ (pass rules nullable).1, closed name := by
  refine foldl_stays (fun state name => name ∈ state.1) (fun state rule listed held => ?_)
    (nullable, false) within
  unfold stepRule
  split
  · exact held
  · split
    · rename_i side
      intro name inside
      rcases List.mem_cons.mp inside with rfl | inside
      · have called : Calls rules (· ∈ state.1) rule.lhs :=
          ⟨rule, listed, rfl, all_isNullable_iff_names.mp side⟩
        exact stable _ (called.mono held)
      · exact held name inside
    · exact held

omit [DecidableEq N] in
theorem yields_nil_of_names {symbols : List (Symbol T N)}
    (names : ∀ symbol ∈ symbols, ∃ name, symbol = .nonTerminal name ∧
      grammar.Yields [.nonTerminal name] []) : grammar.Yields symbols [] := by
  induction symbols with
  | nil => exact .nil
  | cons symbol symbols ih =>
      rw [List.forall_mem_cons] at names
      obtain ⟨⟨name, rfl, erased⟩, later⟩ := names
      exact erased.append (ih later)

theorem yields_nil_of_all {nullable : List N} (sound : Derivable grammar nullable)
    {symbols : List (Symbol T N)} (all : symbols.all (Symbol.isNullable nullable) = true) :
    grammar.Yields symbols [] := by
  apply yields_nil_of_names
  intro symbol inside
  obtain ⟨name, own, held⟩ := all_isNullable_iff_names.mp all symbol inside
  exact ⟨name, own, sound name held⟩

theorem derivable_pass {nullable : List N} (sound : Derivable grammar nullable) :
    Derivable grammar (pass grammar.rules nullable).1 := by
  apply closed_pass _ sound
  rintro name ⟨rule, listed, rfl, side⟩
  exact .of_rule listed (yields_nil_of_names side)

theorem all_of_yields_nil {nullable : List N}
    (closed : ∀ rule ∈ grammar.rules, rule.rhs.all (Symbol.isNullable nullable) = true →
      rule.lhs ∈ nullable)
    {symbols form : List (Symbol T N)} (yields : grammar.Yields symbols form) (empty : form = []) :
    symbols.all (Symbol.isNullable nullable) = true := by
  induction yields with
  | nil => rfl
  | keep => cases empty
  | expand listed _ _ ihSide ih =>
      obtain ⟨rfl, rfl⟩ := List.append_eq_nil_iff.mp empty
      have held := closed _ listed (ihSide rfl)
      simp [Symbol.isNullable, held, ih rfl]

theorem growing_pass (grammar : Grammar T N) :
    Growing (pass grammar.rules) (fun nullable name => name ∈ nullable) (Derivable grammar)
      (grammar.rules.map Rule.lhs) where
  kept := fun _ => derivable_pass
  grown := grown_pass grammar.rules
  bounded := by
    intro nullable name sound inside
    obtain ⟨rule, listed, rfl, _⟩ := (sound name inside).exists_rule_of_nil
    exact List.mem_map_of_mem listed

theorem all_isNullable_iff {symbols : List (Symbol T N)} :
    symbols.all (Symbol.isNullable (compute grammar).1) = true ↔ grammar.Yields symbols [] := by
  obtain ⟨last, sound, result, settled⟩ :=
    (growing_pass grammar).settled grammar.rules.length []
    (fun _ inside => by cases inside) (by simp)
  change (compute grammar).1 = (pass grammar.rules last).1 at result
  rw [result]
  -- the last pass added nothing, so a side that is nullable after it was so before
  constructor
  · exact yields_nil_of_all (derivable_pass sound)
  · intro yields
    refine all_of_yields_nil (fun rule listed side => ?_) yields rfl
    exact lhs_mem_pass listed (all_isNullable_mono settled side)

theorem isNullable_iff {symbol : Symbol T N} :
    symbol.isNullable (compute grammar).1 = true ↔ grammar.Yields [symbol] [] := by
  have singleton : ([symbol].all (Symbol.isNullable (compute grammar).1) = true) ↔ _ :=
    all_isNullable_iff
  simpa using singleton

end Nullable

namespace Sets

variable [DecidableEq T]

theorem isNullableSequence_iff {symbols : List (Symbol T N)} :
    (Sets.ofGrammar grammar).isNullableSequence symbols = true ↔ grammar.Yields symbols [] :=
  Nullable.all_isNullable_iff

theorem mem_nullable_iff {name : N} :
    name ∈ (Sets.ofGrammar grammar).nullable ↔ grammar.Yields [.nonTerminal name] [] := by
  have held : Symbol.isNullable (T := T) (Sets.ofGrammar grammar).nullable (.nonTerminal name) = true ↔
      grammar.Yields [.nonTerminal name] [] := Nullable.isNullable_iff
  simpa only [Symbol.isNullable, decide_eq_true_eq] using held

/-- A non terminal is in the nullable set, and a sequence counts as nullable, exactly if it derives
the empty string. -/
theorem nullable_exact (grammar : Grammar T N) :
    (∀ name, name ∈ (Sets.ofGrammar grammar).nullable ↔
        grammar.Derives [.nonTerminal name] []) ∧
      (∀ symbols, (Sets.ofGrammar grammar).isNullableSequence symbols = true ↔
        grammar.Derives symbols []) ∧
      ∀ symbols, (Sets.ofGrammar grammar).isNullableSequence symbols = true →
        ∀ symbol ∈ symbols, ∃ rule ∈ grammar.rules, symbol = .nonTerminal rule.lhs := by
  simp only [Grammar.derives_iff_yields]
  refine ⟨fun name => mem_nullable_iff, fun symbols => isNullableSequence_iff, ?_⟩
  intro symbols nullable symbol inside
  have yields := isNullableSequence_iff.mp nullable
  exact yields.exists_rule_of_mem inside

end Sets

/-- A grammar that no list of rules gives: an index is shared, the symbol lists have gaps and a
repetition, and `U` has no rule. -/
def unlisted : Grammar Char Char where
  rules := [⟨0, 'S', [.nonTerminal 'A', .terminal 'b', .nonTerminal 'U']⟩,
    ⟨0, 'A', [.nonTerminal 'B', .terminal 'x']⟩, ⟨0, 'A', [.nonTerminal 'B']⟩, ⟨0, 'B', []⟩]
  start := 'S'
  terminals := ['b', 'b']
  nonTerminals := ['S']

theorem Sets.nullable_exact_unlisted :
    'A' ∈ (Sets.ofGrammar unlisted).nullable ∧ 'U' ∉ (Sets.ofGrammar unlisted).nullable ∧
      (Sets.ofGrammar unlisted).isNullableSequence [.nonTerminal 'A', .nonTerminal 'B'] = true ∧
      unlisted.Derives [.nonTerminal 'A', .nonTerminal 'B'] [] ∧
      ¬ unlisted.Derives [.nonTerminal 'U'] [] ∧
      ∃ rule ∈ unlisted.rules, (.nonTerminal 'B' : Symbol Char Char) = .nonTerminal rule.lhs := by
  have inside : 'A' ∈ (Sets.ofGrammar unlisted).nullable := by decide
  have outside : 'U' ∉ (Sets.ofGrammar unlisted).nullable := by decide
  have sequence : (Sets.ofGrammar unlisted).isNullableSequence
      [.nonTerminal 'A', .nonTerminal 'B'] = true := by decide
  obtain ⟨names, sequences, defined⟩ := nullable_exact unlisted
  refine ⟨inside, outside, sequence, (sequences _).mp sequence, ?_, ?_⟩
  · exact fun derives => outside ((names 'U').mpr derives)
  · exact defined _ sequence (.nonTerminal 'B') (by decide)

end Lookahead
