import Lookahead.Proofs.Closed
import Lookahead.Proofs.Follow
import Mathlib.Order.Monotone.Basic

/-!
# How many passes the sets take

The rules call for elements of a set, given those that it has: an operator on sets that is monotone. A
pass adds at least what the operator calls for in one round. Since it sees what it has added itself it
may be ahead of the rounds, but it never leaves a set that is closed under the operator.

A round that adds nothing is the last that could add anything. So the rounds end after as many as
there are places (`level_closed`), and passes after one more at most (`Settles.count_le_of_empty`). For FIRST and
FOLLOW a place is a non terminal: no round mixes two terminals, so each terminal has an operator of
its own, and the number of terminals does not matter (`Sets.passes_linear`).
-/

set_option autoImplicit false

namespace Lookahead

/-! ## Rounds of a monotone operator -/

section Levels

variable {Item : Type} {operator : (Item → Prop) → Item → Prop}

/-- What an operator on sets reaches from the empty set in a number of rounds. -/
def level (operator : (Item → Prop) → Item → Prop) : Nat → Item → Prop
  | 0 => fun _ => False
  | rounds + 1 => operator (level operator rounds)

theorem level_le_succ (mono : Monotone operator) (rounds : Nat) :
    level operator rounds ≤ level operator (rounds + 1) := by
  induction rounds with
  | zero => exact fun _ absent => absent.elim
  | succ rounds ih => exact mono ih

theorem level_grows (mono : Monotone operator) [∀ rounds, DecidablePred (level operator rounds)]
    {places : List Item} (within : ∀ held item, operator held item → item ∈ places) (rounds : Nat) :
    level operator (rounds + 1) ≤ level operator rounds ∨
      rounds ≤ places.countP (fun place => level operator rounds place) := by
  induction rounds with
  | zero => exact .inr (Nat.zero_le _)
  | succ rounds ih =>
      by_cases stable : level operator (rounds + 1) ≤ level operator rounds
      · exact .inl (mono stable)
      · right
        have grown : ∃ item, level operator (rounds + 1) item ∧ ¬ level operator rounds item := by
          by_contra absent
          apply stable
          intro item inside
          by_contra outside
          exact absent ⟨item, inside, outside⟩
        obtain ⟨item, inside, outside⟩ := grown
        have more : places.countP (fun place => level operator rounds place) <
            places.countP (fun place => level operator (rounds + 1) place) := by
          apply countP_lt_countP _ (within _ item inside)
          · simpa using outside
          · simpa using inside
          · intro place held
            simp only [decide_eq_true_eq] at held ⊢
            exact level_le_succ mono rounds place held
        have before : rounds ≤ places.countP (fun place => level operator rounds place) :=
          ih.resolve_left stable
        omega

/-- After as many rounds as there are places, no round adds anything. -/
theorem level_closed (mono : Monotone operator) {places : List Item}
    (within : ∀ held item, operator held item → item ∈ places) :
    operator (level operator places.length) ≤ level operator places.length := by
  classical
  rcases level_grows mono within places.length with stable | full
  · exact stable
  · intro item inside
    have all : places.countP (fun place => level operator places.length place) = places.length :=
      Nat.le_antisymm List.countP_le_length full
    rw [List.countP_eq_length] at all
    simpa using all item (within _ item inside)

end Levels

/-! ## Passes and rounds -/

namespace Settles

variable {State Item : Type} {pass : State → State × Bool} {holds : State → Item → Prop}

theorem one_le {state final : State} {count : Nat} (settles : Settles pass state final count) :
    1 ≤ count := by
  cases settles with
  | last => exact Nat.le_refl 1
  | more => exact Nat.le_add_left 1 _

section Rounds

variable (reached : Nat → Item → Prop) (bound : Nat)
  (grown : ∀ state, Grown (holds state) (holds (pass state).1) false (pass state).2)
  (climbs : ∀ state rounds, (∀ item, reached rounds item → holds state item) →
    ∀ item, reached (rounds + 1) item → holds (pass state).1 item)
  (stays : ∀ state, (∀ item, holds state item → reached bound item) →
    ∀ item, holds (pass state).1 item → reached bound item)

include grown climbs stays

/-- Passes that are never behind the rounds, and hold no more than some round reaches, report a change
no more often than there are rounds up to it. -/
theorem add_count_le {state final : State} {count : Nat} (settles : Settles pass state final count)
    {rounds : Nat} (ahead : ∀ item, reached rounds item → holds state item)
    (within : ∀ item, holds state item → reached bound item) (early : rounds ≤ bound) :
    rounds + count ≤ bound + 1 := by
  induction settles generalizing rounds with
  | last unchanged => omega
  | @more state final count changed later ih =>
      obtain ⟨item, inside, outside⟩ : ∃ item, holds (pass state).1 item ∧ ¬ holds state item := by
        have noted := (grown state).noted.mp changed
        simpa using noted
      -- what has been added is reached in the end, so the last round is still to come
      have notLast : rounds ≠ bound := by
        rintro rfl
        exact outside (ahead item (stays state within item inside))
      have next := ih (climbs state rounds ahead) (stays state within) (by omega)
      omega

theorem count_le_of_empty {state final : State} {count : Nat}
    (settles : Settles pass state final count) (none : ∀ item, ¬ reached 0 item)
    (empty : ∀ item, ¬ holds state item) : count ≤ bound + 1 := by
  have bounded := settles.add_count_le reached bound grown climbs stays
    (fun item absent => absurd absent (none item)) (fun item held => absurd held (empty item))
    (Nat.zero_le bound)
  rwa [Nat.zero_add] at bounded

end Rounds

end Settles

variable {T N : Type} [DecidableEq T] [DecidableEq N]

omit [DecidableEq T] in
theorem Rows.count_le {pass : Rows T N → Rows T N × Bool} {calls : T → (N → Prop) → N → Prop}
    {names : List N} (mono : ∀ terminal, Monotone (calls terminal))
    (within : ∀ terminal held name, calls terminal held name → name ∈ names)
    (grown : ∀ rows, Grown rows.Has (pass rows).1.Has false (pass rows).2)
    (answers : ∀ (rows : Rows T N) terminal name,
      calls terminal (fun other => rows.Has (other, terminal)) name →
        (pass rows).1.Has (name, terminal))
    (stays : ∀ closed : N → T → Prop,
      (∀ terminal name, calls terminal (fun other => closed other terminal) name →
        closed name terminal) →
      ∀ rows : Rows T N, (∀ place, rows.Has place → closed place.1 place.2) →
        ∀ place, (pass rows).1.Has place → closed place.1 place.2)
    {start final : Rows T N} {count : Nat} (settles : Settles pass start final count)
    (empty : ∀ place, ¬ start.Has place) : count ≤ names.length + 1 := by
  have closed : ∀ terminal,
      calls terminal (level (calls terminal) names.length) ≤ level (calls terminal) names.length :=
    fun terminal => level_closed (mono terminal) (within terminal)
  refine settles.count_le_of_empty (fun rounds place => level (calls place.2) rounds place.1)
    names.length grown ?_ ?_ (fun place absent => absent) empty
  · rintro rows rounds ahead ⟨name, terminal⟩ next
    apply answers
    exact mono terminal (fun other held => ahead (other, terminal) held) name next
  · exact stays (fun name terminal => level (calls terminal) names.length name) closed

/-! ## The three sets -/

namespace Nullable

omit [DecidableEq T] in
theorem count_le {rules : List (Rule T N)} {names : List N}
    (defined : ∀ rule ∈ rules, rule.lhs ∈ names) {final : List N} {count : Nat}
    (settles : Settles (pass rules) [] final count) : count ≤ names.length + 1 := by
  have mono : Monotone (Calls rules) := fun _ _ within _ called => called.mono within
  have closed : Calls rules (level (Calls rules) names.length) ≤ level (Calls rules) names.length := by
    apply level_closed mono
    rintro held name ⟨rule, listed, rfl, -⟩
    exact defined rule listed
  refine settles.count_le_of_empty (level (Calls rules)) names.length (grown_pass rules) ?_
    (fun _ => closed_pass closed) (fun name absent => absent) (fun name absent => by cases absent)
  intro nullable rounds ahead name next
  obtain ⟨rule, listed, rfl, side⟩ := mono ahead name next
  exact lhs_mem_pass listed (all_isNullable_iff_names.mpr side)

end Nullable

namespace FirstSets

theorem count_le {rules : List (Rule T N)} {nullable : List N} {terminals : List T}
    {names : List N} (defined : ∀ rule ∈ rules, rule.lhs ∈ names) {start final : Rows T N}
    {count : Nat} (settles : Settles (pass rules nullable terminals) start final count)
    (empty : ∀ place, ¬ start.Has place) : count ≤ names.length + 1 := by
  refine Rows.count_le (fun _ _ _ within _ called => called.mono within) ?_
    (grown_pass rules nullable terminals) ?_ closed_pass settles empty
  · rintro terminal held name ⟨rule, listed, rfl, -⟩
    exact defined rule listed
  · intro rows terminal name called
    obtain ⟨rule, listed, rfl, inside⟩ := calls_iff.mp called
    exact mem_pass listed inside

end FirstSets

namespace Follow

theorem count_le {rules : List (Rule T N)} {nullable : List N} {first : FirstSets T N}
    {names : List N} (defined : ∀ rule ∈ rules, ∀ name, .nonTerminal name ∈ rule.rhs → name ∈ names)
    {start final : Rows T N} {count : Nat}
    (settles : Settles (pass rules nullable first) start final count)
    (empty : ∀ place, ¬ start.Has place) : count ≤ names.length + 1 := by
  refine Rows.count_le (fun _ _ _ within _ called => called.mono within) ?_
    (grown_pass rules nullable first) ?_ closed_pass settles empty
  · rintro terminal held name ⟨rule, listed, before, after, split, -⟩
    apply defined rule listed
    rw [split]
    exact List.mem_append_right before List.mem_cons_self
  · rintro rows terminal name ⟨rule, listed, before, after, split, next⟩
    exact mem_pass listed split next

end Follow

/-- A pass loses no item of any state, and where it reports no change it has added none. -/
def OnlyAdds {State Item : Type} (pass : State → State × Bool) (holds : State → Item → Prop) :
    Prop :=
  ∀ state, (∀ item, holds state item → holds (pass state).1 item) ∧
    ((pass state).2 = false → ∀ item, holds (pass state).1 item ↔ holds state item)

theorem OnlyAdds.of_grown {State Item : Type} {pass : State → State × Bool}
    {holds : State → Item → Prop}
    (grown : ∀ state, Grown (holds state) (holds (pass state).1) false (pass state).2) :
    OnlyAdds pass holds := by
  intro state
  have grows := grown state
  refine ⟨grows.within, fun unchanged item => ?_⟩
  rw [unchanged] at grows
  exact ⟨grows.eq_of_unchanged, grows.within item⟩

theorem FirstSets.onlyAdds_set {pass : Rows T N → Rows T N × Bool} (adds : OnlyAdds pass Rows.Has)
    (terminals : List T) :
    OnlyAdds pass fun rows (place : Symbol T N × T) => place.2 ∈ set ⟨terminals, rows⟩ place.1 := by
  intro rows
  obtain ⟨within, unchanged⟩ := adds rows
  constructor
  · rintro ⟨symbol, terminal⟩ inside
    rw [mem_set_iff] at inside ⊢
    refine inside.imp_right ?_
    rintro ⟨other, own, held⟩
    exact ⟨other, own, within (other, terminal) held⟩
  · rintro same ⟨symbol, terminal⟩
    simp only [mem_set_iff, unchanged same]

namespace Sets

def nullablePass (grammar : Grammar T N) : List N → List N × Bool :=
  Nullable.pass grammar.rules

def firstPass (grammar : Grammar T N) : Rows T N → Rows T N × Bool :=
  FirstSets.pass grammar.rules (ofGrammar grammar).nullable grammar.terminals

def followPass (grammar : Grammar T N) : Rows T N → Rows T N × Bool :=
  Follow.pass grammar.rules (ofGrammar grammar).nullable (ofGrammar grammar).first

theorem settles_nullable (grammar : Grammar T N) :
    Settles (nullablePass grammar) [] (ofGrammar grammar).nullable
      (ofGrammar grammar).passes.nullable := by
  apply (Nullable.growing_pass grammar).settles
  · intro name absent
    cases absent
  · rw [List.length_map]

theorem settles_first (grammar : Grammar T N) :
    Settles (firstPass grammar) (Rows.ofNames grammar.nonTerminals)
      (ofGrammar grammar).first.rows (ofGrammar grammar).passes.first := by
  apply (FirstSets.growing_pass grammar).settles
  · intro place held
    exact absurd held (Rows.not_has_ofNames _ place)
  · rw [List.length_product, List.length_map]

theorem settles_follow (grammar : Grammar T N) :
    Settles (followPass grammar) (Rows.ofNames grammar.nonTerminals) (ofGrammar grammar).follow
      (ofGrammar grammar).passes.follow := by
  apply (Follow.growing_pass grammar (FirstSets.rows_compute grammar).1).settles
  · intro place held
    exact absurd held (Rows.not_has_ofNames _ place)
  · rw [List.length_product]

/-- No pass loses anything, the last one adds nothing, and an accepted grammar takes at most one
pass more than it has non terminals. -/
theorem passes_linear (grammar : Grammar T N) :
    (Settles (nullablePass grammar) [] (ofGrammar grammar).nullable
        (ofGrammar grammar).passes.nullable ∧
      Settles (firstPass grammar) (Rows.ofNames grammar.nonTerminals)
        (ofGrammar grammar).first.rows (ofGrammar grammar).passes.first ∧
      Settles (followPass grammar) (Rows.ofNames grammar.nonTerminals) (ofGrammar grammar).follow
        (ofGrammar grammar).passes.follow) ∧
    (OnlyAdds (nullablePass grammar) (fun nullable name => name ∈ nullable) ∧
      OnlyAdds (firstPass grammar) (fun rows (place : Symbol T N × T) =>
        place.2 ∈ FirstSets.set ⟨grammar.terminals, rows⟩ place.1) ∧
      OnlyAdds (followPass grammar) Rows.Has) ∧
    ∀ rules start, Grammar.ofRules rules start = .ok grammar →
      ∀ count ∈ [(ofGrammar grammar).passes.nullable, (ofGrammar grammar).passes.first,
        (ofGrammar grammar).passes.follow], 1 ≤ count ∧ count ≤ grammar.nonTerminals.length + 1 := by
  have nullable := settles_nullable grammar
  have first := settles_first grammar
  have follow := settles_follow grammar
  refine ⟨⟨nullable, first, follow⟩, ⟨?_, ?_, ?_⟩, ?_⟩
  · exact .of_grown (Nullable.grown_pass _)
  · exact FirstSets.onlyAdds_set (.of_grown (FirstSets.grown_pass _ _ _)) _
  · exact .of_grown (Follow.grown_pass _ _ _)
  · intro rules start accepted
    have defined : ∀ rule ∈ grammar.rules, rule.lhs ∈ grammar.nonTerminals :=
      fun rule => Grammar.lhs_mem_nonTerminals accepted
    have used : ∀ rule ∈ grammar.rules, ∀ name, .nonTerminal name ∈ rule.rhs →
        name ∈ grammar.nonTerminals :=
      fun rule listed name => Grammar.mem_nonTerminals_of_ofRules accepted listed
    simp only [List.forall_mem_cons]
    refine ⟨⟨nullable.one_le, Nullable.count_le defined nullable⟩,
      ⟨first.one_le, FirstSets.count_le defined first (Rows.not_has_ofNames _)⟩,
      ⟨follow.one_le, Follow.count_le used follow (Rows.not_has_ofNames _)⟩, ?_⟩
    intro count absent
    cases absent

end Sets

/-- Every non terminal but the last starts with the next, and its rule stands in front. -/
def chained : List (Rule Char Char) :=
  [⟨0, 'S', [.nonTerminal 'A', .terminal 'y']⟩, ⟨1, 'A', [.nonTerminal 'B']⟩,
    ⟨2, 'B', [.terminal 'x']⟩, ⟨3, 'B', [.terminal 'z']⟩]

theorem Sets.passes_linear_chained : ∃ grammar, Grammar.ofRules chained 'S' = .ok grammar ∧
    grammar.nonTerminals.length = 3 ∧ (ofGrammar grammar).passes = ⟨1, 4, 2⟩ ∧
    (ofGrammar grammar).passes.first ≤ grammar.nonTerminals.length + 1 ∧
    OnlyAdds (followPass grammar) Rows.Has := by
  obtain ⟨grammar, accepted, size, passes⟩ : ∃ grammar, Grammar.ofRules chained 'S' = .ok grammar ∧
      grammar.nonTerminals.length = 3 ∧ (ofGrammar grammar).passes = ⟨1, 4, 2⟩ :=
    ⟨_, rfl, rfl, rfl⟩
  obtain ⟨-, ⟨-, -, follow⟩, bounded⟩ := passes_linear grammar
  refine ⟨grammar, accepted, size, passes, ?_, follow⟩
  exact (bounded _ _ accepted _ (by simp)).2

end Lookahead
