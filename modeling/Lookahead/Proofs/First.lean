import Lookahead.Proofs.Nullable
import Mathlib.Data.List.ProdSigma

/-!
# FIRST holds what a sequence can start with

A terminal is in FIRST of a sequence exactly if the grammar lists it and the sequence derives a
sentential form that starts with it (`mem_firstOf_iff`). This is so for every grammar there is:
where the symbol lists are incomplete, FIRST lacks the terminals that are not listed and no other.
-/

set_option autoImplicit false

namespace Lookahead

variable {T N : Type} [DecidableEq T] [DecidableEq N] {grammar : Grammar T N}

omit [DecidableEq T] [DecidableEq N] in
def Grammar.Starts (grammar : Grammar T N) (symbols : List (Symbol T N)) (terminal : T) : Prop :=
  ∃ form, grammar.Yields symbols (.terminal terminal :: form)

namespace FirstSets

def Derivable (grammar : Grammar T N) (rows : Rows T N) : Prop :=
  ∀ place, rows.Has place →
    place.2 ∈ grammar.terminals ∧ grammar.Starts [.nonTerminal place.1] place.2

theorem mem_set_iff {terminals : List T} {rows : Rows T N} {symbol : Symbol T N} {terminal : T} :
    terminal ∈ set ⟨terminals, rows⟩ symbol ↔ symbol = .terminal terminal ∧ terminal ∈ terminals ∨
      ∃ other, symbol = .nonTerminal other ∧ rows.Has (other, terminal) := by
  cases symbol with
  | terminal name =>
      rw [mem_set_terminal]
      simp only [Symbol.terminal.injEq, reduceCtorEq, false_and, exists_false, or_false]
      constructor
      · rintro ⟨listed, rfl⟩
        exact ⟨rfl, listed⟩
      · rintro ⟨rfl, listed⟩
        exact ⟨listed, rfl⟩
  | nonTerminal name => simp [set, set?, Rows.Has, Rows.row]

theorem mem_ofSequence_iff {nullable : List N} {first : FirstSets T N} {symbols : List (Symbol T N)}
    {terminal : T} : terminal ∈ ofSequence nullable first symbols ↔
      ∃ before symbol after, symbols = before ++ symbol :: after ∧
        before.all (Symbol.isNullable nullable) = true ∧ terminal ∈ first.set symbol := by
  induction symbols with
  | nil => simp [ofSequence]
  | cons head rest ih =>
      rw [mem_ofSequence_cons, ih]
      constructor
      · rintro (here | ⟨erasable, before, symbol, after, rfl, all, later⟩)
        · exact ⟨[], head, rest, rfl, rfl, here⟩
        · refine ⟨head :: before, symbol, after, rfl, ?_, later⟩
          rw [List.all_cons, erasable, all, Bool.and_self]
      · rintro ⟨before, symbol, after, split, all, inside⟩
        cases before with
        | nil =>
            obtain ⟨rfl, rfl⟩ := List.cons.inj split
            exact .inl inside
        | cons own before =>
            obtain ⟨rfl, rfl⟩ := List.cons.inj split
            rw [List.all_cons, Bool.and_eq_true] at all
            exact .inr ⟨all.1, before, symbol, after, rfl, all.2, inside⟩

/-- The rules call for a terminal in FIRST of a name, given the names that have it in theirs. -/
def Calls (rules : List (Rule T N)) (nullable : List N) (terminals : List T) (terminal : T)
    (held : N → Prop) (name : N) : Prop :=
  ∃ rule ∈ rules, rule.lhs = name ∧ ∃ before symbol after, rule.rhs = before ++ symbol :: after ∧
    before.all (Symbol.isNullable nullable) = true ∧
      (symbol = .terminal terminal ∧ terminal ∈ terminals ∨
        ∃ other, symbol = .nonTerminal other ∧ held other)

section Calls

variable {rules : List (Rule T N)} {nullable : List N} {terminals : List T} {terminal : T} {name : N}

omit [DecidableEq T] in
theorem Calls.mono {smaller larger : N → Prop}
    (called : Calls rules nullable terminals terminal smaller name)
    (within : ∀ other, smaller other → larger other) :
    Calls rules nullable terminals terminal larger name := by
  obtain ⟨rule, listed, left, before, symbol, after, split, all, own⟩ := called
  refine ⟨rule, listed, left, before, symbol, after, split, all, own.imp_right ?_⟩
  rintro ⟨other, same, held⟩
  exact ⟨other, same, within other held⟩

theorem calls_iff {rows : Rows T N} :
    Calls rules nullable terminals terminal (fun other => rows.Has (other, terminal)) name ↔
      ∃ rule ∈ rules, rule.lhs = name ∧
        terminal ∈ ofSequence nullable ⟨terminals, rows⟩ rule.rhs := by
  simp only [Calls, mem_ofSequence_iff, mem_set_iff]

end Calls

theorem ofSequence_mono {nullable : List N} {terminals : List T} {smaller larger : Rows T N}
    (within : ∀ place, smaller.Has place → larger.Has place) {symbols : List (Symbol T N)}
    {terminal : T} (inside : terminal ∈ ofSequence nullable ⟨terminals, smaller⟩ symbols) :
    terminal ∈ ofSequence nullable ⟨terminals, larger⟩ symbols := by
  simp only [mem_ofSequence_iff, mem_set_iff] at inside ⊢
  obtain ⟨before, symbol, after, split, all, own⟩ := inside
  refine ⟨before, symbol, after, split, all, own.imp_right ?_⟩
  rintro ⟨other, same, held⟩
  exact ⟨other, same, within (other, terminal) held⟩

omit [DecidableEq T] [DecidableEq N] in
theorem starts_of_symbol {symbol : Symbol T N} {terminal : T}
    (own : symbol = .terminal terminal ∧ terminal ∈ grammar.terminals ∨
      ∃ other, symbol = .nonTerminal other ∧
        terminal ∈ grammar.terminals ∧ grammar.Starts [.nonTerminal other] terminal) :
    terminal ∈ grammar.terminals ∧ grammar.Starts [symbol] terminal := by
  rcases own with ⟨rfl, listed⟩ | ⟨other, rfl, derivable⟩
  · exact ⟨listed, [], .refl _⟩
  · exact derivable

omit [DecidableEq T] in
theorem starts_of_split {before after : List (Symbol T N)} {symbol : Symbol T N} {terminal : T}
    (all : before.all (Symbol.isNullable (Nullable.compute grammar).1) = true)
    (starts : grammar.Starts [symbol] terminal) :
    grammar.Starts (before ++ symbol :: after) terminal := by
  obtain ⟨form, yields⟩ := starts
  have erased := Nullable.all_isNullable_iff.mp all
  exact ⟨form ++ after, erased.append (yields.append (.refl after))⟩

theorem starts_of_mem_ofSequence {rows : Rows T N} (sound : Derivable grammar rows)
    {symbols : List (Symbol T N)} {terminal : T}
    (inside : terminal ∈ ofSequence (Nullable.compute grammar).1 ⟨grammar.terminals, rows⟩ symbols) :
    terminal ∈ grammar.terminals ∧ grammar.Starts symbols terminal := by
  simp only [mem_ofSequence_iff, mem_set_iff] at inside
  obtain ⟨before, symbol, after, rfl, all, own⟩ := inside
  obtain ⟨listed, starts⟩ : terminal ∈ grammar.terminals ∧ grammar.Starts [symbol] terminal := by
    apply starts_of_symbol
    refine own.imp_right ?_
    rintro ⟨other, same, held⟩
    exact ⟨other, same, sound (other, terminal) held⟩
  exact ⟨listed, starts_of_split all starts⟩

theorem grown_stepRule (nullable : List N) (terminals : List T) (growth : Growth T N)
    (rule : Rule T N) :
    Grown growth.Has (stepRule nullable terminals growth rule).Has growth.grew
      (stepRule nullable terminals growth rule).grew :=
  growth.grown_add rule.lhs _

theorem grown_pass (rules : List (Rule T N)) (nullable : List N) (terminals : List T)
    (rows : Rows T N) :
    Grown rows.Has (pass rules nullable terminals rows).1.Has false
      (pass rules nullable terminals rows).2 :=
  Grown.foldl Growth.Has Growth.grew (grown_stepRule nullable terminals) rules ⟨rows, false⟩

theorem mem_pass {rules : List (Rule T N)} {rule : Rule T N} {nullable : List N}
    {terminals : List T} {rows : Rows T N} {terminal : T} (listed : rule ∈ rules)
    (inside : terminal ∈ ofSequence nullable ⟨terminals, rows⟩ rule.rhs) :
    terminal ∈ (pass rules nullable terminals rows).1.row rule.lhs := by
  change (pass rules nullable terminals rows).1.Has (rule.lhs, terminal)
  refine Grown.held_foldl Growth.Has Growth.grew (grown_stepRule nullable terminals) listed
    fun later within => ?_
  exact Rows.mem_row_add.mpr (.inr ⟨rfl, ofSequence_mono within inside⟩)

theorem closed_pass {rules : List (Rule T N)} {nullable : List N} {terminals : List T}
    (closed : N → T → Prop)
    (stable : ∀ terminal name,
      Calls rules nullable terminals terminal (fun other => closed other terminal) name →
        closed name terminal)
    (rows : Rows T N) (within : ∀ place, rows.Has place → closed place.1 place.2) :
    ∀ place, (pass rules nullable terminals rows).1.Has place → closed place.1 place.2 := by
  refine foldl_stays Growth.Has (fun growth rule listed held => ?_) ⟨rows, false⟩ within
  rintro ⟨name, terminal⟩ inside
  rcases Rows.mem_row_add.mp inside with known | ⟨rfl, added⟩
  · exact held (name, terminal) known
  · have called := calls_iff.mpr ⟨rule, listed, rfl, added⟩
    exact stable terminal _ (called.mono fun other => held (other, terminal))

theorem derivable_pass {rows : Rows T N} (sound : Derivable grammar rows) :
    Derivable grammar
      (pass grammar.rules (Nullable.compute grammar).1 grammar.terminals rows).1 := by
  refine closed_pass (fun name terminal =>
    terminal ∈ grammar.terminals ∧ grammar.Starts [.nonTerminal name] terminal) ?_ rows sound
  rintro terminal name ⟨rule, listed, rfl, before, symbol, after, split, all, own⟩
  obtain ⟨known, starts⟩ := starts_of_symbol own
  have startsAll : grammar.Starts (before ++ symbol :: after) terminal := starts_of_split all starts
  rw [← split] at startsAll
  obtain ⟨form, yields⟩ := startsAll
  exact ⟨known, form, .of_rule listed yields⟩

theorem growing_pass (grammar : Grammar T N) :
    Growing (pass grammar.rules (Nullable.compute grammar).1 grammar.terminals) Rows.Has
      (Derivable grammar) (grammar.rules.map Rule.lhs ×ˢ grammar.terminals) where
  kept := fun _ => derivable_pass
  grown := grown_pass grammar.rules _ _
  bounded := by
    rintro rows ⟨name, terminal⟩ sound inside
    obtain ⟨known, form, yields⟩ := sound _ inside
    rcases yields.nonTerminal_cases with ⟨_, kept, _⟩ | ⟨rule, listed, _, _, rfl, _⟩
    · cases kept
    · exact List.mem_product.mpr ⟨List.mem_map_of_mem listed, known⟩

theorem mem_ofSequence_of_yields {first : FirstSets T N}
    (closed : ∀ rule ∈ grammar.rules, ∀ terminal,
      terminal ∈ ofSequence (Nullable.compute grammar).1 first rule.rhs →
        terminal ∈ first.rows.row rule.lhs)
    {symbols form later : List (Symbol T N)} {terminal : T} (listed : terminal ∈ first.terminals)
    (yields : grammar.Yields symbols form) (starts : form = .terminal terminal :: later) :
    terminal ∈ ofSequence (Nullable.compute grammar).1 first symbols := by
  induction yields generalizing later with
  | nil => cases starts
  | keep symbol _ _ =>
      cases starts
      simp [listed]
  | @expand rule rest inner form known side _ ihSide ih =>
      rw [mem_ofSequence_cons]
      -- the form starts behind an expansion to nothing, and within any other
      cases inner with
      | nil =>
          have erasable := Nullable.isNullable_iff.mpr (side.of_rule known)
          exact .inr ⟨erasable, ih starts⟩
      | cons symbol inner =>
          cases starts
          exact .inl (closed rule known terminal (ihSide rfl))

/-- The rows that the passes end in are closed under the rules and hold nothing without a
derivation. -/
theorem rows_compute (grammar : Grammar T N) :
    Derivable grammar (compute grammar (Nullable.compute grammar).1).1.rows ∧
      ∀ rule ∈ grammar.rules, ∀ terminal,
        terminal ∈ ofSequence (Nullable.compute grammar).1
          (compute grammar (Nullable.compute grammar).1).1 rule.rhs →
        terminal ∈ (compute grammar (Nullable.compute grammar).1).1.rows.row rule.lhs := by
  have places : (grammar.rules.map Rule.lhs ×ˢ grammar.terminals).length =
      grammar.rules.length * grammar.terminals.length := by
    rw [List.length_product, List.length_map]
  obtain ⟨last, sound, result, settled⟩ := (growing_pass grammar).settled _
    (Rows.ofNames grammar.nonTerminals)
    (fun place held => absurd held (Rows.not_has_ofNames _ place)) (Nat.le_of_eq places)
  simp only [compute, result]
  refine ⟨derivable_pass sound, fun rule listed terminal inside => ?_⟩
  exact mem_pass listed (ofSequence_mono settled inside)

end FirstSets

namespace Sets

theorem mem_firstOf_iff {symbols : List (Symbol T N)} {terminal : T} :
    terminal ∈ (Sets.ofGrammar grammar).firstOf symbols ↔
      terminal ∈ grammar.terminals ∧ grammar.Starts symbols terminal := by
  obtain ⟨sound, closed⟩ := FirstSets.rows_compute grammar
  constructor
  · exact FirstSets.starts_of_mem_ofSequence sound
  · rintro ⟨listed, form, yields⟩
    exact FirstSets.mem_ofSequence_of_yields closed listed yields rfl

theorem mem_firstOf_append {sets : Sets T N} {front back : List (Symbol T N)} {terminal : T} :
    terminal ∈ sets.firstOf (front ++ back) ↔
      terminal ∈ sets.firstOf front ∨
        sets.isNullableSequence front = true ∧ terminal ∈ sets.firstOf back := by
  simp only [firstOf, isNullableSequence]
  induction front with
  | nil => simp [FirstSets.ofSequence]
  | cons symbol front ih =>
      simp only [List.cons_append, FirstSets.mem_ofSequence_cons, ih, List.all_cons,
        Bool.and_eq_true]
      tauto

theorem mem_first?_iff {sets : Sets T N} {symbol : Symbol T N} {terminal : T} :
    terminal ∈ (sets.first? symbol).getD [] ↔ terminal ∈ sets.firstOf [symbol] := by
  rw [firstOf, FirstSets.mem_ofSequence_cons, first?, FirstSets.set]
  simp [FirstSets.ofSequence]

theorem mem_firstOf_singleton {sets : Sets T N} {symbol : Symbol T N} {row : List T}
    (entry : sets.first? symbol = some row) {terminal : T} :
    terminal ∈ sets.firstOf [symbol] ↔ terminal ∈ row := by
  rw [← mem_first?_iff, entry, Option.getD_some]

/-- FIRST of a sequence holds the listed terminals that some sentential form derived from it starts
with. -/
theorem firstOf_exact (grammar : Grammar T N) :
    (∀ symbols terminal, terminal ∈ (Sets.ofGrammar grammar).firstOf symbols ↔
        terminal ∈ grammar.terminals ∧
          ∃ form, grammar.Derives symbols (.terminal terminal :: form)) ∧
      (∀ name row, (Sets.ofGrammar grammar).first? (.nonTerminal name) = some row →
        ∀ terminal, terminal ∈ row ↔
          terminal ∈ (Sets.ofGrammar grammar).firstOf [.nonTerminal name]) ∧
      ∀ front back terminal, terminal ∈ (Sets.ofGrammar grammar).firstOf (front ++ back) ↔
        terminal ∈ (Sets.ofGrammar grammar).firstOf front ∨
          (Sets.ofGrammar grammar).isNullableSequence front = true ∧
            terminal ∈ (Sets.ofGrammar grammar).firstOf back := by
  simp only [Grammar.derives_iff_yields]
  refine ⟨fun symbols terminal => mem_firstOf_iff, ?_, fun _ _ _ => mem_firstOf_append⟩
  intro name row entry terminal
  exact (mem_firstOf_singleton entry).symm

theorem firstOf_exact_unlisted :
    (Sets.ofGrammar unlisted).first? (.nonTerminal 'S') = some ['b'] ∧
      'b' ∈ (Sets.ofGrammar unlisted).firstOf [.nonTerminal 'A', .nonTerminal 'S'] ∧
      (∃ form, unlisted.Derives [.nonTerminal 'A', .nonTerminal 'S'] (.terminal 'b' :: form)) ∧
      'x' ∉ (Sets.ofGrammar unlisted).firstOf [.nonTerminal 'A'] := by
  obtain ⟨sequences, entries, parts⟩ := firstOf_exact unlisted
  have entry : (Sets.ofGrammar unlisted).first? (.nonTerminal 'S') = some ['b'] := by decide
  have start : 'b' ∈ (Sets.ofGrammar unlisted).firstOf [.nonTerminal 'S'] :=
    (entries 'S' ['b'] entry 'b').mp (by decide)
  have behind : 'b' ∈ (Sets.ofGrammar unlisted).firstOf [.nonTerminal 'A', .nonTerminal 'S'] :=
    (parts [.nonTerminal 'A'] [.nonTerminal 'S'] 'b').mpr (.inr ⟨by decide, start⟩)
  refine ⟨entry, behind, ((sequences _ _).mp behind).2, ?_⟩
  intro inside
  have listed := ((sequences _ _).mp inside).1
  exact absurd listed (by decide)

end Sets

end Lookahead
