import Lookahead.Proofs.First

/-!
# FOLLOW holds what can stand after a non terminal

A terminal is in FOLLOW of a non terminal exactly if the grammar lists it and some non terminal
derives a sentential form in which the two stand side by side (`mem_follow_iff`). One direction
goes by the passes: a pass adds only what the rules call for (`Follow.closed_pass`), and whatever they
call for stands in some sentential form. The other direction needs only that the rows are closed
under the rules (`Sets.follow_rows`) and goes by induction on how the form is derived.
-/

set_option autoImplicit false

namespace Lookahead

variable {T N : Type} [DecidableEq T] [DecidableEq N] {grammar : Grammar T N}

omit [DecidableEq T] [DecidableEq N] in
/-- In what some non terminal derives, a terminal stands right after a sequence. -/
def Grammar.Follows (grammar : Grammar T N) (symbols : List (Symbol T N)) (terminal : T) : Prop :=
  ∃ top before after, grammar.Yields [.nonTerminal top]
    (before ++ (symbols ++ .terminal terminal :: after))

omit [DecidableEq T] [DecidableEq N] in
theorem Grammar.Follows.exists_rule {name : N} {terminal : T}
    (follows : grammar.Follows [.nonTerminal name] terminal) :
    ∃ rule ∈ grammar.rules, .nonTerminal name ∈ rule.rhs := by
  obtain ⟨top, before, after, yields⟩ := follows
  have longer : before ++ ([.nonTerminal name] ++ .terminal terminal :: after) ≠
      [.nonTerminal top] := by
    intro same
    have lengths := congrArg List.length same
    simp only [List.length_append, List.length_cons, List.length_nil] at lengths
    omega
  apply yields.mem_rhs longer
  simp

namespace Follow

/-! ## What a pass adds -/

theorem grown_scan (nullable : List N) (first : FirstSets T N) (symbols : List (Symbol T N))
    (trailer : List T) (growth : Growth T N) :
    Grown growth.Has (scan nullable first symbols trailer growth).Has growth.grew
      (scan nullable first symbols trailer growth).grew := by
  induction symbols generalizing trailer growth with
  | nil => exact .refl _ _
  | cons symbol symbols ih =>
      cases symbol with
      | terminal name => exact ih _ growth
      | nonTerminal name => exact (growth.grown_add name trailer).trans (ih _ _)

theorem grown_stepRule (nullable : List N) (first : FirstSets T N) (growth : Growth T N)
    (rule : Rule T N) :
    Grown growth.Has (stepRule nullable first growth rule).Has growth.grew
      (stepRule nullable first growth rule).grew :=
  grown_scan nullable first _ _ growth

theorem grown_pass (rules : List (Rule T N)) (nullable : List N) (first : FirstSets T N)
    (rows : Rows T N) :
    Grown rows.Has (pass rules nullable first rows).1.Has false
      (pass rules nullable first rows).2 :=
  Grown.foldl Growth.Has Growth.grew (grown_stepRule nullable first) rules ⟨rows, false⟩

theorem scan_append (nullable : List N) (first : FirstSets T N) (front back : List (Symbol T N))
    (trailer : List T) (growth : Growth T N) :
    scan nullable first (front ++ back) trailer growth =
      scan nullable first back
        (front.foldl (fun trailer symbol => trailerBefore nullable first symbol trailer) trailer)
        (scan nullable first front trailer growth) := by
  induction front generalizing trailer growth with
  | nil => rfl
  | cons symbol front ih =>
      simp only [List.cons_append, scan, List.foldl_cons]
      rw [ih]

theorem mem_trailer {nullable : List N} {first : FirstSets T N} {after : List (Symbol T N)}
    {trailer : List T} {terminal : T} :
    terminal ∈ after.reverse.foldl
        (fun trailer symbol => trailerBefore nullable first symbol trailer) trailer ↔
      terminal ∈ first.ofSequence nullable after ∨
        after.all (Symbol.isNullable nullable) = true ∧ terminal ∈ trailer := by
  induction after with
  | nil => simp [FirstSets.ofSequence]
  | cons symbol after ih =>
      rw [List.reverse_cons, List.foldl_append, List.foldl_cons, List.foldl_nil,
        mem_trailerBefore, ih, FirstSets.mem_ofSequence_cons, List.all_cons, Bool.and_eq_true]
      tauto

theorem mem_pass {rules : List (Rule T N)} {rule : Rule T N} {nullable : List N}
    {first : FirstSets T N} {rows : Rows T N} {before after : List (Symbol T N)} {name : N}
    {terminal : T} (listed : rule ∈ rules) (split : rule.rhs = before ++ .nonTerminal name :: after)
    (next : terminal ∈ first.ofSequence nullable after ∨
      after.all (Symbol.isNullable nullable) = true ∧ terminal ∈ rows.row rule.lhs) :
    terminal ∈ (pass rules nullable first rows).1.row name := by
  change (pass rules nullable first rows).1.Has (name, terminal)
  refine Grown.held_foldl Growth.Has Growth.grew (grown_stepRule nullable first) listed
    fun later within => ?_
  have reversed : rule.rhs.reverse = after.reverse ++ .nonTerminal name :: before.reverse := by
    rw [split]
    simp
  have nextNow : terminal ∈ first.ofSequence nullable after ∨
      after.all (Symbol.isNullable nullable) = true ∧ terminal ∈ later.rows.row rule.lhs :=
    next.imp_right fun held => ⟨held.1, within (rule.lhs, terminal) held.2⟩
  rw [stepRule, reversed, scan_append, scan]
  refine (grown_scan nullable first _ _ _).within (name, terminal) ?_
  exact Rows.mem_row_add.mpr (.inr ⟨rfl, mem_trailer.mpr nextNow⟩)

def Calls (rules : List (Rule T N)) (nullable : List N) (first : FirstSets T N) (terminal : T)
    (held : N → Prop) (name : N) : Prop :=
  ∃ rule ∈ rules, ∃ before after, rule.rhs = before ++ .nonTerminal name :: after ∧
    (terminal ∈ first.ofSequence nullable after ∨
      after.all (Symbol.isNullable nullable) = true ∧ held rule.lhs)

section Calls

variable {rules : List (Rule T N)} {nullable : List N} {first : FirstSets T N}

theorem Calls.mono {terminal : T} {smaller larger : N → Prop} {name : N}
    (called : Calls rules nullable first terminal smaller name)
    (within : ∀ other, smaller other → larger other) :
    Calls rules nullable first terminal larger name := by
  obtain ⟨rule, listed, before, after, split, next⟩ := called
  refine ⟨rule, listed, before, after, split, next.imp_right ?_⟩
  rintro ⟨all, held⟩
  exact ⟨all, within rule.lhs held⟩

theorem mem_scan {symbols : List (Symbol T N)} {trailer : List T} {growth : Growth T N} {name : N}
    {terminal : T} (inside : (scan nullable first symbols trailer growth).Has (name, terminal)) :
    growth.Has (name, terminal) ∨ ∃ front back, symbols = front ++ .nonTerminal name :: back ∧
      terminal ∈ front.foldl
        (fun trailer symbol => trailerBefore nullable first symbol trailer) trailer := by
  induction symbols generalizing trailer growth with
  | nil => exact .inl inside
  | cons symbol symbols ih =>
      rcases ih inside with early | ⟨front, back, rfl, added⟩
      · cases symbol with
        | terminal other => exact .inl early
        | nonTerminal other =>
            rcases Rows.mem_row_add.mp early with known | ⟨rfl, added⟩
            · exact .inl known
            · exact .inr ⟨[], symbols, rfl, added⟩
      · exact .inr ⟨symbol :: front, back, rfl, added⟩

theorem closed_pass (closed : N → T → Prop)
    (stable : ∀ terminal name,
      Calls rules nullable first terminal (fun other => closed other terminal) name →
        closed name terminal)
    (rows : Rows T N) (within : ∀ place, rows.Has place → closed place.1 place.2) :
    ∀ place, (pass rules nullable first rows).1.Has place → closed place.1 place.2 := by
  refine foldl_stays Growth.Has (fun growth rule listed held => ?_) ⟨rows, false⟩ within
  rintro ⟨name, terminal⟩ inside
  rcases mem_scan inside with known | ⟨front, back, reversed, added⟩
  · exact held (name, terminal) known
  · have split : rule.rhs = back.reverse ++ .nonTerminal name :: front.reverse := by
      rw [← List.reverse_reverse rule.rhs, reversed]
      simp
    rw [← List.reverse_reverse front, mem_trailer] at added
    refine stable terminal name ⟨rule, listed, _, _, split, added.imp_right ?_⟩
    rintro ⟨all, trails⟩
    exact ⟨all, held (rule.lhs, terminal) trails⟩

end Calls

/-! ## What a pass adds has a derivation -/

def Derivable (grammar : Grammar T N) (rows : Rows T N) : Prop :=
  ∀ place, rows.Has place →
    place.2 ∈ grammar.terminals ∧ grammar.Follows [.nonTerminal place.1] place.2

section Follows

omit [DecidableEq T] [DecidableEq N]

variable {rule : Rule T N} {before after : List (Symbol T N)} {symbol : Symbol T N} {terminal : T}
  (listed : rule ∈ grammar.rules) (split : rule.rhs = before ++ symbol :: after)

include listed split

theorem follows_of_starts (starts : grammar.Starts after terminal) :
    grammar.Follows [symbol] terminal := by
  obtain ⟨form, yields⟩ := starts
  refine ⟨rule.lhs, before, form, .of_rule listed ?_⟩
  rw [split]
  exact (Grammar.Yields.refl before).append ((Grammar.Yields.refl [symbol]).append yields)

theorem follows_of_nullable (erasable : grammar.Yields after [])
    (follows : grammar.Follows [.nonTerminal rule.lhs] terminal) :
    grammar.Follows [symbol] terminal := by
  obtain ⟨top, outer, later, yields⟩ := follows
  have side : grammar.Yields rule.rhs (before ++ [symbol]) := by
    rw [split]
    exact (Grammar.Yields.refl before).append ((Grammar.Yields.refl [symbol]).append erasable)
  have expanded : grammar.Yields (outer ++ .nonTerminal rule.lhs :: .terminal terminal :: later)
      (outer ++ ((before ++ [symbol]) ++ .terminal terminal :: later)) :=
    (Grammar.Yields.refl outer).append (.expand listed side (.refl _))
  refine ⟨top, outer ++ before, later, ?_⟩
  simpa using yields.trans expanded

end Follows

theorem derivable_pass {firstRows rows : Rows T N} (first : FirstSets.Derivable grammar firstRows)
    (sound : Derivable grammar rows) :
    Derivable grammar (pass grammar.rules (Nullable.compute grammar).1
      ⟨grammar.terminals, firstRows⟩ rows).1 := by
  refine closed_pass (fun name terminal =>
    terminal ∈ grammar.terminals ∧ grammar.Follows [.nonTerminal name] terminal) ?_ rows sound
  rintro terminal name ⟨rule, listed, before, after, split, next⟩
  rcases next with inside | ⟨all, known, follows⟩
  · obtain ⟨known, starts⟩ := FirstSets.starts_of_mem_ofSequence first inside
    exact ⟨known, follows_of_starts listed split starts⟩
  · have erasable := Nullable.all_isNullable_iff.mp all
    exact ⟨known, follows_of_nullable listed split erasable follows⟩

theorem growing_pass (grammar : Grammar T N) {firstRows : Rows T N}
    (first : FirstSets.Derivable grammar firstRows) :
    Growing (pass grammar.rules (Nullable.compute grammar).1 ⟨grammar.terminals, firstRows⟩)
      Rows.Has (Derivable grammar)
      (grammar.rules.flatMap Rule.nonTerminals ×ˢ grammar.terminals) where
  kept := fun _ => derivable_pass first
  grown := grown_pass grammar.rules _ _
  bounded := by
    rintro rows ⟨name, terminal⟩ sound inside
    obtain ⟨known, follows⟩ := sound _ inside
    obtain ⟨rule, listed, own⟩ := follows.exists_rule
    refine List.mem_product.mpr ⟨List.mem_flatMap.mpr ⟨rule, listed, ?_⟩, known⟩
    exact Rule.mem_nonTerminals.mpr own

end Follow

namespace Sets

/-! ## The rows of a grammar -/

/-- Whatever can stand after each non terminal of a sequence is in its FOLLOW, where all of `beyond`
can stand after the sequence. -/
def Covers (sets : Sets T N) (symbols : List (Symbol T N)) (beyond : T → Prop) : Prop :=
  ∀ before name after terminal, symbols = before ++ .nonTerminal name :: after →
    (terminal ∈ sets.firstOf after ∨
      sets.isNullableSequence after = true ∧ beyond terminal) →
    terminal ∈ sets.follow.row name

theorem Covers.suffix {sets : Sets T N} {front symbols : List (Symbol T N)}
    {beyond : T → Prop} (covers : sets.Covers (front ++ symbols) beyond) :
    sets.Covers symbols beyond := by
  intro before name after terminal split
  refine covers (front ++ before) name after terminal ?_
  rw [split, List.append_assoc]

theorem Covers.tail {sets : Sets T N} {symbol : Symbol T N} {symbols : List (Symbol T N)}
    {beyond : T → Prop} (covers : sets.Covers (symbol :: symbols) beyond) :
    sets.Covers symbols beyond :=
  Covers.suffix (List.singleton_append ▸ covers)

theorem Covers.singleton {sets : Sets T N} {name : N} {beyond : T → Prop}
    (held : ∀ terminal, beyond terminal → terminal ∈ sets.follow.row name) :
    sets.Covers [.nonTerminal name] beyond := by
  intro before other after terminal split next
  cases before with
  | nil =>
      obtain ⟨same, rfl⟩ := List.cons.inj split
      obtain rfl := Symbol.nonTerminal.inj same
      rcases next with first | ⟨_, trails⟩
      · cases first
      · exact held terminal trails
  | cons _ before => simp at split

/-- The rows that the passes end in hold nothing without a derivation, and cover every rule. -/
theorem follow_rows (grammar : Grammar T N) :
    Follow.Derivable grammar (Sets.ofGrammar grammar).follow ∧
      ∀ rule ∈ grammar.rules, (Sets.ofGrammar grammar).Covers rule.rhs
        (· ∈ (Sets.ofGrammar grammar).follow.row rule.lhs) := by
  have first := (FirstSets.rows_compute grammar).1
  have places : (grammar.rules.flatMap Rule.nonTerminals ×ˢ grammar.terminals).length =
      (grammar.rules.flatMap Rule.nonTerminals).length * grammar.terminals.length := by
    rw [List.length_product]
  obtain ⟨last, sound, result, settled⟩ := (Follow.growing_pass grammar first).settled _
    (Rows.ofNames grammar.nonTerminals)
    (fun place held => absurd held (Rows.not_has_ofNames _ place)) (Nat.le_of_eq places)
  change (Sets.ofGrammar grammar).follow = _ at result
  rw [result]
  refine ⟨Follow.derivable_pass first sound, ?_⟩
  intro rule listed before name after terminal split next
  rw [result]
  exact Follow.mem_pass listed split
    (next.imp_right fun held => ⟨held.1, settled (rule.lhs, terminal) held.2⟩)

theorem Covers.head {name : N} {rest after : List (Symbol T N)} {beyond : T → Prop} {terminal : T}
    (covers : (Sets.ofGrammar grammar).Covers (.nonTerminal name :: rest) beyond)
    (yields : grammar.Yields rest after) (known : terminal ∈ grammar.terminals)
    (next : (∃ later, after = .terminal terminal :: later) ∨ after = [] ∧ beyond terminal) :
    terminal ∈ (Sets.ofGrammar grammar).follow.row name := by
  refine covers [] name rest terminal rfl ?_
  rcases next with ⟨later, rfl⟩ | ⟨rfl, trails⟩
  · exact .inl (mem_firstOf_iff.mpr ⟨known, later, yields⟩)
  · exact .inr ⟨isNullableSequence_iff.mpr yields, trails⟩

theorem Covers.expanded {symbols form : List (Symbol T N)} {beyond : T → Prop}
    (covers : (Sets.ofGrammar grammar).Covers symbols beyond)
    (yields : grammar.Yields symbols form) {before after : List (Symbol T N)} {name : N}
    {terminal : T} (split : form = before ++ .nonTerminal name :: after)
    (known : terminal ∈ grammar.terminals)
    (next : (∃ later, after = .terminal terminal :: later) ∨ after = [] ∧ beyond terminal) :
    terminal ∈ (Sets.ofGrammar grammar).follow.row name := by
  induction yields generalizing beyond before after with
  | nil => simp at split
  | @keep symbol rest form later ih =>
      cases before with
      | nil =>
          obtain ⟨rfl, rfl⟩ := List.cons.inj split
          exact covers.head later known next
      | cons first before =>
          obtain ⟨_, splitLater⟩ := List.cons.inj split
          exact ih covers.tail splitLater next
  | @expand rule rest inner form listed side later ihSide ih =>
      -- the non terminal stands behind the expanded right side, or within it
      rcases List.append_eq_append_iff.mp split with ⟨extra, _, parts⟩ | ⟨extra, splitSide, parts⟩
      · exact ih covers.tail parts next
      · cases extra with
        | nil =>
            have splitLater : form = [] ++ .nonTerminal name :: after := parts.symm
            exact ih covers.tail splitLater next
        | cons first extra =>
            obtain ⟨rfl, rfl⟩ := List.cons.inj parts
            refine ihSide ((follow_rows grammar).2 rule listed) splitSide ?_
            -- at its end, what comes next follows the left side, which covers the right side
            cases extra with
            | nil => exact .inr ⟨rfl, covers.head later known next⟩
            | cons second extra =>
                rcases next with ⟨_, same⟩ | ⟨empty, _⟩
                · obtain ⟨rfl, _⟩ := List.cons.inj same
                  exact .inl ⟨extra, rfl⟩
                · cases empty

theorem mem_follow_iff {name : N} {terminal : T} :
    terminal ∈ (Sets.ofGrammar grammar).follow.row name ↔
      terminal ∈ grammar.terminals ∧ grammar.Follows [.nonTerminal name] terminal := by
  constructor
  · exact (follow_rows grammar).1 (name, terminal)
  · rintro ⟨known, top, before, after, yields⟩
    have covers : (Sets.ofGrammar grammar).Covers [.nonTerminal top] fun _ => False :=
      .singleton fun _ absent => absent.elim
    exact covers.expanded yields rfl known (.inl ⟨after, rfl⟩)

/-- FOLLOW of a non terminal holds the listed terminals that stand right after it in a form derived
from some non terminal. Nothing else is put into FOLLOW of the start symbol. -/
theorem follow_exact (grammar : Grammar T N) :
    (∀ name terminal, terminal ∈ ((Sets.ofGrammar grammar).follow? name).getD [] ↔
        terminal ∈ grammar.terminals ∧ ∃ top before after, grammar.Derives [.nonTerminal top]
          (before ++ .nonTerminal name :: .terminal terminal :: after)) ∧
      ∀ terminal, terminal ∈ ((Sets.ofGrammar grammar).follow? grammar.start).getD [] →
        ∃ rule ∈ grammar.rules, .nonTerminal grammar.start ∈ rule.rhs := by
  simp only [Grammar.derives_iff_yields]
  constructor
  · intro name terminal
    exact mem_follow_iff
  · intro terminal inside
    have follows := (mem_follow_iff.mp inside).2
    exact follows.exists_rule

theorem follow_exact_unlisted : 'b' ∈ ((Sets.ofGrammar unlisted).follow? 'B').getD [] ∧
    (∃ top before after, unlisted.Derives [.nonTerminal top]
      (before ++ .nonTerminal 'B' :: .terminal 'b' :: after)) ∧
    ((Sets.ofGrammar unlisted).follow? 'S').getD [] = [] := by
  have inside : 'b' ∈ ((Sets.ofGrammar unlisted).follow? 'B').getD [] := by decide
  obtain ⟨exact, start⟩ := follow_exact unlisted
  refine ⟨inside, ((exact 'B' 'b').mp inside).2, ?_⟩
  apply List.eq_nil_iff_forall_not_mem.mpr
  intro terminal follows
  obtain ⟨rule, listed, used⟩ := start terminal follows
  have unused : ∀ rule ∈ unlisted.rules, .nonTerminal 'S' ∉ rule.rhs := by decide
  exact unused rule listed used

end Sets

end Lookahead
