import Lookahead.Proofs.Conflict
import Lookahead.Proofs.Expansion

/-!
# Left recursion is a conflict

The builder of tables does not look for left recursion. A non terminal that derives a form starting
with itself goes back to itself by left corners, each of them behind symbols that can be empty
(`exists_leftCorners`). If one of these non terminals starts with a terminal then all of them do, and
a table would choose on that terminal the rule of every left corner in turn. So a parser would expand
for ever on one token, which no table lets it do (`wellFounded_leadsTo`).
-/

set_option autoImplicit false

namespace Lookahead

variable {T N : Type}

namespace Grammar

/-- A rule of `outer` has `inner` behind symbols that can be empty. -/
def LeftCorner (grammar : Grammar T N) (inner outer : N) : Prop :=
  ∃ rule parsed pending, rule ∈ grammar.rules ∧ rule.lhs = outer ∧
    rule.rhs = parsed ++ .nonTerminal inner :: pending ∧ grammar.Yields parsed []

variable {grammar : Grammar T N}

/-- The first non terminal of a form stands at the end of left corners, which begin in the sequence
that yields the form, behind symbols that can be empty. -/
theorem exists_leftCorners {symbols form : List (Symbol T N)} {name : N}
    (yields : grammar.Yields symbols (.nonTerminal name :: form)) :
    ∃ parsed outer pending, symbols = parsed ++ .nonTerminal outer :: pending ∧
      grammar.Yields parsed [] ∧ Relation.ReflTransGen grammar.LeftCorner name outer := by
  generalize whole : Symbol.nonTerminal name :: form = target at yields
  induction yields generalizing form with
  | nil => cases whole
  | @keep symbol rest _ _ _ =>
      obtain ⟨rfl, _⟩ := List.cons.inj whole
      exact ⟨[], name, rest, rfl, .nil, .refl⟩
  | @expand rule rest inner _ listed side _ ihSide ih =>
      cases inner with
      | nil =>
          -- the form starts behind this symbol, which is one more that can be empty
          obtain ⟨parsed, outer, pending, rfl, empty, corners⟩ := ih whole
          exact ⟨.nonTerminal rule.lhs :: parsed, outer, pending, rfl,
            (side.of_rule listed).append empty, corners⟩
      | cons first inner =>
          obtain ⟨rfl, _⟩ := List.cons.inj whole
          obtain ⟨parsed, outer, pending, split, empty, corners⟩ := ihSide rfl
          have corner : grammar.LeftCorner outer rule.lhs :=
            ⟨rule, parsed, pending, listed, rfl, split, empty⟩
          exact ⟨[], rule.lhs, rest, rfl, .nil, corners.tail corner⟩

theorem leftCorners_of_leftRecursive {name : N} {rest : List (Symbol T N)}
    (recursive : Relation.TransGen grammar.Rewrites [.nonTerminal name] (.nonTerminal name :: rest)) :
    Relation.TransGen grammar.LeftCorner name name := by
  obtain ⟨second, rewrites, derives⟩ := Relation.TransGen.head'_iff.mp recursive
  generalize whole : [Symbol.nonTerminal name] = first at rewrites
  obtain ⟨listed, before, after⟩ := rewrites
  -- the first rewriting replaces the whole form, which is one symbol
  cases before with
  | cons symbol before =>
      have shorter := congrArg List.length whole
      simp at shorter
  | nil =>
      obtain ⟨same, rfl⟩ := List.cons.inj whole
      obtain rfl := Symbol.nonTerminal.inj same
      rw [List.nil_append, List.append_nil] at derives
      obtain ⟨parsed, outer, pending, split, empty, corners⟩ :=
        exists_leftCorners (derives_iff_yields.mp derives)
      exact .tail' corners ⟨_, parsed, pending, listed, rfl, split, empty⟩

theorem Starts.of_corner {parsed pending : List (Symbol T N)} {inner : N} {terminal : T}
    (starts : grammar.Starts [.nonTerminal inner] terminal) (empty : grammar.Yields parsed []) :
    grammar.Starts (parsed ++ .nonTerminal inner :: pending) terminal := by
  obtain ⟨form, yields⟩ := starts
  exact ⟨form ++ pending, empty.append (yields.append (.refl pending))⟩

end Grammar

variable [DecidableEq T] [DecidableEq N]

theorem LeadsTo.of_leftCorner {table : Table T N} (reading : table.Predictive) {terminal : T}
    {inner outer : N} (corner : table.grammar.LeftCorner inner outer)
    (starts : table.grammar.Starts [.nonTerminal inner] terminal) :
    LeadsTo table terminal inner outer ∧ table.grammar.Starts [.nonTerminal outer] terminal := by
  obtain ⟨rule, parsed, pending, listed, rfl, split, empty⟩ := corner
  obtain ⟨form, yields⟩ : table.grammar.Starts rule.rhs terminal := split ▸ starts.of_corner empty
  have chosen := reading.get?_of_starts listed ⟨form, yields⟩
  exact ⟨⟨rule, parsed, pending, chosen, split, empty⟩, form, yields.of_rule listed⟩

theorem LeadsTo.of_leftCorners {table : Table T N} (reading : table.Predictive) {terminal : T}
    {inner outer : N} (corners : Relation.TransGen table.grammar.LeftCorner inner outer)
    (starts : table.grammar.Starts [.nonTerminal inner] terminal) :
    Relation.TransGen (LeadsTo table terminal) inner outer ∧
      table.grammar.Starts [.nonTerminal outer] terminal := by
  induction corners with
  | single corner =>
      obtain ⟨leads, startsOuter⟩ := of_leftCorner reading corner starts
      exact ⟨.single leads, startsOuter⟩
  | tail _ corner ih =>
      obtain ⟨chain, startsMiddle⟩ := ih
      obtain ⟨leads, startsOuter⟩ := of_leftCorner reading corner startsMiddle
      exact ⟨chain.tail leads, startsOuter⟩

theorem Table.Predictive.not_starts_of_leftCorners {table : Table T N} (reading : table.Predictive)
    {name : N} (corners : Relation.TransGen table.grammar.LeftCorner name name) (terminal : T) :
    ¬ table.grammar.Starts [.nonTerminal name] terminal := by
  intro starts
  have chain := (LeadsTo.of_leftCorners reading corners starts).1
  exact (wellFounded_leadsTo reading terminal).transGen.irrefl.irrefl name chain

/-- A non terminal that derives, in one step or more, a form that starts with itself keeps its
grammar from having a table, unless its FIRST set is empty. -/
theorem Table.conflict_of_leftRecursive {rules : List (Rule T N)} {start : N}
    {grammar : Grammar T N} (accepted : Grammar.ofRules rules start = .ok grammar) {name : N}
    {rest : List (Symbol T N)} {row : List T}
    (recursive : Relation.TransGen grammar.Rewrites [.nonTerminal name] (.nonTerminal name :: rest))
    (entry : (Sets.ofGrammar grammar).first? (.nonTerminal name) = some row) (inhabited : row ≠ []) :
    ∃ conflict, ofGrammar grammar = .error (.conflict conflict) := by
  cases outcome : ofGrammar grammar with
  | error error =>
      obtain ⟨conflict, rfl, _⟩ := conflict_of_error accepted outcome
      exact ⟨conflict, rfl⟩
  | ok table =>
      obtain ⟨rfl, reading⟩ := predictive_of_ofGrammar accepted outcome
      obtain ⟨terminal, inside⟩ := List.exists_mem_of_ne_nil row inhabited
      have starts := (Sets.mem_firstOf_iff.mp ((Sets.mem_firstOf_singleton entry).mpr inside)).2
      have corners := Grammar.leftCorners_of_leftRecursive recursive
      exact absurd starts (reading.not_starts_of_leftCorners corners terminal)

/-- The recursion of `S` goes through `A`, behind a `B` that derives nothing else than the empty
string. -/
def hiddenRecursion : List (Rule Char Char) :=
  [⟨0, 'S', [.nonTerminal 'A', .terminal 'x']⟩, ⟨1, 'S', [.terminal 'y']⟩,
    ⟨2, 'A', [.nonTerminal 'B', .nonTerminal 'S']⟩, ⟨3, 'B', []⟩]

theorem Table.conflict_of_leftRecursive_hidden : ∃ grammar conflict,
    Grammar.ofRules hiddenRecursion 'S' = .ok grammar ∧
      Relation.TransGen grammar.Rewrites [.nonTerminal 'S']
        [.nonTerminal 'S', .terminal 'x'] ∧
      (Sets.ofGrammar grammar).first? (.nonTerminal 'S') = some ['y'] ∧
      ofGrammar grammar = .error (.conflict conflict) := by
  obtain ⟨grammar, accepted, sRule, aRule, bRule, entry⟩ : ∃ grammar : Grammar Char Char,
      Grammar.ofRules hiddenRecursion 'S' = .ok grammar ∧
        ⟨0, 'S', [.nonTerminal 'A', .terminal 'x']⟩ ∈ grammar.rules ∧
        ⟨2, 'A', [.nonTerminal 'B', .nonTerminal 'S']⟩ ∈ grammar.rules ∧
        ⟨3, 'B', []⟩ ∈ grammar.rules ∧
        (Sets.ofGrammar grammar).first? (.nonTerminal 'S') = some ['y'] :=
    ⟨_, rfl, by decide, by decide, by decide, by decide⟩
  have recursive : Relation.TransGen grammar.Rewrites [.nonTerminal 'S']
      [.nonTerminal 'S', .terminal 'x'] :=
    .head (.apply sRule [] []) (.head (.apply aRule [] [.terminal 'x'])
      (.single (.apply bRule [] [.nonTerminal 'S', .terminal 'x'])))
  obtain ⟨conflict, outcome⟩ := conflict_of_leftRecursive accepted recursive entry (by decide)
  exact ⟨grammar, conflict, accepted, recursive, entry, outcome⟩

end Lookahead
