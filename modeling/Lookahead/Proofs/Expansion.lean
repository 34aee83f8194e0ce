import Lookahead.Proofs.Table
import Mathlib.Data.List.Chain
import Mathlib.Data.List.Perm.Subperm
import Mathlib.Order.WellFounded

/-!
# Expansions on one token

While a token is ahead and not taken, a parser may expand a non terminal that stands in the chosen
rule of another, behind symbols that can be empty (`LeadsTo`). This cannot go on for ever
(`wellFounded_leadsTo`). A rule that is chosen because it starts with the token is the first step of
a derivation of a form that starts with it, and a rule that is chosen because it can be empty is the
first step of a derivation of nothing. Since no other rule is chosen on that token, expansions only
follow that derivation.
-/

set_option autoImplicit false

namespace Lookahead

variable {T N : Type} [DecidableEq T] [DecidableEq N]

/-- On a terminal, the chosen rule of `outer` has `inner` behind symbols that can be empty. -/
def LeadsTo (table : Table T N) (terminal : T) (inner outer : N) : Prop :=
  ∃ rule parsed pending, table.get? outer terminal = some rule ∧
    rule.rhs = parsed ++ .nonTerminal inner :: pending ∧ table.grammar.Yields parsed []

namespace LeadsTo

variable {table : Table T N} {terminal : T}

theorem acc_of_chosen {name : N} {rule : Rule T N}
    (chosen : table.get? name terminal = some rule)
    (inside : ∀ parsed inner pending, rule.rhs = parsed ++ .nonTerminal inner :: pending →
      table.grammar.Yields parsed [] → Acc (LeadsTo table terminal) inner) :
    Acc (LeadsTo table terminal) name := by
  refine .intro name fun inner leads => ?_
  obtain ⟨other, parsed, pending, chosenOther, split, empty⟩ := leads
  rw [chosen] at chosenOther
  obtain rfl := Option.some.inj chosenOther
  exact inside parsed inner pending split empty

theorem acc_of_unfilled {name : N} (unfilled : table.get? name terminal = none) :
    Acc (LeadsTo table terminal) name := by
  refine .intro name fun inner leads => ?_
  obtain ⟨rule, _, _, chosen, _⟩ := leads
  rw [unfilled] at chosen
  cases chosen

/-- The non terminals of symbols that can be empty before the terminal are accessible. The induction
is on how the symbols become empty: the rules used there are the chosen ones. -/
theorem acc_of_empty (reading : table.Predictive) (known : terminal ∈ table.grammar.terminals)
    {symbols : List (Symbol T N)} {beyond : T → Prop} (covers : table.sets.Covers symbols beyond)
    (trails : beyond terminal) (empty : table.grammar.Yields symbols []) {name : N}
    (inside : .nonTerminal name ∈ symbols) : Acc (LeadsTo table terminal) name := by
  generalize whole : ([] : List (Symbol T N)) = form at empty
  induction empty generalizing beyond name with
  | nil => cases inside
  | keep _ _ _ => cases whole
  | @expand rule rest inner form listed side later ihSide ih =>
      obtain ⟨rfl, rfl⟩ := List.nil_eq_append_iff.mp whole
      rcases List.mem_cons.mp inside with same | further
      · obtain rfl := Symbol.nonTerminal.inj same
        have follows : terminal ∈ table.sets.follow.row rule.lhs :=
          reading.head_mem_follow covers later known (.inr ⟨rfl, trails⟩)
        refine acc_of_chosen (reading.get?_of_empty listed side follows) ?_
        intro parsed other pending split _
        refine ihSide (reading.covers listed) follows ?_ rfl
        rw [split]
        exact List.mem_append_right parsed List.mem_cons_self
      · exact ih covers.tail trails further rfl

theorem acc_of_chosen_empty (reading : table.Predictive)
    (known : terminal ∈ table.grammar.terminals) {name : N}
    {rule : Rule T N} (chosen : table.get? name terminal = some rule)
    (listed : rule ∈ table.grammar.rules) (same : rule.lhs = name)
    (empty : table.grammar.Yields rule.rhs []) (follows : terminal ∈ table.sets.follow.row name) :
    Acc (LeadsTo table terminal) name := by
  refine acc_of_chosen chosen fun parsed inner pending split _ => ?_
  refine acc_of_empty reading known (reading.covers listed) (same ▸ follows) empty ?_
  rw [split]
  exact List.mem_append_right parsed List.mem_cons_self

/-- A non terminal is accessible behind symbols that can be empty, the first of which starts with
the terminal. It cannot start with the terminal itself, which would then follow the first symbol. -/
theorem acc_behind (reading : table.Predictive) (known : terminal ∈ table.grammar.terminals)
    {rule : Rule T N} (listed : rule ∈ table.grammar.rules) {parsed pending : List (Symbol T N)}
    {name : N} {beyond : T → Prop}
    (covers : table.sets.Covers (.nonTerminal rule.lhs :: (parsed ++ .nonTerminal name :: pending))
      beyond)
    (starts : table.grammar.Starts rule.rhs terminal)
    (empty : table.grammar.Yields (.nonTerminal rule.lhs :: parsed) []) :
    Acc (LeadsTo table terminal) name := by
  have emptyParts : table.grammar.Yields ([.nonTerminal rule.lhs] ++ parsed) [] := empty
  obtain ⟨emptyFirst, emptyRest⟩ := Grammar.Yields.append_nil_iff.mp emptyParts
  obtain ⟨inner, side⟩ := starts
  cases chosen : table.get? name terminal with
  | none => exact acc_of_unfilled chosen
  | some ruleName =>
      obtain ⟨listedName, rfl, _, ⟨form, yieldsName⟩ | ⟨emptyName, followsName⟩⟩ :=
        reading.get?_iff.mp chosen
      · have yieldsRest : table.grammar.Yields (parsed ++ .nonTerminal ruleName.lhs :: pending)
            (.terminal terminal :: (form ++ pending)) :=
          emptyRest.append (.expand listedName yieldsName (.refl pending))
        -- the name behind would put the terminal into FOLLOW of the first symbol
        have follows : terminal ∈ table.sets.follow.row rule.lhs :=
          reading.head_mem_follow covers yieldsRest known (.inl ⟨_, rfl⟩)
        have startsFirst : table.grammar.Starts [.nonTerminal rule.lhs] terminal :=
          ⟨inner, .of_rule listed side⟩
        have notStarts := reading.not_starts_of_empty (.singleton fun _ held => held) emptyFirst
          known follows
        exact absurd startsFirst notStarts
      · exact acc_of_chosen_empty reading known chosen listedName rfl emptyName followsName

/-- Behind symbols that can be empty, the non terminals of symbols that start with the terminal are
accessible. The induction is on the derivation of the form that starts with it. -/
theorem acc_of_starts (reading : table.Predictive) (known : terminal ∈ table.grammar.terminals)
    {symbols : List (Symbol T N)} {beyond : T → Prop} (covers : table.sets.Covers symbols beyond)
    (starts : table.grammar.Starts symbols terminal) {parsed pending : List (Symbol T N)} {name : N}
    (split : symbols = parsed ++ .nonTerminal name :: pending)
    (empty : table.grammar.Yields parsed []) : Acc (LeadsTo table terminal) name := by
  obtain ⟨after, yields⟩ := starts
  generalize whole : Symbol.terminal terminal :: after = form at yields
  induction yields generalizing beyond parsed pending name after with
  | nil => cases whole
  | keep symbol _ _ =>
      obtain ⟨rfl, _⟩ := List.cons.inj whole
      cases parsed with
      | nil => cases (List.cons.inj split).1
      | cons first parsed =>
          obtain ⟨rfl, _⟩ := List.cons.inj split
          cases empty
  | @expand rule rest inner form listed side later ihSide ih =>
      -- either the first symbol derives nothing, or the terminal is the first that it derives
      cases inner with
      | nil =>
          cases parsed with
          | nil =>
              obtain ⟨same, rfl⟩ := List.cons.inj split
              obtain rfl := Symbol.nonTerminal.inj same
              have follows : terminal ∈ table.sets.follow.row rule.lhs :=
                reading.head_mem_follow covers later known (.inl ⟨after, whole.symm⟩)
              exact acc_of_chosen_empty reading known (reading.get?_of_empty listed side follows)
                listed rfl side follows
          | cons first parsed =>
              obtain ⟨rfl, splitRest⟩ := List.cons.inj split
              obtain ⟨_, _, _, _, emptyRest⟩ := empty.exists_rule_of_nil
              exact ih covers.tail splitRest emptyRest after whole
      | cons first inner =>
          obtain ⟨rfl, _⟩ := List.cons.inj whole
          have chosen := reading.get?_of_starts listed ⟨inner, side⟩
          cases parsed with
          | nil =>
              obtain ⟨same, rfl⟩ := List.cons.inj split
              obtain rfl := Symbol.nonTerminal.inj same
              refine acc_of_chosen chosen fun parsed other pending splitSide emptySide => ?_
              exact ihSide (reading.covers listed) splitSide emptySide inner rfl
          | cons _ parsed =>
              obtain ⟨rfl, rfl⟩ := List.cons.inj split
              exact acc_behind reading known listed covers ⟨inner, side⟩ empty

end LeadsTo

/-- Expansions on one token do not follow each other for ever. -/
theorem wellFounded_leadsTo {table : Table T N} (reading : table.Predictive) (terminal : T) :
    WellFounded (LeadsTo table terminal) := by
  refine ⟨fun name => ?_⟩
  cases chosen : table.get? name terminal with
  | none => exact LeadsTo.acc_of_unfilled chosen
  | some rule =>
      obtain ⟨listed, same, known, starts | ⟨empty, follows⟩⟩ := reading.get?_iff.mp chosen
      · refine LeadsTo.acc_of_chosen chosen fun parsed inner pending split emptyParsed => ?_
        exact LeadsTo.acc_of_starts reading known (reading.covers listed) starts split emptyParsed
      · exact LeadsTo.acc_of_chosen_empty reading known chosen listed same empty follows

theorem length_le_of_leadsTo {table : Table T N} (reading : table.Predictive) {terminal : T}
    {rules : List (Rule T N)}
    (chosen : ∀ rule ∈ rules, table.get? rule.lhs terminal = some rule)
    (chain : List.IsChain (fun inner outer => LeadsTo table terminal inner.lhs outer.lhs) rules) :
    rules.length ≤ table.grammar.rules.length := by
  have apart : rules.Pairwise fun inner outer =>
      Relation.TransGen (LeadsTo table terminal) inner.lhs outer.lhs := by
    have chainTrans : List.IsChain (fun inner outer : Rule T N =>
        Relation.TransGen (LeadsTo table terminal) inner.lhs outer.lhs) rules :=
      chain.imp fun _ _ leads => .single leads
    exact chainTrans.pairwise
  have nodup : rules.Nodup := by
    refine apart.imp fun {inner outer} leads same => ?_
    subst same
    exact (wellFounded_leadsTo reading terminal).transGen.irrefl.irrefl _ leads
  have listed : rules ⊆ table.grammar.rules :=
    fun rule inside => Table.mem_rules_of_get? (chosen rule inside)
  exact (List.subperm_of_subset nodup listed).length_le

end Lookahead
