import Lookahead.Parsing.Machine
import Lookahead.Proofs.Expansion
import Lookahead.Proofs.Frames

/-!
# Every parse ends

The quiet frames of a coherent state lead to each other on the token ahead, so there are at most as
many as the grammar has rules (`Coherent.quiet_le`). The bound that a step of the parser checks
therefore always holds: with a table, a step is a turn (`Coherent.step_eq`), and what `run` returns
is what the turns alone lead to (`Coherent.ends`).
-/

set_option autoImplicit false

namespace Lookahead

variable {Source T N : Type} [DecidableEq T] [DecidableEq N]

namespace Parsing

variable {table : Table T N} {kind : TokenSource Source T} {root : Symbol T N}
  {tokens : List (Token T)} {state next : State Source T N}

theorem isChain_of_nest {hole : List (Symbol T N)} {frames : List (Frame T N)}
    {matched : List (Token T)} {ahead : Token T} {quiet : Nat}
    (nest : table.grammar.Nest root hole frames matched)
    (opened : ∀ frame ∈ frames.take quiet, frame.Opened table (some ahead)) :
    List.IsChain (fun inner outer => LeadsTo table ahead.kind inner.lhs outer.lhs)
      ((frames.take quiet).map Frame.rule) := by
  induction frames generalizing quiet hole matched with
  | nil =>
      rw [List.take_nil]
      exact .nil
  | cons inner frames ih =>
      match quiet, frames with
      | 0, _ => exact .nil
      | _ + 1, [] =>
          rw [List.take_succ_cons, List.take_nil]
          exact .singleton _
      | 1, _ :: _ => exact .singleton _
      | quiet + 2, outer :: frames =>
          rw [List.take_succ_cons] at opened ⊢
          cases nest with
          | inside _ _ _ around =>
              have openedAround : ∀ frame ∈ (outer :: frames).take (quiet + 1),
                  frame.Opened table (some ahead) :=
                fun frame within => opened frame (List.mem_cons_of_mem _ within)
              have chain := ih around openedAround
              rw [List.take_succ_cons] at opened chain ⊢
              refine List.isChain_cons_cons.mpr ⟨?_, chain⟩
              cases around with
              | @inside _ parsed pending rule children _ _ found split built _ =>
                  -- nothing was matched in the outer frame, so what stands before the hole there
                  -- can be empty
                  obtain ⟨⟨token, same, chosen⟩, empty⟩ := opened ⟨rule, pending, children⟩
                    (List.mem_cons_of_mem _ List.mem_cons_self)
                  obtain rfl := Option.some.inj same
                  have erased := built.yields
                  rw [empty] at erased
                  exact ⟨rule, parsed, pending, chosen, split, erased⟩

/-- On one token, no more frames are opened inside each other than the grammar has rules. -/
theorem Coherent.quiet_le (reading : table.Predictive)
    (coherent : Coherent table kind root tokens state) :
    state.quiet ≤ table.grammar.rules.length := by
  obtain ⟨nest, _, depth, opened⟩ := coherent
  cases quiet : state.quiet with
  | zero => exact Nat.zero_le _
  | succ count =>
      rw [quiet] at opened depth
      obtain ⟨⟨ahead, first, _⟩, _⟩ := opened state.current (by simp)
      rw [first] at opened
      have chain := isChain_of_nest nest opened
      -- the quiet frames chose their rules on one token, and lead to each other
      have chosen : ∀ rule ∈ ((state.current :: state.parents).take (count + 1)).map Frame.rule,
          table.get? rule.lhs ahead.kind = some rule := by
        intro rule inside
        obtain ⟨frame, within, rfl⟩ := List.mem_map.mp inside
        obtain ⟨⟨token, same, chosen⟩, _⟩ := opened frame within
        obtain rfl := Option.some.inj same
        exact chosen
      have bound := length_le_of_leadsTo reading chosen chain
      rw [List.length_map, List.length_take, Nat.min_eq_left depth] at bound
      exact bound

theorem Coherent.step_eq (reading : table.Predictive)
    (coherent : Coherent table kind root tokens state) :
    step table kind state = advance table kind state := by
  unfold step
  split
  · rename_i run advanced
    rw [advanced]
  · rename_i next advanced
    have bound := (coherent.turn reading (turn_iff.mpr advanced)).quiet_le reading
    rw [if_pos bound, advanced]

theorem Coherent.ends (reading : table.Predictive)
    (coherent : Coherent table kind root tokens state) :
    ∃ last, Reach table kind state last ∧ Turn table kind last (.done (run table kind state)) := by
  fun_induction run table kind state with
  | case1 state result stepped =>
      rw [coherent.step_eq reading] at stepped
      exact ⟨state, .refl, turn_iff.mpr stepped⟩
  | case2 state next stepped ih =>
      rw [coherent.step_eq reading] at stepped
      have turn := turn_iff.mpr stepped
      obtain ⟨last, reach, done⟩ := ih (coherent.turn reading turn)
      exact ⟨last, .head turn reach, done⟩

theorem Coherent.run_eq (reading : table.Predictive) {last : State Source T N}
    {result : Run Source T N} (coherent : Coherent table kind root tokens state)
    (reach : Reach table kind state last) (done : Turn table kind last (.done result)) :
    run table kind state = result := by
  induction reach using Relation.ReflTransGen.head_induction_on with
  | refl =>
      have stepped := coherent.step_eq reading
      rw [turn_iff.mp done] at stepped
      rw [run]
      split
      · rename_i ended
        rw [stepped] at ended
        exact (Step.done.inj ended).symm
      · rename_i went
        rw [stepped] at went
        cases went
  | head turn _ ih =>
      have stepped := coherent.step_eq reading
      rw [turn_iff.mp turn] at stepped
      rw [run]
      split
      · rename_i ended
        rw [stepped] at ended
        cases ended
      · rename_i went
        rw [stepped] at went
        obtain rfl := Step.next.inj went
        exact ih (coherent.turn reading turn)

/-- The loop of a parse cut off after some turns. -/
def turns (table : Table T N) (kind : TokenSource Source T) :
    Nat → Step Source T N → Step Source T N
  | 0, step => step
  | _ + 1, .done run => .done run
  | count + 1, .next state => turns table kind count (advance table kind state)

theorem turns_of_reach {run : Run Source T N} (reach : Reach table kind state next)
    (done : Turn table kind next (.done run)) :
    ∃ count, turns table kind count (.next state) = .done run := by
  induction reach using Relation.ReflTransGen.head_induction_on with
  | refl => exact ⟨1, turn_iff.mp done⟩
  | head turn _ ih =>
      obtain ⟨count, ended⟩ := ih
      refine ⟨count + 1, ?_⟩
      rw [turns, turn_iff.mp turn, ended]

theorem turns_of_endless {states : Nat → State Source T N}
    (goes : ∀ index, advance table kind (states index) = .next (states (index + 1)))
    (count index : Nat) :
    turns table kind count (.next (states index)) = .next (states (index + count)) := by
  induction count generalizing index with
  | zero => rfl
  | succ count ih =>
      rw [turns, goes index, ih]
      congr 2
      omega

theorem Turn.not_endless {result : Run Source T N} (done : Turn table kind state (.done result))
    (name : N) : result.outcome ≠ .error (.endless name) := by
  cases done <;> simp

theorem ends_of_parseSymbol (reading : table.Predictive) {symbol : Symbol T N} {source : Source}
    {result : Run Source T N} (ended : table.parseSymbol kind symbol source = result) :
    opening table kind symbol source = .done result ∨
      ∃ first last, opening table kind symbol source = .next first ∧
        Reach table kind first last ∧
        Coherent table kind symbol (kind.drain source).1 last ∧
        Turn table kind last (.done result) := by
  cases opened : opening table kind symbol source with
  | done early =>
      rw [Table.parseSymbol_of_done opened] at ended
      exact .inl (ended ▸ rfl)
  | next first =>
      rw [Table.parseSymbol_of_next opened] at ended
      have coherent := coherent_opening reading opened
      obtain ⟨last, reach, done⟩ := coherent.ends reading
      exact .inr ⟨first, last, rfl, reach, coherent.reach reading reach, ended ▸ done⟩

/-- With a table the loop stops after finitely many turns, and what it then has is what the parser
returns. It never runs into the bound on expansions. -/
theorem parseSymbol_terminates {rules : List (Rule T N)} {start : N} {grammar : Grammar T N}
    {table : Table T N} (accepted : Grammar.ofRules rules start = .ok grammar)
    (built : Table.ofGrammar grammar = .ok table) (kind : TokenSource Source T)
    (symbol : Symbol T N) (source : Source) :
    (∃ count, turns table kind count (opening table kind symbol source) =
        .done (table.parseSymbol kind symbol source)) ∧
      (∀ name, (table.parseSymbol kind symbol source).outcome ≠ .error (.endless name)) ∧
      ¬ ∃ states : Nat → State Source T N, opening table kind symbol source = .next (states 0) ∧
        ∀ index, advance table kind (states index) = .next (states (index + 1)) := by
  obtain ⟨rfl, reading⟩ := Table.predictive_of_ofGrammar accepted built
  generalize ended : table.parseSymbol kind symbol source = result
  rcases ends_of_parseSymbol reading ended with opened | ⟨first, last, opened, reach, _, done⟩
  · rw [opened]
    refine ⟨⟨0, rfl⟩, ?_, ?_⟩
    · have case := opening_cases table kind symbol source
      rw [opened] at case
      intro name
      cases case <;> simp
    · rintro ⟨states, begins, _⟩
      cases begins
  · obtain ⟨count, stops⟩ := turns_of_reach reach done
    rw [opened]
    refine ⟨⟨count, stops⟩, done.not_endless, ?_⟩
    rintro ⟨states, begins, goes⟩
    obtain rfl := Step.next.inj begins
    rw [turns_of_endless goes count 0] at stops
    cases stops

theorem parseSymbol_terminates_cyclic : ∃ (grammar : Grammar Nat Nat) (table : Table Nat Nat),
    Grammar.ofRules [⟨0, 0, [.nonTerminal 1, .terminal 7]⟩, ⟨1, 1, []⟩, ⟨2, 2, [.nonTerminal 3]⟩,
      ⟨3, 3, [.nonTerminal 2]⟩] 0 = .ok grammar ∧
    Table.ofGrammar grammar = .ok table ∧
    ∃ count, turns table .list count (opening table .list (.nonTerminal 0) [⟨7, "7", 0⟩]) =
      .done (table.parseSymbol .list (.nonTerminal 0) [⟨7, "7", 0⟩]) := by
  obtain ⟨grammar, table, accepted, built⟩ : ∃ (grammar : Grammar Nat Nat) (table : Table Nat Nat),
      Grammar.ofRules [⟨0, 0, [.nonTerminal 1, .terminal 7]⟩, ⟨1, 1, []⟩, ⟨2, 2, [.nonTerminal 3]⟩,
        ⟨3, 3, [.nonTerminal 2]⟩] 0 = .ok grammar ∧ Table.ofGrammar grammar = .ok table :=
    ⟨_, _, rfl, rfl⟩
  have ends := parseSymbol_terminates accepted built .list (.nonTerminal 0) [⟨7, "7", 0⟩]
  exact ⟨grammar, table, accepted, built, ends.1⟩

end Parsing

end Lookahead
