import Lookahead.Parsing.Turn
import Lookahead.Proofs.Derivation
import Lookahead.Proofs.Table

/-!
# Frames as a derivation under way

The frames of a parse are a derivation tree of its symbol with a hole in it. Each frame holds the
trees on the left of the hole at its level, and the symbols on the right of it, which have no trees
yet; the frame around it has its left side in the hole. `Grammar.Nest` says so, together with the
tokens on the left of the hole, which are the ones matched so far.

A parse keeps this (`Coherent.turn`), and it keeps what the quiet frames have in common: their rules
were chosen on the token that is now ahead, and nothing has been matched inside them.
-/

set_option autoImplicit false

namespace Lookahead

variable {Source T N : Type}

namespace Grammar

open Parsing (Frame)
open SyntaxTree (leavesAll)

/-- Frames, innermost first, around a hole for a sequence of symbols. The list of tokens is what the
frames have matched before the hole. -/
inductive Nest (grammar : Grammar T N) (root : Symbol T N) :
    List (Symbol T N) → List (Frame T N) → List (Token T) → Prop
  | top : Nest grammar root [root] [] []
  | inside {hole parsed pending : List (Symbol T N)} {rule : Rule T N}
      {children : List (SyntaxTree T N)} {frames : List (Frame T N)} {before : List (Token T)}
      (found : grammar.rules[rule.index]? = some rule)
      (split : rule.rhs = parsed ++ (hole ++ pending))
      (built : grammar.Forest parsed children.reverse)
      (outer : Nest grammar root [.nonTerminal rule.lhs] frames before) :
      Nest grammar root hole (⟨rule, pending, children⟩ :: frames)
        (before ++ leavesAll children.reverse)

namespace Nest

variable {grammar : Grammar T N} {root symbol : Symbol T N} {rule : Rule T N}
  {pending : List (Symbol T N)} {children : List (SyntaxTree T N)} {frames : List (Frame T N)}
  {matched : List (Token T)}

theorem focus (nest : grammar.Nest root [] (⟨rule, symbol :: pending, children⟩ :: frames) matched) :
    grammar.Nest root [symbol] (⟨rule, pending, children⟩ :: frames) matched := by
  cases nest with
  | inside found split built outer => exact .inside found split built outer

theorem fill {tree : SyntaxTree T N}
    (nest : grammar.Nest root [symbol] (⟨rule, pending, children⟩ :: frames) matched)
    (isTree : grammar.IsTree symbol tree) :
    grammar.Nest root [] (⟨rule, pending, tree :: children⟩ :: frames) (matched ++ tree.leaves) := by
  cases nest with
  | @inside _ parsed _ _ _ _ before found split built outer =>
      have longer : grammar.Forest (parsed ++ [symbol]) (tree :: children).reverse := by
        rw [List.reverse_cons]
        exact built.append isTree
      have splitLater : rule.rhs = (parsed ++ [symbol]) ++ ([] ++ pending) := by
        rw [split, List.append_assoc, List.nil_append]
      have placed := Nest.inside found splitLater longer outer
      have leaves : leavesAll (tree :: children).reverse =
          leavesAll children.reverse ++ tree.leaves := by simp
      rw [leaves, ← List.append_assoc] at placed
      exact placed

theorem start (nest : grammar.Nest root [.nonTerminal rule.lhs] frames matched)
    (found : grammar.rules[rule.index]? = some rule) :
    grammar.Nest root [] (.start rule :: frames) matched := by
  have split : rule.rhs = [] ++ ([] ++ rule.rhs) := rfl
  have built : grammar.Forest [] ([] : List (SyntaxTree T N)).reverse := .nil
  have placed := Nest.inside found split built nest
  rw [List.reverse_nil, SyntaxTree.leavesAll_nil, List.append_nil] at placed
  exact placed

theorem finished (nest : grammar.Nest root [] (⟨rule, [], children⟩ :: frames) matched) :
    ∃ before, matched = before ++ (Frame.tree ⟨rule, [], children⟩).leaves ∧
      grammar.IsTree (.nonTerminal rule.lhs) (Frame.tree ⟨rule, [], children⟩) ∧
      grammar.Nest root [.nonTerminal rule.lhs] frames before := by
  cases nest with
  | @inside _ parsed _ _ _ _ before found split built outer =>
      rw [List.append_nil, List.append_nil] at split
      refine ⟨before, ?_, .node found (split ▸ built) .nil, outer⟩
      rw [Frame.tree, SyntaxTree.leaves_node]

/-- The symbols on the right of the hole, from the innermost frame on. -/
def pendings (frames : List (Frame T N)) : List (Symbol T N) :=
  frames.flatMap Frame.pending

theorem yields {hole : List (Symbol T N)} (nest : grammar.Nest root hole frames matched) :
    grammar.Yields [root] (Token.word matched ++ (hole ++ pendings frames)) := by
  induction nest with
  | top => exact .refl [root]
  | @inside hole parsed pending rule children frames before found split built outer ih =>
      refine ih.trans ?_
      have side : grammar.Yields rule.rhs
          (Token.word (leavesAll children.reverse) ++ (hole ++ pending)) := by
        rw [split]
        exact built.yields.append (.refl _)
      have expanded : grammar.Yields ([.nonTerminal rule.lhs] ++ pendings frames)
          ((Token.word (leavesAll children.reverse) ++ (hole ++ pending)) ++ pendings frames) :=
        (Yields.of_rule (List.mem_of_getElem? found) side).append (.refl _)
      have whole := (Yields.refl (Token.word before)).append expanded
      simpa [pendings] using whole

end Nest

end Grammar

namespace Parsing

variable [DecidableEq T] [DecidableEq N]

/-- A frame whose rule was chosen on the token ahead, and in which nothing has been matched. -/
def Frame.Opened (table : Table T N) (ahead : Option (Token T)) (frame : Frame T N) : Prop :=
  (∃ token, ahead = some token ∧ table.get? frame.rule.lhs token.kind = some frame.rule) ∧
    SyntaxTree.leavesAll frame.children.reverse = []

/-- The states in which a parse of a symbol from some tokens may be. -/
structure Coherent (table : Table T N) (kind : TokenSource Source T) (root : Symbol T N)
    (tokens : List (Token T)) (state : State Source T N) : Prop where
  nest : table.grammar.Nest root [] (state.current :: state.parents) state.matched
  split : state.matched ++ state.feed.tokens kind = tokens
  depth : state.quiet ≤ (state.current :: state.parents).length
  opened : ∀ frame ∈ (state.current :: state.parents).take state.quiet,
    frame.Opened table (state.feed.tokens kind).head?

def Reach (table : Table T N) (kind : TokenSource Source T) :
    State Source T N → State Source T N → Prop :=
  Relation.ReflTransGen fun state next => Turn table kind state (.next next)

variable {table : Table T N} {kind : TokenSource Source T} {root : Symbol T N}
  {tokens : List (Token T)} {state next : State Source T N}

theorem coherent_opening (reading : table.Predictive) {symbol : Symbol T N} {source : Source}
    (opened : opening table kind symbol source = .next state) :
    Coherent table kind symbol (kind.drain source).1 state := by
  have case := opening_cases table kind symbol source
  rw [opened] at case
  cases case with
  | @expand name rule ahead rest seen chosen =>
      obtain ⟨listed, rfl, _⟩ := reading.chosen.mp chosen
      obtain ⟨same, others, left⟩ := Feed.tokens_of_peek seen
      refine ⟨Grammar.Nest.start .top (reading.rule_at listed), same, Nat.le_refl 1, ?_⟩
      intro frame inside
      obtain rfl := List.mem_singleton.mp inside
      refine ⟨⟨ahead, ?_, chosen⟩, rfl⟩
      rw [same, left, List.head?_cons]

/-- The quiet frames after the innermost one is closed and its tree, which has no tokens if it was
quiet, is put into the next one. -/
theorem opened_close {ahead : Option (Token T)} {frame parent : Frame T N}
    {parents : List (Frame T N)} {quiet : Nat}
    (opened : ∀ other ∈ (frame :: parent :: parents).take quiet, other.Opened table ahead) :
    ∀ other ∈ (parent.push frame.tree parent.pending :: parents).take (quiet - 1),
      other.Opened table ahead := by
  intro other inside
  match quiet with
  | 0 | 1 => cases inside
  | quiet + 2 =>
      rw [Nat.add_sub_cancel (quiet + 1) 1, List.take_succ_cons] at inside
      rw [List.take_succ_cons, List.take_succ_cons] at opened
      rcases List.mem_cons.mp inside with rfl | later
      · have emptyFrame := (opened frame List.mem_cons_self).2
        obtain ⟨chosen, emptyParent⟩ := opened parent (List.mem_cons_of_mem _ List.mem_cons_self)
        refine ⟨chosen, ?_⟩
        simp [Frame.push, Frame.tree, emptyFrame, emptyParent]
      · exact opened other (List.mem_cons_of_mem _ (List.mem_cons_of_mem _ later))

theorem opened_expand {ahead : Token T} {rule inner : Rule T N} {pending later : List (Symbol T N)}
    {children : List (SyntaxTree T N)} {parents : List (Frame T N)} {quiet : Nat}
    (chosen : table.get? inner.lhs ahead.kind = some inner)
    (opened : ∀ other ∈ ((⟨rule, pending, children⟩ : Frame T N) :: parents).take quiet,
      other.Opened table (some ahead)) :
    ∀ other ∈ (.start inner :: ⟨rule, later, children⟩ :: parents).take (quiet + 1),
      other.Opened table (some ahead) := by
  intro other inside
  rw [List.take_succ_cons] at inside
  rcases List.mem_cons.mp inside with rfl | inside
  · exact ⟨⟨ahead, rfl, chosen⟩, rfl⟩
  · cases quiet with
    | zero => cases inside
    | succ quiet =>
        rw [List.take_succ_cons] at inside opened
        rcases List.mem_cons.mp inside with rfl | inside
        · exact opened ⟨rule, pending, children⟩ List.mem_cons_self
        · exact opened other (List.mem_cons_of_mem _ inside)

theorem Coherent.turn (reading : table.Predictive) (coherent : Coherent table kind root tokens state)
    (turn : Turn table kind state (.next next)) : Coherent table kind root tokens next := by
  obtain ⟨nest, split, depth, opened⟩ := coherent
  cases turn with
  | @close rule children parent parents quiet feed events =>
      obtain ⟨before, parts, isTree, outer⟩ := nest.finished
      have filled := outer.fill isTree
      refine ⟨?_, split, ?_, opened_close opened⟩
      · rw [← parts] at filled
        exact filled
      · simp only [List.length_cons] at depth ⊢
        omega
  | @shift rule token pending children parents quiet feed rest events taken =>
      -- the token is put into the hole, and no frame is quiet any more
      refine ⟨?_, ?_, Nat.zero_le _, ?_⟩
      · have filled := nest.focus.fill (.leaf token .nil)
        rw [SyntaxTree.leaves_leaf] at filled
        simp only [State.matched, Event.tokens_matched]
        exact filled
      · simp only [State.matched, Event.tokens_matched]
        rw [List.append_assoc, List.singleton_append, ← Feed.tokens_of_take taken]
        exact split
      · intro frame inside
        cases inside
  | @expand rule name pending children parents quiet feed inner ahead rest events seen chosen =>
      obtain ⟨same, others, left⟩ := Feed.tokens_of_peek seen
      obtain ⟨listed, rfl, _⟩ := reading.chosen.mp chosen
      refine ⟨?_, ?_, ?_, ?_⟩
      · simp only [State.matched, Event.tokens_expanded]
        exact nest.focus.start (reading.rule_at listed)
      · simp only [State.matched, Event.tokens_expanded, same]
        exact split
      · exact Nat.succ_le_succ depth
      · have first : (feed.tokens kind).head? = some ahead := by rw [left, List.head?_cons]
        have firstLater : (rest.tokens kind).head? = some ahead := by rw [same, first]
        intro frame inside
        change Frame.Opened table (rest.tokens kind).head? frame
        rw [firstLater]
        exact opened_expand chosen (fun other within => first ▸ opened other within) frame inside

theorem Coherent.reach (reading : table.Predictive)
    (coherent : Coherent table kind root tokens state) (reach : Reach table kind state next) :
    Coherent table kind root tokens next := by
  induction reach with
  | refl => exact coherent
  | tail _ turn ih => exact ih.turn reading turn

end Parsing

end Lookahead
