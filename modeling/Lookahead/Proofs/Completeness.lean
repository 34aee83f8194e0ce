import Lookahead.Proofs.Termination
import Mathlib.Data.List.Permutation

/-!
# Soundness and completeness

What a parser returns is a derivation tree of tokens it has taken, and the derivation tree of tokens
that end where one can tell is returned.
-/

set_option autoImplicit false

namespace Lookahead

/-!
## Parsed trees are derivation trees

When the last turn finishes the outermost frame, the hole of the derivation under way has shrunk to
the whole of it. The tree of that frame is a derivation tree of the symbol that was asked for, and
its tokens are the ones that were matched, which the source gave first and in that order.
-/

namespace Parsing

variable {Source T N : Type} [DecidableEq T] [DecidableEq N]

theorem Coherent.isTree_of_finish {table : Table T N} {kind : TokenSource Source T}
    {root : Symbol T N} {tokens : List (Token T)} {state : State Source T N}
    {result : Run Source T N} {tree : SyntaxTree T N}
    (coherent : Coherent table kind root tokens state)
    (done : Turn table kind state (.done result)) (parsed : result.outcome = .ok tree) :
    table.grammar.IsTree root tree ∧ tree.leaves <+: tokens := by
  obtain ⟨nest, split, _, _⟩ := coherent
  cases done with
  | @finish rule children quiet feed events =>
      obtain rfl := Except.ok.inj parsed
      obtain ⟨before, matched, isTree, outer⟩ := nest.finished
      cases outer
      rw [List.nil_append] at matched
      rw [matched] at split
      exact ⟨isTree, _, split⟩
  | noToken => cases parsed
  | otherToken => cases parsed
  | noLookahead => cases parsed
  | noRule => cases parsed

theorem isTree_of_parse {table : Table T N} (reading : table.Predictive)
    {kind : TokenSource Source T} {source : Source} {tree : SyntaxTree T N}
    (parsed : (table.parse kind source).outcome = .ok tree) :
    table.grammar.IsTree (.nonTerminal table.grammar.start) tree ∧
      tree.leaves <+: (kind.drain source).1 := by
  generalize ended : table.parse kind source = result at parsed
  rcases ends_of_parseSymbol reading ended with opened | ⟨_, last, _, _, coherent, done⟩
  · have case := opening_cases table kind (.nonTerminal table.grammar.start) source
    rw [opened] at case
    cases case with
    | noLookahead => cases parsed
    | noRule => cases parsed
  · exact coherent.isTree_of_finish done parsed

/-- A tree that is returned for a symbol is a derivation tree of it, whose tokens are the first ones
of the source. -/
theorem parseSymbol_sound {rules : List (Rule T N)} {start : N} {grammar : Grammar T N}
    {table : Table T N} (accepted : Grammar.ofRules rules start = .ok grammar)
    (built : Table.ofGrammar grammar = .ok table) (kind : TokenSource Source T)
    (symbol : Symbol T N) (source : Source) (tree : SyntaxTree T N)
    (parsed : (table.parseSymbol kind symbol source).outcome = .ok tree) :
    grammar.IsTree symbol tree ∧ tree.leaves <+: (kind.drain source).1 := by
  obtain ⟨rfl, reading⟩ := Table.predictive_of_ofGrammar accepted built
  generalize ended : table.parseSymbol kind symbol source = result at parsed
  rcases ends_of_parseSymbol reading ended with opened | ⟨_, last, _, _, coherent, done⟩
  · have case := opening_cases table kind symbol source
    rw [opened] at case
    cases case with
    | @leaf token rest taken =>
        obtain rfl := Except.ok.inj parsed
        refine ⟨.leaf token .nil, rest.tokens kind, ?_⟩
        rw [SyntaxTree.leaves_leaf, List.singleton_append, ← Feed.tokens_of_take taken]
        rfl
    | noToken => cases parsed
    | otherToken => cases parsed
    | noLookahead => cases parsed
    | noRule => cases parsed
  · exact coherent.isTree_of_finish done parsed

theorem parseSymbol_sound_nested : ∃ grammar table tree,
    Grammar.ofRules nested 'S' = .ok grammar ∧ Table.ofGrammar grammar = .ok table ∧
      (table.parseSymbol .list (.nonTerminal 'S')
        [⟨'a', "a", 0⟩, ⟨'b', "b", 1⟩, ⟨'a', "a", 2⟩]).outcome = .ok tree ∧
      grammar.IsTree (.nonTerminal 'S') tree ∧
      tree.leaves <+: (TokenSource.list.drain
        [⟨'a', "a", 0⟩, ⟨'b', "b", 1⟩, ⟨'a', "a", 2⟩]).1 := by
  obtain ⟨grammar, table, accepted, built, parsed⟩ : ∃ grammar table,
      Grammar.ofRules nested 'S' = .ok grammar ∧ Table.ofGrammar grammar = .ok table ∧
        (table.parseSymbol .list (.nonTerminal 'S')
          [⟨'a', "a", 0⟩, ⟨'b', "b", 1⟩, ⟨'a', "a", 2⟩]).outcome =
          .ok (.node (.nonTerminal 'S') (some 0) [.leaf ⟨'a', "a", 0⟩,
            .node (.nonTerminal 'S') (some 1) [], .leaf ⟨'b', "b", 1⟩]) :=
    ⟨_, _, rfl, rfl, by cbv⟩
  have sound := parseSymbol_sound accepted built .list (.nonTerminal 'S') _ _ parsed
  exact ⟨grammar, table, _, accepted, built, parsed, sound⟩

end Parsing

/-!
## Derivation trees are parsed

The tokens of a derivation tree, with something after them that tells where the tree ends, are
parsed into that tree and no other. Each expansion is the one that the tree has at its place: the
token ahead is the first one below that node, or if there is none below it, the first one after it,
which is in FOLLOW of the node's non terminal (`chosen_of_forest`). The induction is on the trees
for the pending symbols of the innermost frame (`reach_of_forest`).
-/

variable {Source T N : Type} [DecidableEq T] [DecidableEq N]

/-- What stands after a tree tells where it ends: a token in FOLLOW of its non terminal, or anything
if the rule at its root ends in a terminal. -/
def Table.Delimits (table : Table T N) (name : N) (tree : SyntaxTree T N)
    (rest : List (Token T)) : Prop :=
  (∃ token others, rest = token :: others ∧ token.kind ∈ table.sets.follow.row name) ∨
    ∃ position rule terminal, tree.rule? = some position ∧
      table.grammar.rules[position]? = some rule ∧
      rule.rhs.getLast? = some (.terminal terminal)

namespace Parsing

open SyntaxTree (leavesAll)

variable {table : Table T N} {kind : TokenSource Source T}

/-- The pending symbols of a rule end in a terminal if there are any, or what stands after them can
follow the left side. -/
def Ends (table : Table T N) (rule : Rule T N) (symbols : List (Symbol T N))
    (rest : List (Token T)) : Prop :=
  (∃ token others, rest = token :: others ∧ token.kind ∈ table.sets.follow.row rule.lhs) ∨
    ∀ last, symbols.getLast? = some last → last.isTerminal = true

omit [DecidableEq T] in
theorem Ends.tail {rule : Rule T N} {symbol : Symbol T N} {symbols : List (Symbol T N)}
    {rest : List (Token T)} (ends : Ends table rule (symbol :: symbols) rest) :
    Ends table rule symbols rest := by
  refine ends.imp_right fun terminal last isLast => terminal last ?_
  rw [List.getLast?_cons, isLast, Option.getD_some]

theorem next_of_forest (reading : table.Predictive) {rule : Rule T N}
    (listed : rule ∈ table.grammar.rules) {before symbols : List (Symbol T N)} {name : N}
    (split : rule.rhs = before ++ .nonTerminal name :: symbols) {trees : List (SyntaxTree T N)}
    (forest : table.grammar.Forest symbols trees) {rest : List (Token T)}
    (ends : Ends table rule (.nonTerminal name :: symbols) rest) :
    ∃ token others, leavesAll trees ++ rest = token :: others ∧
      token.kind ∈ table.sets.follow.row name := by
  have yields := forest.yields
  cases leaves : leavesAll trees with
  | cons token others =>
      rw [leaves] at yields
      refine ⟨token, others ++ rest, rfl, ?_⟩
      exact reading.mem_follow_of_next listed split yields (.inl ⟨_, rfl⟩)
  | nil =>
      rw [leaves] at yields
      rcases ends with ⟨token, others, rfl, follows⟩ | terminal
      · refine ⟨token, others, rfl, ?_⟩
        exact reading.mem_follow_of_next listed split yields (.inr ⟨rfl, follows⟩)
      · -- the last symbol is a terminal, which has a token
        cases last : symbols.getLast? with
        | none =>
            rw [List.getLast?_eq_none_iff.mp last] at terminal
            cases terminal _ rfl
        | some symbol =>
            have isTerminal := terminal symbol (by rw [List.getLast?_cons, last, Option.getD_some])
            cases symbol with
            | terminal other => exact absurd (List.mem_of_getLast? last) (yields.not_mem_of_nil other)
            | nonTerminal _ => cases isTerminal

theorem chosen_of_forest (reading : table.Predictive) {rule : Rule T N}
    (listed : rule ∈ table.grammar.rules) {children : List (SyntaxTree T N)}
    (forest : table.grammar.Forest rule.rhs children) {rest : List (Token T)}
    (next : (∃ token others, rest = token :: others ∧
      token.kind ∈ table.sets.follow.row rule.lhs) ∨ ∃ terminal, .terminal terminal ∈ rule.rhs) :
    ∃ token others, leavesAll children ++ rest = token :: others ∧
      table.get? rule.lhs token.kind = some rule := by
  have yields := forest.yields
  cases leaves : leavesAll children with
  | cons token others =>
      rw [leaves] at yields
      exact ⟨token, others ++ rest, rfl, reading.get?_of_starts listed ⟨_, yields⟩⟩
  | nil =>
      rw [leaves] at yields
      rcases next with ⟨token, others, rfl, follows⟩ | ⟨terminal, inside⟩
      · exact ⟨token, others, rfl, reading.get?_of_empty listed yields follows⟩
      · exact absurd inside (yields.not_mem_of_nil terminal)

/-- Tokens of trees for the pending symbols of the innermost frame are parsed into these trees. -/
theorem reach_of_forest (reading : table.Predictive) {symbols : List (Symbol T N)}
    {trees : List (SyntaxTree T N)} (forest : table.grammar.Forest symbols trees)
    {rule : Rule T N} (listed : rule ∈ table.grammar.rules) {before : List (Symbol T N)}
    (split : rule.rhs = before ++ symbols) {rest : List (Token T)}
    (ends : Ends table rule symbols rest) {children : List (SyntaxTree T N)}
    {parents : List (Frame T N)} {quiet : Nat} {feed : Feed Source T} {events : List (Event T N)}
    (left : feed.tokens kind = leavesAll trees ++ rest) :
    ∃ quietAfter feedAfter eventsAfter,
      Reach table kind ⟨⟨rule, symbols, children⟩, parents, quiet, feed, events⟩
        ⟨⟨rule, [], trees.reverse ++ children⟩, parents, quietAfter, feedAfter, eventsAfter⟩ ∧
      feedAfter.tokens kind = rest := by
  induction forest generalizing rule before rest children parents quiet feed events with
  | nil => exact ⟨quiet, feed, events, .refl, left⟩
  | @leaf token symbols trees later ih =>
      rw [SyntaxTree.leavesAll_cons, SyntaxTree.leaves_leaf] at left
      obtain ⟨feedLater, taken, leftLater⟩ := Feed.take_of_tokens left
      have splitLater : rule.rhs = (before ++ [.terminal token.kind]) ++ symbols := by
        rw [split, List.append_assoc, List.singleton_append]
      obtain ⟨quietAfter, feedAfter, eventsAfter, reach, leftAfter⟩ :=
        ih listed splitLater ends.tail leftLater
      refine ⟨quietAfter, feedAfter, eventsAfter, ?_, leftAfter⟩
      rw [List.reverse_cons, List.append_assoc]
      exact .head (.shift taken) reach
  | @node position inner symbols below trees found forest later ihBelow ih =>
      rw [SyntaxTree.leavesAll_cons, SyntaxTree.leaves_node, List.append_assoc] at left
      have listedInner : inner ∈ table.grammar.rules := List.mem_of_getElem? found
      have next := next_of_forest reading listed split later ends
      obtain ⟨token, others, first, chosen⟩ :=
        chosen_of_forest reading listedInner forest (.inl next)
      -- the frame of the tree is opened, runs to its end and is closed
      obtain ⟨feedSeen, seen, leftSeen⟩ := Feed.peek_of_tokens (left.trans first)
      rw [← first] at leftSeen
      have splitInner : inner.rhs = [] ++ inner.rhs := rfl
      obtain ⟨_, feedLater, _, reachBelow, leftLater⟩ :=
        ihBelow listedInner splitInner (.inl next) leftSeen
      have splitLater : rule.rhs = (before ++ [.nonTerminal inner.lhs]) ++ symbols := by
        rw [split, List.append_assoc, List.singleton_append]
      obtain ⟨quietAfter, feedAfter, eventsAfter, reach, leftAfter⟩ :=
        ih listed splitLater ends.tail leftLater
      refine ⟨quietAfter, feedAfter, eventsAfter, ?_, leftAfter⟩
      have closed : Frame.tree ⟨inner, [], below.reverse ++ []⟩ =
          .node (.nonTerminal inner.lhs) (some position) below := by
        rw [Frame.tree, List.append_nil, List.reverse_reverse, reading.numbered found]
      rw [List.reverse_cons, List.append_assoc, ← closed]
      exact .head (.expand seen chosen) (reachBelow.trans (.head .close reach))

theorem outcome_of_isTree (reading : table.Predictive) {name : N} {tree : SyntaxTree T N}
    (isTree : table.grammar.IsTree (.nonTerminal name) tree) {source : Source}
    {rest : List (Token T)} (drained : (kind.drain source).1 = tree.leaves ++ rest)
    (delimits : table.Delimits name tree rest) :
    (table.parseSymbol kind (.nonTerminal name) source).outcome = .ok tree := by
  cases isTree with
  | @node position rule _ children _ found forest _ =>
      have listed : rule ∈ table.grammar.rules := List.mem_of_getElem? found
      have next : (∃ token others, rest = token :: others ∧
          token.kind ∈ table.sets.follow.row rule.lhs) ∨
          ∃ terminal, rule.rhs.getLast? = some (.terminal terminal) := by
        refine delimits.imp_right fun ⟨other, otherRule, terminal, same, foundOther, last⟩ => ?_
        obtain rfl := Option.some.inj same
        rw [found] at foundOther
        obtain rfl := Option.some.inj foundOther
        exact ⟨terminal, last⟩
      have ends : Ends table rule rule.rhs rest := by
        refine next.imp_right fun ⟨terminal, isLast⟩ last lastToo => ?_
        rw [isLast] at lastToo
        obtain rfl := Option.some.inj lastToo
        rfl
      obtain ⟨token, others, first, chosen⟩ := chosen_of_forest reading listed forest
        (next.imp_right fun ⟨terminal, isLast⟩ => ⟨terminal, List.mem_of_getLast? isLast⟩)
      rw [SyntaxTree.leaves_node, ← Feed.tokens_start] at drained
      obtain ⟨feed, seen, left⟩ := Feed.peek_of_tokens (drained.trans first)
      have opened : opening table kind (.nonTerminal rule.lhs) source =
          .next ⟨.start rule, [], 1, feed, [.expanded rule token]⟩ := by
        simp only [opening, predict, seen, chosen]
      have split : rule.rhs = [] ++ rule.rhs := rfl
      obtain ⟨_, _, _, reach, _⟩ :=
        reach_of_forest reading forest listed split ends (left.trans first.symm)
      have coherent := coherent_opening reading opened
      rw [Table.parseSymbol_of_next opened, coherent.run_eq reading reach .finish, Frame.tree,
        List.append_nil, List.reverse_reverse, reading.numbered found]

theorem eq_of_leaves_eq (reading : table.Predictive) {name : N} {tree other : SyntaxTree T N}
    (isTree : table.grammar.IsTree (.nonTerminal name) tree)
    (isTreeOther : table.grammar.IsTree (.nonTerminal name) other)
    (leaves : other.leaves = tree.leaves) {rest restOther : List (Token T)}
    (delimits : table.Delimits name tree rest)
    (delimitsOther : table.Delimits name other restOther) : other = tree := by
  -- one rest that delimits both: either is good for a tree that ends in a terminal
  obtain ⟨common, ends, endsOther⟩ : ∃ common, table.Delimits name tree common ∧
      table.Delimits name other common := by
    rcases delimits with follows | terminal
    · exact ⟨rest, .inl follows, delimitsOther.elim (fun _ => .inl follows) .inr⟩
    · exact ⟨restOther, .inr terminal, delimitsOther⟩
  have drained := TokenSource.drain_list (tree.leaves ++ common)
  have parsed := outcome_of_isTree reading isTree drained ends
  rw [← leaves] at drained
  have parsedOther := outcome_of_isTree reading isTreeOther drained endsOther
  rw [leaves, parsed] at parsedOther
  exact (Except.ok.inj parsedOther).symm

/-- A derivation tree of a non terminal is what its tokens are parsed into, whatever stands after
them, if that delimits the tree. Hence no two delimited trees have the same tokens. -/
theorem parseSymbol_complete {rules : List (Rule T N)} {start : N} {grammar : Grammar T N}
    {table : Table T N} (accepted : Grammar.ofRules rules start = .ok grammar)
    (built : Table.ofGrammar grammar = .ok table) (name : N) (tree : SyntaxTree T N)
    (isTree : grammar.IsTree (.nonTerminal name) tree) :
    (∀ (Source : Type) (kind : TokenSource Source T) (source : Source) (rest : List (Token T)),
        (kind.drain source).1 = tree.leaves ++ rest → table.Delimits name tree rest →
        (table.parseSymbol kind (.nonTerminal name) source).outcome = .ok tree) ∧
      ∀ (other : SyntaxTree T N) (rest restOther : List (Token T)),
        grammar.IsTree (.nonTerminal name) other → other.leaves = tree.leaves →
        table.Delimits name tree rest → table.Delimits name other restOther → other = tree := by
  obtain ⟨rfl, reading⟩ := Table.predictive_of_ofGrammar accepted built
  constructor
  · intro Source kind source rest drained delimits
    exact outcome_of_isTree reading isTree drained delimits
  · intro other rest restOther isTreeOther leaves delimits delimitsOther
    exact eq_of_leaves_eq reading isTree isTreeOther leaves delimits delimitsOther

/-- The tree of `a b`, in which what is between the two has no tokens. -/
def pair : SyntaxTree Char Char :=
  .node (.nonTerminal 'S') (some 0)
    [.leaf ⟨'a', "a", 0⟩, .node (.nonTerminal 'S') (some 1) [], .leaf ⟨'b', "b", 1⟩]

theorem parseSymbol_complete_nested : ∃ grammar table,
    Grammar.ofRules nested 'S' = .ok grammar ∧ Table.ofGrammar grammar = .ok table ∧
      grammar.IsTree (.nonTerminal 'S') (.node (.nonTerminal 'S') (some 1) []) ∧
      table.Delimits 'S' (.node (.nonTerminal 'S') (some 1) []) [⟨'b', "b", 0⟩] ∧
      (table.parseSymbol .list (.nonTerminal 'S') [⟨'b', "b", 0⟩]).outcome =
        .ok (.node (.nonTerminal 'S') (some 1) []) ∧
      grammar.IsTree (.nonTerminal 'S') pair ∧
      pair.leaves = [⟨'a', "a", 0⟩, ⟨'b', "b", 1⟩] ∧
      table.Delimits 'S' pair [⟨'b', "b", 2⟩] ∧
      (table.parseSymbol .list (.nonTerminal 'S')
        [⟨'a', "a", 0⟩, ⟨'b', "b", 1⟩, ⟨'b', "b", 2⟩]).outcome = .ok pair ∧
      ∀ other, grammar.IsTree (.nonTerminal 'S') other → other.leaves = pair.leaves →
        other = pair := by
  obtain ⟨grammar, table, accepted, built, first, second, follows⟩ : ∃ grammar table,
      Grammar.ofRules nested 'S' = .ok grammar ∧ Table.ofGrammar grammar = .ok table ∧
        grammar.rules[0]? = nested[0]? ∧ grammar.rules[1]? = nested[1]? ∧
        'b' ∈ table.sets.follow.row 'S' :=
    ⟨_, _, rfl, rfl, rfl, rfl, by decide⟩
  -- any tree of `S` is delimited by a `b`
  have delimits (tree : SyntaxTree Char Char) (position : Nat) :
      table.Delimits 'S' tree [⟨'b', "b", position⟩] :=
    .inl ⟨_, _, rfl, follows⟩
  have isEmpty : grammar.IsTree (.nonTerminal 'S') (.node (.nonTerminal 'S') (some 1) []) :=
    .node second .nil .nil
  have isPair : grammar.IsTree (.nonTerminal 'S') pair :=
    .node first (.leaf ⟨'a', "a", 0⟩ (.node second .nil (.leaf ⟨'b', "b", 1⟩ .nil))) .nil
  have leaves : pair.leaves = [⟨'a', "a", 0⟩, ⟨'b', "b", 1⟩] := by simp [pair]
  have complete := parseSymbol_complete accepted built 'S'
  refine ⟨grammar, table, accepted, built, isEmpty, delimits _ _, ?_, isPair, leaves,
    delimits _ _, ?_, ?_⟩
  · refine (complete _ isEmpty).1 _ .list _ [⟨'b', "b", 0⟩] ?_ (delimits _ _)
    rw [TokenSource.drain_list, SyntaxTree.leaves_node, SyntaxTree.leavesAll_nil, List.nil_append]
  · refine (complete _ isPair).1 _ .list _ [⟨'b', "b", 2⟩] ?_ (delimits _ _)
    rw [TokenSource.drain_list, leaves]
    rfl
  · intro other isOther same
    exact (complete _ isPair).2 other _ _ isOther same (delimits _ 2) (delimits _ 2)

end Parsing

end Lookahead
