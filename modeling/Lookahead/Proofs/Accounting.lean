import Lookahead.Proofs.Completeness
import Lookahead.Proofs.Locality

/-!
# Which tokens a parse takes

A parse takes the tokens that it matches, and at most one more. `Run.Accounts` says which one that
is: the token that is refused, or one that was looked at when the last non terminals were expanded
into nothing. A rule that ends in a terminal leaves no such token behind, since a match is the last
thing that is done for it (`Turn.settled`). Parses of a symbol all of whose rules end so can follow
each other on one source, each taking its own sentence and nothing else (`leaves_rest`).
-/

set_option autoImplicit false

namespace Lookahead

variable {Source T N : Type}

namespace Grammar

def EndsInTerminal (grammar : Grammar T N) : Symbol T N → Prop
  | .terminal _ => True
  | .nonTerminal name => ∀ rule ∈ grammar.rules, rule.lhs = name →
      ∃ terminal, rule.rhs.getLast? = some (.terminal terminal)

theorem exists_forest_of_yields {grammar : Grammar T N} {symbols : List (Symbol T N)}
    {tokens : List (Token T)} (yields : grammar.Yields symbols (Token.word tokens)) :
    ∃ trees, grammar.Forest symbols trees ∧ SyntaxTree.leavesAll trees = tokens := by
  generalize spelled : (Token.word tokens : List (Symbol T N)) = form at yields
  induction yields generalizing tokens with
  | nil =>
      obtain rfl := List.map_eq_nil_iff.mp spelled
      exact ⟨[], .nil, rfl⟩
  | keep symbol _ ih =>
      obtain ⟨token, others, rfl, rfl, later⟩ := List.map_eq_cons_iff.mp spelled
      obtain ⟨trees, forest, leaves⟩ := ih later
      refine ⟨.leaf token :: trees, .leaf token forest, ?_⟩
      rw [SyntaxTree.leavesAll_cons, SyntaxTree.leaves_leaf, leaves, List.singleton_append]
  | expand listed _ _ ihSide ih =>
      obtain ⟨front, back, rfl, inner, later⟩ := List.map_eq_append_iff.mp spelled
      obtain ⟨position, found⟩ := List.mem_iff_getElem?.mp listed
      obtain ⟨children, below, leavesBelow⟩ := ihSide inner
      obtain ⟨trees, forest, leaves⟩ := ih later
      refine ⟨_, .node found below forest, ?_⟩
      rw [SyntaxTree.leavesAll_cons, SyntaxTree.leaves_node, leavesBelow, leaves]

theorem exists_tree_of_yields {grammar : Grammar T N} {symbol : Symbol T N}
    {tokens : List (Token T)} (yields : grammar.Yields [symbol] (Token.word tokens)) :
    ∃ tree, grammar.IsTree symbol tree ∧ tree.leaves = tokens := by
  obtain ⟨trees, forest, leaves⟩ := exists_forest_of_yields yields
  obtain _ | ⟨isTree, _ | _⟩ := forest_iff.mp forest
  rw [SyntaxTree.leavesAll_cons, SyntaxTree.leavesAll_nil, List.append_nil] at leaves
  exact ⟨_, isTree, leaves⟩

end Grammar

/-- The tokens taken by a run are those it has matched and at most one more: one that was looked at,
unless the symbol ends in a terminal, or the one that was refused. -/
def Run.Accounts (grammar : Grammar T N) (symbol : Symbol T N) (tokens taken : List (Token T))
    (run : Run Source T N) : Prop :=
  match run.outcome with
  | .ok tree => run.matched = tree.leaves ∧
      (taken = run.matched ∨ ∃ ahead, taken = run.matched ++ [ahead]) ∧
      (grammar.EndsInTerminal symbol → taken = run.matched)
  | .error (.unexpectedToken _ got _) => taken = run.matched ++ [got]
  | .error (.noRule _ got _) => taken = run.matched ++ [got]
  | .error (.unexpectedEnd _ _) => run.matched = tokens ∧ taken = tokens
  | .error (.endless _) => False

namespace Feed

theorem tokens_list (feed : Feed (List (Token T)) T) :
    feed.tokens .list = feed.ahead.toList ++ feed.source := by
  rw [tokens, TokenSource.drain_list]

section List

variable {feed rest : Feed (List (Token T)) T} {token : Token T} {matched tokens : List (Token T)}
  (split : matched ++ feed.tokens .list = tokens)

include split

theorem split_of_take (taken : feed.take .list = (some token, rest)) :
    matched ++ [token] ++ rest.source = tokens := by
  rw [tokens_of_take taken, tokens_list, ahead_of_take taken] at split
  rw [List.append_assoc]
  exact split

theorem split_of_take_none (taken : feed.take .list = (none, rest)) :
    matched = tokens ∧ tokens ++ rest.source = tokens := by
  rw [tokens_of_take_none taken, List.append_nil] at split
  obtain ⟨_ | held, _ | ⟨first, later⟩⟩ := feed
  · cases taken
    exact ⟨split, List.append_nil tokens⟩
  · cases taken
  · cases taken
  · cases taken

end List

end Feed

namespace Parsing

variable [DecidableEq T] [DecidableEq N] {table : Table T N} {kind : TokenSource Source T}
  {symbol : Symbol T N} {tokens : List (Token T)}

/-! ## After a match -/

/-- Where the innermost frame has come to its end, and this is a terminal, no token is ahead. -/
def State.Settled (state : State Source T N) : Prop :=
  state.current.pending = [] →
    (∃ terminal, state.current.rule.rhs.getLast? = some (.terminal terminal)) →
    state.feed.ahead = none

theorem Opening.settled {source : Source} {state : State Source T N}
    (case : Opening table kind source symbol (.next state)) : state.Settled := by
  cases case with
  | expand seen chosen =>
      rintro ended ⟨terminal, last⟩
      change Rule.rhs _ = [] at ended
      rw [Frame.start, ended] at last
      cases last

/-- A turn that comes to the end of a frame has matched its last symbol or finished the frame of
that symbol, and only a match leaves a terminal behind it. -/
theorem Turn.settled {state next : State Source T N}
    (coherent : Coherent table kind symbol tokens state)
    (turn : Turn table kind state (.next next)) : next.Settled := by
  cases turn with
  | shift taken => exact fun _ _ => Feed.ahead_of_take taken
  | expand seen chosen =>
      rintro ended ⟨terminal, last⟩
      change Rule.rhs _ = [] at ended
      rw [Frame.start, ended] at last
      cases last
  | @close rule children parent parents quiet feed events =>
      rintro ended ⟨terminal, last⟩
      obtain ⟨_, _, _, outer⟩ := coherent.nest.finished
      cases outer with
      | @inside _ parsed pending _ _ _ _ _ split _ _ =>
          change pending = [] at ended
          rw [Frame.push, split, ended, List.append_nil, List.getLast?_concat] at last
          cases last

theorem Reach.settled (reading : table.Predictive) {state last : State Source T N}
    (coherent : Coherent table kind symbol tokens state) (settled : state.Settled)
    (reach : Reach table kind state last) : last.Settled := by
  cases reach with
  | refl => exact settled
  | tail before turn => exact turn.settled (coherent.reach reading before)

/-! ## The tokens that a run has taken -/

variable {result : Run (List (Token T)) T N}

theorem Opening.accounts (case : Opening table .list tokens symbol (.done result)) :
    ∃ taken, taken ++ result.source = tokens ∧
      result.Accounts table.grammar symbol tokens taken := by
  have split : [] ++ (Feed.start tokens).tokens .list = tokens := TokenSource.drain_list tokens
  cases case with
  | @leaf token rest taken =>
      refine ⟨[token], Feed.split_of_take split taken, ?_, .inl rfl, fun _ => rfl⟩
      rw [SyntaxTree.leaves_leaf]
      rfl
  | otherToken taken other => exact ⟨_, Feed.split_of_take split taken, rfl⟩
  | noRule seen empty =>
      have whole := Feed.split_of_take split (Feed.take_of_peek seen)
      exact ⟨_, whole, rfl⟩
  | noToken taken =>
      obtain ⟨whole, left⟩ := Feed.split_of_take_none split taken
      exact ⟨tokens, left, whole, rfl⟩
  | noLookahead seen =>
      obtain ⟨whole, left⟩ := Feed.split_of_take_none split (Feed.take_of_peek seen)
      exact ⟨tokens, left, whole, rfl⟩

theorem Coherent.matched_of_finish {state : State Source T N} {result : Run Source T N}
    {tree : SyntaxTree T N} (coherent : Coherent table kind symbol tokens state)
    (done : Turn table kind state (.done result)) (parsed : result.outcome = .ok tree) :
    result.matched = tree.leaves := by
  cases done with
  | finish =>
      obtain rfl := Except.ok.inj parsed
      obtain ⟨before, matched, _, outer⟩ := coherent.nest.finished
      cases outer
      exact matched
  | noToken => cases parsed
  | otherToken => cases parsed
  | noLookahead => cases parsed
  | noRule => cases parsed

theorem Turn.accounts {state : State (List (Token T)) T N}
    (coherent : Coherent table .list symbol tokens state) (settled : state.Settled)
    (done : Turn table .list state (.done result)) :
    ∃ taken, taken ++ result.source = tokens ∧
      result.Accounts table.grammar symbol tokens taken := by
  have split := coherent.split
  cases done with
  | @finish rule children quiet feed events =>
      have matched := coherent.matched_of_finish .finish rfl
      obtain ⟨_, _, _, outer⟩ := coherent.nest.finished
      cases outer
      have listed : rule ∈ table.grammar.rules := by
        have nest := coherent.nest
        generalize State.matched _ = before at nest
        cases nest with
        | inside found => exact List.mem_of_getElem? found
      refine ⟨Event.tokens events ++ feed.ahead.toList, ?_, matched, ?_, ?_⟩
      · rw [Feed.tokens_list, ← List.append_assoc] at split
        exact split
      · cases feed.ahead with
        | none => exact .inl (List.append_nil _)
        | some ahead => exact .inr ⟨ahead, rfl⟩
      · intro ends
        -- the last symbol was a terminal, and its match has left no token ahead
        have nothing : feed.ahead = none := settled rfl (ends rule listed rfl)
        rw [nothing]
        exact List.append_nil _
  | otherToken taken other => exact ⟨_, Feed.split_of_take split taken, rfl⟩
  | noRule seen empty =>
      have whole := Feed.split_of_take split (Feed.take_of_peek seen)
      exact ⟨_, whole, rfl⟩
  | noToken taken =>
      obtain ⟨whole, left⟩ := Feed.split_of_take_none split taken
      exact ⟨tokens, left, whole, rfl⟩
  | noLookahead seen =>
      obtain ⟨whole, left⟩ := Feed.split_of_take_none split (Feed.take_of_peek seen)
      exact ⟨tokens, left, whole, rfl⟩

theorem accounts_parseSymbol (reading : table.Predictive)
    (ended : table.parseSymbol .list symbol tokens = result) :
    ∃ taken, taken ++ result.source = tokens ∧
      result.Accounts table.grammar symbol tokens taken := by
  have case := opening_cases table .list symbol tokens
  rcases ends_of_parseSymbol reading ended with
    opened | ⟨first, last, opened, reach, coherent, done⟩
  · rw [opened] at case
    exact case.accounts
  · rw [opened] at case
    have coherentFirst := coherent_opening reading opened
    rw [TokenSource.drain_list] at coherent coherentFirst
    exact done.accounts coherent (reach.settled reading coherentFirst case.settled)

theorem matched_of_ok (reading : table.Predictive) {source : Source} {tree : SyntaxTree T N}
    (parsed : (table.parseSymbol kind symbol source).outcome = .ok tree) :
    (table.parseSymbol kind symbol source).matched = tree.leaves := by
  generalize ended : table.parseSymbol kind symbol source = result at parsed ⊢
  rcases ends_of_parseSymbol reading ended with opened | ⟨_, _, _, _, coherent, done⟩
  · have case := opening_cases table kind symbol source
    rw [opened] at case
    cases case with
    | leaf taken =>
        obtain rfl := Except.ok.inj parsed
        rw [SyntaxTree.leaves_leaf]
        rfl
    | noToken => cases parsed
    | otherToken => cases parsed
    | noLookahead => cases parsed
    | noRule => cases parsed
  · exact coherent.matched_of_finish done parsed

/-! ## Parses after each other -/

theorem outcome_of_endsInTerminal (reading : table.Predictive) {tree : SyntaxTree T N}
    (ends : table.grammar.EndsInTerminal symbol) (isTree : table.grammar.IsTree symbol tree)
    (rest : List (Token T)) :
    (table.parseSymbol .list symbol (tree.leaves ++ rest)).outcome = .ok tree := by
  cases symbol with
  | terminal name =>
      obtain ⟨token, rfl, rfl⟩ := Grammar.isTree_terminal_iff.mp isTree
      rw [SyntaxTree.leaves_leaf]
      have taken : (Feed.start ([token] ++ rest)).take .list = (some token, ⟨none, rest⟩) := rfl
      rw [Table.parseSymbol_of_done (Opening.leaf taken).eq]
  | nonTerminal name =>
      refine outcome_of_isTree reading isTree (TokenSource.drain_list _) (.inr ?_)
      obtain ⟨position, rule, children, found, same, rfl, _⟩ :=
        Grammar.isTree_nonTerminal_iff.mp isTree
      obtain ⟨terminal, last⟩ := ends rule (List.mem_of_getElem? found) same
      exact ⟨position, rule, terminal, rfl, found, last⟩

theorem leaves_rest (reading : table.Predictive) (ends : table.grammar.EndsInTerminal symbol)
    {first : List (Token T)} (sentence : table.grammar.Derives [symbol] (Token.word first))
    (rest : List (Token T)) :
    ∃ tree, table.grammar.IsTree symbol tree ∧ tree.leaves = first ∧
      (table.parseSymbol .list symbol (first ++ rest)).outcome = .ok tree ∧
      (table.parseSymbol .list symbol (first ++ rest)).source = rest := by
  obtain ⟨tree, isTree, rfl⟩ :=
    Grammar.exists_tree_of_yields (Grammar.derives_iff_yields.mp sentence)
  have parsed := outcome_of_endsInTerminal reading ends isTree rest
  refine ⟨tree, isTree, rfl, parsed, ?_⟩
  -- the tokens taken are those matched, which are the leaves of the tree
  obtain ⟨taken, split, accounts⟩ := accounts_parseSymbol reading
    (rfl : table.parseSymbol .list symbol (tree.leaves ++ rest) = _)
  rw [Run.Accounts, parsed] at accounts
  obtain ⟨matched, _, exact⟩ := accounts
  rw [exact ends, matched] at split
  exact List.append_cancel_left split

/-- A parse takes the tokens that it matches and at most one more. What it does is settled by the
tokens taken, unless it runs out of them. -/
theorem parseSymbol_takes {rules : List (Rule T N)} {start : N} {grammar : Grammar T N}
    {table : Table T N} (accepted : Grammar.ofRules rules start = .ok grammar)
    (built : Table.ofGrammar grammar = .ok table) (symbol : Symbol T N) :
    (∀ tokens : List (Token T), ∃ taken,
        taken ++ (table.parseSymbol .list symbol tokens).source = tokens ∧
        (table.parseSymbol .list symbol tokens).Accounts grammar symbol tokens taken ∧
        (¬ (table.parseSymbol .list symbol tokens).IsEnded →
          ∀ others : List (Token T), others.take taken.length = tokens.take taken.length →
            table.parseSymbol .list symbol others =
              (table.parseSymbol .list symbol tokens).onto (others.drop taken.length))) ∧
      (grammar.EndsInTerminal symbol → ∀ first second rest : List (Token T),
        grammar.Derives [symbol] (Token.word first) →
        grammar.Derives [symbol] (Token.word second) →
        ∃ tree other, grammar.IsTree symbol tree ∧ tree.leaves = first ∧
          grammar.IsTree symbol other ∧ other.leaves = second ∧
          ∃ run, table.parseSymbol .list symbol (first ++ second ++ rest) = run ∧
            run.outcome = .ok tree ∧ run.source = second ++ rest ∧
            (table.parseSymbol .list symbol run.source).outcome = .ok other ∧
            (table.parseSymbol .list symbol run.source).source = rest) := by
  obtain ⟨rfl, reading⟩ := Table.predictive_of_ofGrammar accepted built
  constructor
  · intro tokens
    generalize ended : table.parseSymbol .list symbol tokens = result
    obtain ⟨taken, split, accounts⟩ := accounts_parseSymbol reading ended
    refine ⟨taken, split, accounts, fun going others same => ?_⟩
    obtain ⟨read, splitRead, settled⟩ := parseSymbol_onto reading ended going
    obtain rfl : read = taken := List.append_cancel_right (splitRead.symm.trans split.symm)
    rw [← split, List.take_left] at same
    have parts := List.take_append_drop read.length others
    rw [same] at parts
    have whole := settled (others.drop read.length)
    rw [parts] at whole
    exact whole
  · intro ends first second rest sentence sentenceSecond
    rw [List.append_assoc]
    obtain ⟨tree, isTree, leaves, parsed, left⟩ :=
      leaves_rest reading ends sentence (second ++ rest)
    obtain ⟨other, isOther, leavesOther, parsedOther, leftOther⟩ :=
      leaves_rest reading ends sentenceSecond rest
    refine ⟨tree, other, isTree, leaves, isOther, leavesOther, _, rfl, parsed, left, ?_⟩
    rw [left]
    exact ⟨parsedOther, leftOther⟩

def marked : List (Rule Char Char) :=
  [⟨0, 'X', [.nonTerminal 'A', .terminal 'x']⟩, ⟨1, 'A', [.terminal 'a', .nonTerminal 'A']⟩,
    ⟨2, 'A', []⟩]

theorem parseSymbol_takes_marked : ∃ grammar table,
    Grammar.ofRules marked 'X' = .ok grammar ∧ Table.ofGrammar grammar = .ok table ∧
    (∀ others : List (Token Char), table.parseSymbol .list (.nonTerminal 'A')
        (⟨'a', "a", 0⟩ :: ⟨'x', "x", 1⟩ :: others) =
      ⟨.ok (.node (.nonTerminal 'A') (some 1) [.leaf ⟨'a', "a", 0⟩,
        .node (.nonTerminal 'A') (some 2) []]),
        [.expanded ⟨1, 'A', [.terminal 'a', .nonTerminal 'A']⟩ ⟨'a', "a", 0⟩,
          .matched ⟨'a', "a", 0⟩, .expanded ⟨2, 'A', []⟩ ⟨'x', "x", 1⟩], others⟩) ∧
    grammar.EndsInTerminal (.nonTerminal 'X') ∧
    ∀ rest : List (Token Char), ∃ tree other run,
      grammar.IsTree (.nonTerminal 'X') tree ∧
      tree.leaves = [⟨'a', "a", 0⟩, ⟨'x', "x", 1⟩] ∧ other.leaves = [⟨'x', "x", 2⟩] ∧
      table.parseSymbol .list (.nonTerminal 'X')
        (⟨'a', "a", 0⟩ :: ⟨'x', "x", 1⟩ :: ⟨'x', "x", 2⟩ :: rest) = run ∧
      run.outcome = .ok tree ∧ run.source = ⟨'x', "x", 2⟩ :: rest ∧
      (table.parseSymbol .list (.nonTerminal 'X') run.source).outcome = .ok other ∧
      (table.parseSymbol .list (.nonTerminal 'X') run.source).source = rest := by
  obtain ⟨grammar, table, accepted, built, same, parsed⟩ : ∃ grammar table,
      Grammar.ofRules marked 'X' = .ok grammar ∧ Table.ofGrammar grammar = .ok table ∧
        grammar.rules = marked ∧ table.parseSymbol .list (.nonTerminal 'A')
          [⟨'a', "a", 0⟩, ⟨'x', "x", 1⟩] =
        ⟨.ok (.node (.nonTerminal 'A') (some 1) [.leaf ⟨'a', "a", 0⟩,
          .node (.nonTerminal 'A') (some 2) []]),
          [.expanded ⟨1, 'A', [.terminal 'a', .nonTerminal 'A']⟩ ⟨'a', "a", 0⟩,
            .matched ⟨'a', "a", 0⟩, .expanded ⟨2, 'A', []⟩ ⟨'x', "x", 1⟩], []⟩ :=
    ⟨_, _, rfl, rfl, rfl, by cbv⟩
  have ends : grammar.EndsInTerminal (.nonTerminal 'X') := by
    intro rule listed left
    rw [same] at listed
    simp only [marked, List.mem_cons, List.not_mem_nil, or_false] at listed
    rcases listed with rfl | rfl | rfl
    · exact ⟨'x', rfl⟩
    · cases left
    · cases left
  have listed : ∀ rule ∈ marked, rule ∈ grammar.rules := by
    rw [same]
    exact fun _ inside => inside
  have nothing : grammar.Yields [.nonTerminal 'A'] [] :=
    .expand (listed ⟨2, 'A', []⟩ (by decide)) .nil .nil
  have single : grammar.Yields [.nonTerminal 'A'] [.terminal 'a'] :=
    .expand (listed ⟨1, 'A', _⟩ (by decide)) (.keep _ nothing) .nil
  have close (form : List (Symbol Char Char)) (inner : grammar.Yields [.nonTerminal 'A'] form) :
      grammar.Derives [.nonTerminal 'X'] (form ++ [.terminal 'x']) :=
    (Grammar.Yields.of_rule (listed ⟨0, 'X', _⟩ (by decide))
      (inner.append (.refl [.terminal 'x']))).derives
  refine ⟨grammar, table, accepted, built, fun others => ?_, ends, fun rest => ?_⟩
  · obtain ⟨taken, split, _, settled⟩ :=
      (parseSymbol_takes accepted built (.nonTerminal 'A')).1 [⟨'a', "a", 0⟩, ⟨'x', "x", 1⟩]
    rw [parsed] at split settled
    obtain rfl : taken = [⟨'a', "a", 0⟩, ⟨'x', "x", 1⟩] := (List.append_nil taken).symm.trans split
    refine settled ?_ (⟨'a', "a", 0⟩ :: ⟨'x', "x", 1⟩ :: others) rfl
    rintro ⟨_, _, ended⟩
    cases ended
  · obtain ⟨tree, other, isTree, leaves, _, leavesOther, run, ran, outcome, left, later⟩ :=
      (parseSymbol_takes accepted built (.nonTerminal 'X')).2 ends [⟨'a', "a", 0⟩, ⟨'x', "x", 1⟩]
        [⟨'x', "x", 2⟩] rest (close [.terminal 'a'] single) (close [] nothing)
    exact ⟨tree, other, run, isTree, leaves, leavesOther, ran, outcome, left, later⟩

end Parsing

end Lookahead
