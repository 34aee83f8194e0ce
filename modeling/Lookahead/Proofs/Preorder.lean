import Lookahead.Proofs.Exhaustion
import Lookahead.SExpr.Lexer

/-!
# The account of a parse

A parse tells of an expansion when it opens a frame, and its tree is made when the frame is closed.
So the account comes in the order in which the nodes of the tree stand before each other, though the
tree is built from below. `Grammar.Tells` reads nodes in that order against the tokens that wait to
be matched. What has been told in a state are its frames from the outermost on, each before the trees
that it holds (`Told`). A turn that opens, fills or closes a frame keeps this, and the last frame to
be closed leaves the nodes of the tree.
-/

set_option autoImplicit false

namespace Lookahead

variable {Source T N : Type}

/-! ## What is told of nodes -/

section Tells

variable {Told Other : Type}

/-- What is told of nodes, one after the other, while tokens wait to be matched: of a leaf its
match, and of a non terminal the expansion of its rule on the first waiting token. The last list
holds the tokens that wait after that. -/
inductive Grammar.Tells (grammar : Grammar T N) (expanding : Rule T N → Token T → Told)
    (matched : Token T → Told) :
    List (Token T) → List (SyntaxTree T N) → List Told → List (Token T) → Prop
  | nil (waiting : List (Token T)) : Tells grammar expanding matched waiting [] [] waiting
  | leaf (token : Token T) {waiting rest : List (Token T)} {nodes : List (SyntaxTree T N)}
      {told : List Told} (later : Tells grammar expanding matched waiting nodes told rest) :
      Tells grammar expanding matched (token :: waiting) (.leaf token :: nodes)
        (matched token :: told) rest
  | node {position : Nat} {rule : Rule T N} {ahead : Token T} {waiting rest : List (Token T)}
      {children nodes : List (SyntaxTree T N)} {told : List Told}
      (found : grammar.rules[position]? = some rule)
      (later : Tells grammar expanding matched (ahead :: waiting) nodes told rest) :
      Tells grammar expanding matched (ahead :: waiting)
        (.node (.nonTerminal rule.lhs) (some position) children :: nodes)
        (expanding rule ahead :: told) rest

namespace Grammar.Tells

variable {grammar : Grammar T N} {expanding : Rule T N → Token T → Told}
  {matched : Token T → Told} {waiting middle rest : List (Token T)}
  {front back nodes : List (SyntaxTree T N)} {first second told : List Told}

theorem append (before : grammar.Tells expanding matched waiting front first middle)
    (after : grammar.Tells expanding matched middle back second rest) :
    grammar.Tells expanding matched waiting (front ++ back) (first ++ second) rest := by
  induction before with
  | nil => exact after
  | leaf token _ ih => exact .leaf token (ih after)
  | node found _ ih => exact .node found (ih after)

theorem map (tell : Told → Other) (tells : grammar.Tells expanding matched waiting nodes told rest) :
    grammar.Tells (fun rule ahead => tell (expanding rule ahead)) (fun token => tell (matched token))
      waiting nodes (told.map tell) rest := by
  induction tells with
  | nil waiting => exact .nil waiting
  | leaf token _ ih => exact .leaf token ih
  | node found _ ih => exact .node found ih

end Grammar.Tells

end Tells

namespace Parsing

/-! ## What has been told in a state -/

/-- What the frames of a parse have told, the innermost of them first: each its expansion, and then
the trees that it holds. The tokens are those of the input, and those that wait. -/
inductive Told (grammar : Grammar T N) (tokens : List (Token T)) :
    List (Frame T N) → List (Event T N) → List (Token T) → Prop
  | start : Told grammar tokens [] [] tokens
  | inside {rule : Rule T N} {pending : List (Symbol T N)} {children : List (SyntaxTree T N)}
      {frames : List (Frame T N)} {before events : List (Event T N)} {ahead : Token T}
      {waiting rest : List (Token T)} (outer : Told grammar tokens frames before (ahead :: waiting))
      (found : grammar.rules[rule.index]? = some rule)
      (inner : grammar.Tells .expanded .matched (ahead :: waiting)
        (SyntaxTree.nodesAll children.reverse) events rest) :
      Told grammar tokens (⟨rule, pending, children⟩ :: frames)
        (before ++ .expanded rule ahead :: events) rest

namespace Told

variable {grammar : Grammar T N} {tokens waiting rest : List (Token T)} {frames : List (Frame T N)}
  {rule : Rule T N} {pending : List (Symbol T N)} {children : List (SyntaxTree T N)}
  {events later : List (Event T N)} {symbol : Symbol T N}

theorem expand {ahead : Token T} (told : Told grammar tokens frames events (ahead :: waiting))
    (found : grammar.rules[rule.index]? = some rule) :
    Told grammar tokens (.start rule :: frames) (events ++ [.expanded rule ahead])
      (ahead :: waiting) :=
  .inside told found (.nil _)

theorem focus (told : Told grammar tokens (⟨rule, symbol :: pending, children⟩ :: frames) events rest) :
    Told grammar tokens (⟨rule, pending, children⟩ :: frames) events rest := by
  cases told with
  | inside outer found inner => exact .inside outer found inner

theorem push {tree : SyntaxTree T N}
    (told : Told grammar tokens (⟨rule, pending, children⟩ :: frames) events waiting)
    (tells : grammar.Tells .expanded .matched waiting tree.nodes later rest) :
    Told grammar tokens (⟨rule, pending, tree :: children⟩ :: frames) (events ++ later) rest := by
  cases told with
  | @inside _ _ _ _ before inside ahead held _ outer found inner =>
      have longer : grammar.Tells .expanded .matched (ahead :: held)
          (SyntaxTree.nodesAll (tree :: children).reverse) (inside ++ later) rest := by
        rw [List.reverse_cons, SyntaxTree.nodesAll_append, SyntaxTree.nodesAll_singleton]
        exact inner.append tells
      have placed : Told grammar tokens (⟨rule, pending, tree :: children⟩ :: frames) _ rest :=
        .inside outer found longer
      rw [List.append_assoc, List.cons_append]
      exact placed

theorem close (told : Told grammar tokens (⟨rule, pending, children⟩ :: frames) events rest) :
    ∃ before own waiting, events = before ++ own ∧ Told grammar tokens frames before waiting ∧
      grammar.Tells .expanded .matched waiting (Frame.tree ⟨rule, pending, children⟩).nodes own
        rest := by
  cases told with
  | inside outer found inner =>
      refine ⟨_, _, _, rfl, outer, ?_⟩
      rw [Frame.tree, SyntaxTree.nodes_nonTerminal]
      exact .node found inner

end Told

variable [DecidableEq T] [DecidableEq N] {table : Table T N} {kind : TokenSource Source T}
  {symbol : Symbol T N} {tokens : List (Token T)} {source : Source}

def State.Tells (grammar : Grammar T N) (kind : TokenSource Source T) (tokens : List (Token T))
    (state : State Source T N) : Prop :=
  Told grammar tokens (state.current :: state.parents) state.events.reverse (state.feed.tokens kind)

theorem tells_opening (reading : table.Predictive) {state : State Source T N}
    (case : Opening table kind source symbol (.next state)) :
    state.Tells table.grammar kind (kind.drain source).1 := by
  cases case with
  | @expand name rule ahead rest seen chosen =>
      obtain ⟨same, others, left⟩ := Feed.tokens_of_peek seen
      have found := reading.rule_at (reading.chosen.mp chosen).1
      rw [Feed.tokens_start] at same left
      rw [State.Tells, same, left]
      exact Told.start.expand found

theorem Turn.tells (reading : table.Predictive) {state next : State Source T N}
    (told : state.Tells table.grammar kind tokens) (turn : Turn table kind state (.next next)) :
    next.Tells table.grammar kind tokens := by
  cases turn with
  | close =>
      -- the tree was told before it was made, when its frame was opened and filled
      obtain ⟨before, own, waiting, split, outer, tells⟩ := Told.close told
      have filled := outer.push tells
      rw [← split] at filled
      exact filled
  | @shift rule token pending children parents quiet feed rest events taken =>
      have waits := Feed.tokens_of_take taken
      have tells : table.grammar.Tells Event.expanded Event.matched (feed.tokens kind)
          (SyntaxTree.leaf token : SyntaxTree T N).nodes [.matched token] (rest.tokens kind) := by
        rw [waits, SyntaxTree.leaf, SyntaxTree.nodes_terminal]
        exact .leaf token (.nil _)
      have filled := (Told.focus told).push tells
      rw [State.Tells, List.reverse_cons]
      exact filled
  | @expand rule name pending children parents quiet feed inner ahead rest events seen chosen =>
      obtain ⟨same, others, left⟩ := Feed.tokens_of_peek seen
      have found := reading.rule_at (reading.chosen.mp chosen).1
      have focused := Told.focus told
      rw [left] at focused
      have opened := focused.expand found
      rw [State.Tells, List.reverse_cons, same, left]
      exact opened

theorem Reach.tells (reading : table.Predictive) {state last : State Source T N}
    (told : state.Tells table.grammar kind tokens) (reach : Reach table kind state last) :
    last.Tells table.grammar kind tokens := by
  induction reach with
  | refl => exact told
  | tail _ turn ih => exact turn.tells reading ih

/-! ## The account of a run -/

variable {result : Run Source T N}

theorem tells_of_ok (reading : table.Predictive) {tree : SyntaxTree T N}
    (ended : table.parseSymbol kind symbol source = result) (parsed : result.outcome = .ok tree) :
    ∃ rest, table.grammar.Tells .expanded .matched (kind.drain source).1 tree.nodes result.events
      rest := by
  have case := opening_cases table kind symbol source
  rcases ends_of_parseSymbol reading ended with opened | ⟨first, last, opened, reach, _, done⟩
  · rw [opened] at case
    cases case with
    | @leaf token rest taken =>
        have waits := Feed.tokens_of_take taken
        rw [Feed.tokens_start] at waits
        obtain rfl := Except.ok.inj parsed
        rw [waits, SyntaxTree.leaf, SyntaxTree.nodes_terminal]
        exact ⟨_, .leaf token (.nil _)⟩
    | noToken => cases parsed
    | otherToken => cases parsed
    | noLookahead => cases parsed
    | noRule => cases parsed
  · rw [opened] at case
    have told := reach.tells reading (tells_opening reading case)
    cases done with
    | finish =>
        obtain rfl := Except.ok.inj parsed
        obtain ⟨before, own, waiting, split, outer, tells⟩ := Told.close told
        cases outer
        rw [List.nil_append] at split
        rw [← split] at tells
        exact ⟨_, tells⟩
    | noToken => cases parsed
    | otherToken => cases parsed
    | noLookahead => cases parsed
    | noRule => cases parsed

theorem Stop.head? {context : Option N} {error : ParseError T N} {feed : Feed Source T}
    {after : Source} (stop : Stop table kind feed context symbol error after) :
    (feed.tokens kind).head? = error.got? := by
  cases stop with
  | noToken taken =>
      rw [Feed.tokens_of_take_none taken]
      rfl
  | otherToken taken =>
      rw [Feed.tokens_of_take taken]
      rfl
  | noLookahead seen =>
      rw [Feed.tokens_of_peek_none seen]
      rfl
  | noRule seen =>
      obtain ⟨_, others, left⟩ := Feed.tokens_of_peek seen
      rw [left]
      rfl

theorem Opening.events_of_error {error : ParseError T N}
    (case : Opening table kind source symbol (.done result))
    (failed : result.outcome = .error error) : result.events = [] := by
  cases case with
  | leaf => cases failed
  | noToken => rfl
  | otherToken => rfl
  | noLookahead => rfl
  | noRule => rfl

theorem Turn.events_of_done {state : State Source T N}
    (done : Turn table kind state (.done result)) : result.events = state.events.reverse := by
  cases done <;> rfl

theorem matched_of_error (reading : table.Predictive) {error : ParseError T N}
    (ended : table.parseSymbol kind symbol source = result)
    (failed : result.outcome = .error error) :
    ∃ rest, (kind.drain source).1 = result.matched ++ rest ∧ rest.head? = error.got? := by
  have case := opening_cases table kind symbol source
  rcases ends_of_parseSymbol reading ended with opened | ⟨_, last, _, _, coherent, done⟩
  · rw [opened] at case
    refine ⟨(kind.drain source).1, ?_, (case.stop failed).head?⟩
    rw [Run.matched, case.events_of_error failed]
    rfl
  · obtain ⟨_, _, _, stop⟩ := done.stop failed
    refine ⟨last.feed.tokens kind, ?_, stop.head?⟩
    rw [Run.matched, done.events_of_done]
    exact coherent.split.symm

end Parsing

/-! ## Records -/

variable [Labelled T] [Labelled N]

omit [Labelled T] [Labelled N] in
def Record.isMatch (record : Record) : Bool :=
  "matched ".toList.isPrefixOf record.message.toList

def Record.expanding (rule : Rule T N) (ahead : Token T) : Record :=
  ⟨.trace, .parsing, "expanding " ++ rule.describe ++ " on " ++ ahead.describe⟩

omit [Labelled N] in
def Record.matching (token : Token T) : Record :=
  ⟨.trace, .parsing, "matched " ++ token.describe⟩

namespace Event

theorem isMatch_matched (token : Token T) :
    (record (.matched token : Event T N)).isMatch = true := by
  rw [Record.isMatch, record, describe, String.toList_append, List.isPrefixOf_iff_prefix]
  exact List.prefix_append ..

theorem isMatch_expanded (rule : Rule T N) (ahead : Token T) :
    (record (.expanded rule ahead)).isMatch = false := by
  simp [Record.isMatch, record, describe, List.isPrefixOf]

theorem filter_isMatch (events : List (Event T N)) :
    (events.map record).filter Record.isMatch =
      (events.filterMap token?).map Record.matching := by
  induction events with
  | nil => rfl
  | cons event events ih =>
      cases event with
      | expanded rule ahead =>
          rw [List.map_cons, List.filter_cons_of_neg (by simp [isMatch_expanded]), ih]
          rfl
      | matched token =>
          rw [List.map_cons, List.filter_cons_of_pos (isMatch_matched token), ih]
          rfl

end Event

namespace Parsing

variable [DecidableEq T] [DecidableEq N]

/-- The account of a parse that gives a tree is the preorder of the tree. The matches in the account
of one that fails are of the tokens before the refused one. -/
theorem parseSymbol_tells {rules : List (Rule T N)} {start : N} {grammar : Grammar T N}
    {table : Table T N} (accepted : Grammar.ofRules rules start = .ok grammar)
    (built : Table.ofGrammar grammar = .ok table) (kind : TokenSource Source T)
    (symbol : Symbol T N) (source : Source) :
    (∀ tree, (table.parseSymbol kind symbol source).outcome = .ok tree → ∃ rest,
      grammar.Tells .expanded .matched (kind.drain source).1 tree.nodes
        (table.parseSymbol kind symbol source).events rest ∧
      grammar.Tells Record.expanding Record.matching (kind.drain source).1 tree.nodes
        (table.parseSymbol kind symbol source).records rest) ∧
    ∀ error, (table.parseSymbol kind symbol source).outcome = .error error → ∃ before rest,
      (kind.drain source).1 = before ++ rest ∧ rest.head? = error.got? ∧
      (table.parseSymbol kind symbol source).matched = before ∧
      (table.parseSymbol kind symbol source).records.filter Record.isMatch =
        before.map Record.matching := by
  obtain ⟨rfl, reading⟩ := Table.predictive_of_ofGrammar accepted built
  constructor
  · intro tree parsed
    obtain ⟨rest, tells⟩ := tells_of_ok reading rfl parsed
    exact ⟨rest, tells, tells.map Event.record⟩
  · intro error failed
    obtain ⟨rest, split, first⟩ := matched_of_error reading rfl failed
    exact ⟨_, rest, split, first, rfl, Event.filter_isMatch _⟩

open SExpr (TokenKind Phrase)

def argument : List (Token TokenKind) :=
  [⟨.number, "1", 3⟩, ⟨.rightParen, ")", 4⟩]

def nameless : List (Token TokenKind) :=
  ⟨.leftParen, "(", 0⟩ :: argument

theorem parseSymbol_tells_arguments : ∃ grammar table tree rest before left,
    Grammar.ofRules SExpr.rules .document = .ok grammar ∧ Table.ofGrammar grammar = .ok table ∧
    (table.parseSymbol .list (.nonTerminal .arguments) argument).outcome = .ok tree ∧
    grammar.Tells Record.expanding Record.matching argument tree.nodes
      (table.parseSymbol .list (.nonTerminal .arguments) argument).records rest ∧
    (table.parseSymbol .list (.nonTerminal .expression) nameless).outcome =
      .error (.unexpectedToken .identifier ⟨.number, "1", 3⟩ (some .expression)) ∧
    nameless = before ++ left ∧ left.head? = some ⟨.number, "1", 3⟩ ∧
    (table.parseSymbol .list (.nonTerminal .expression) nameless).records.filter Record.isMatch =
      before.map Record.matching := by
  obtain ⟨grammar, table, tree, accepted, built, parsed, failed⟩ : ∃ grammar table tree,
      Grammar.ofRules SExpr.rules .document = .ok grammar ∧ Table.ofGrammar grammar = .ok table ∧
      (table.parseSymbol .list (.nonTerminal .arguments) argument).outcome = .ok tree ∧
      (table.parseSymbol .list (.nonTerminal .expression) nameless).outcome =
        .error (.unexpectedToken .identifier ⟨.number, "1", 3⟩ (some .expression)) :=
    ⟨_, _, .node (.nonTerminal .arguments) (some 2)
      [.node (.nonTerminal .argument) (some 4) [.leaf ⟨.number, "1", 3⟩],
        .node (.nonTerminal .arguments) (some 3) []], rfl, rfl, by cbv, by cbv⟩
  obtain ⟨rest, _, told⟩ :=
    (parseSymbol_tells accepted built .list (.nonTerminal .arguments) argument).1 tree parsed
  obtain ⟨before, left, split, first, _, matchRecords⟩ :=
    (parseSymbol_tells accepted built .list (.nonTerminal .expression) nameless).2 _ failed
  rw [TokenSource.drain_list] at told split
  exact ⟨grammar, table, tree, rest, before, left, accepted, built, parsed, told, failed, split,
    first, matchRecords⟩

end Parsing

end Lookahead
