import Lookahead.Grammar.Basic
import Lookahead.Parsing.Source
import Lookahead.SyntaxTree
import Lookahead.Table

/-!
# The turns of a parser

What one turn of the parser does, and the errors in which a parse may end.
-/

set_option autoImplicit false

namespace Lookahead

/-!
## Why a parse fails

Three failures come from the tokens: a token that the rule being expanded does not allow, a token
on which a non terminal has no rule, and the end of the tokens. The fourth comes from the table
alone: expansions that would follow each other for ever without a token being taken.
-/

/-- The context is the non terminal whose rule was being expanded, absent for the symbol that the
parse started from. -/
inductive ParseError (T N : Type) where
  | unexpectedToken (expected : T) (got : Token T) (context : Option N)
  | noRule (nonTerminal : N) (got : Token T) (expected : List T)
  | unexpectedEnd (expecting : Symbol T N) (context : Option N)
  | endless (nonTerminal : N)
  deriving DecidableEq

namespace ParseError

variable {T N : Type} [Labelled T] [Labelled N]

def describeContext : Option N → String
  | some name => " while parsing " ++ label name
  | none => ""

def message : ParseError T N → String
  | unexpectedToken expected got context =>
      "unexpected token " ++ got.describe ++ ", expected " ++ label expected ++
        describeContext context
  | noRule name got expected =>
      "unexpected token " ++ got.describe ++ " while parsing " ++ label name ++
        ", expected one of " ++ labelList expected
  | unexpectedEnd expecting context =>
      "token stream ended while expecting " ++ label expecting ++ describeContext context
  | endless name => "expanding " ++ label name ++ " never reaches a token"

end ParseError

/-!
## Turns of the predictive parser

The parser expands non terminals by the rule that the table gives for the token ahead, and matches
terminals with tokens. Each expansion that is not finished is a frame: its rule, the symbols of the
right side still to be parsed, and the trees of those before them. The parser keeps the frames in a
list, works on the innermost one, and hands its tree to the one around it when no symbol is left.

`advance` is one turn of that loop. `Turn` lists what a turn can do, case by case, and `turn_iff`
says that it lists nothing else; what is known of a parse follows from these cases. `Opening` does
the same for what is done before the first turn.
-/

inductive Event (T N : Type) where
  | expanded (rule : Rule T N) (ahead : Token T)
  | matched (token : Token T)
  deriving DecidableEq

def Event.token? {T N : Type} : Event T N → Option (Token T)
  | expanded _ _ => none
  | matched token => some token

def Event.tokens {T N : Type} (events : List (Event T N)) : List (Token T) :=
  events.reverse.filterMap Event.token?

theorem Event.tokens_matched {T N : Type} (token : Token T) (events : List (Event T N)) :
    tokens (.matched token :: events) = tokens events ++ [token] := by
  simp [tokens, token?]

theorem Event.tokens_expanded {T N : Type} (rule : Rule T N) (ahead : Token T)
    (events : List (Event T N)) : tokens (.expanded rule ahead :: events) = tokens events := by
  simp [tokens, token?]

def Event.describe {T N : Type} [Labelled T] [Labelled N] : Event T N → String
  | expanded rule ahead => "expanding " ++ rule.describe ++ " on " ++ ahead.describe
  | matched token => "matched " ++ token.describe

def Event.record {T N : Type} [Labelled T] [Labelled N] (event : Event T N) : Record :=
  ⟨.trace, .parsing, event.describe⟩

/-- A token that was looked at and not taken is gone from the source. -/
structure Run (Source T N : Type) where
  outcome : Except (ParseError T N) (SyntaxTree T N)
  events : List (Event T N)
  source : Source

def Run.matched {Source T N : Type} (run : Run Source T N) : List (Token T) :=
  run.events.filterMap Event.token?

def Run.records {Source T N : Type} [Labelled T] [Labelled N] (run : Run Source T N) :
    List Record :=
  run.events.map Event.record

namespace Parsing

/-- An expansion under way: the symbols still to be parsed, and the trees of those before them, last
first. -/
structure Frame (T N : Type) where
  rule : Rule T N
  pending : List (Symbol T N)
  children : List (SyntaxTree T N)

/-- The events are listed last first. The innermost `quiet` frames were opened since the last token
was taken. -/
structure State (Source T N : Type) where
  current : Frame T N
  parents : List (Frame T N)
  quiet : Nat
  feed : Feed Source T
  events : List (Event T N)

def State.matched {Source T N : Type} (state : State Source T N) : List (Token T) :=
  Event.tokens state.events

inductive Step (Source T N : Type) where
  | next (state : State Source T N)
  | done (run : Run Source T N)

namespace Frame

variable {T N : Type}

def start (rule : Rule T N) : Frame T N :=
  ⟨rule, rule.rhs, []⟩

def tree (frame : Frame T N) : SyntaxTree T N :=
  .node (.nonTerminal frame.rule.lhs) (some frame.rule.index) frame.children.reverse

def push (frame : Frame T N) (tree : SyntaxTree T N) (pending : List (Symbol T N)) : Frame T N :=
  { frame with pending := pending, children := tree :: frame.children }

end Frame

variable {Source T N : Type} [DecidableEq T] [DecidableEq N]

omit [DecidableEq N] in
def matchTerminal (kind : TokenSource Source T) (expected : T) (context : Option N)
    (feed : Feed Source T) : Except (ParseError T N) (Token T) × Feed Source T :=
  match feed.take kind with
  | (none, rest) => (.error (.unexpectedEnd (.terminal expected) context), rest)
  | (some token, rest) =>
      if token.kind = expected then (.ok token, rest)
      else (.error (.unexpectedToken expected token context), rest)

/-- The token ahead is not taken. -/
def predict (table : Table T N) (kind : TokenSource Source T) (name : N) (context : Option N)
    (feed : Feed Source T) :
    Except (ParseError T N) (Rule T N × Token T) × Feed Source T :=
  match feed.peek kind with
  | (none, rest) => (.error (.unexpectedEnd (.nonTerminal name) context), rest)
  | (some token, rest) =>
      match table.get? name token.kind with
      | some rule => (.ok (rule, token), rest)
      | none => (.error (.noRule name token (table.expected name)), rest)

/-- What is done before the first turn: a terminal is matched at once, a non terminal is expanded
into the outermost frame. -/
def opening (table : Table T N) (kind : TokenSource Source T) (symbol : Symbol T N)
    (source : Source) : Step Source T N :=
  match symbol with
  | .terminal expected =>
      match matchTerminal kind expected none (Feed.start source) with
      | (.error error, feed) => .done ⟨.error error, [], feed.source⟩
      | (.ok token, feed) => .done ⟨.ok (.leaf token), [.matched token], feed.source⟩
  | .nonTerminal name =>
      match predict table kind name none (Feed.start source) with
      | (.error error, feed) => .done ⟨.error error, [], feed.source⟩
      | (.ok (rule, ahead), feed) => .next ⟨.start rule, [], 1, feed, [.expanded rule ahead]⟩

/-- One turn: the next pending symbol of the innermost frame is parsed or expanded, or that frame
is finished. -/
def advance (table : Table T N) (kind : TokenSource Source T) (state : State Source T N) :
    Step Source T N :=
  let frame := state.current
  match frame.pending with
  | [] =>
      match state.parents with
      | [] => .done ⟨.ok frame.tree, state.events.reverse, state.feed.source⟩
      | parent :: parents =>
          .next { state with
            current := parent.push frame.tree parent.pending
            parents := parents
            quiet := state.quiet - 1 }
  | .terminal expected :: pending =>
      match matchTerminal kind expected (some frame.rule.lhs) state.feed with
      | (.error error, feed) => .done ⟨.error error, state.events.reverse, feed.source⟩
      | (.ok token, feed) =>
          .next { state with
            current := frame.push (.leaf token) pending
            quiet := 0
            feed := feed
            events := .matched token :: state.events }
  | .nonTerminal name :: pending =>
      match predict table kind name (some frame.rule.lhs) state.feed with
      | (.error error, feed) => .done ⟨.error error, state.events.reverse, feed.source⟩
      | (.ok (rule, ahead), feed) =>
          .next {
            current := .start rule
            parents := { frame with pending := pending } :: state.parents
            quiet := state.quiet + 1
            feed := feed
            events := .expanded rule ahead :: state.events }

/-- What a turn does in each case, with what the source gave and what the table said. -/
inductive Turn (table : Table T N) (kind : TokenSource Source T) :
    State Source T N → Step Source T N → Prop
  | close {rule children parent parents quiet feed events} :
      Turn table kind ⟨⟨rule, [], children⟩, parent :: parents, quiet, feed, events⟩
        (.next ⟨parent.push (Frame.tree ⟨rule, [], children⟩) parent.pending, parents, quiet - 1,
          feed, events⟩)
  | shift {rule token pending children parents quiet feed rest events}
      (taken : feed.take kind = (some token, rest)) :
      Turn table kind
        ⟨⟨rule, .terminal token.kind :: pending, children⟩, parents, quiet, feed, events⟩
        (.next ⟨⟨rule, pending, .leaf token :: children⟩, parents, 0, rest,
          .matched token :: events⟩)
  | expand {rule name pending children parents quiet feed inner ahead rest events}
      (seen : feed.peek kind = (some ahead, rest))
      (chosen : table.get? name ahead.kind = some inner) :
      Turn table kind ⟨⟨rule, .nonTerminal name :: pending, children⟩, parents, quiet, feed, events⟩
        (.next ⟨.start inner, ⟨rule, pending, children⟩ :: parents, quiet + 1, rest,
          .expanded inner ahead :: events⟩)
  | finish {rule children quiet feed events} :
      Turn table kind ⟨⟨rule, [], children⟩, [], quiet, feed, events⟩
        (.done ⟨.ok (Frame.tree ⟨rule, [], children⟩), events.reverse, feed.source⟩)
  | noToken {rule expected pending children parents quiet feed rest events}
      (taken : feed.take kind = (none, rest)) :
      Turn table kind ⟨⟨rule, .terminal expected :: pending, children⟩, parents, quiet, feed, events⟩
        (.done ⟨.error (.unexpectedEnd (.terminal expected) (some rule.lhs)), events.reverse,
          rest.source⟩)
  | otherToken {rule expected token pending children parents quiet feed rest events}
      (taken : feed.take kind = (some token, rest)) (other : token.kind ≠ expected) :
      Turn table kind ⟨⟨rule, .terminal expected :: pending, children⟩, parents, quiet, feed, events⟩
        (.done ⟨.error (.unexpectedToken expected token (some rule.lhs)), events.reverse,
          rest.source⟩)
  | noLookahead {rule name pending children parents quiet feed rest events}
      (seen : feed.peek kind = (none, rest)) :
      Turn table kind ⟨⟨rule, .nonTerminal name :: pending, children⟩, parents, quiet, feed, events⟩
        (.done ⟨.error (.unexpectedEnd (.nonTerminal name) (some rule.lhs)), events.reverse,
          rest.source⟩)
  | noRule {rule name ahead pending children parents quiet feed rest events}
      (seen : feed.peek kind = (some ahead, rest)) (empty : table.get? name ahead.kind = none) :
      Turn table kind ⟨⟨rule, .nonTerminal name :: pending, children⟩, parents, quiet, feed, events⟩
        (.done ⟨.error (.noRule name ahead (table.expected name)), events.reverse, rest.source⟩)

theorem turn_advance (table : Table T N) (kind : TokenSource Source T)
    (state : State Source T N) : Turn table kind state (advance table kind state) := by
  obtain ⟨⟨rule, pending, children⟩, parents, quiet, feed, events⟩ := state
  cases pending with
  | nil =>
      cases parents with
      | nil => exact .finish
      | cons parent parents => exact .close
  | cons symbol pending =>
      cases symbol with
      | terminal expected =>
          cases taken : feed.take kind with
          | mk first rest =>
              cases first with
              | none =>
                  simp only [advance, matchTerminal, taken]
                  exact .noToken taken
              | some token =>
                  by_cases same : token.kind = expected
                  · subst expected
                    simp only [advance, matchTerminal, taken, if_true]
                    exact .shift taken
                  · simp only [advance, matchTerminal, taken, if_neg same]
                    exact .otherToken taken same
      | nonTerminal name =>
          cases seen : feed.peek kind with
          | mk first rest =>
              cases first with
              | none =>
                  simp only [advance, predict, seen]
                  exact .noLookahead seen
              | some ahead =>
                  cases chosen : table.get? name ahead.kind with
                  | none =>
                      simp only [advance, predict, seen, chosen]
                      exact .noRule seen chosen
                  | some inner =>
                      simp only [advance, predict, seen, chosen]
                      exact .expand seen chosen

theorem turn_iff {table : Table T N} {kind : TokenSource Source T} {state : State Source T N}
    {step : Step Source T N} : Turn table kind state step ↔ advance table kind state = step := by
  constructor
  · intro turn
    cases turn with
    | close => rfl
    | shift taken => simp only [advance, matchTerminal, taken, if_true, Frame.push]
    | expand seen chosen => simp only [advance, predict, seen, chosen]
    | finish => rfl
    | noToken taken => simp only [advance, matchTerminal, taken]
    | otherToken taken other => simp only [advance, matchTerminal, taken, if_neg other]
    | noLookahead seen => simp only [advance, predict, seen]
    | noRule seen empty => simp only [advance, predict, seen, empty]
  · intro advanced
    rw [← advanced]
    exact turn_advance table kind state

inductive Opening (table : Table T N) (kind : TokenSource Source T) (source : Source) :
    Symbol T N → Step Source T N → Prop
  | leaf {token rest} (taken : (Feed.start source).take kind = (some token, rest)) :
      Opening table kind source (.terminal token.kind)
        (.done ⟨.ok (.leaf token), [.matched token], rest.source⟩)
  | expand {name rule ahead rest} (seen : (Feed.start source).peek kind = (some ahead, rest))
      (chosen : table.get? name ahead.kind = some rule) :
      Opening table kind source (.nonTerminal name)
        (.next ⟨.start rule, [], 1, rest, [.expanded rule ahead]⟩)
  | noToken {expected rest} (taken : (Feed.start source).take kind = (none, rest)) :
      Opening table kind source (.terminal expected)
        (.done ⟨.error (.unexpectedEnd (.terminal expected) none), [], rest.source⟩)
  | otherToken {expected token rest}
      (taken : (Feed.start source).take kind = (some token, rest))
      (other : token.kind ≠ expected) :
      Opening table kind source (.terminal expected)
        (.done ⟨.error (.unexpectedToken expected token none), [], rest.source⟩)
  | noLookahead {name rest} (seen : (Feed.start source).peek kind = (none, rest)) :
      Opening table kind source (.nonTerminal name)
        (.done ⟨.error (.unexpectedEnd (.nonTerminal name) none), [], rest.source⟩)
  | noRule {name ahead rest} (seen : (Feed.start source).peek kind = (some ahead, rest))
      (empty : table.get? name ahead.kind = none) :
      Opening table kind source (.nonTerminal name)
        (.done ⟨.error (.noRule name ahead (table.expected name)), [], rest.source⟩)

theorem opening_cases (table : Table T N) (kind : TokenSource Source T) (symbol : Symbol T N)
    (source : Source) : Opening table kind source symbol (opening table kind symbol source) := by
  cases symbol with
  | terminal expected =>
      cases taken : (Feed.start source).take kind with
      | mk first rest =>
          cases first with
          | none =>
              simp only [opening, matchTerminal, taken]
              exact .noToken taken
          | some token =>
              by_cases same : token.kind = expected
              · subst expected
                simp only [opening, matchTerminal, taken, if_true]
                exact .leaf taken
              · simp only [opening, matchTerminal, taken, if_neg same]
                exact .otherToken taken same
  | nonTerminal name =>
      cases seen : (Feed.start source).peek kind with
      | mk first rest =>
          cases first with
          | none =>
              simp only [opening, predict, seen]
              exact .noLookahead seen
          | some ahead =>
              cases chosen : table.get? name ahead.kind with
              | none =>
                  simp only [opening, predict, seen, chosen]
                  exact .noRule seen chosen
              | some rule =>
                  simp only [opening, predict, seen, chosen]
                  exact .expand seen chosen

end Parsing

end Lookahead
