import Lookahead.Proofs.Termination

/-!
# What a parse has not read

A parse of a list of tokens draws them from the front, one at a time, and looks at nothing that it
has not drawn. So the list comes in two parts, what was read and what is left, and whatever is put
in place of the second part, the parse is the same and leaves that (`parseSymbol_onto`). Only a
parse that ran out of tokens has learned something about what stands behind the read ones.
-/

set_option autoImplicit false

namespace Lookahead

variable {T N : Type}

namespace Feed

section

variable {Source : Type} {kind : TokenSource Source T} {feed rest : Feed Source T} {token : Token T}

theorem ahead_of_take (taken : feed.take kind = (some token, rest)) : rest.ahead = none := by
  obtain ⟨ahead, source⟩ := feed
  cases ahead with
  | some held =>
      cases taken
      rfl
  | none =>
      obtain ⟨_, rfl⟩ := Prod.mk.inj taken
      rfl

theorem ahead_of_peek (seen : feed.peek kind = (some token, rest)) : rest.ahead = some token := by
  obtain ⟨ahead, source⟩ := feed
  cases ahead with
  | some held =>
      cases seen
      rfl
  | none =>
      obtain ⟨first, rfl⟩ := Prod.mk.inj seen
      exact first

theorem take_of_peek {first : Option (Token T)} (seen : feed.peek kind = (first, rest)) :
    feed.take kind = (first, ⟨none, rest.source⟩) := by
  obtain ⟨ahead, source⟩ := feed
  cases ahead with
  | some held =>
      cases seen
      rfl
  | none =>
      obtain ⟨rfl, rfl⟩ := Prod.mk.inj seen
      rfl

end

variable {feed rest : Feed (List (Token T)) T} {token : Token T}

def onto (feed : Feed (List (Token T)) T) (tokens : List (Token T)) : Feed (List (Token T)) T :=
  ⟨feed.ahead, tokens⟩

theorem take_onto (taken : feed.take .list = (some token, rest)) :
    ∃ read, feed.source = read ++ rest.source ∧
      ∀ others, (feed.onto (read ++ others)).take .list = (some token, rest.onto others) := by
  obtain ⟨ahead, source⟩ := feed
  cases ahead with
  | some held =>
      cases taken
      exact ⟨[], rfl, fun _ => rfl⟩
  | none =>
      cases source with
      | nil => cases taken
      | cons first tokens =>
          cases taken
          exact ⟨[token], rfl, fun _ => rfl⟩

theorem peek_onto (seen : feed.peek .list = (some token, rest)) :
    ∃ read, feed.source = read ++ rest.source ∧
      ∀ others, (feed.onto (read ++ others)).peek .list = (some token, rest.onto others) := by
  obtain ⟨ahead, source⟩ := feed
  cases ahead with
  | some held =>
      cases seen
      exact ⟨[], rfl, fun _ => rfl⟩
  | none =>
      cases source with
      | nil => cases seen
      | cons first tokens =>
          cases seen
          exact ⟨[token], rfl, fun _ => rfl⟩

end Feed

def Run.onto (run : Run (List (Token T)) T N) (tokens : List (Token T)) :
    Run (List (Token T)) T N :=
  { run with source := tokens }

def Run.IsEnded {Source : Type} (run : Run Source T N) : Prop :=
  ∃ expecting context, run.outcome = .error (.unexpectedEnd expecting context)

namespace Parsing

def State.onto (state : State (List (Token T)) T N) (tokens : List (Token T)) :
    State (List (Token T)) T N :=
  { state with feed := state.feed.onto tokens }

def Step.left : Step (List (Token T)) T N → List (Token T)
  | .next state => state.feed.source
  | .done run => run.source

def Step.onto (tokens : List (Token T)) : Step (List (Token T)) T N → Step (List (Token T)) T N
  | .next state => .next (state.onto tokens)
  | .done run => .done (run.onto tokens)

def Step.IsEnded : Step (List (Token T)) T N → Prop
  | .next _ => False
  | .done run => run.IsEnded

variable [DecidableEq T] [DecidableEq N] {table : Table T N} {symbol : Symbol T N}
  {state last : State (List (Token T)) T N} {step : Step (List (Token T)) T N}
  {result : Run (List (Token T)) T N} {tokens : List (Token T)}

theorem Opening.eq {Source : Type} {kind : TokenSource Source T} {source : Source}
    {step : Step Source T N} (case : Opening table kind source symbol step) :
    opening table kind symbol source = step := by
  cases case with
  | leaf taken => simp only [opening, matchTerminal, taken, if_true]
  | expand seen chosen => simp only [opening, predict, seen, chosen]
  | noToken taken => simp only [opening, matchTerminal, taken]
  | otherToken taken other => simp only [opening, matchTerminal, taken, if_neg other]
  | noLookahead seen => simp only [opening, predict, seen]
  | noRule seen empty => simp only [opening, predict, seen, empty]

theorem Opening.onto (case : Opening table .list tokens symbol step) (going : ¬ step.IsEnded) :
    ∃ read, tokens = read ++ step.left ∧
      ∀ others, Opening table .list (read ++ others) symbol (step.onto others) := by
  cases case with
  | leaf taken =>
      obtain ⟨read, split, same⟩ := Feed.take_onto taken
      exact ⟨read, split, fun others => .leaf (same others)⟩
  | expand seen chosen =>
      obtain ⟨read, split, same⟩ := Feed.peek_onto seen
      exact ⟨read, split, fun others => .expand (same others) chosen⟩
  | otherToken taken other =>
      obtain ⟨read, split, same⟩ := Feed.take_onto taken
      exact ⟨read, split, fun others => .otherToken (same others) other⟩
  | noRule seen empty =>
      obtain ⟨read, split, same⟩ := Feed.peek_onto seen
      exact ⟨read, split, fun others => .noRule (same others) empty⟩
  | noToken => exact absurd ⟨_, _, rfl⟩ going
  | noLookahead => exact absurd ⟨_, _, rfl⟩ going

theorem Turn.onto (turn : Turn table .list state step) (going : ¬ step.IsEnded) :
    ∃ read, state.feed.source = read ++ step.left ∧
      ∀ others, Turn table .list (state.onto (read ++ others)) (step.onto others) := by
  cases turn with
  | close => exact ⟨[], rfl, fun _ => .close⟩
  | finish => exact ⟨[], rfl, fun _ => .finish⟩
  | shift taken =>
      obtain ⟨read, split, same⟩ := Feed.take_onto taken
      exact ⟨read, split, fun others => .shift (same others)⟩
  | expand seen chosen =>
      obtain ⟨read, split, same⟩ := Feed.peek_onto seen
      exact ⟨read, split, fun others => .expand (same others) chosen⟩
  | otherToken taken other =>
      obtain ⟨read, split, same⟩ := Feed.take_onto taken
      exact ⟨read, split, fun others => .otherToken (same others) other⟩
  | noRule seen empty =>
      obtain ⟨read, split, same⟩ := Feed.peek_onto seen
      exact ⟨read, split, fun others => .noRule (same others) empty⟩
  | noToken => exact absurd ⟨_, _, rfl⟩ going
  | noLookahead => exact absurd ⟨_, _, rfl⟩ going

theorem Reach.onto (reach : Reach table .list state last)
    (done : Turn table .list last (.done result)) (going : ¬ result.IsEnded) :
    ∃ read, state.feed.source = read ++ result.source ∧
      ∀ others, ∃ final, Reach table .list (state.onto (read ++ others)) final ∧
        Turn table .list final (.done (result.onto others)) := by
  induction reach using Relation.ReflTransGen.head_induction_on with
  | refl =>
      obtain ⟨read, split, same⟩ := done.onto going
      exact ⟨read, split, fun others => ⟨_, .refl, same others⟩⟩
  | head turn _ ih =>
      obtain ⟨later, splitLater, sameLater⟩ := ih
      obtain ⟨read, split, same⟩ := turn.onto id
      -- what the turn reads comes first, and what is left there is read by the later turns
      refine ⟨read ++ later, ?_, fun others => ?_⟩
      · rw [split, Step.left, splitLater, List.append_assoc]
      · obtain ⟨final, reachLater, doneLater⟩ := sameLater others
        rw [List.append_assoc]
        exact ⟨final, .head (same (later ++ others)) reachLater, doneLater⟩

/-- A parse that has not run out of tokens has read some of them, and it is the same before any
others, which it leaves. -/
theorem parseSymbol_onto (reading : table.Predictive)
    (ended : table.parseSymbol .list symbol tokens = result) (going : ¬ result.IsEnded) :
    ∃ read, tokens = read ++ result.source ∧
      ∀ others, table.parseSymbol .list symbol (read ++ others) = result.onto others := by
  have case := opening_cases table .list symbol tokens
  rcases ends_of_parseSymbol reading ended with opened | ⟨first, last, opened, reach, _, done⟩
  · rw [opened] at case
    obtain ⟨read, split, same⟩ := case.onto going
    exact ⟨read, split, fun others => Table.parseSymbol_of_done (same others).eq⟩
  · rw [opened] at case
    obtain ⟨early, splitEarly, sameEarly⟩ := case.onto id
    obtain ⟨later, splitLater, sameLater⟩ := reach.onto done going
    refine ⟨early ++ later, ?_, fun others => ?_⟩
    · rw [splitEarly, Step.left, splitLater, List.append_assoc]
    · have openedOther := (sameEarly (later ++ others)).eq
      obtain ⟨final, reachOther, doneOther⟩ := sameLater others
      rw [List.append_assoc, Table.parseSymbol_of_next openedOther]
      exact (coherent_opening reading openedOther).run_eq reading reachOther doneOther

end Parsing

end Lookahead
