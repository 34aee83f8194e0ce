import Lookahead.Proofs.Termination
import Mathlib.Data.List.Permutation

/-!
# Errors are found at the first wrong token

The tokens matched so far always begin something that the symbol derives (`Nest.yields`). A parse
also never closes off a continuation: whatever form the symbol derives that begins with the matched
tokens and the one ahead, the pending symbols derive the part from the token ahead on (`Forced`).
Expansions keep this, because a rule that takes part in such a derivation is the one that the table
chooses on that token (`chosen_of_yields`), and so do tokens that are taken. When no turn is
possible the pending symbols cannot start with the token ahead, hence no form has it there.

FOLLOW knows less than the pending symbols, so the table may choose to expand non terminals into
nothing before a wrong token. The invariant holds through such expansions too; they take no token.
-/

set_option autoImplicit false

namespace Lookahead

variable {Source T N : Type} [DecidableEq T] [DecidableEq N]

omit [DecidableEq T] [DecidableEq N] in
def ParseError.got? : ParseError T N → Option (Token T)
  | unexpectedToken _ got _ => some got
  | noRule _ got _ => some got
  | unexpectedEnd _ _ => none
  | endless _ => none

namespace Parsing

open Grammar.Nest (pendings)

variable {table : Table T N} {kind : TokenSource Source T} {tokens : List (Token T)}
  {state next : State Source T N} {result : Run Source T N}

/-- A non terminal at the place from which a terminal is derived has a rule on that terminal, and
the derivation goes through that rule. -/
theorem chosen_of_yields (reading : table.Predictive) {top name : N} {terminal : T}
    {before pending form : List (Symbol T N)}
    (reached : table.grammar.Yields [.nonTerminal top] (before ++ .nonTerminal name :: pending))
    (yields : table.grammar.Yields (.nonTerminal name :: pending) (.terminal terminal :: form)) :
    ∃ rule, table.get? name terminal = some rule ∧
      table.grammar.Yields (rule.rhs ++ pending) (.terminal terminal :: form) := by
  rcases yields.nonTerminal_cases with ⟨_, kept, _⟩ | ⟨rule, listed, inner, later, rfl, parts⟩
  · cases kept
  · obtain ⟨whole, side, rest⟩ := parts
    refine ⟨rule, ?_, whole ▸ side.append rest⟩
    cases inner with
    | cons first inner =>
        obtain ⟨rfl, _⟩ := List.cons.inj whole
        exact reading.get?_of_starts listed ⟨inner, side⟩
    | nil =>
        rw [List.nil_append] at whole
        subst whole
        -- the rule derives nothing here, so the terminal follows its left side
        have derived : table.grammar.Yields [.nonTerminal top]
            (before ++ ([.nonTerminal rule.lhs] ++ .terminal terminal :: form)) :=
          reached.trans ((Grammar.Yields.refl before).append (.keep _ rest))
        have other : before ++ ([.nonTerminal rule.lhs] ++ .terminal terminal :: form) ≠
            [.nonTerminal top] := by
          intro same
          have lengths := congrArg List.length same
          simp only [List.length_append, List.length_cons, List.length_nil] at lengths
          omega
        obtain ⟨user, listedUser, used⟩ := derived.mem_rhs other
          (List.mem_append_right before (List.mem_cons_of_mem _ List.mem_cons_self))
        have follows : terminal ∈ table.sets.follow.row rule.lhs :=
          reading.mem_follow_iff.mpr ⟨reading.known listedUser used, top, before, form, derived⟩
        exact reading.get?_of_empty listed side follows

theorem Opening.refused (reading : table.Predictive) {symbol : Symbol T N} {source : Source}
    (case : Opening table kind source symbol (.done result)) {error : ParseError T N}
    {got : Token T} (failed : result.outcome = .error error) (refused : error.got? = some got) :
    result.matched ++ [got] <+: (kind.drain source).1 ∧
      (∃ form, table.grammar.Yields [symbol] (Token.word result.matched ++ form)) ∧
      ∀ form, ¬ table.grammar.Yields [symbol]
        (Token.word result.matched ++ .terminal got.kind :: form) := by
  cases case with
  | leaf => cases failed
  | noToken =>
      obtain rfl := Except.error.inj failed
      cases refused
  | @otherToken expected token rest taken other =>
      obtain rfl := Except.error.inj failed
      obtain rfl := Option.some.inj refused
      have left := Feed.tokens_of_take taken
      refine ⟨⟨rest.tokens kind, left.symm⟩, ⟨_, .refl _⟩, ?_⟩
      intro form yields
      cases yields
      exact other rfl
  | noLookahead =>
      obtain rfl := Except.error.inj failed
      cases refused
  | @noRule name ahead rest seen empty =>
      obtain rfl := Except.error.inj failed
      obtain rfl := Option.some.inj refused
      obtain ⟨_, others, left⟩ := Feed.tokens_of_peek seen
      refine ⟨⟨others, left.symm⟩, ⟨_, .refl _⟩, ?_⟩
      intro form yields
      have begun : table.grammar.Yields [.nonTerminal name] ([] ++ .nonTerminal name :: []) :=
        .refl _
      obtain ⟨_, chosen, _⟩ := chosen_of_yields reading begun yields
      rw [empty] at chosen
      cases chosen

theorem Opening.ended {symbol : Symbol T N} {source : Source}
    (case : Opening table kind source symbol (.done result)) {expecting : Symbol T N}
    {context : Option N} (failed : result.outcome = .error (.unexpectedEnd expecting context)) :
    result.matched = (kind.drain source).1 ∧
      ∃ form, table.grammar.Yields [symbol] (Token.word result.matched ++ form) := by
  cases case with
  | leaf => cases failed
  | noToken taken =>
      have empty := Feed.tokens_of_take_none taken
      exact ⟨empty.symm, _, .refl _⟩
  | otherToken => cases failed
  | noLookahead seen =>
      have empty := Feed.tokens_of_peek_none seen
      exact ⟨empty.symm, _, .refl _⟩
  | noRule => cases failed

/-- Whatever the root derives that begins with the matched tokens and the one ahead, the pending
symbols derive from the token ahead on. -/
def Forced (table : Table T N) (kind : TokenSource Source T) (root : Symbol T N)
    (state : State Source T N) : Prop :=
  ∀ token others form, state.feed.tokens kind = token :: others →
    table.grammar.Yields [root] (Token.word state.matched ++ .terminal token.kind :: form) →
    table.grammar.Yields (pendings (state.current :: state.parents))
      (.terminal token.kind :: form)

theorem forced_opening (reading : table.Predictive) {symbol : Symbol T N} {source : Source}
    (opened : opening table kind symbol source = .next state) :
    Forced table kind symbol state := by
  have case := opening_cases table kind symbol source
  rw [opened] at case
  cases case with
  | @expand name rule ahead rest seen chosen =>
      intro token others form left yields
      obtain ⟨same, _, first⟩ := Feed.tokens_of_peek seen
      change rest.tokens kind = _ at left
      rw [same, first] at left
      obtain ⟨rfl, _⟩ := List.cons.inj left
      have start : table.grammar.Yields [.nonTerminal name] ([] ++ .nonTerminal name :: []) :=
        .refl _
      obtain ⟨other, chosenOther, rest⟩ := chosen_of_yields reading start yields
      rw [chosen] at chosenOther
      obtain rfl := Option.some.inj chosenOther
      exact rest

/-- A turn leaves every continuation open. -/
theorem Forced.turn (reading : table.Predictive) {top : N}
    (coherent : Coherent table kind (.nonTerminal top) tokens state)
    (forced : Forced table kind (.nonTerminal top) state)
    (turn : Turn table kind state (.next next)) : Forced table kind (.nonTerminal top) next := by
  cases turn with
  | close => exact forced
  | @shift rule token pending children parents quiet feed rest events taken =>
      intro ahead others form left yields
      simp only [State.matched, Event.tokens_matched, Token.word_append, List.append_assoc] at yields
      have earlier := forced token (rest.tokens kind) _ (Feed.tokens_of_take taken) yields
      cases earlier with
      | keep _ later => exact later
  | @expand rule name pending children parents quiet feed inner ahead rest events seen chosen =>
      intro token others form left yields
      obtain ⟨same, _, first⟩ := Feed.tokens_of_peek seen
      change rest.tokens kind = _ at left
      rw [same, first] at left
      obtain ⟨rfl, _⟩ := List.cons.inj left
      simp only [State.matched, Event.tokens_expanded] at yields
      have earlier := forced ahead _ form first yields
      -- the continuation goes through some rule on the token ahead, which is the one chosen
      obtain ⟨other, chosenOther, later⟩ :=
        chosen_of_yields reading coherent.nest.focus.yields earlier
      rw [chosen] at chosenOther
      obtain rfl := Option.some.inj chosenOther
      exact later

theorem Forced.reach (reading : table.Predictive) {top : N}
    (coherent : Coherent table kind (.nonTerminal top) tokens state)
    (forced : Forced table kind (.nonTerminal top) state) (reach : Reach table kind state next) :
    Forced table kind (.nonTerminal top) next := by
  induction reach with
  | refl => exact forced
  | tail reach turn ih => exact ih.turn reading (coherent.reach reading reach) turn

theorem Coherent.ahead {root : Symbol T N} (coherent : Coherent table kind root tokens state)
    {token : Token T} {others : List (Token T)} (left : state.feed.tokens kind = token :: others) :
    state.matched ++ [token] <+: tokens := by
  refine ⟨others, ?_⟩
  rw [List.append_assoc, List.singleton_append, ← left]
  exact coherent.split

theorem Forced.refused (reading : table.Predictive) {top : N}
    (coherent : Coherent table kind (.nonTerminal top) tokens state)
    (forced : Forced table kind (.nonTerminal top) state)
    (done : Turn table kind state (.done result)) {error : ParseError T N} {got : Token T}
    (failed : result.outcome = .error error) (refused : error.got? = some got) :
    result.matched ++ [got] <+: tokens ∧ ∀ form, ¬ table.grammar.Yields [.nonTerminal top]
      (Token.word result.matched ++ .terminal got.kind :: form) := by
  cases done with
  | finish => cases failed
  | noToken =>
      obtain rfl := Except.error.inj failed
      cases refused
  | @otherToken rule expected token pending children parents quiet feed rest events taken other =>
      obtain rfl := Except.error.inj failed
      obtain rfl := Option.some.inj refused
      have left := Feed.tokens_of_take taken
      refine ⟨coherent.ahead left, ?_⟩
      intro form yields
      -- a form that begins with another terminal would have to keep the expected one
      have expected := forced token _ form left yields
      cases expected
      exact other rfl
  | noLookahead =>
      obtain rfl := Except.error.inj failed
      cases refused
  | @noRule rule name ahead pending children parents quiet feed rest events seen empty =>
      obtain rfl := Except.error.inj failed
      obtain rfl := Option.some.inj refused
      obtain ⟨_, others, left⟩ := Feed.tokens_of_peek seen
      refine ⟨coherent.ahead left, ?_⟩
      intro form yields
      have earlier := forced ahead others form left yields
      obtain ⟨_, chosen, _⟩ := chosen_of_yields reading coherent.nest.focus.yields earlier
      rw [empty] at chosen
      cases chosen

theorem Coherent.ended {root : Symbol T N} (coherent : Coherent table kind root tokens state)
    (done : Turn table kind state (.done result)) {expecting : Symbol T N} {context : Option N}
    (failed : result.outcome = .error (.unexpectedEnd expecting context)) :
    result.matched = tokens := by
  obtain ⟨_, split, _, _⟩ := coherent
  cases done with
  | finish => cases failed
  | noToken taken =>
      rw [Feed.tokens_of_take_none taken, List.append_nil] at split
      exact split
  | otherToken => cases failed
  | noLookahead seen =>
      rw [Feed.tokens_of_peek_none seen, List.append_nil] at split
      exact split
  | noRule => cases failed

theorem Coherent.viable {root : Symbol T N} (coherent : Coherent table kind root tokens state)
    (done : Turn table kind state (.done result)) {error : ParseError T N}
    (failed : result.outcome = .error error) :
    ∃ form, table.grammar.Yields [root] (Token.word result.matched ++ form) := by
  have yields := coherent.nest.yields
  cases done with
  | finish => cases failed
  | noToken => exact ⟨_, yields⟩
  | otherToken => exact ⟨_, yields⟩
  | noLookahead => exact ⟨_, yields⟩
  | noRule => exact ⟨_, yields⟩

/-- A parse that fails has matched a beginning of what the symbol derives, and nothing that the
symbol derives goes on with a token that is refused. -/
theorem parseSymbol_earliest_error {rules : List (Rule T N)} {start : N} {grammar : Grammar T N}
    {table : Table T N} (accepted : Grammar.ofRules rules start = .ok grammar)
    (built : Table.ofGrammar grammar = .ok table) (kind : TokenSource Source T)
    (symbol : Symbol T N) (source : Source) (result : Run Source T N)
    (ended : table.parseSymbol kind symbol source = result) :
    (∀ error got, result.outcome = .error error → error.got? = some got →
        result.matched ++ [got] <+: (kind.drain source).1 ∧
        (∃ form, grammar.Derives [symbol] (Token.word result.matched ++ form)) ∧
        ¬ ∃ form, grammar.Derives [symbol]
          (Token.word result.matched ++ .terminal got.kind :: form)) ∧
      ∀ expecting context, result.outcome = .error (.unexpectedEnd expecting context) →
        result.matched = (kind.drain source).1 ∧
        ∃ form, grammar.Derives [symbol] (Token.word result.matched ++ form) := by
  obtain ⟨rfl, reading⟩ := Table.predictive_of_ofGrammar accepted built
  simp only [Grammar.derives_iff_yields, not_exists]
  rcases ends_of_parseSymbol reading ended with opened | ⟨first, last, opened, reach, coherent, done⟩
  · have case := opening_cases table kind symbol source
    rw [opened] at case
    exact ⟨fun error got => case.refused reading, fun expecting context => case.ended⟩
  · have forcedFirst := forced_opening reading opened
    have coherentFirst := coherent_opening reading opened
    cases symbol with
    | terminal expected =>
        have case := opening_cases table kind (.terminal expected) source
        rw [opened] at case
        cases case
    | nonTerminal top =>
        have forced := forcedFirst.reach reading coherentFirst reach
        constructor
        · intro error got failed refused
          obtain ⟨first, wrong⟩ := forced.refused reading coherent done failed refused
          exact ⟨first, coherent.viable done failed, wrong⟩
        · intro expecting context failed
          exact ⟨coherent.ended done failed, coherent.viable done failed⟩

theorem parseSymbol_earliest_error_nested : ∃ grammar table result,
    Grammar.ofRules nested 'S' = .ok grammar ∧ Table.ofGrammar grammar = .ok table ∧
      table.parseSymbol .list (.nonTerminal 'S')
        [⟨'a', "a", 0⟩, ⟨'a', "a", 1⟩, ⟨'b', "b", 2⟩, ⟨'a', "a", 3⟩] = result ∧
      result.outcome = .error (.unexpectedToken 'b' ⟨'a', "a", 3⟩ (some 'S')) ∧
      ¬ ∃ form, grammar.Derives [.nonTerminal 'S']
        (Token.word result.matched ++ .terminal 'a' :: form) := by
  obtain ⟨grammar, table, result, accepted, built, ended, failed⟩ : ∃ grammar table result,
      Grammar.ofRules nested 'S' = .ok grammar ∧ Table.ofGrammar grammar = .ok table ∧
        table.parseSymbol .list (.nonTerminal 'S')
          [⟨'a', "a", 0⟩, ⟨'a', "a", 1⟩, ⟨'b', "b", 2⟩, ⟨'a', "a", 3⟩] = result ∧
        result.outcome = .error (.unexpectedToken 'b' ⟨'a', "a", 3⟩ (some 'S')) :=
    ⟨_, _, _, rfl, rfl, rfl, by cbv⟩
  have wrong := (parseSymbol_earliest_error accepted built .list _ _ result ended).1 _ _ failed rfl
  exact ⟨grammar, table, result, accepted, built, ended, failed, wrong.2.2⟩

end Parsing

end Lookahead
