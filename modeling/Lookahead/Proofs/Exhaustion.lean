import Lookahead.Proofs.CorrectPrefix

/-!
# Parses that run out of tokens

A source may learn something when it is drawn from and gives no token, so it matters how far a
parse has drawn. A parse that runs out of tokens has drawn all of them and then once more: its
source is in the state in which it ends (`source_of_unexpectedEnd`), and the symbol that it wanted
then comes right after all tokens (`yields_of_unexpectedEnd`). A parse that fails in any other way
does so at one of the tokens (`ended_or_refused`).
-/

set_option autoImplicit false

namespace Lookahead

variable {Source T N : Type}

namespace Feed

variable {kind : TokenSource Source T} {feed rest : Feed Source T} {token : Token T}

def final (kind : TokenSource Source T) (feed : Feed Source T) : Source :=
  (kind.drain feed.source).2

theorem final_of_take (taken : feed.take kind = (some token, rest)) :
    rest.final kind = feed.final kind := by
  obtain ⟨ahead, source⟩ := feed
  cases ahead with
  | some held =>
      simp only [take, Prod.mk.injEq] at taken
      rw [← taken.2]
      rfl
  | none =>
      simp only [take, Prod.mk.injEq] at taken
      rw [← taken.2]
      exact (congrArg Prod.snd (TokenSource.drain_eq_of_some (Prod.ext taken.1 rfl))).symm

theorem source_of_take_none (taken : feed.take kind = (none, rest)) :
    rest.source = feed.final kind := by
  obtain ⟨ahead, source⟩ := feed
  cases ahead with
  | some held => simp [take] at taken
  | none =>
      simp only [take, Prod.mk.injEq] at taken
      rw [← taken.2]
      exact (congrArg Prod.snd (TokenSource.drain_eq_of_none (Prod.ext taken.1 rfl))).symm

theorem final_of_peek (seen : feed.peek kind = (some token, rest)) :
    rest.final kind = feed.final kind := by
  obtain ⟨ahead, source⟩ := feed
  cases ahead with
  | some held =>
      simp only [peek, Prod.mk.injEq] at seen
      rw [← seen.2]
  | none =>
      simp only [peek, Prod.mk.injEq] at seen
      rw [← seen.2]
      exact (congrArg Prod.snd (TokenSource.drain_eq_of_some (Prod.ext seen.1 rfl))).symm

theorem source_of_peek_none (seen : feed.peek kind = (none, rest)) :
    rest.source = feed.final kind := by
  obtain ⟨ahead, source⟩ := feed
  cases ahead with
  | some held => simp [peek] at seen
  | none =>
      simp only [peek, Prod.mk.injEq] at seen
      rw [← seen.2]
      exact (congrArg Prod.snd (TokenSource.drain_eq_of_none (Prod.ext seen.1 rfl))).symm

end Feed

namespace Parsing

def EndedOrRefused (tokens : List (Token T)) (error : ParseError T N) : Prop :=
  (∃ expecting context, error = .unexpectedEnd expecting context) ∨
    ∃ got ∈ tokens, error.got? = some got

variable [DecidableEq T] [DecidableEq N]

/-- How the next symbol to be parsed may fail at what a feed gives, and the source after that. -/
inductive Stop (table : Table T N) (kind : TokenSource Source T) (feed : Feed Source T)
    (context : Option N) : Symbol T N → ParseError T N → Source → Prop
  | noToken {expected : T} {rest : Feed Source T} (taken : feed.take kind = (none, rest)) :
      Stop table kind feed context (.terminal expected)
        (.unexpectedEnd (.terminal expected) context) rest.source
  | otherToken {expected : T} {token : Token T} {rest : Feed Source T}
      (taken : feed.take kind = (some token, rest)) :
      Stop table kind feed context (.terminal expected)
        (.unexpectedToken expected token context) rest.source
  | noLookahead {name : N} {rest : Feed Source T} (seen : feed.peek kind = (none, rest)) :
      Stop table kind feed context (.nonTerminal name)
        (.unexpectedEnd (.nonTerminal name) context) rest.source
  | noRule {name : N} {ahead : Token T} {rest : Feed Source T}
      (seen : feed.peek kind = (some ahead, rest)) :
      Stop table kind feed context (.nonTerminal name)
        (.noRule name ahead (table.expected name)) rest.source

variable {table : Table T N} {kind : TokenSource Source T} {feed : Feed Source T}
  {state next : State Source T N} {result : Run Source T N} {symbol expecting : Symbol T N}
  {context : Option N} {source : Source} {tokens : List (Token T)} {error : ParseError T N}

namespace Stop

theorem of_ended {wanted : Option N}
    (stop : Stop table kind feed context symbol (.unexpectedEnd expecting wanted) source) :
    feed.tokens kind = [] ∧ source = feed.final kind ∧ symbol = expecting := by
  cases stop with
  | noToken taken =>
      exact ⟨Feed.tokens_of_take_none taken, Feed.source_of_take_none taken, rfl⟩
  | noLookahead seen =>
      exact ⟨Feed.tokens_of_peek_none seen, Feed.source_of_peek_none seen, rfl⟩

theorem ended_or_refused (stop : Stop table kind feed context symbol error source) :
    EndedOrRefused (feed.tokens kind) error := by
  cases stop with
  | noToken taken => exact .inl ⟨_, _, rfl⟩
  | otherToken taken =>
      rw [Feed.tokens_of_take taken]
      exact .inr ⟨_, List.mem_cons_self, rfl⟩
  | noLookahead seen => exact .inl ⟨_, _, rfl⟩
  | noRule seen =>
      obtain ⟨_, others, left⟩ := Feed.tokens_of_peek seen
      rw [left]
      exact .inr ⟨_, List.mem_cons_self, rfl⟩

end Stop

theorem Opening.stop (case : Opening table kind source symbol (.done result))
    (failed : result.outcome = .error error) :
    Stop table kind (Feed.start source) none symbol error result.source := by
  cases case with
  | leaf => cases failed
  | noToken taken =>
      obtain rfl := Except.error.inj failed
      exact .noToken taken
  | otherToken taken =>
      obtain rfl := Except.error.inj failed
      exact .otherToken taken
  | noLookahead seen =>
      obtain rfl := Except.error.inj failed
      exact .noLookahead seen
  | noRule seen =>
      obtain rfl := Except.error.inj failed
      exact .noRule seen

theorem Turn.stop (done : Turn table kind state (.done result))
    (failed : result.outcome = .error error) :
    ∃ symbol pending, state.current.pending = symbol :: pending ∧
      Stop table kind state.feed (some state.current.rule.lhs) symbol error result.source := by
  cases done with
  | finish => cases failed
  | noToken taken =>
      obtain rfl := Except.error.inj failed
      exact ⟨_, _, rfl, .noToken taken⟩
  | otherToken taken =>
      obtain rfl := Except.error.inj failed
      exact ⟨_, _, rfl, .otherToken taken⟩
  | noLookahead seen =>
      obtain rfl := Except.error.inj failed
      exact ⟨_, _, rfl, .noLookahead seen⟩
  | noRule seen =>
      obtain rfl := Except.error.inj failed
      exact ⟨_, _, rfl, .noRule seen⟩

theorem Turn.final_eq (turn : Turn table kind state (.next next)) :
    next.feed.final kind = state.feed.final kind := by
  cases turn with
  | close => rfl
  | shift taken => exact Feed.final_of_take taken
  | expand seen chosen => exact Feed.final_of_peek seen

theorem Reach.final_eq (reach : Reach table kind state next) :
    next.feed.final kind = state.feed.final kind := by
  induction reach with
  | refl => rfl
  | tail _ turn ih => rw [turn.final_eq, ih]

theorem Opening.final_eq (case : Opening table kind source symbol (.next state)) :
    state.feed.final kind = (kind.drain source).2 := by
  cases case with
  | expand seen chosen => exact Feed.final_of_peek seen

/-- A parse that fails stops at a symbol that comes right after the tokens it has matched. -/
theorem stop_cases (reading : table.Predictive)
    (ended : table.parseSymbol kind symbol source = result)
    (failed : result.outcome = .error error) :
    ∃ (feed : Feed Source T) (context : Option N) (next : Symbol T N) (matched : List (Token T))
      (form : List (Symbol T N)), Stop table kind feed context next error result.source ∧
        feed.final kind = (kind.drain source).2 ∧
        matched ++ feed.tokens kind = (kind.drain source).1 ∧
        table.grammar.Yields [symbol] (Token.word matched ++ next :: form) := by
  have case := opening_cases table kind symbol source
  rcases ends_of_parseSymbol reading ended with opened | ⟨_, last, opened, reach, coherent, done⟩
  · rw [opened] at case
    exact ⟨_, _, _, [], [], case.stop failed, rfl, rfl, .refl _⟩
  · rw [opened] at case
    obtain ⟨next, pending, first, stop⟩ := done.stop failed
    have yields := coherent.nest.yields
    rw [List.nil_append, Grammar.Nest.pendings, List.flatMap_cons, first, List.cons_append] at yields
    exact ⟨_, _, next, last.matched, _, stop, reach.final_eq.trans case.final_eq, coherent.split,
      yields⟩

theorem source_of_unexpectedEnd (reading : table.Predictive)
    (ended : table.parseSymbol kind symbol source = result)
    (failed : result.outcome = .error (.unexpectedEnd expecting context)) :
    result.source = (kind.drain source).2 := by
  obtain ⟨_, _, _, _, _, stop, final, _, _⟩ := stop_cases reading ended failed
  rw [stop.of_ended.2.1, final]

theorem yields_of_unexpectedEnd (reading : table.Predictive)
    (ended : table.parseSymbol kind symbol source = result)
    (failed : result.outcome = .error (.unexpectedEnd expecting context)) :
    ∃ form, table.grammar.Yields [symbol]
      (Token.word (kind.drain source).1 ++ expecting :: form) := by
  obtain ⟨_, _, _, _, form, stop, _, split, yields⟩ := stop_cases reading ended failed
  obtain ⟨nothing, _, rfl⟩ := stop.of_ended
  rw [nothing, List.append_nil] at split
  exact ⟨form, split ▸ yields⟩

theorem ended_or_refused (reading : table.Predictive)
    (ended : table.parseSymbol kind symbol source = result)
    (failed : result.outcome = .error error) : EndedOrRefused (kind.drain source).1 error := by
  obtain ⟨_, _, _, _, _, stop, _, split, _⟩ := stop_cases reading ended failed
  refine stop.ended_or_refused.imp_right fun ⟨got, left, refused⟩ => ⟨got, ?_, refused⟩
  rw [← split]
  exact List.mem_append_right _ left

end Parsing

end Lookahead
