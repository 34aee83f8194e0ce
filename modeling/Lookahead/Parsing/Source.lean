import Lookahead.Grammar.Basic

/-!
# Sources of tokens

A parser takes its tokens one by one from a source, so that scanning may go on only as far as the
parser needs. A source is described by what its next token is in each state; every token leaves it
with less to give, hence it ends. `Feed` adds the one token that the parser may look at before it
takes it.
-/

set_option autoImplicit false

namespace Lookahead

/-- After the last token `next` gives none. -/
structure TokenSource (Source T : Type) where
  next : Source → Option (Token T) × Source
  size : Source → Nat
  size_next : ∀ {source token rest}, next source = (some token, rest) → size rest < size source

namespace TokenSource

variable {Source T : Type}

def list : TokenSource (List (Token T)) T where
  next
    | [] => (none, [])
    | token :: tokens => (some token, tokens)
  size := List.length
  size_next {source token rest} drawn := by
    cases source with
    | nil => simp at drawn
    | cons first others =>
        simp only [Prod.mk.injEq] at drawn
        simp [← drawn.2]

def drain (kind : TokenSource Source T) (source : Source) : List (Token T) × Source :=
  match _drawn : kind.next source with
  | (none, rest) => ([], rest)
  | (some token, rest) =>
      let others := drain kind rest
      (token :: others.1, others.2)
termination_by kind.size source
decreasing_by exact kind.size_next _drawn

theorem drain_eq_of_none {kind : TokenSource Source T} {source rest : Source}
    (drawn : kind.next source = (none, rest)) : kind.drain source = ([], rest) := by
  rw [drain]
  split
  · rename_i another
    rw [drawn] at another
    cases another
    rfl
  · rename_i another
    rw [drawn] at another
    cases another

theorem drain_eq_of_some {kind : TokenSource Source T} {source rest : Source} {token : Token T}
    (drawn : kind.next source = (some token, rest)) :
    kind.drain source = (token :: (kind.drain rest).1, (kind.drain rest).2) := by
  rw [drain]
  split
  · rename_i another
    rw [drawn] at another
    cases another
  · rename_i another
    rw [drawn] at another
    cases another
    rfl

theorem drain_of_none {kind : TokenSource Source T} {source rest : Source}
    (drawn : kind.next source = (none, rest)) : (kind.drain source).1 = [] :=
  congrArg Prod.fst (drain_eq_of_none drawn)

theorem drain_of_some {kind : TokenSource Source T} {source rest : Source} {token : Token T}
    (drawn : kind.next source = (some token, rest)) :
    (kind.drain source).1 = token :: (kind.drain rest).1 :=
  congrArg Prod.fst (drain_eq_of_some drawn)

theorem drain_list (tokens : List (Token T)) : (list.drain tokens).1 = tokens := by
  induction tokens with
  | nil => exact drain_of_none rfl
  | cons token tokens ih =>
      have drained : (list.drain (token :: tokens)).1 = token :: (list.drain tokens).1 :=
        drain_of_some rfl
      rw [drained, ih]

end TokenSource

/-- A source with the token that has been looked at but not taken, if there is one. -/
structure Feed (Source T : Type) where
  ahead : Option (Token T)
  source : Source

namespace Feed

variable {Source T : Type}

def start (source : Source) : Feed Source T :=
  ⟨none, source⟩

def peek (kind : TokenSource Source T) (feed : Feed Source T) :
    Option (Token T) × Feed Source T :=
  match feed.ahead with
  | some token => (some token, feed)
  | none =>
      let drawn := kind.next feed.source
      (drawn.1, ⟨drawn.1, drawn.2⟩)

def take (kind : TokenSource Source T) (feed : Feed Source T) :
    Option (Token T) × Feed Source T :=
  match feed.ahead with
  | some token => (some token, ⟨none, feed.source⟩)
  | none =>
      let drawn := kind.next feed.source
      (drawn.1, ⟨none, drawn.2⟩)

def size (kind : TokenSource Source T) (feed : Feed Source T) : Nat :=
  feed.ahead.toList.length + kind.size feed.source

theorem size_peek {kind : TokenSource Source T} {feed rest : Feed Source T} {token : Token T}
    (seen : feed.peek kind = (some token, rest)) : rest.size kind ≤ feed.size kind := by
  obtain ⟨ahead, source⟩ := feed
  cases ahead with
  | some held =>
      simp only [peek, Prod.mk.injEq] at seen
      exact Nat.le_of_eq (by rw [← seen.2])
  | none =>
      simp only [peek, Prod.mk.injEq] at seen
      have shorter : kind.size (kind.next source).2 < kind.size source :=
        kind.size_next (Prod.ext seen.1 rfl)
      rw [← seen.2, seen.1]
      simp only [size, Option.toList, List.length_cons, List.length_nil]
      omega

theorem size_take {kind : TokenSource Source T} {feed rest : Feed Source T} {token : Token T}
    (taken : feed.take kind = (some token, rest)) : rest.size kind < feed.size kind := by
  obtain ⟨ahead, source⟩ := feed
  cases ahead with
  | some held =>
      simp only [take, Prod.mk.injEq] at taken
      rw [← taken.2]
      simp [size]
  | none =>
      simp only [take, Prod.mk.injEq] at taken
      have shorter : kind.size (kind.next source).2 < kind.size source :=
        kind.size_next (Prod.ext taken.1 rfl)
      rw [← taken.2]
      simp only [size, Option.toList, List.length_nil]
      omega

def tokens (kind : TokenSource Source T) (feed : Feed Source T) : List (Token T) :=
  feed.ahead.toList ++ (kind.drain feed.source).1

theorem tokens_start (kind : TokenSource Source T) (source : Source) :
    (start source).tokens kind = (kind.drain source).1 := rfl

theorem tokens_of_take {kind : TokenSource Source T} {feed rest : Feed Source T}
    {token : Token T} (taken : feed.take kind = (some token, rest)) :
    feed.tokens kind = token :: rest.tokens kind := by
  obtain ⟨ahead, source⟩ := feed
  cases ahead with
  | some held =>
      simp only [take, Prod.mk.injEq, Option.some.injEq] at taken
      obtain ⟨rfl, rfl⟩ := taken
      rfl
  | none =>
      simp only [take, Prod.mk.injEq] at taken
      obtain ⟨first, rfl⟩ := taken
      exact TokenSource.drain_of_some (Prod.ext first rfl)

theorem tokens_of_take_none {kind : TokenSource Source T} {feed rest : Feed Source T}
    (taken : feed.take kind = (none, rest)) : feed.tokens kind = [] := by
  obtain ⟨ahead, source⟩ := feed
  cases ahead with
  | some held => simp [take] at taken
  | none =>
      simp only [take, Prod.mk.injEq] at taken
      exact TokenSource.drain_of_none (Prod.ext taken.1 rfl)

theorem tokens_of_peek {kind : TokenSource Source T} {feed rest : Feed Source T}
    {token : Token T} (seen : feed.peek kind = (some token, rest)) :
    rest.tokens kind = feed.tokens kind ∧ ∃ others, feed.tokens kind = token :: others := by
  obtain ⟨ahead, source⟩ := feed
  cases ahead with
  | some held =>
      simp only [peek, Prod.mk.injEq, Option.some.injEq] at seen
      obtain ⟨rfl, rfl⟩ := seen
      exact ⟨rfl, _, rfl⟩
  | none =>
      simp only [peek, Prod.mk.injEq] at seen
      obtain ⟨first, rfl⟩ := seen
      have drained := TokenSource.drain_of_some (Prod.ext first rfl)
      rw [first]
      exact ⟨drained.symm, _, drained⟩

theorem tokens_of_peek_none {kind : TokenSource Source T} {feed rest : Feed Source T}
    (seen : feed.peek kind = (none, rest)) : feed.tokens kind = [] := by
  obtain ⟨ahead, source⟩ := feed
  cases ahead with
  | some held => simp [peek] at seen
  | none =>
      simp only [peek, Prod.mk.injEq] at seen
      exact TokenSource.drain_of_none (Prod.ext seen.1 rfl)

theorem take_of_tokens {kind : TokenSource Source T} {feed : Feed Source T} {token : Token T}
    {others : List (Token T)} (left : feed.tokens kind = token :: others) :
    ∃ rest, feed.take kind = (some token, rest) ∧ rest.tokens kind = others := by
  cases taken : feed.take kind with
  | mk first rest =>
      cases first with
      | none => simp [tokens_of_take_none taken] at left
      | some other =>
          rw [tokens_of_take taken] at left
          obtain ⟨rfl, same⟩ := List.cons.inj left
          exact ⟨rest, rfl, same⟩

theorem peek_of_tokens {kind : TokenSource Source T} {feed : Feed Source T} {token : Token T}
    {others : List (Token T)} (left : feed.tokens kind = token :: others) :
    ∃ rest, feed.peek kind = (some token, rest) ∧ rest.tokens kind = token :: others := by
  cases seen : feed.peek kind with
  | mk first rest =>
      cases first with
      | none => simp [tokens_of_peek_none seen] at left
      | some other =>
          obtain ⟨same, _, firsts⟩ := tokens_of_peek seen
          rw [left] at same firsts
          obtain ⟨rfl, _⟩ := List.cons.inj firsts
          exact ⟨rest, rfl, same⟩

theorem take_none_of_tokens {kind : TokenSource Source T} {feed : Feed Source T}
    (ended : feed.tokens kind = []) :
    ∃ rest, feed.take kind = (none, rest) := by
  cases taken : feed.take kind with
  | mk first rest =>
      cases first with
      | none => exact ⟨rest, rfl⟩
      | some token => simp [tokens_of_take taken] at ended

theorem peek_none_of_tokens {kind : TokenSource Source T} {feed : Feed Source T}
    (ended : feed.tokens kind = []) :
    ∃ rest, feed.peek kind = (none, rest) := by
  cases seen : feed.peek kind with
  | mk first rest =>
      cases first with
      | none => exact ⟨rest, rfl⟩
      | some token =>
          obtain ⟨_, _, left⟩ := tokens_of_peek seen
          rw [ended] at left
          cases left

end Feed

end Lookahead
