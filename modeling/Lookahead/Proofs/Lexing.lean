import Lookahead.SExpr.Lexer

/-!
# What a lexer gives

`Lexer.Draw` lists what an unfinished lexer can give: the end of the input, a token, or an error, and
`draw_iff` says that there is nothing else. `Lexer.Gives` puts draws of tokens after each other. A
lexer gives the end of the input once, as its last token, unless it ends in an error before that
(`drain_ends`). As a source of tokens it gives the same ones (`Scan.drain_source`).
-/

set_option autoImplicit false

namespace Lookahead.SExpr

theorem kind_of_lexeme? {text taken rest : List Char} {kind : TokenKind}
    (split : lexeme? text = some (kind, taken, rest)) : kind ≠ .endOfInput := by
  unfold lexeme? at split
  split at split
  · cases split
    decide
  · cases split
    decide
  · split at split
    · cases split
      decide
    · obtain ⟨word, _, same⟩ := Option.map_eq_some_iff.mp split
      cases same
      decide

namespace Lexer

def tokenStart (text : List Char) (position : Nat) : Nat :=
  position + Text.byteLength (text.takeWhile Text.isBlank)

inductive Draw : Lexer → Except LexError (Token TokenKind) → Lexer → Prop
  | ended {text : List Char} {position : Nat} (blank : Text.skipBlank text = []) :
      Draw ⟨text, position, false⟩ (.ok ⟨.endOfInput, "", tokenStart text position⟩)
        ⟨[], tokenStart text position, true⟩
  | token {text : List Char} {position : Nat} {c : Char} {later taken rest : List Char}
      {kind : TokenKind} (left : Text.skipBlank text = c :: later)
      (found : lexeme? (c :: later) = some (kind, taken, rest)) :
      Draw ⟨text, position, false⟩ (.ok ⟨kind, String.ofList taken, tokenStart text position⟩)
        ⟨rest, tokenStart text position + Text.byteLength taken, false⟩
  | failed {text : List Char} {position : Nat} {c : Char} {later : List Char}
      (left : Text.skipBlank text = c :: later) (unread : lexeme? (c :: later) = none) :
      Draw ⟨text, position, false⟩ (.error ⟨tokenStart text position, String.ofList (c :: later)⟩)
        ⟨c :: later, tokenStart text position, true⟩

theorem exists_draw (text : List Char) (position : Nat) :
    ∃ given rest, Draw ⟨text, position, false⟩ given rest := by
  cases left : Text.skipBlank text with
  | nil => exact ⟨_, _, .ended left⟩
  | cons c later =>
      cases found : lexeme? (c :: later) with
      | none => exact ⟨_, _, .failed left found⟩
      | some split => exact ⟨_, _, .token left found⟩

theorem next_of_draw {lexer rest : Lexer} {given : Except LexError (Token TokenKind)}
    (draw : Draw lexer given rest) : lexer.next = (some given, rest) := by
  cases draw with
  | ended blank => simp only [next, blank, Bool.false_eq_true, if_false, tokenStart]
  | token left found => simp only [next, left, found, Bool.false_eq_true, if_false, tokenStart]
  | failed left unread => simp only [next, left, unread, Bool.false_eq_true, if_false, tokenStart]

theorem next_of_finished {lexer : Lexer} (finished : lexer.finished = true) :
    lexer.next = (none, lexer) := by
  rw [next, if_pos finished]

theorem draw_iff {lexer rest : Lexer} {given : Except LexError (Token TokenKind)} :
    Draw lexer given rest ↔ lexer.next = (some given, rest) := by
  constructor
  · exact next_of_draw
  · intro drawn
    obtain ⟨text, position, finished⟩ := lexer
    cases finished with
    | true =>
        rw [next_of_finished rfl] at drawn
        cases drawn
    | false =>
        obtain ⟨other, after, draw⟩ := exists_draw text position
        rw [next_of_draw draw] at drawn
        cases drawn
        exact draw

theorem drain_eq (lexer : Lexer) :
    lexer.drain =
      match lexer.next with
      | (none, _) => ([], none)
      | (some (.error error), _) => ([], some error)
      | (some (.ok token), rest) => (token :: rest.drain.1, rest.drain.2) := by
  rw [drain]
  split <;> rename_i drawn <;> rw [drawn]

theorem drain_of_finished {lexer : Lexer} (finished : lexer.finished = true) :
    lexer.drain = ([], none) := by
  rw [drain_eq, next_of_finished finished]

theorem drain_of_error {lexer rest : Lexer} {error : LexError}
    (draw : Draw lexer (.error error) rest) : lexer.drain = ([], some error) := by
  rw [drain_eq, next_of_draw draw]

theorem drain_of_token {lexer rest : Lexer} {token : Token TokenKind}
    (draw : Draw lexer (.ok token) rest) : lexer.drain = (token :: rest.drain.1, rest.drain.2) := by
  rw [drain_eq, next_of_draw draw]

theorem drain_of_blank {text : List Char} (blank : Text.skipBlank text = []) (position : Nat) :
    drain ⟨text, position, false⟩ =
      ([⟨.endOfInput, "", tokenStart text position⟩], none) := by
  have silent : drain ⟨[], tokenStart text position, true⟩ = ([], none) := drain_of_finished rfl
  rw [drain_of_token (.ended blank), silent]

/-- A lexer gives tokens, one after the other, and another lexer is left. -/
inductive Gives : Lexer → List (Token TokenKind) → Lexer → Prop
  | nil (lexer : Lexer) : Gives lexer [] lexer
  | cons {lexer middle last : Lexer} {token : Token TokenKind} {tokens : List (Token TokenKind)}
      (draw : Draw lexer (.ok token) middle) (later : Gives middle tokens last) :
      Gives lexer (token :: tokens) last

theorem Gives.trans {first middle last : Lexer} {front back : List (Token TokenKind)}
    (early : Gives first front middle) (late : Gives middle back last) :
    Gives first (front ++ back) last := by
  induction early with
  | nil => exact late
  | cons draw _ ih => exact .cons draw (ih late)

theorem Gives.drain {lexer last : Lexer} {tokens : List (Token TokenKind)}
    (gives : Gives lexer tokens last) :
    lexer.drain = (tokens ++ last.drain.1, last.drain.2) := by
  induction gives with
  | nil => rfl
  | cons draw _ ih => rw [drain_of_token draw, ih, List.cons_append]

/-- Behind its blanks a text is at its end, or begins with no token, or with one and a rest that is
shorter. -/
@[elab_as_elim]
theorem text_induction {motive : List Char → Nat → Prop}
    (ended : ∀ text position, Text.skipBlank text = [] → motive text position)
    (failed : ∀ text position c later, Text.skipBlank text = c :: later →
      lexeme? (c :: later) = none → motive text position)
    (token : ∀ text position c later kind taken rest, Text.skipBlank text = c :: later →
      lexeme? (c :: later) = some (kind, taken, rest) →
      motive rest (tokenStart text position + Text.byteLength taken) → motive text position)
    (text : List Char) (position : Nat) : motive text position := by
  induction length : text.length using Nat.strongRecOn generalizing text position with
  | ind bound ih =>
      cases left : Text.skipBlank text with
      | nil => exact ended text position left
      | cons c later =>
          cases found : lexeme? (c :: later) with
          | none => exact failed text position c later left found
          | some split =>
              obtain ⟨kind, taken, rest⟩ := split
              have skipped : (Text.skipBlank text).length ≤ text.length :=
                (List.dropWhile_suffix _).length_le
              obtain ⟨whole, nonempty⟩ := lexeme?_append found
              have lengths := congrArg List.length whole
              have positive := List.length_pos_iff.mpr nonempty
              rw [left] at skipped
              rw [List.length_append] at lengths
              have shorter : rest.length < bound := by omega
              exact token text position c later kind taken rest left found (ih _ shorter _ _ rfl)

theorem drain_ends {lexer : Lexer} (unfinished : lexer.finished = false) :
    (∃ tokens final, lexer.drain = (tokens ++ [final], none) ∧ final.kind = .endOfInput ∧
        ∀ token ∈ tokens, token.kind ≠ .endOfInput) ∨
      ∃ tokens error, lexer.drain = (tokens, some error) ∧
        ∀ token ∈ tokens, token.kind ≠ .endOfInput := by
  obtain ⟨text, position, finished⟩ := lexer
  obtain rfl : finished = false := unfinished
  induction text, position using text_induction with
  | ended text position blank => exact .inl ⟨[], _, drain_of_blank blank position, rfl, by simp⟩
  | failed text position c later left unread =>
      exact .inr ⟨[], _, drain_of_error (.failed left unread), by simp⟩
  | token text position c later kind taken rest left found ih =>
      have first : drain ⟨text, position, false⟩ = _ := drain_of_token (.token left found)
      rcases ih with ⟨tokens, final, drained, ends, others⟩ | ⟨tokens, error, drained, others⟩
      · rw [drained] at first
        refine .inl ⟨_ :: tokens, final, first, ends, ?_⟩
        exact List.forall_mem_cons.mpr ⟨kind_of_lexeme? found, others⟩
      · rw [drained] at first
        refine .inr ⟨_ :: tokens, error, first, ?_⟩
        exact List.forall_mem_cons.mpr ⟨kind_of_lexeme? found, others⟩

theorem exists_lexeme?_of_mem_drain {lexer : Lexer} {token : Token TokenKind}
    (given : token ∈ lexer.drain.1) (before : token.kind ≠ .endOfInput) :
    ∃ text taken rest, lexeme? text = some (token.kind, taken, rest) ∧
      token.text = String.ofList taken := by
  fun_induction Lexer.drain lexer with
  | case1 => cases given
  | case2 => cases given
  | case3 lexer first rest drawn others ih =>
      rcases List.mem_cons.mp given with rfl | later
      · cases draw_iff.mpr drawn with
        | ended blank => exact absurd rfl before
        | token left found => exact ⟨_, _, _, found, rfl⟩
      · exact ih later

end Lexer

namespace Scan

variable {lexer rest : Lexer} {failure : Option LexError}

theorem next_of_none (drawn : lexer.next = (none, rest)) :
    source.next ⟨lexer, failure⟩ = (none, ⟨rest, failure⟩) := by
  simp only [source, next, drawn]

theorem next_of_error {error : LexError} (drawn : lexer.next = (some (.error error), rest)) :
    source.next ⟨lexer, failure⟩ = (none, ⟨rest, some error⟩) := by
  simp only [source, next, drawn]

theorem next_of_token {token : Token TokenKind} (drawn : lexer.next = (some (.ok token), rest)) :
    source.next ⟨lexer, failure⟩ = (some token, ⟨rest, failure⟩) := by
  simp only [source, next, drawn]

theorem drain_source (lexer : Lexer) (failure : Option LexError) :
    (source.drain ⟨lexer, failure⟩).1 = lexer.drain.1 := by
  fun_induction Lexer.drain lexer with
  | case1 lexer rest drawn => exact TokenSource.drain_of_none (next_of_none drawn)
  | case2 lexer error rest drawn => exact TokenSource.drain_of_none (next_of_error drawn)
  | case3 lexer token rest drawn others ih =>
      rw [TokenSource.drain_of_some (next_of_token drawn), ih]

end Scan

end Lookahead.SExpr
