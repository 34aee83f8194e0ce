import Lookahead.Proofs.Completeness
import Lookahead.Proofs.Exhaustion
import Lookahead.Proofs.Lexing
import Lookahead.Proofs.Simulation
import Lookahead.Proofs.Spelling

/-!
# From a text to its tree

Scanning and parsing a text in one go comes to scanning all of it and parsing the tokens. That the
grammar of expressions ends its sentences with a marker of their own is what both need.
-/

set_option autoImplicit false

namespace Lookahead

/-!
## Grammars with an end marker

A grammar may have a terminal that its start symbol puts at the end and that stands nowhere else. A
form derived from the start symbol then has the marker at its end and only there, so nothing comes
after the marker in what the start symbol derives, and no text is whole without it.
-/

variable {T N : Type}

def Symbol.IsInner (top : N) (marker : T) (symbol : Symbol T N) : Prop :=
  symbol ≠ .terminal marker ∧ symbol ≠ .nonTerminal top

namespace Grammar

/-- The rules of one non terminal end in a terminal that stands nowhere else. The non terminal
itself stands on no right side. -/
structure Anchored (grammar : Grammar T N) (top : N) (marker : T) : Prop where
  unused : ∀ rule ∈ grammar.rules, .nonTerminal top ∉ rule.rhs
  ends : ∀ rule ∈ grammar.rules, rule.lhs = top →
    rule.rhs.getLast? = some (.terminal marker) ∧ .terminal marker ∉ rule.rhs.dropLast
  elsewhere : ∀ rule ∈ grammar.rules, rule.lhs ≠ top → .terminal marker ∉ rule.rhs

namespace Anchored

variable {grammar : Grammar T N} {top : N} {marker : T}

theorem forall_isInner (anchored : grammar.Anchored top marker) {symbols form : List (Symbol T N)}
    (yields : grammar.Yields symbols form) (own : ∀ symbol ∈ symbols, symbol.IsInner top marker) :
    ∀ symbol ∈ form, symbol.IsInner top marker := by
  apply yields.forall_mem (Symbol.IsInner top marker) _ own
  intro rule listed inner symbol inside
  have other : rule.lhs ≠ top := fun same => inner.2 (congrArg Symbol.nonTerminal same)
  constructor
  · rintro rfl
    exact anchored.elsewhere rule listed other inside
  · rintro rfl
    exact anchored.unused rule listed inside

theorem shape (anchored : grammar.Anchored top marker) {form : List (Symbol T N)}
    (yields : grammar.Yields [.nonTerminal top] form) :
    form = [.nonTerminal top] ∨
      ∃ inner, form = inner ++ [.terminal marker] ∧ .terminal marker ∉ inner := by
  rcases yields.nonTerminal_cases with ⟨later, rfl, rest⟩ | ⟨rule, listed, form, later, parts⟩
  · cases rest
    exact .inl rfl
  · obtain ⟨same, rfl, side, rest⟩ := parts
    cases rest
    obtain ⟨last, without⟩ := anchored.ends rule listed same
    have split : rule.rhs = rule.rhs.dropLast ++ [.terminal marker] :=
      (List.dropLast_append_getLast? _ last).symm
    rw [split] at side
    obtain ⟨inner, marked, rfl, early, final⟩ := side.split
    cases final with
    | keep _ rest =>
        cases rest
        refine .inr ⟨inner, by rw [List.append_nil], fun inside => ?_⟩
        have own : ∀ symbol ∈ rule.rhs.dropLast, symbol.IsInner top marker := by
          intro symbol within
          constructor
          · rintro rfl
            exact without within
          · rintro rfl
            exact anchored.unused rule listed ((List.dropLast_sublist _).subset within)
        exact (anchored.forall_isInner early own _ inside).1 rfl

theorem eq_nil_of_marker (anchored : grammar.Anchored top marker)
    {front back : List (Symbol T N)}
    (yields : grammar.Yields [.nonTerminal top] (front ++ .terminal marker :: back)) :
    back = [] := by
  rcases anchored.shape yields with same | ⟨inner, same, without⟩
  · have inside : .terminal marker ∈ front ++ .terminal marker :: back :=
      List.mem_append_right front List.mem_cons_self
    rw [same] at inside
    simp at inside
  · by_contra nonempty
    -- the marker would stand before the last symbol
    rw [← List.dropLast_append_getLast nonempty, ← List.cons_append, ← List.append_assoc] at same
    have early := List.append_inj_left' same rfl
    exact without (early ▸ List.mem_append_right front List.mem_cons_self)

theorem exists_marker (anchored : grammar.Anchored top marker) {tokens : List (Token T)}
    (yields : grammar.Yields [.nonTerminal top] (Token.word tokens)) :
    ∃ token ∈ tokens, token.kind = marker := by
  have terminals : .nonTerminal top ∉ (Token.word tokens : List (Symbol T N)) := by
    simp [Token.word]
  rcases anchored.shape yields with same | ⟨inner, same, _⟩
  · rw [same] at terminals
    exact absurd List.mem_cons_self terminals
  · have inside : .terminal marker ∈ (Token.word tokens : List (Symbol T N)) := by
      rw [same]
      exact List.mem_concat_self
    obtain ⟨token, listed, kind⟩ := List.mem_map.mp inside
    exact ⟨token, listed, Symbol.terminal.inj kind⟩

end Anchored

end Grammar

end Lookahead

namespace Lookahead.SExpr

/-!
## Scanning and parsing in one go

A text is parsed while it is scanned, and a lexical error is known only if the parser got as far.
Scanning all of it first and parsing the tokens then comes to the same (`readTree_exact`). The end
of the input is the end marker of the grammar, so a parse that has all tokens of a text without a
lexical error never runs out of them, and one that has the tokens before a lexical error never
accepts them.
-/

open Parsing (EndedOrRefused)

/-! ### What a lexer leaves -/

theorem Scan.failure_drain (lexer : Lexer) (failure : Option LexError) :
    (Scan.source.drain ⟨lexer, failure⟩).2.failure = lexer.drain.2.or failure := by
  fun_induction Lexer.drain lexer with
  | case1 lexer rest drawn =>
      rw [TokenSource.drain_eq_of_none (next_of_none drawn), Option.none_or]
  | case2 lexer error rest drawn =>
      rw [TokenSource.drain_eq_of_none (next_of_error drawn), Option.some_or]
  | case3 lexer token rest drawn others ih =>
      rw [TokenSource.drain_eq_of_some (next_of_token drawn), ih]

def EndsBefore (position : Nat) (token : Token TokenKind) : Prop :=
  token.position < position ∧ token.position + Text.byteLength token.text.toList ≤ position

namespace Lexer

theorem position_le_failure {lexer : Lexer} {failure : LexError}
    (failed : lexer.drain.2 = some failure) : lexer.position ≤ failure.position := by
  fun_induction Lexer.drain lexer with
  | case1 => cases failed
  | case2 lexer error rest drawn =>
      obtain rfl := Option.some.inj failed
      cases draw_iff.mpr drawn with
      | failed left unread => exact Nat.le_add_right _ _
  | case3 lexer token rest drawn others ih =>
      have later := ih failed
      cases draw_iff.mpr drawn with
      | ended blank => exact Nat.le_trans (Nat.le_add_right _ _) later
      | token left found =>
          exact Nat.le_trans (Nat.le_trans (Nat.le_add_right _ _) (Nat.le_add_right _ _)) later

theorem endsBefore_failure {lexer : Lexer} {failure : LexError} {token : Token TokenKind}
    (failed : lexer.drain.2 = some failure) (given : token ∈ lexer.drain.1) :
    EndsBefore failure.position token := by
  fun_induction Lexer.drain lexer with
  | case1 => cases failed
  | case2 => cases given
  | case3 lexer first rest drawn others ih =>
      rcases List.mem_cons.mp given with rfl | later
      · have failedLater : rest.drain.2 = some failure := failed
        have within := position_le_failure failedLater
        cases draw_iff.mpr drawn with
        | ended blank =>
            -- a lexer that has given the end of the input gives nothing more, and no error
            rw [drain_of_finished rfl] at failedLater
            cases failedLater
        | @token text position c later taken after kind left found =>
            have nonempty := Text.byteLength_pos (lexeme?_append found).2
            have ends : tokenStart text position + Text.byteLength taken ≤ failure.position :=
              within
            constructor
            · exact Nat.lt_of_lt_of_le (Nat.lt_add_of_pos_right nonempty) ends
            · rw [String.toList_ofList]
              exact ends
      · exact ih failed later

end Lexer

/-- What parsing gives after a text has been scanned, up to the lexical error if there is one. -/
def parseScanned (table : Table TokenKind Phrase) (input : String) :
    Except (ParseError TokenKind Phrase) Tree :=
  (table.parse .list (Lexer.start input).drain.1).outcome

theorem anchored : grammar.Anchored .document .endOfInput := by
  constructor <;> decide

section Table

variable {table : Table TokenKind Phrase} (same : table.grammar = grammar)
  (reading : table.Predictive) {input : String}

include reading

theorem outcome_eq_parseScanned :
    (table.parse Scan.source (Scan.start input)).outcome = parseScanned table input := by
  have drained : (Scan.source.drain (Scan.start input)).1 =
      (TokenSource.list.drain (Lexer.start input).drain.1).1 := by
    rw [Scan.start, Scan.drain_source, TokenSource.drain_list]
  exact Parsing.outcome_eq_of_drain reading _ drained

theorem readTree_of_ok {tree : Tree} (parsed : parseScanned table input = .ok tree) :
    readTree table input = .ok tree := by
  rw [← outcome_eq_parseScanned reading] at parsed
  simp only [readTree, parsed]

theorem readTree_of_refused {error : ParseError TokenKind Phrase} {got : Token TokenKind}
    (failed : parseScanned table input = .error error) (refused : error.got? = some got) :
    readTree table input = .error (.parse error) := by
  rw [← outcome_eq_parseScanned reading] at failed
  cases error with
  | unexpectedEnd => cases refused
  | unexpectedToken => simp only [readTree, failed]
  | noRule => simp only [readTree, failed]
  | endless => simp only [readTree, failed]

theorem readTree_of_ended {expecting : Symbol TokenKind Phrase} {context : Option Phrase}
    (failed : parseScanned table input = .error (.unexpectedEnd expecting context))
    {failure : LexError} (wrong : (Lexer.start input).drain.2 = some failure) :
    readTree table input = .error (.lexical failure) := by
  rw [← outcome_eq_parseScanned reading] at failed
  -- all of the text has been drawn, up to its error
  have drawn : (table.parse Scan.source (Scan.start input)).source.failure = some failure := by
    have ended := Parsing.source_of_unexpectedEnd reading rfl failed
    rw [Table.parse, ended, Scan.start, Scan.failure_drain, wrong, Option.some_or]
  simp only [readTree, failed, drawn]

theorem ended_or_refused_of_error {error : ParseError TokenKind Phrase}
    (failed : parseScanned table input = .error error) :
    EndedOrRefused (Lexer.start input).drain.1 error := by
  have cases := Parsing.ended_or_refused reading rfl failed
  rwa [TokenSource.drain_list] at cases

include same

theorem parseScanned_ne_ended (right : (Lexer.start input).drain.2 = none)
    (expecting : Symbol TokenKind Phrase) (context : Option Phrase) :
    parseScanned table input ≠ .error (.unexpectedEnd expecting context) := by
  intro failed
  obtain ⟨form, yields⟩ := Parsing.yields_of_unexpectedEnd reading rfl failed
  rw [TokenSource.drain_list, same] at yields
  rcases Lexer.drain_ends (rfl : (Lexer.start input).finished = false) with
    ⟨tokens, final, drained, ends, _⟩ | ⟨tokens, error, drained, _⟩
  · rw [drained, Token.word_append, List.append_assoc] at yields
    have marked : Token.word [final] ++ expecting :: form =
        .terminal .endOfInput :: expecting :: form := by
      rw [← ends]
      rfl
    rw [marked] at yields
    -- the form would go on behind the marker
    have nothing := anchored.eq_nil_of_marker yields
    cases nothing
  · rw [drained] at right
    cases right

theorem parseScanned_ne_ok {failure : LexError} (wrong : (Lexer.start input).drain.2 = some failure)
    (tree : Tree) : parseScanned table input ≠ .ok tree := by
  intro parsed
  obtain ⟨isTree, begins⟩ := Parsing.isTree_of_parse reading parsed
  rw [TokenSource.drain_list] at begins
  have started : table.grammar.start = .document := by rw [same]; rfl
  rw [started, same] at isTree
  have yields := Grammar.Forest.yields isTree
  rw [SyntaxTree.leavesAll_cons, SyntaxTree.leavesAll_nil, List.append_nil] at yields
  obtain ⟨token, inside, marker⟩ := anchored.exists_marker yields
  -- tokens before a lexical error have no marker among them
  rcases Lexer.drain_ends (rfl : (Lexer.start input).finished = false) with
    ⟨tokens, final, drained, _, _⟩ | ⟨tokens, error, drained, others⟩
  · rw [drained] at wrong
    cases wrong
  · rw [drained] at begins
    exact others token (begins.subset inside) marker

theorem readTree_of_right (right : (Lexer.start input).drain.2 = none) :
    readTree table input = (parseScanned table input).mapError .parse := by
  cases parsed : parseScanned table input with
  | ok tree => exact readTree_of_ok reading parsed
  | error error =>
      rcases ended_or_refused_of_error reading parsed with
        ⟨expecting, context, rfl⟩ | ⟨got, _, refused⟩
      · exact absurd parsed (parseScanned_ne_ended same reading right expecting context)
      · exact readTree_of_refused reading parsed refused

theorem readTree_of_wrong {failure : LexError}
    (wrong : (Lexer.start input).drain.2 = some failure) :
    (∃ expecting context, parseScanned table input = .error (.unexpectedEnd expecting context)) ∧
        readTree table input = .error (.lexical failure) ∨
      ∃ error got, parseScanned table input = .error error ∧
        readTree table input = .error (.parse error) ∧ error.got? = some got ∧
        got ∈ (Lexer.start input).drain.1 ∧ EndsBefore failure.position got := by
  cases parsed : parseScanned table input with
  | ok tree => exact absurd parsed (parseScanned_ne_ok same reading wrong tree)
  | error error =>
      rcases ended_or_refused_of_error reading parsed with
        ⟨expecting, context, rfl⟩ | ⟨got, given, refused⟩
      · exact .inl ⟨⟨expecting, context, rfl⟩, readTree_of_ended reading parsed wrong⟩
      · exact .inr ⟨error, got, rfl, readTree_of_refused reading parsed refused, refused, given,
          Lexer.endsBefore_failure wrong given⟩

theorem readTree_ne_ended (expecting : Symbol TokenKind Phrase) (context : Option Phrase) :
    readTree table input ≠ .error (.parse (.unexpectedEnd expecting context)) := by
  intro read
  cases lexed : (Lexer.start input).drain.2 with
  | none =>
      rw [readTree_of_right same reading lexed] at read
      cases parsed : parseScanned table input with
      | ok tree => simp [parsed, Except.mapError] at read
      | error error =>
          simp only [parsed, Except.mapError, Except.error.injEq, ReadError.parse.injEq] at read
          subst read
          exact parseScanned_ne_ended same reading lexed expecting context parsed
  | some failure =>
      rcases readTree_of_wrong same reading lexed with
        ⟨_, lexical⟩ | ⟨error, got, _, other, refused, _⟩
      · rw [lexical] at read
        cases read
      · rw [other] at read
        cases read
        cases refused

end Table

/-- Reading a text while it is scanned comes to the same as scanning all of it and parsing the
tokens. A lexical error is reported exactly if the parse of the tokens before it runs out of
them. -/
theorem readTree_exact : ∃ table, SExpr.table = .ok table ∧ ∀ input : String,
    ((Lexer.start input).drain.2 = none →
      readTree table input = (parseScanned table input).mapError .parse ∧
        ∀ expecting context,
          parseScanned table input ≠ .error (.unexpectedEnd expecting context)) ∧
      (∀ failure, (Lexer.start input).drain.2 = some failure →
        (readTree table input = .error (.lexical failure) ↔ ∃ expecting context,
          parseScanned table input = .error (.unexpectedEnd expecting context)) ∧
        ((¬ ∃ expecting context,
            parseScanned table input = .error (.unexpectedEnd expecting context)) →
          ∃ error got, parseScanned table input = .error error ∧
            readTree table input = .error (.parse error) ∧ error.got? = some got ∧
            got ∈ (Lexer.start input).drain.1 ∧ EndsBefore failure.position got) ∧
        ∀ tree, readTree table input ≠ .ok tree) ∧
      ∀ expecting context,
        readTree table input ≠ .error (.parse (.unexpectedEnd expecting context)) := by
  obtain ⟨table, built, same, reading⟩ := exists_table
  refine ⟨table, built, fun input => ⟨?_, ?_, readTree_ne_ended same reading⟩⟩
  · intro right
    exact ⟨readTree_of_right same reading right, parseScanned_ne_ended same reading right⟩
  · intro failure wrong
    rcases readTree_of_wrong same reading wrong with
      ⟨ended, read⟩ | ⟨error, got, parsed, read, refused, before⟩
    · rw [read]
      exact ⟨⟨fun _ => ended, fun _ => rfl⟩, fun other => absurd ended other, nofun⟩
    · rw [read]
      have other : ¬ ∃ expecting context,
          parseScanned table input = .error (.unexpectedEnd expecting context) := by
        rintro ⟨expecting, context, ended⟩
        rw [parsed] at ended
        obtain rfl := Except.error.inj ended
        cases refused
      exact ⟨⟨nofun, fun ended => absurd ended other⟩,
        fun _ => ⟨error, got, parsed, rfl, refused, before⟩, nofun⟩

theorem readTree_exact_met_unmet : ∃ table, SExpr.table = .ok table ∧
    readTree table "(a #" = .error (.lexical ⟨3, "#"⟩) ∧
    ∃ error got, readTree table "a #" = .error (.parse error) ∧ error.got? = some got ∧
      EndsBefore 2 got := by
  have failed : ∀ position, Lexer.drain ⟨[' ', '#'], position, false⟩ =
      ([], some ⟨position + 1, "#"⟩) :=
    fun position => Lexer.drain_of_error (.failed rfl rfl)
  have met : (Lexer.start "(a #").drain =
      ([⟨.leftParen, "(", 0⟩, ⟨.identifier, "a", 1⟩], some ⟨3, "#"⟩) := by
    have gives : Lexer.Gives (Lexer.start "(a #") [⟨.leftParen, "(", 0⟩, ⟨.identifier, "a", 1⟩]
        ⟨[' ', '#'], 2, false⟩ :=
      .cons (Lexer.draw_iff.mpr rfl) (.cons (Lexer.draw_iff.mpr rfl) (.nil _))
    rw [gives.drain, failed, List.append_nil]
  have unmet : (Lexer.start "a #").drain = ([⟨.identifier, "a", 0⟩], some ⟨2, "#"⟩) := by
    have gives : Lexer.Gives (Lexer.start "a #") [⟨.identifier, "a", 0⟩] ⟨[' ', '#'], 1, false⟩ :=
      .cons (Lexer.draw_iff.mpr rfl) (.nil _)
    rw [gives.drain, failed, List.append_nil]
  obtain ⟨table, built, ended, refused⟩ : ∃ table, SExpr.table = .ok table ∧
      (table.parse .list [⟨.leftParen, "(", 0⟩, ⟨.identifier, "a", 1⟩]).outcome =
        .error (.unexpectedEnd (.nonTerminal .arguments) (some .expression)) ∧
      (table.parse .list [⟨.identifier, "a", 0⟩]).outcome =
        .error (.noRule .document ⟨.identifier, "a", 0⟩ [.leftParen]) :=
    ⟨_, rfl, by cbv, by cbv⟩
  obtain ⟨other, builtOther, exact⟩ := readTree_exact
  rw [built] at builtOther
  obtain rfl := Except.ok.inj builtOther
  have wrong := ((exact "(a #").2.1 ⟨3, "#"⟩ (by rw [met])).1
  have early := ((exact "a #").2.1 ⟨2, "#"⟩ (by rw [unmet])).2.1
  rw [parseScanned, met, ended] at wrong
  rw [parseScanned, unmet, refused] at early
  have other : ¬ ∃ (expecting : Symbol TokenKind Phrase) (context : Option Phrase),
      (.error (.noRule .document ⟨.identifier, "a", 0⟩ [.leftParen]) :
        Except (ParseError TokenKind Phrase) Tree) = .error (.unexpectedEnd expecting context) := by
    rintro ⟨_, _, same⟩
    cases same
  obtain ⟨error, got, _, read, gotError, _, before⟩ := early other
  exact ⟨table, built, wrong.mpr ⟨_, _, rfl⟩, error, got, read, gotError, before⟩

end Lookahead.SExpr
