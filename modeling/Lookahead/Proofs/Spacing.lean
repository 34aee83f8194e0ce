import Lookahead.Proofs.Reading
import Lookahead.Proofs.Tokenization

/-!
# Blanks between tokens

A token is settled by its characters and the one behind them, and a blank behind it ends it
(`lexeme?_replace`). So what a lexer has given does not depend on what stands further on
(`Lexer.Gives.exists_front`), and blanks that are put in where it is between tokens are skipped. What it
gives after them is what it gave before, at later places (`Lexer.drain_spaced`).
-/

set_option autoImplicit false

namespace Lookahead

/-! ## What may stand behind a token -/

namespace Text

/-- A text that may stand in the place of another one behind a token: it is empty, or begins with a
blank or as the other one does. -/
def Replaces (rest other : List Char) : Prop :=
  ∀ c ∈ other.head?, isBlank c = true ∨ c ∈ rest.head?

theorem Replaces.ends {rest other : List Char} (replaces : Replaces rest other) {p : Char → Bool}
    (blank : ∀ c, isBlank c = true → p c = false) (ends : ∀ c ∈ rest.head?, p c = false) :
    ∀ c ∈ other.head?, p c = false := by
  intro c first
  cases replaces c first with
  | inl isBlank => exact blank c isBlank
  | inr same => exact ends c same

theorem Replaces.append (front : List Char) {rest other : List Char}
    (replaces : Replaces rest other) : Replaces (front ++ rest) (front ++ other) := by
  intro c first
  cases front with
  | nil => exact replaces c first
  | cons d front => exact .inr first

theorem replaces_blanks {blanks : List Char} (blank : ∀ c ∈ blanks, isBlank c = true)
    (rest : List Char) : Replaces rest (blanks ++ rest) := by
  intro c first
  cases blanks with
  | nil => exact .inr first
  | cons d blanks =>
      have same : d = c := by simpa using first
      exact .inl (blank c (same ▸ List.mem_cons_self))

end Text

open Text (Replaces byteLength isBlank)

namespace SExpr

theorem not_isWordRest_of_isBlank (c : Char) (blank : isBlank c = true) : isWordRest c = false := by
  simp [isWordRest, blank]

theorem not_isDigit_of_isBlank (c : Char) (blank : isBlank c = true) : c.isDigit = false := by
  cases digit : c.isDigit with
  | false => rfl
  | true =>
      have word := isWordRest_of_isDigit digit
      rw [not_isWordRest_of_isBlank c blank] at word
      cases word

theorem ne_point_of_isBlank (c : Char) (blank : isBlank c = true) : (c == '.') = false := by
  cases point : c == '.' with
  | false => rfl
  | true =>
      rw [eq_of_beq point] at blank
      exact absurd blank (by decide)

theorem splitUnsigned?_replace {taken rest other : List Char}
    (split : splitUnsigned? (taken ++ rest) = some (taken, rest)) (replaces : Replaces rest other) :
    splitUnsigned? (taken ++ other) = some (taken, other) := by
  obtain ⟨whole, nonempty, digits, form⟩ := splitUnsigned?_cases split
  rcases form with ⟨rfl, ends⟩ | ⟨places, rfl, inner, ends⟩
  · have noDigit := replaces.ends not_isDigit_of_isBlank fun c first => (ends c first).1
    have noPoint := replaces.ends ne_point_of_isBlank fun c first => beq_false_of_ne (ends c first).2
    refine splitUnsigned?_plain nonempty digits ?_
    intro c first
    exact ⟨noDigit c first, ne_of_beq_false (noPoint c first)⟩
  · exact splitUnsigned?_pointed nonempty digits inner (replaces.ends not_isDigit_of_isBlank ends)

theorem splitNumber?_replace {taken rest other : List Char}
    (split : splitNumber? (taken ++ rest) = some (taken, rest)) (replaces : Replaces rest other) :
    splitNumber? (taken ++ other) = some (taken, other) := by
  have nonempty := (splitNumber?_append split).2
  cases taken with
  | nil => exact absurd rfl nonempty
  | cons c later =>
      by_cases sign : c = '-'
      · subst sign
        simp only [List.cons_append, splitNumber?, Option.map_eq_some_iff] at split ⊢
        obtain ⟨parts, unsigned, same⟩ := split
        obtain ⟨body, after⟩ := parts
        simp only [Prod.mk.injEq, List.cons.injEq, true_and] at same
        rw [same.1, same.2] at unsigned
        exact ⟨_, splitUnsigned?_replace unsigned replaces, rfl⟩
      · rw [List.cons_append, splitNumber?_of_ne sign, ← List.cons_append] at split ⊢
        exact splitUnsigned?_replace split replaces

theorem splitWord?_replace {taken rest other : List Char}
    (noNumber : splitNumber? (taken ++ rest) = none)
    (split : splitWord? (taken ++ rest) = some (taken, rest)) (replaces : Replaces rest other) :
    splitNumber? (taken ++ other) = none ∧ splitWord? (taken ++ other) = some (taken, other) := by
  have nonempty := (splitWord?_append split).2
  cases taken with
  | nil => exact absurd rfl nonempty
  | cons c later =>
      rw [List.cons_append] at noNumber split ⊢
      obtain ⟨start, taken, left⟩ := splitWord?_eq_some_iff.mp split
      have sign : c ≠ '-' := by
        intro same
        rw [same] at start
        exact absurd start (by decide)
      have noDigit := (splitNumber?_eq_none_iff sign).mp noNumber
      have word : ∀ d ∈ later, isWordRest d = true := by
        rw [(List.cons.inj taken).2]
        exact List.all_eq_true.mp List.all_takeWhile
      have ends : ∀ d ∈ rest.head?, isWordRest d = false := by
        rw [left]
        exact Text.head?_dropWhile _
      have endsOther := replaces.ends not_isWordRest_of_isBlank ends
      refine ⟨(splitNumber?_eq_none_iff sign).mpr noDigit, splitWord?_eq_some_iff.mpr ⟨start, ?_, ?_⟩⟩
      · rw [Text.takeWhile_part word other endsOther]
      · rw [Text.dropWhile_part word other endsOther]

/-- A token is taken in front of any text that may stand in the place of what was behind it. -/
theorem lexeme?_replace {taken rest other : List Char} {kind : TokenKind}
    (found : lexeme? (taken ++ rest) = some (kind, taken, rest)) (replaces : Replaces rest other) :
    lexeme? (taken ++ other) = some (kind, taken, other) := by
  rcases lexeme?_cases found with
    ⟨rfl, _, rfl⟩ | ⟨rfl, _, rfl⟩ | ⟨rfl, number⟩ | ⟨rfl, noNumber, word⟩
  · rfl
  · rfl
  · exact lexeme?_of_splitNumber? (splitNumber?_replace number replaces)
  · obtain ⟨noNumberOther, wordOther⟩ := splitWord?_replace noNumber word replaces
    exact lexeme?_of_splitWord? noNumberOther wordOther

end SExpr

/-! ## What is given later -/

def Token.later {T : Type} (bytes : Nat) (token : Token T) : Token T :=
  { token with position := token.position + bytes }

/-- A token after some bytes were put in at a place. It has moved unless it starts before that. -/
def Token.moved {T : Type} (place bytes : Nat) (token : Token T) : Token T :=
  if place ≤ token.position then token.later bytes else token

section Tokens

variable {T : Type} {tokens : List (Token T)} {place : Nat}

theorem Token.map_moved_of_lt (early : ∀ token ∈ tokens, token.position < place) (bytes : Nat) :
    tokens.map (Token.moved place bytes) = tokens := by
  have same : ∀ token ∈ tokens, token.moved place bytes = id token := by
    intro token inside
    exact if_neg (Nat.not_le_of_gt (early token inside))
  rw [List.map_congr_left same, List.map_id]

theorem Token.map_moved_of_le (late : ∀ token ∈ tokens, place ≤ token.position) (bytes : Nat) :
    tokens.map (Token.moved place bytes) = tokens.map (Token.later bytes) := by
  apply List.map_congr_left
  intro token inside
  exact if_pos (late token inside)

end Tokens

namespace SExpr

def LexError.later (bytes : Nat) (error : LexError) : LexError :=
  { error with position := error.position + bytes }

def LexError.moved (place bytes : Nat) (error : LexError) : LexError :=
  if place ≤ error.position then error.later bytes else error

theorem LexError.map_moved_of_le {failure : Option LexError} {place : Nat}
    (late : ∀ error ∈ failure, place ≤ error.position) (bytes : Nat) :
    failure.map (LexError.moved place bytes) = failure.map (LexError.later bytes) := by
  apply Option.map_congr
  intro error failed
  exact if_pos (late error failed)

namespace Lexer

theorem drain_blanks {blanks : List Char} (blank : ∀ c ∈ blanks, isBlank c = true)
    (text : List Char) (position : Nat) :
    drain ⟨blanks ++ text, position, false⟩ =
      drain ⟨text, position + byteLength blanks, false⟩ := by
  have skipped : Text.skipBlank (blanks ++ text) = Text.skipBlank text :=
    List.dropWhile_append_of_pos blank
  have front : position + byteLength ((blanks ++ text).takeWhile isBlank) =
      position + byteLength blanks + byteLength (text.takeWhile isBlank) := by
    rw [List.takeWhile_append_of_pos blank, Text.byteLength_append, Nat.add_assoc]
  have same : next ⟨blanks ++ text, position, false⟩ =
      next ⟨text, position + byteLength blanks, false⟩ := by
    simp only [next, skipped, front, Bool.false_eq_true, if_false]
  rw [drain_eq, same, ← drain_eq]

theorem drain_later (text : List Char) (position bytes : Nat) :
    drain ⟨text, position + bytes, false⟩ =
      ((drain ⟨text, position, false⟩).1.map (Token.later bytes),
        (drain ⟨text, position, false⟩).2.map (LexError.later bytes)) := by
  have starts (text : List Char) (position : Nat) :
      tokenStart text (position + bytes) = tokenStart text position + bytes :=
    Nat.add_right_comm ..
  induction text, position using text_induction with
  | ended text position left =>
      rw [drain_of_blank left, drain_of_blank left, starts]
      rfl
  | failed text position c later left found =>
      rw [drain_of_error (.failed left found), drain_of_error (.failed left found), starts]
      rfl
  | token text position c later kind taken rest left found ih =>
      rw [drain_of_token (.token left found), drain_of_token (.token left found), starts,
        Nat.add_right_comm, ih]
      rfl

/-- What a lexer has given was in front of what it is left with, and it gives that again whatever
stands there in its place. -/
theorem Gives.exists_front {text rest : List Char} {position place : Nat}
    {tokens : List (Token TokenKind)}
    (gives : Gives ⟨text, position, false⟩ tokens ⟨rest, place, false⟩) :
    ∃ front, text = front ++ rest ∧ place = position + byteLength front ∧
      (∀ token ∈ tokens, token.position < place) ∧
      ∀ other, Replaces rest other →
        Gives ⟨front ++ other, position, false⟩ tokens ⟨other, place, false⟩ := by
  generalize begins : (⟨text, position, false⟩ : Lexer) = lexer at gives
  generalize stops : (⟨rest, place, false⟩ : Lexer) = last at gives
  induction gives generalizing text position with
  | nil lexer =>
      rw [← begins] at stops
      cases stops
      exact ⟨[], rfl, rfl, by simp, fun other _ => .nil _⟩
  | cons draw later ih =>
      cases begins
      cases draw with
      | ended blank =>
          -- a lexer that has given the end of the input gives no more
          cases later with
          | nil => cases stops
          | cons draw _ => cases draw
      | @token _ _ c behind taken left kind skipped found =>
          obtain ⟨whole, nonempty⟩ := lexeme?_append found
          obtain ⟨front, rfl, rfl, early, again⟩ := ih rfl stops
          have blank : ∀ d ∈ text.takeWhile isBlank, isBlank d = true :=
            List.all_eq_true.mp List.all_takeWhile
          have parts : text.takeWhile isBlank ++ Text.skipBlank text = text :=
            List.takeWhile_append_dropWhile
          rw [skipped, ← whole] at parts
          rw [← whole] at found
          have positive := Text.byteLength_pos nonempty
          refine ⟨text.takeWhile isBlank ++ (taken ++ front), ?_, ?_, ?_, ?_⟩
          · rw [List.append_assoc, List.append_assoc, parts]
          · rw [Text.byteLength_append, Text.byteLength_append, tokenStart]
            omega
          · intro token inside
            cases List.mem_cons.mp inside with
            | inl first =>
                rw [first]
                dsimp only
                omega
            | inr inside => exact early token inside
          · intro other replaces
            have again := again other replaces
            have foundOther := lexeme?_replace found (replaces.append front)
            rw [List.append_assoc, List.append_assoc]
            exact .cons (draw_token blank foundOther position) again

/-- A place between tokens: some tokens have been given, and some blanks behind them skipped. -/
def IsBetween (text : List Char) (position place : Nat) : Prop :=
  ∃ tokens blanks back middle,
    Gives ⟨text, position, false⟩ tokens ⟨blanks ++ back, middle, false⟩ ∧
      (∀ c ∈ blanks, isBlank c = true) ∧ place = middle + byteLength blanks

theorem le_drain (text : List Char) (position : Nat) :
    (∀ token ∈ (drain ⟨text, position, false⟩).1, position ≤ token.position) ∧
      ∀ error ∈ (drain ⟨text, position, false⟩).2, position ≤ error.position := by
  have tiles := tiles_drain text position
  constructor
  · intro token inside
    obtain ⟨before, _, _, start, _⟩ := tiles.placed token inside
    omega
  · intro error failed
    rcases tiles.ends with ⟨none, _⟩ | ⟨before, c, after, same, _⟩
    · rw [none] at failed
      cases failed
    · rw [same] at failed
      cases failed
      exact Nat.le_add_right ..

/-- Blanks that are put in between tokens change the places of what comes behind them, and nothing
else. -/
theorem drain_spaced {text : List Char} {position place : Nat}
    (between : IsBetween text position place) :
    ∃ front back, text = front ++ back ∧ place = position + byteLength front ∧
      ∀ blanks : List Char, (∀ c ∈ blanks, isBlank c = true) →
        drain ⟨front ++ (blanks ++ back), position, false⟩ =
          ((drain ⟨text, position, false⟩).1.map (Token.moved place (byteLength blanks)),
            (drain ⟨text, position, false⟩).2.map (LexError.moved place (byteLength blanks))) := by
  obtain ⟨tokens, skipped, back, middle, gives, blank, rfl⟩ := between
  obtain ⟨front, rfl, rfl, early, again⟩ := gives.exists_front
  refine ⟨front ++ skipped, back, ?_, ?_, ?_⟩
  · rw [List.append_assoc]
  · rw [Text.byteLength_append, Nat.add_assoc]
  · intro blanks blankToo
    have replaces := (Text.replaces_blanks blankToo back).append skipped
    have givesSpaced := again _ replaces
    obtain ⟨late, lateError⟩ := le_drain back (position + byteLength front + byteLength skipped)
    have before : ∀ token ∈ tokens,
        token.position < position + byteLength front + byteLength skipped :=
      fun token inside => Nat.lt_of_lt_of_le (early token inside) (Nat.le_add_right ..)
    rw [List.append_assoc, givesSpaced.drain, gives.drain, drain_blanks blank, drain_blanks blank,
      drain_blanks blankToo, drain_later]
    simp only [List.map_append, Token.map_moved_of_lt before, Token.map_moved_of_le late,
      LexError.map_moved_of_le lateError]

end Lexer

/-! ## Places between tokens -/

open Lexer (IsBetween)

/-- A character that starts at a byte is in no token, and before the error if there is one. -/
def IsSkipped (tokens : List (Token TokenKind)) (failure : Option LexError) (start : Nat) : Prop :=
  (∀ error, failure = some error → start < error.position) ∧
    ∀ token ∈ tokens, start < token.position ∨ stop token ≤ start

/-- Where what is given of a text has a gap: a token starts there, the end of the input being one, or
the error does, or a character that is skipped starts or ends there. -/
inductive IsGap (position : Nat) (text : List Char) (tokens : List (Token TokenKind))
    (failure : Option LexError) : Nat → Prop
  | token {token : Token TokenKind} (given : token ∈ tokens) :
      IsGap position text tokens failure token.position
  | failure {error : LexError} (failed : failure = some error) :
      IsGap position text tokens failure error.position
  | skipped {before after : List Char} {c : Char} {place : Nat} (split : text = before ++ c :: after)
      (skipped : IsSkipped tokens failure (position + byteLength before))
      (edge : place = position + byteLength before ∨
        place = position + byteLength before + c.utf8Size) :
      IsGap position text tokens failure place

def IsWithin (position : Nat) (blanks : List Char) (place : Nat) : Prop :=
  ∃ front back, blanks = front ++ back ∧ place = position + byteLength front

section Places

variable {position place : Nat} {blanks rest : List Char} {tokens : List (Token TokenKind)}
  {failure : Option LexError}

theorem isWithin_end (position : Nat) (blanks : List Char) :
    IsWithin position blanks (position + byteLength blanks) :=
  ⟨blanks, [], (List.append_nil blanks).symm, rfl⟩

theorem isWithin_of_edge {before more : List Char} {c : Char} (split : blanks = before ++ c :: more)
    (edge : place = position + byteLength before ∨
      place = position + byteLength before + c.utf8Size) : IsWithin position blanks place := by
  cases edge with
  | inl starts => exact ⟨before, c :: more, split, starts⟩
  | inr ends =>
      refine ⟨before ++ [c], more, ?_, ?_⟩
      · rw [split, List.append_assoc, List.singleton_append]
      · rw [ends, Text.byteLength_append, Text.byteLength_cons, Nat.add_assoc]
        rfl

theorem IsGap.of_token {taken : List Char} {kind : TokenKind}
    (gap : IsGap position (blanks ++ (taken ++ rest))
      (⟨kind, String.ofList taken, position + byteLength blanks⟩ :: tokens) failure place) :
    IsWithin position blanks place ∨
      IsGap (position + byteLength blanks + byteLength taken) rest tokens failure place := by
  cases gap with
  | token given =>
      cases List.mem_cons.mp given with
      | inl first =>
          rw [first]
          exact .inl (isWithin_end position blanks)
      | inr later => exact .inr (.token later)
  | failure failed => exact .inr (.failure failed)
  | @skipped before after c _ split skipped edge =>
      obtain ⟨early, outside⟩ := skipped
      rcases Text.split_cons split with ⟨more, inBlanks, _⟩ | ⟨more, rfl, behind⟩
      · exact .inl (isWithin_of_edge inBlanks edge)
      rcases Text.split_cons behind with ⟨inner, inToken, _⟩ | ⟨inner, rfl, further⟩
      · -- the character would start in the token
        have first := outside _ List.mem_cons_self
        have positive := c.utf8Size_pos
        rw [stop, String.toList_ofList, inToken, Text.byteLength_append, Text.byteLength_append,
          Text.byteLength_cons] at first
        dsimp only at first
        omega
      · rw [Text.byteLength_append, Text.byteLength_append, ← Nat.add_assoc, ← Nat.add_assoc]
          at early outside edge
        refine .inr (.skipped further ⟨early, ?_⟩ edge)
        intro token inside
        exact outside token (List.mem_cons_of_mem _ inside)

theorem IsGap.of_ended {text : List Char}
    (gap : IsGap position text [⟨.endOfInput, "", position + byteLength text⟩] none place) :
    IsWithin position text place := by
  cases gap with
  | token given =>
      rw [List.mem_singleton.mp given]
      exact isWithin_end position text
  | failure failed => cases failed
  | skipped split _ edge => exact isWithin_of_edge split edge

theorem IsGap.of_failed {c : Char}
    (gap : IsGap position (blanks ++ c :: rest) []
      (some ⟨position + byteLength blanks, String.ofList (c :: rest)⟩) place) :
    IsWithin position blanks place := by
  cases gap with
  | token given => cases given
  | failure failed =>
      cases failed
      exact isWithin_end position blanks
  | skipped split skipped edge =>
      have early := skipped.1 _ rfl
      rcases Text.split_cons split with ⟨more, inBlanks, _⟩ | ⟨more, rfl, _⟩
      · exact isWithin_of_edge inBlanks edge
      · rw [Text.byteLength_append] at early
        dsimp only at early
        omega

theorem isBetween_of_isWithin (blank : ∀ c ∈ blanks, isBlank c = true) (rest : List Char)
    (within : IsWithin position blanks place) : IsBetween (blanks ++ rest) position place := by
  obtain ⟨front, back, rfl, starts⟩ := within
  refine ⟨[], front, back ++ rest, position, ?_, ?_, starts⟩
  · rw [List.append_assoc]
    exact .nil _
  · intro c inside
    exact blank c (List.mem_append_left back inside)

theorem isBetween_of_draw {text : List Char} {middle : Nat} {token : Token TokenKind}
    (draw : Lexer.Draw ⟨text, position, false⟩ (.ok token) ⟨rest, middle, false⟩)
    (between : IsBetween rest middle place) : IsBetween text position place := by
  obtain ⟨later, skipped, back, last, gives, blank, starts⟩ := between
  exact ⟨token :: later, skipped, back, last, .cons draw gives, blank, starts⟩

theorem Tiles.isBetween {text : List Char} (tiles : Tiles position text tokens failure)
    (gap : IsGap position text tokens failure place) : IsBetween text position place := by
  induction tiles with
  | @ended position text blank =>
      have between := isBetween_of_isWithin blank [] gap.of_ended
      rw [List.append_nil] at between
      exact between
  | failed blank visible unread => exact isBetween_of_isWithin blank _ gap.of_failed
  | @token position blanks taken rest kind tokens failure blank lexeme later ih =>
      obtain ⟨left, found⟩ := lexeme.exists_rest
      have same : left = rest := List.append_cancel_left (lexeme?_append found).1
      rw [same] at found
      cases gap.of_token with
      | inl within => exact isBetween_of_isWithin blank _ within
      | inr gapLater =>
          exact isBetween_of_draw (Lexer.draw_token blank found position) (ih gapLater)

end Places

/-! ## Reading with other blanks -/

def face (token : Token TokenKind) : TokenKind × String :=
  (token.kind, token.text)

theorem SpellsArgs.of_faces {tokens others : List (Token TokenKind)} {args : List Arg}
    (spells : SpellsArgs tokens args) (same : others.map face = tokens.map face) :
    SpellsArgs others args := by
  induction spells generalizing others with
  | nil =>
      rw [List.map_eq_nil_iff.mp same]
      exact .nil
  | @number token value tokens args kind reads later ih =>
      obtain ⟨first, rest, rfl, firstSame, restSame⟩ := List.map_eq_cons_iff.mp same
      obtain ⟨sameKind, sameText⟩ := Prod.mk.inj firstSame
      refine .number ?_ ?_ (ih restSame)
      · rw [sameKind, kind]
      · rw [sameText, reads]
  | @nested opening name closing inner tokens innerArgs args opens names inside closes later ihInner
      ih =>
      obtain ⟨first, rest, rfl, firstSame, restSame⟩ := List.map_eq_cons_iff.mp same
      obtain ⟨second, rest, rfl, secondSame, restSame⟩ := List.map_eq_cons_iff.mp restSame
      rw [List.map_append] at restSame
      obtain ⟨front, back, rfl, frontSame, backSame⟩ := List.map_eq_append_iff.mp restSame
      obtain ⟨last, back, rfl, lastSame, backSame⟩ := List.map_eq_cons_iff.mp backSame
      have openingSame := congrArg Prod.fst firstSame
      have closingSame := congrArg Prod.fst lastSame
      obtain ⟨nameKind, nameText⟩ := Prod.mk.inj secondSame
      have nested : SpellsArgs (first :: second :: (front ++ last :: back))
          (.nested second.text innerArgs :: args) :=
        .nested (openingSame.trans opens) (nameKind.trans names) (ihInner frontSame)
          (closingSame.trans closes) (ih backSame)
      rw [nameText] at nested
      exact nested

theorem spells_of_singleton {tokens : List (Token TokenKind)} {expression : SExpr}
    (spells : SpellsArgs tokens [.nested expression.identifier expression.args]) :
    Spells tokens expression := by
  generalize named : expression.identifier = identifier at spells
  cases spells with
  | nested opens names inside closes later =>
      cases later
      exact ⟨_, _, _, _, rfl, opens, names, named.symm, inside, closes⟩

theorem Spells.of_faces {tokens others : List (Token TokenKind)} {expression : SExpr}
    (spells : Spells tokens expression) (same : others.map face = tokens.map face) :
    Spells others expression :=
  spells_of_singleton ((spellsArgs_singleton spells).of_faces same)

theorem face_moved (place bytes : Nat) (token : Token TokenKind) :
    face (token.moved place bytes) = face token := by
  unfold Token.moved
  split <;> rfl

section Table

variable {table : Table TokenKind Phrase} (same : table.grammar = grammar)
  (reading : table.Predictive)

include same reading

theorem read_of_faces {input other : String} {expression : SExpr}
    (faces : (Lexer.start other).drain.1.map face = (Lexer.start input).drain.1.map face)
    (failures : (Lexer.start other).drain.2.isSome = (Lexer.start input).drain.2.isSome)
    (done : read table input = .ok expression) : read table other = .ok expression := by
  obtain ⟨tokens, final, drained, ends, spells⟩ := spells_of_read same reading done
  rw [drained] at faces failures
  rw [List.map_append] at faces
  obtain ⟨others, last, split, othersSame, lastSame⟩ := List.map_eq_append_iff.mp faces
  obtain ⟨finalToo, rest, rfl, finalSame, restSame⟩ := List.map_eq_cons_iff.mp lastSame
  obtain rfl := List.map_eq_nil_iff.mp restSame
  have noFailure := Option.isSome_eq_false_iff.mp failures
  rw [Option.isNone_iff_eq_none] at noFailure
  have drainedOther : (Lexer.start other).drain = (others ++ [finalToo], none) :=
    Prod.ext split noFailure
  have endsToo : finalToo.kind = .endOfInput := (congrArg Prod.fst finalSame).trans ends
  exact read_of_spells same reading drainedOther endsToo (spells.of_faces othersSame)

theorem read_both {input other : String}
    (faces : (Lexer.start other).drain.1.map face = (Lexer.start input).drain.1.map face)
    (failures : (Lexer.start other).drain.2.isSome = (Lexer.start input).drain.2.isSome) :
    (∃ expression, read table input = .ok expression ∧ read table other = .ok expression) ∨
      ∃ error errorOther, read table input = .error error ∧ read table other = .error errorOther := by
  cases done : read table input with
  | ok expression =>
      exact .inl ⟨expression, rfl, read_of_faces same reading faces failures done⟩
  | error error =>
      cases doneOther : read table other with
      | ok expression =>
          have back := read_of_faces same reading faces.symm failures.symm doneOther
          rw [done] at back
          cases back
      | error errorOther => exact .inr ⟨error, errorOther, rfl, rfl⟩

end Table

/-- Blanks that are put in between tokens move what comes behind them and change nothing else. So
the text is read as before, or it is not read before and not read after. -/
theorem read_spaced : ∃ table, SExpr.table = .ok table ∧
    ∀ (input : String) (tokens : List (Token TokenKind)) (failure : Option LexError) (place : Nat),
      (Lexer.start input).drain = (tokens, failure) →
      IsGap 0 input.toList tokens failure place →
      ∃ front back, Text.cutAt? place input.toList = some (front, back) ∧
        ∀ blanks : String, (∀ c ∈ blanks.toList, isBlank c = true) →
          ∃ spaced : String, spaced = String.ofList front ++ blanks ++ String.ofList back ∧
            (Lexer.start spaced).drain =
              (tokens.map (Token.moved place (byteLength blanks.toList)),
                failure.map (LexError.moved place (byteLength blanks.toList))) ∧
            ((∃ expression, read table input = .ok expression ∧
                read table spaced = .ok expression) ∨
              ∃ error errorSpaced, read table input = .error error ∧
                read table spaced = .error errorSpaced) := by
  obtain ⟨table, built, same, reading⟩ := exists_table
  refine ⟨table, built, fun input tokens failure place drained gap => ?_⟩
  have tiles := tiles_drain input.toList 0
  rw [Lexer.start] at drained
  rw [drained] at tiles
  obtain ⟨front, back, whole, starts, spacing⟩ := Lexer.drain_spaced (tiles.isBetween gap)
  rw [Nat.zero_add] at starts
  refine ⟨front, back, Text.cutAt?_eq_some_iff.mpr ⟨whole, starts⟩, fun blanks blank => ?_⟩
  have drainedSpaced := spacing blanks.toList blank
  rw [drained] at drainedSpaced
  have spelled : (String.ofList front ++ blanks ++ String.ofList back).toList =
      front ++ (blanks.toList ++ back) := by simp
  rw [← spelled] at drainedSpaced
  refine ⟨_, rfl, drainedSpaced, read_both same reading ?_ ?_⟩
  · rw [Lexer.start, Lexer.start, drainedSpaced, drained, List.map_map]
    exact List.map_congr_left fun token _ => face_moved ..
  · rw [Lexer.start, Lexer.start, drainedSpaced, drained, Option.isSome_map]

/-- A name with one argument, the number 1. -/
def unary : SExpr where
  identifier := "a"
  args := [.number (.finite false ⟨4503599627370496, 1022⟩)]

theorem drain_unary : (Lexer.start "(a 1)").drain =
    ([⟨.leftParen, "(", 0⟩, ⟨.identifier, "a", 1⟩, ⟨.number, "1", 3⟩, ⟨.rightParen, ")", 4⟩,
      ⟨.endOfInput, "", 5⟩], none) := by
  decide +kernel

theorem read_unary {table : Table TokenKind Phrase} (same : table.grammar = grammar)
    (reading : table.Predictive) : read table "(a 1)" = .ok unary := by
  have reads : Number.read? "1" = some (.finite false ⟨4503599627370496, 1022⟩) := by decide +kernel
  have spells : Spells
      [⟨.leftParen, "(", 0⟩, ⟨.identifier, "a", 1⟩, ⟨.number, "1", 3⟩, ⟨.rightParen, ")", 4⟩] unary :=
    ⟨_, _, [_], _, rfl, rfl, rfl, rfl, .number rfl reads .nil, rfl⟩
  exact read_of_spells same reading drain_unary rfl spells

theorem read_spaced_touching : ∃ table, SExpr.table = .ok table ∧
    (Lexer.start "12ab\u3000.(").drain =
      ([⟨.number, "12", 0⟩, ⟨.identifier, "ab", 2⟩], some ⟨7, ".("⟩) ∧
    (Lexer.start "12\u00a0 ab\u3000.(").drain =
      ([⟨.number, "12", 0⟩, ⟨.identifier, "ab", 5⟩], some ⟨10, ".("⟩) ∧
    ((∃ expression, read table "12ab\u3000.(" = .ok expression ∧
        read table "12\u00a0 ab\u3000.(" = .ok expression) ∨
      ∃ error errorSpaced, read table "12ab\u3000.(" = .error error ∧
        read table "12\u00a0 ab\u3000.(" = .error errorSpaced) ∧
    (Lexer.start "(a 1)").drain =
      ([⟨.leftParen, "(", 0⟩, ⟨.identifier, "a", 1⟩, ⟨.number, "1", 3⟩, ⟨.rightParen, ")", 4⟩,
        ⟨.endOfInput, "", 5⟩], none) ∧
    (Lexer.start "(\u3000\ta 1)").drain =
      ([⟨.leftParen, "(", 0⟩, ⟨.identifier, "a", 5⟩, ⟨.number, "1", 7⟩, ⟨.rightParen, ")", 8⟩,
        ⟨.endOfInput, "", 9⟩], none) ∧
    read table "(a 1)" = .ok unary ∧ read table "(\u3000\ta 1)" = .ok unary := by
  obtain ⟨table, built, spacing⟩ := read_spaced
  have drained : (Lexer.start "12ab\u3000.(").drain =
      ([⟨.number, "12", 0⟩, ⟨.identifier, "ab", 2⟩], some ⟨7, ".("⟩) := by decide +kernel
  obtain ⟨front, back, cut, spaces⟩ :=
    spacing _ _ _ 2 drained (.token (List.mem_cons_of_mem _ List.mem_cons_self))
  have parts : Text.cutAt? 2 "12ab\u3000.(".toList =
      some (['1', '2'], ['a', 'b', '\u3000', '.', '(']) := rfl
  rw [parts] at cut
  cases cut
  have blank : ∀ c ∈ "\u00a0 ".toList, isBlank c = true := by simp [isBlank]
  obtain ⟨_, rfl, drainedSpaced, reads⟩ := spaces "\u00a0 " blank
  refine ⟨table, built, drained, drainedSpaced, reads, drain_unary, ?_⟩
  obtain ⟨front, back, cut, spaces⟩ :=
    spacing _ _ _ 1 drain_unary (.token (List.mem_cons_of_mem _ List.mem_cons_self))
  have parts : Text.cutAt? 1 "(a 1)".toList = some (['('], ['a', ' ', '1', ')']) := rfl
  rw [parts] at cut
  cases cut
  have blank : ∀ c ∈ "\u3000\t".toList, isBlank c = true := by simp [isBlank]
  obtain ⟨_, rfl, drainedSpaced, reads⟩ := spaces "\u3000\t" blank
  -- the tokens of the first text spell an expression, so the second disjunct is out
  obtain ⟨tableToo, builtToo, same, reading⟩ := exists_table
  obtain rfl : table = tableToo := Except.ok.inj (built.symm.trans builtToo)
  have done := read_unary same reading
  obtain ⟨expression, found, foundSpaced⟩ | ⟨error, _, refused, _⟩ := reads
  · obtain rfl : unary = expression := Except.ok.inj (done.symm.trans found)
    exact ⟨drainedSpaced, done, foundSpaced⟩
  · cases done.symm.trans refused

end SExpr

end Lookahead
