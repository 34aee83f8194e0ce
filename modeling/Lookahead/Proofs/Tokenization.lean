import Lookahead.Proofs.Lexeme
import Lookahead.Text.Basic

/-!
# The tokens of a text

What a lexer gives for a whole text. Where a text begins with a token, that is a parenthesis or the
longest part of some form (`Lexeme`), and a lexer takes exactly that (`lexeme_of_lexeme?`,
`Lexeme.exists_rest`). So tokens and blanks cover the text (`Tiles`), up to its end or to a
character that begins no token. All positions are places between characters (`tokenize_exact`).
-/

set_option autoImplicit false

namespace Lookahead

/-! ## Places and parts of a text -/

namespace Text

theorem byteLength_append (front back : List Char) :
    byteLength (front ++ back) = byteLength front + byteLength back := by
  have shift : ∀ (text : List Char) (bytes : Nat),
      text.foldl (fun bytes c => bytes + c.utf8Size) bytes = bytes + byteLength text := by
    intro text
    induction text with
    | nil => exact fun _ => rfl
    | cons c text ih =>
        intro bytes
        rw [byteLength, List.foldl_cons, List.foldl_cons, ih, ih]
        omega
  rw [byteLength, List.foldl_append, shift]
  rfl

theorem byteLength_cons (c : Char) (text : List Char) :
    byteLength (c :: text) = c.utf8Size + byteLength text := by
  have whole := byteLength_append [c] text
  simpa [byteLength] using whole

theorem cutAt?_append (front back : List Char) :
    cutAt? (byteLength front) (front ++ back) = some (front, back) := by
  induction front with
  | nil => cases back <;> rfl
  | cons c front ih =>
      have positive := c.utf8Size_pos
      have inside : ¬ c.utf8Size + byteLength front = 0 := by omega
      rw [List.cons_append, byteLength_cons, cutAt?, if_neg inside, if_pos (Nat.le_add_right ..),
        Nat.add_sub_cancel_left, ih]
      rfl

theorem cutAt?_eq_some_iff {offset : Nat} {text front back : List Char} :
    cutAt? offset text = some (front, back) ↔
      text = front ++ back ∧ offset = byteLength front := by
  constructor
  · intro cut
    fun_induction cutAt? offset text generalizing front with
    | case1 => cases cut; exact ⟨rfl, rfl⟩
    | case2 => cases cut
    | case3 => cases cut; exact ⟨rfl, rfl⟩
    | case4 offset c text inside fits ih =>
        obtain ⟨⟨before, after⟩, found, same⟩ := Option.map_eq_some_iff.mp cut
        cases same
        obtain ⟨rfl, place⟩ := ih found
        refine ⟨rfl, ?_⟩
        rw [byteLength_cons, ← place]
        omega
    | case5 => cases cut
  · intro ⟨whole, place⟩
    rw [whole, place, cutAt?_append]

/-- The longest part at the start of a text that has some property. -/
structure IsLongest (p : List Char → Prop) (text part : List Char) : Prop where
  begins : part <+: text
  has : p part
  longest : ∀ other, other <+: text → p other → other.length ≤ part.length

theorem IsLongest.unique {p : List Char → Prop} {text part other : List Char}
    (first : IsLongest p text part) (second : IsLongest p text other) : part = other :=
  (List.prefix_of_prefix_length_le first.begins second.begins
    (second.longest part first.begins first.has)).eq_of_length_le
      (first.longest other second.begins second.has)

theorem prefix_takeWhile {p : Char → Bool} {part text : List Char} (begins : part <+: text)
    (all : ∀ c ∈ part, p c = true) : part <+: text.takeWhile p := by
  obtain ⟨after, rfl⟩ := begins
  rw [List.takeWhile_append_of_pos all]
  exact List.prefix_append ..

theorem not_isBlank_of_skipBlank {text later : List Char} {c : Char}
    (left : skipBlank text = c :: later) : isBlank c = false := by
  rw [skipBlank] at left
  exact head?_dropWhile text c (by rw [left]; rfl)

theorem split_cons {front back before after : List Char} {c : Char}
    (whole : front ++ back = before ++ c :: after) :
    (∃ more, front = before ++ c :: more ∧ after = more ++ back) ∨
      ∃ more, before = front ++ more ∧ back = more ++ c :: after := by
  rcases List.append_eq_append_iff.mp whole with ⟨more, rfl, same⟩ | ⟨more, rfl, same⟩
  · exact .inr ⟨more, rfl, same⟩
  · cases more with
    | nil => exact .inr ⟨[], by simp, same.symm⟩
    | cons first more =>
        obtain ⟨rfl, rfl⟩ := List.cons.inj same
        exact .inl ⟨more, rfl, rfl⟩

end Text

namespace SExpr

open Text (IsLongest byteLength isBlank)

/-! ## The classes of tokens -/

/-- A text of the form `-?[0-9]+(\.[0-9]*)?`. -/
def IsNumber (text : List Char) : Prop :=
  ∃ negative whole fraction body, text = Number.signText negative ++ body ∧
    Number.Numeral whole fraction body

/-- The token at the start of a text: a parenthesis, or the longest number if any, or else the
longest identifier. -/
inductive Lexeme : List Char → TokenKind → List Char → Prop
  | leftParen (later : List Char) : Lexeme ('(' :: later) .leftParen ['(']
  | rightParen (later : List Char) : Lexeme (')' :: later) .rightParen [')']
  | number {text taken : List Char} (longest : IsLongest IsNumber text taken) :
      Lexeme text .number taken
  | identifier {text taken : List Char} (noNumber : ∀ part, part <+: text → ¬ IsNumber part)
      (longest : IsLongest (fun part => IsIdentifier (String.ofList part)) text taken) :
      Lexeme text .identifier taken

theorem splitUnsigned?_of_numeral {whole fraction body : List Char}
    (numeral : Number.Numeral whole fraction body) (after : List Char) :
    ∃ more rest, splitUnsigned? (body ++ after) = some (body ++ more, rest) := by
  cases numeral with
  | plain nonempty digits =>
      refine ⟨after.takeWhile Char.isDigit ++ (splitFraction (after.dropWhile Char.isDigit)).1,
        (splitFraction (after.dropWhile Char.isDigit)).2, ?_⟩
      simp [splitUnsigned?, nonempty, List.takeWhile_append_of_pos digits,
        List.dropWhile_append_of_pos digits]
  | pointed nonempty digits places =>
      have front := Text.takeWhile_part digits ('.' :: (fraction ++ after)) (by simp)
      have back := Text.dropWhile_part digits ('.' :: (fraction ++ after)) (by simp)
      refine ⟨after.takeWhile Char.isDigit, after.dropWhile Char.isDigit, ?_⟩
      simp [splitUnsigned?, splitFraction, front, back, nonempty,
        List.takeWhile_append_of_pos places, List.dropWhile_append_of_pos places]

theorem splitNumber?_of_isNumber {part : List Char} (number : IsNumber part) (after : List Char) :
    ∃ more rest, splitNumber? (part ++ after) = some (part ++ more, rest) := by
  obtain ⟨negative, whole, fraction, body, rfl, numeral⟩ := number
  obtain ⟨more, rest, split⟩ := splitUnsigned?_of_numeral numeral after
  refine ⟨more, rest, ?_⟩
  cases negative with
  | true => simp [Number.signText, splitNumber?, split]
  | false =>
      obtain ⟨c, later, rfl, digit⟩ := numeral.exists_cons
      have sign : c ≠ '-' := by
        intro same
        rw [same] at digit
        exact absurd digit (by decide)
      simp only [Number.signText, Bool.false_eq_true, if_false, List.nil_append]
      rw [← split, List.cons_append, splitNumber?_of_ne sign]

theorem isLongest_of_splitNumber? {text taken rest : List Char}
    (split : splitNumber? text = some (taken, rest)) : IsLongest IsNumber text taken := by
  refine ⟨⟨rest, (splitNumber?_append split).1⟩, exists_numeral_of_splitNumber? split, ?_⟩
  rintro other ⟨after, rfl⟩ number
  obtain ⟨more, last, again⟩ := splitNumber?_of_isNumber number after
  obtain ⟨rfl, _⟩ := Prod.mk.inj (Option.some.inj (split.symm.trans again))
  rw [List.length_append]
  exact Nat.le_add_right ..

theorem splitNumber?_eq_none_iff_forall {text : List Char} :
    splitNumber? text = none ↔ ∀ part, part <+: text → ¬ IsNumber part := by
  constructor
  · rintro none part ⟨after, rfl⟩ number
    obtain ⟨more, rest, split⟩ := splitNumber?_of_isNumber number after
    rw [none] at split
    cases split
  · intro noNumber
    cases split : splitNumber? text with
    | none => rfl
    | some parts =>
        obtain ⟨taken, rest⟩ := parts
        have longest := isLongest_of_splitNumber? split
        exact absurd longest.has (noNumber taken longest.begins)

theorem isLongest_of_identifier {text taken rest : List Char}
    (found : lexeme? text = some (.identifier, taken, rest)) :
    IsLongest (fun part => IsIdentifier (String.ofList part)) text taken := by
  refine ⟨⟨rest, (lexeme?_append found).1⟩, isIdentifier_of_lexeme? found, ?_⟩
  rintro other begins ⟨c, later, spelled, _, inside⟩
  obtain ⟨⟨⟩, _⟩ | ⟨⟨⟩, _⟩ | ⟨⟨⟩, _⟩ | ⟨_, _, word⟩ := lexeme?_cases found
  rw [String.toList_ofList] at spelled
  subst other
  cases text with
  | nil => cases word
  | cons first text =>
      obtain ⟨_, rfl, _⟩ := splitWord?_eq_some_iff.mp word
      have behind := (List.cons_prefix_cons.mp begins).2
      have within := Text.prefix_takeWhile behind fun d found => isWordRest_iff.mpr (inside d found)
      exact Nat.succ_le_succ within.length_le

theorem lexeme_of_lexeme? {text taken rest : List Char} {kind : TokenKind}
    (found : lexeme? text = some (kind, taken, rest)) : Lexeme text kind taken := by
  rcases lexeme?_cases found with ⟨rfl, rfl, rfl⟩ | ⟨rfl, rfl, rfl⟩ | ⟨rfl, number⟩ | ⟨rfl, none, _⟩
  · exact .leftParen rest
  · exact .rightParen rest
  · exact .number (isLongest_of_splitNumber? number)
  · exact .identifier (splitNumber?_eq_none_iff_forall.mp none) (isLongest_of_identifier found)

theorem Lexeme.exists_rest {text taken : List Char} {kind : TokenKind}
    (lexeme : Lexeme text kind taken) : ∃ rest, lexeme? text = some (kind, taken, rest) := by
  cases lexeme with
  | leftParen later => exact ⟨later, rfl⟩
  | rightParen later => exact ⟨later, rfl⟩
  | number longest =>
      obtain ⟨after, whole⟩ := longest.begins
      obtain ⟨more, rest, split⟩ := splitNumber?_of_isNumber longest.has after
      rw [whole] at split
      rw [(isLongest_of_splitNumber? split).unique longest] at split
      exact ⟨rest, lexeme?_of_splitNumber? split⟩
  | identifier noNumber longest =>
      obtain ⟨after, rfl⟩ := longest.begins
      obtain ⟨c, later, spelled, letter, _⟩ := longest.has
      rw [String.toList_ofList] at spelled
      subst spelled
      rw [List.cons_append] at noNumber longest ⊢
      have word : splitWord? (c :: (later ++ after)) = some _ :=
        splitWord?_eq_some_iff.mpr ⟨isWordStart_of_isAlpha letter, rfl, rfl⟩
      have found := lexeme?_of_splitWord? (splitNumber?_eq_none_iff_forall.mpr noNumber) word
      rw [(isLongest_of_identifier found).unique longest] at found
      exact ⟨_, found⟩

/-! ## The layout of a text -/

def stop (token : Token TokenKind) : Nat :=
  token.position + byteLength token.text.toList

/-- A text from some byte on is covered by tokens with blanks between them, up to the first place
where there is neither, if there is one. -/
inductive Tiles : Nat → List Char → List (Token TokenKind) → Option LexError → Prop
  | ended {position : Nat} {text : List Char} (blank : ∀ c ∈ text, isBlank c = true) :
      Tiles position text [⟨.endOfInput, "", position + byteLength text⟩] none
  | token {position : Nat} {blanks taken rest : List Char} {kind : TokenKind}
      {tokens : List (Token TokenKind)} {failure : Option LexError}
      (blank : ∀ c ∈ blanks, isBlank c = true) (lexeme : Lexeme (taken ++ rest) kind taken)
      (later : Tiles (position + byteLength blanks + byteLength taken) rest tokens failure) :
      Tiles position (blanks ++ (taken ++ rest))
        (⟨kind, String.ofList taken, position + byteLength blanks⟩ :: tokens) failure
  | failed {position : Nat} {blanks rest : List Char} {c : Char}
      (blank : ∀ c ∈ blanks, isBlank c = true) (visible : isBlank c = false)
      (unread : ∀ kind taken, ¬ Lexeme (c :: rest) kind taken) :
      Tiles position (blanks ++ c :: rest) []
        (some ⟨position + byteLength blanks, String.ofList (c :: rest)⟩)

theorem tiles_drain (text : List Char) (position : Nat) :
    Tiles position text (Lexer.drain ⟨text, position, false⟩).1
      (Lexer.drain ⟨text, position, false⟩).2 := by
  have parts (text : List Char) : text.takeWhile isBlank ++ Text.skipBlank text = text :=
    List.takeWhile_append_dropWhile
  have blank (text : List Char) : ∀ c ∈ text.takeWhile isBlank, isBlank c = true :=
    fun c inside => List.all_eq_true.mp List.all_takeWhile c inside
  induction text, position using Lexer.text_induction with
  | ended text position left =>
      have whole := parts text
      rw [left, List.append_nil] at whole
      have all := blank text
      rw [whole] at all
      rw [Lexer.drain_of_blank left, Lexer.tokenStart, whole]
      exact .ended all
  | failed text position c later left found =>
      have unread : ∀ kind taken, ¬ Lexeme (c :: later) kind taken := by
        intro kind taken lexeme
        obtain ⟨rest, taken⟩ := lexeme.exists_rest
        rw [found] at taken
        cases taken
      have placed : Tiles position (text.takeWhile isBlank ++ c :: later) [] _ :=
        .failed (blank text) (Text.not_isBlank_of_skipBlank left) unread
      rw [← left, parts, left] at placed
      rw [Lexer.drain_of_error (.failed left found), Lexer.tokenStart]
      exact placed
  | token text position c later kind taken rest left found ih =>
      have whole := (lexeme?_append found).1
      have lexeme := lexeme_of_lexeme? found
      rw [← whole] at lexeme
      have placed := Tiles.token (blank text) lexeme ih
      rw [whole, ← left, parts] at placed
      rw [Lexer.drain_of_token (.token left found), Lexer.tokenStart]
      exact placed

namespace Tiles

variable {position : Nat} {text : List Char} {tokens : List (Token TokenKind)}
  {failure : Option LexError}

theorem placed (tiles : Tiles position text tokens failure) :
    ∀ token ∈ tokens, ∃ before after, text = before ++ (token.text.toList ++ after) ∧
      position + byteLength before = token.position ∧
      (token.kind ≠ .endOfInput →
        Lexeme (token.text.toList ++ after) token.kind token.text.toList) := by
  induction tiles with
  | @ended position text blank =>
      intro token inside
      obtain rfl := List.mem_singleton.mp inside
      exact ⟨text, [], (List.append_nil text).symm, rfl, fun other => absurd rfl other⟩
  | failed => nofun
  | @token position blanks taken rest kind tokens failure blank lexeme later ih =>
      intro token inside
      rcases List.mem_cons.mp inside with rfl | inside
      · refine ⟨blanks, rest, ?_, rfl, fun _ => ?_⟩
        · rw [String.toList_ofList]
        · rw [String.toList_ofList]
          exact lexeme
      · obtain ⟨before, after, rfl, start, found⟩ := ih token inside
        refine ⟨blanks ++ (taken ++ before), after, by simp, ?_, found⟩
        rw [Text.byteLength_append, Text.byteLength_append, ← start]
        omega

theorem apart (tiles : Tiles position text tokens failure) :
    tokens.Pairwise fun first second => stop first ≤ second.position := by
  induction tiles with
  | ended => exact List.pairwise_singleton ..
  | failed => exact .nil
  | @token position blanks taken rest kind tokens failure blank lexeme later ih =>
      refine .cons (fun token inside => ?_) ih
      obtain ⟨before, _, _, start, _⟩ := later.placed token inside
      rw [stop, String.toList_ofList, ← start]
      exact Nat.le_add_right ..

theorem blank_outside (tiles : Tiles position text tokens failure)
    {before after : List Char} {c : Char} (whole : text = before ++ c :: after)
    (early : ∀ error, failure = some error → position + byteLength before < error.position)
    (outside : ∀ token ∈ tokens, position + byteLength before < token.position ∨
      stop token ≤ position + byteLength before) : isBlank c = true := by
  induction tiles generalizing before with
  | @ended position text blank =>
      subst whole
      exact blank c (by simp)
  | @failed position blanks rest first blank visible unread =>
      have first := early _ rfl
      rcases Text.split_cons whole with ⟨more, rfl, _⟩ | ⟨more, rfl, _⟩
      · exact blank c (by simp)
      · rw [Text.byteLength_append] at first
        dsimp only at first
        omega
  | @token position blanks taken rest kind tokens failure blank lexeme later ih =>
      rcases Text.split_cons whole with ⟨more, rfl, _⟩ | ⟨more, rfl, behind⟩
      · exact blank c (by simp)
      rcases Text.split_cons behind with ⟨inner, rfl, _⟩ | ⟨inner, rfl, further⟩
      · have first := outside _ List.mem_cons_self
        have positive := c.utf8Size_pos
        simp only [stop, String.toList_ofList, Text.byteLength_append, Text.byteLength_cons]
          at first
        omega
      · rw [Text.byteLength_append, Text.byteLength_append, ← Nat.add_assoc, ← Nat.add_assoc]
          at early outside
        exact ih further early fun token inside => outside token (List.mem_cons_of_mem _ inside)

theorem ends (tiles : Tiles position text tokens failure) :
    (failure = none ∧ ∃ others,
        tokens = others ++ [⟨.endOfInput, "", position + byteLength text⟩] ∧
          ∀ token ∈ others, token.kind ≠ .endOfInput) ∨
      ∃ before c after, failure = some ⟨position + byteLength before, String.ofList (c :: after)⟩ ∧
        text = before ++ c :: after ∧ isBlank c = false ∧
        (∀ kind taken, ¬ Lexeme (c :: after) kind taken) ∧
        ∀ token ∈ tokens, token.kind ≠ .endOfInput ∧ stop token ≤ position + byteLength before := by
  induction tiles with
  | ended => exact .inl ⟨rfl, [], rfl, nofun⟩
  | failed _ visible unread => exact .inr ⟨_, _, _, rfl, rfl, visible, unread, nofun⟩
  | @token position blanks taken rest kind tokens failure blank lexeme later ih =>
      obtain ⟨_, split⟩ := lexeme.exists_rest
      have inner := kind_of_lexeme? split
      rcases ih with ⟨none, others, rfl, apart⟩ |
        ⟨before, c, after, rfl, rfl, visible, unread, apart⟩
      · refine .inl ⟨none, ⟨kind, String.ofList taken, position + byteLength blanks⟩ :: others, ?_,
          List.forall_mem_cons.mpr ⟨inner, apart⟩⟩
        simp only [Text.byteLength_append, Nat.add_assoc, List.cons_append]
      · refine .inr ⟨blanks ++ (taken ++ before), c, after, ?_, by simp, visible, unread, ?_⟩
        · simp only [Text.byteLength_append, Nat.add_assoc]
        · rw [Text.byteLength_append, Text.byteLength_append, ← Nat.add_assoc, ← Nat.add_assoc]
          intro token inside
          rcases List.mem_cons.mp inside with rfl | inside
          · refine ⟨inner, ?_⟩
            rw [stop, String.toList_ofList]
            exact Nat.le_add_right ..
          · exact apart token inside

end Tiles

/-! ## All that a lexer gives -/

/-- What a lexer gives at a call, counted from zero. -/
def Lexer.call : Nat → Lexer → Option (Except LexError (Token TokenKind))
  | 0, lexer => lexer.next.1
  | count + 1, lexer => call count lexer.next.2

theorem Lexer.call_of_finished {lexer : Lexer} (finished : lexer.finished = true) (count : Nat) :
    lexer.call count = none := by
  induction count with
  | zero => rw [call, next_of_finished finished]
  | succ count ih => rw [call, next_of_finished finished, ih]

theorem Lexer.call_eq (lexer : Lexer) (count : Nat) :
    lexer.call count = (lexer.drain.1.map .ok ++ lexer.drain.2.toList.map .error)[count]? := by
  fun_induction Lexer.drain lexer generalizing count with
  | case1 lexer rest drawn =>
      obtain ⟨text, position, finished⟩ := lexer
      cases finished with
      | true => rw [call_of_finished rfl]; rfl
      | false =>
          obtain ⟨given, last, draw⟩ := exists_draw text position
          rw [next_of_draw draw] at drawn
          cases drawn
  | case2 lexer error rest drawn =>
      cases draw_iff.mpr drawn with
      | failed left unread =>
          cases count with
          | zero => rw [call, drawn]; rfl
          | succ count => rw [call, drawn, call_of_finished rfl]; rfl
  | case3 lexer token rest drawn others ih =>
      cases count with
      | zero => rw [call, drawn]; rfl
      | succ count => rw [call, drawn, ih]; rfl

structure Tokenization (input : List Char) (tokens : List (Token TokenKind))
    (failure : Option LexError) : Prop where
  /-- A token starts and ends between characters, its text is what stands there, and it is the
  token at its start. -/
  placed : ∀ token ∈ tokens, ∃ before after,
    Text.cutAt? token.position input = some (before, token.text.toList ++ after) ∧
    Text.cutAt? (stop token) input = some (before ++ token.text.toList, after) ∧
    (token.kind ≠ .endOfInput → Lexeme (token.text.toList ++ after) token.kind token.text.toList)
  apart : tokens.Pairwise fun first second => stop first ≤ second.position
  /-- What is in no token and before the error is blank. -/
  blank : ∀ before c after, input = before ++ c :: after →
    (∀ error, failure = some error → byteLength before < error.position) →
    (∀ token ∈ tokens, byteLength before < token.position ∨ stop token ≤ byteLength before) →
    isBlank c = true
  /-- The end of the input is the last token, or there is an error behind all tokens, at a character
  that is no blank and begins no token, with all that is left of the input. -/
  ends : (failure = none ∧ ∃ others,
        tokens = others ++ [⟨.endOfInput, "", byteLength input⟩] ∧
          ∀ token ∈ others, token.kind ≠ .endOfInput) ∨
      ∃ error before c after, failure = some error ∧
        Text.cutAt? error.position input = some (before, c :: after) ∧
        error.rest = String.ofList (c :: after) ∧ isBlank c = false ∧
        (∀ kind taken, ¬ Lexeme (c :: after) kind taken) ∧
        ∀ token ∈ tokens, token.kind ≠ .endOfInput ∧ stop token ≤ error.position

theorem Tiles.tokenization {input : List Char} {tokens : List (Token TokenKind)}
    {failure : Option LexError} (tiles : Tiles 0 input tokens failure) :
    Tokenization input tokens failure where
  placed token inside := by
    obtain ⟨before, after, rfl, start, lexeme⟩ := tiles.placed token inside
    rw [Nat.zero_add] at start
    refine ⟨before, after, ?_, ?_, lexeme⟩
    · rw [← start, Text.cutAt?_append]
    · rw [stop, ← start, ← Text.byteLength_append, ← List.append_assoc, Text.cutAt?_append]
  apart := tiles.apart
  blank before c after whole early outside := by
    refine tiles.blank_outside whole ?_ ?_ <;> rw [Nat.zero_add]
    · exact early
    · exact outside
  ends := by
    rcases tiles.ends with ⟨none, others, rfl, apart⟩ |
      ⟨before, c, after, rfl, rfl, visible, unread, apart⟩
    · rw [Nat.zero_add]
      exact .inl ⟨none, others, rfl, apart⟩
    · rw [Nat.zero_add] at apart ⊢
      exact .inr ⟨_, before, c, after, rfl, Text.cutAt?_append .., rfl, visible, unread, apart⟩

/-- The calls of a lexer for an input give its tokens one after the other, then the error if there
is one, and nothing ever after. -/
theorem tokenize_exact (input : String) :
    ∃ tokens failure, (Lexer.start input).drain = (tokens, failure) ∧
      (∀ count, (Lexer.start input).call count =
        (tokens.map .ok ++ failure.toList.map .error)[count]?) ∧
      Tokenization input.toList tokens failure :=
  ⟨_, _, rfl, (Lexer.start input).call_eq, (tiles_drain input.toList 0).tokenization⟩

/-- A second point ends a number and begins no token. -/
example : (Lexer.start "12ab-\u00a0(1..2").drain =
    ([⟨.number, "12", 0⟩, ⟨.identifier, "ab-", 2⟩, ⟨.leftParen, "(", 7⟩, ⟨.number, "1.", 8⟩],
      some ⟨10, ".2"⟩) := by cbv

end SExpr

end Lookahead
