import Lookahead.Proofs.Reading

/-!
# Reading twice

What has been read has identifiers that are read again, but its numbers need not be finite: a
numeral that is too large is read as infinite. The text of infinity is no numeral. The lexer takes it
as an identifier, or does not take it at all. In what spells an expression each identifier has a left
parenthesis of its own (`SpellsArgs.words_eq`), and the text of an expression with an infinite number
has an identifier too many (`written_cases`). So that text is not read, whereas the text of any
other expression that has been read is read as the same expression (`read_text_iff_isFinite`).
-/

set_option autoImplicit false

namespace Lookahead

namespace Binary64

def isInfinite : Binary64 → Bool
  | .infinite _ => true
  | _ => false

/-- A value that a decimal can be rounded to. -/
def IsRounded (value : Binary64) : Prop :=
  value.IsFinite ∨ value.isInfinite = true

theorem isRounded_ofDecimal (negative : Bool) (digits : Nat) (exponent : Int) :
    (ofMagnitude negative (Magnitude.ofDecimal digits exponent)).IsRounded := by
  cases rounded : Magnitude.ofDecimal digits exponent with
  | none => exact .inr rfl
  | some magnitude => exact .inl (Magnitude.isNormal_of_ofDecimal rounded)

end Binary64

namespace SExpr

/-! ## What has been read -/

theorem SpellsArgs.forall_parts {P : String → Prop} {Q : Binary64 → Prop}
    {tokens : List (Token TokenKind)} {args : List Arg} (spells : SpellsArgs tokens args)
    (names : ∀ token ∈ tokens, token.kind = .identifier → P token.text)
    (numbers : ∀ token ∈ tokens, token.kind = .number →
      ∀ value, Number.read? token.text = some value → Q value) :
    (∀ name ∈ Arg.namesAll args, P name) ∧ ∀ value ∈ Arg.numbersAll args, Q value := by
  induction spells with
  | nil => simp [Arg.namesAll, Arg.numbersAll]
  | number kind reads later ih =>
      rw [List.forall_mem_cons] at names numbers
      obtain ⟨namesLater, numbersLater⟩ := ih names.2 numbers.2
      rw [Arg.namesAll_number, Arg.numbersAll_number, List.forall_mem_cons]
      exact ⟨namesLater, numbers.1 kind _ reads, numbersLater⟩
  | nested opens head inside closes later ihInside ih =>
      simp only [List.forall_mem_cons, List.forall_mem_append] at names numbers
      obtain ⟨_, name, namesInside, _, namesLater⟩ := names
      obtain ⟨_, _, numbersInside, _, numbersLater⟩ := numbers
      have partsInside := ihInside namesInside numbersInside
      have partsLater := ih namesLater numbersLater
      rw [Arg.namesAll_nested, Arg.numbersAll_nested, List.forall_mem_cons, List.forall_mem_append,
        List.forall_mem_append]
      exact ⟨⟨name head, partsInside.1, partsLater.1⟩, partsInside.2, partsLater.2⟩

/-- Identifiers as the lexer gives them, and numbers as they are rounded. -/
structure IsRead (expression : SExpr) : Prop where
  names : ∀ name ∈ expression.identifier :: Arg.namesAll expression.args, IsIdentifier name
  numbers : ∀ value ∈ Arg.numbersAll expression.args, value.IsRounded

theorem isRead_of_spells (lexer : Lexer) {tokens : List (Token TokenKind)} {expression : SExpr}
    (given : ∀ token ∈ tokens, token ∈ lexer.drain.1) (spells : Spells tokens expression) :
    expression.IsRead := by
  have names : ∀ token ∈ tokens, token.kind = .identifier → IsIdentifier token.text := by
    intro token found kind
    obtain ⟨text, taken, rest, split, same⟩ :=
      Lexer.exists_lexeme?_of_mem_drain (given token found) (by simp [kind])
    rw [kind] at split
    rw [same]
    exact isIdentifier_of_lexeme? split
  have numbers : ∀ token ∈ tokens, token.kind = .number →
      ∀ value, Number.read? token.text = some value → value.IsRounded := by
    intro token found kind value read
    obtain ⟨text, taken, rest, split, same⟩ :=
      Lexer.exists_lexeme?_of_mem_drain (given token found) (by simp [kind])
    rw [kind] at split
    obtain ⟨negative, whole, fraction, body, rfl, numeral⟩ := exists_numeral_of_lexeme? split
    rw [same, Number.read?_numeral negative numeral, Option.some.injEq] at read
    rw [← read]
    exact Binary64.isRounded_ofDecimal _ _ _
  obtain ⟨named, numbered⟩ := (spellsArgs_singleton spells).forall_parts names numbers
  rw [Arg.namesAll_nested, Arg.namesAll, List.append_nil] at named
  rw [Arg.numbersAll_nested, Arg.numbersAll, List.append_nil] at numbered
  exact ⟨named, numbered⟩

/-! ## Identifiers and parentheses -/

def words (tokens : List (Token TokenKind)) : Nat :=
  tokens.countP (·.kind = .identifier)

def openings (tokens : List (Token TokenKind)) : Nat :=
  tokens.countP (·.kind = .leftParen)

@[simp]
theorem words_nil : words [] = 0 :=
  rfl

@[simp]
theorem openings_nil : openings [] = 0 :=
  rfl

@[simp]
theorem words_append (front back : List (Token TokenKind)) :
    words (front ++ back) = words front + words back :=
  List.countP_append

@[simp]
theorem openings_append (front back : List (Token TokenKind)) :
    openings (front ++ back) = openings front + openings back :=
  List.countP_append

@[simp]
theorem words_cons (token : Token TokenKind) (tokens : List (Token TokenKind)) :
    words (token :: tokens) = words tokens + if token.kind = .identifier then 1 else 0 := by
  simp [words, List.countP_cons]

@[simp]
theorem openings_cons (token : Token TokenKind) (tokens : List (Token TokenKind)) :
    openings (token :: tokens) = openings tokens + if token.kind = .leftParen then 1 else 0 := by
  simp [openings, List.countP_cons]

/-- In what spells arguments, identifiers and left parentheses come in pairs. -/
theorem SpellsArgs.words_eq {tokens : List (Token TokenKind)} {args : List Arg}
    (spells : SpellsArgs tokens args) : words tokens = openings tokens := by
  induction spells with
  | nil => rfl
  | number kind reads later ih => simpa [kind] using ih
  | nested opens head inside closes later ihInside ih =>
      simp [opens, head, closes, ihInside, ih]

theorem Spells.words_eq {tokens : List (Token TokenKind)} {expression : SExpr}
    (spells : Spells tokens expression) : words tokens = openings tokens :=
  (spellsArgs_singleton spells).words_eq

theorem lexeme?_infinite (negative : Bool) {rest : List Char}
    (ends : ∀ c ∈ rest.head?, isWordRest c = false) :
    lexeme? ((Number.text (.infinite negative)).toList ++ rest) =
      if negative then none else some (.identifier, ['i', 'n', 'f'], rest) := by
  cases negative with
  | true => rfl
  | false =>
      have identifier : IsIdentifier "inf" := ⟨'i', ['n', 'f'], rfl, by simp, by simp [Text.isBlank]⟩
      exact lexeme?_identifier identifier ends

theorem Lexer.exists_number {value : Binary64} (rounded : value.IsRounded) {rest : List Char}
    (ends : ∀ c ∈ rest.head?, isWordRest c = false) (position : Nat) :
    (∃ token after, Draw ⟨' ' :: ((Number.text value).toList ++ rest), position, false⟩
        (.ok token) ⟨rest, after, false⟩ ∧
        token.kind = if value.isInfinite then .identifier else .number) ∨
      ∃ error after, Draw ⟨' ' :: ((Number.text value).toList ++ rest), position, false⟩
        (.error error) after := by
  cases value with
  | finite negative magnitude =>
      have finite := rounded.resolve_right (by simp [Binary64.isInfinite])
      obtain ⟨token, after, draw, kind, _⟩ :=
        exists_token [' '] _ isBlank_space (lexeme?_number finite ends) position
      exact .inl ⟨token, after, draw, kind⟩
  | infinite negative =>
      have found := lexeme?_infinite negative ends
      cases negative with
      | true => exact .inr ⟨_, _, .failed rfl found⟩
      | false =>
          obtain ⟨token, after, draw, kind, _⟩ :=
            exists_token [' '] ['i', 'n', 'f'] isBlank_space found position
          exact .inl ⟨token, after, draw, kind⟩
  | nan => exact absurd rounded (by simp [Binary64.IsRounded, Binary64.IsFinite, Binary64.isInfinite])

/-- The text of arguments gives an identifier too many for each infinite number, or an error. -/
theorem written_cases {args : List Arg} (names : ∀ name ∈ Arg.namesAll args, IsIdentifier name)
    (numbers : ∀ value ∈ Arg.numbersAll args, value.IsRounded) (later : List Char) (position : Nat) :
    (∃ tokens after, Lexer.Gives ⟨Arg.writtenAll args ++ ')' :: later, position, false⟩ tokens
        ⟨')' :: later, after, false⟩ ∧
        words tokens = openings tokens + (Arg.numbersAll args).countP Binary64.isInfinite) ∨
      ∃ error, (Lexer.drain ⟨Arg.writtenAll args ++ ')' :: later, position, false⟩).2 =
        some error := by
  induction args using Arg.inductionAll generalizing later position with
  | nil => exact .inl ⟨[], position, .nil _, rfl⟩
  | number value args ih =>
      rw [Arg.namesAll_number] at names
      rw [Arg.numbersAll_number, List.forall_mem_cons] at numbers
      rw [Arg.writtenAll_number, List.cons_append, List.append_assoc]
      obtain ⟨token, middle, draw, kind⟩ | ⟨error, after, draw⟩ :=
        Lexer.exists_number numbers.1 (head_written args later) position
      · have first := Lexer.Gives.cons draw (.nil _)
        obtain ⟨tokens, after, gives, counts⟩ | ⟨error, fails⟩ := ih names numbers.2 later middle
        · refine .inl ⟨token :: tokens, after, .cons draw gives, ?_⟩
          -- a number that is infinite gives a word, and any other neither a word nor a parenthesis
          rw [words_cons, openings_cons, Arg.numbersAll_number, List.countP_cons, counts, kind]
          cases value.isInfinite <;> simp
          omega
        · exact .inr ⟨error, by rw [first.drain, fails]⟩
      · exact .inr ⟨error, by rw [Lexer.drain_of_error draw]⟩
  | nested identifier inner args ihInner ih =>
      rw [Arg.namesAll_nested, List.forall_mem_cons, List.forall_mem_append] at names
      rw [Arg.numbersAll_nested, List.forall_mem_append] at numbers
      obtain ⟨name, namesInner, names⟩ := names
      obtain ⟨numbersInner, numbers⟩ := numbers
      have text : Arg.writtenAll (.nested identifier inner :: args) ++ ')' :: later =
          [' '] ++ '(' :: (identifier.toList ++ (Arg.writtenAll inner ++ ')' ::
            (Arg.writtenAll args ++ ')' :: later))) := by
        simp [Arg.writtenAll_nested]
      rw [text]
      obtain ⟨opening, head, first, begins, opens, kind, _⟩ := Lexer.exists_opening [' ']
        isBlank_space name (head_written inner (Arg.writtenAll args ++ ')' :: later)) position
      obtain ⟨inside, second, givesInside, countsInside⟩ | ⟨error, fails⟩ :=
        ihInner namesInner numbersInner (Arg.writtenAll args ++ ')' :: later) first
      · obtain ⟨closing, third, draw, closes⟩ :=
          Lexer.exists_closing (Arg.writtenAll args ++ ')' :: later) second
        have front := begins.trans (givesInside.trans (.cons draw (.nil _)))
        obtain ⟨tokens, after, gives, counts⟩ | ⟨error, fails⟩ := ih names numbers later third
        · refine .inl ⟨_, after, front.trans gives, ?_⟩
          simp [opens, kind, closes, counts, countsInside, Arg.numbersAll_nested]
          omega
        · exact .inr ⟨error, by rw [front.drain, fails]⟩
      · exact .inr ⟨error, by rw [begins.drain, fails]⟩

/-! ## Reading again -/

section Table

variable {table : Table TokenKind Phrase} (same : table.grammar = grammar)
  (reading : table.Predictive)

include same reading

theorem isRead_of_read {input : String} {expression : SExpr}
    (done : read table input = .ok expression) : expression.IsRead := by
  obtain ⟨tokens, final, drained, _, spells⟩ := spells_of_read same reading done
  refine isRead_of_spells (Lexer.start input) ?_ spells
  intro token found
  rw [drained]
  exact List.mem_append_left _ found

theorem read_text_of_isInfinite {expression : SExpr} (isRead : expression.IsRead)
    (infinite : ∃ value ∈ Arg.numbersAll expression.args, value.isInfinite = true) :
    ∃ error, read table expression.text = .error error := by
  cases done : read table expression.text with
  | error error => exact ⟨error, rfl⟩
  | ok again =>
      exfalso
      obtain ⟨tokens, final, drained, _, spells⟩ := spells_of_read same reading done
      rw [Lexer.start, toList_text] at drained
      have names := List.forall_mem_cons.mp isRead.names
      obtain ⟨opening, head, first, begins, opens, kind, _⟩ :=
        Lexer.exists_opening [] (by simp) names.1 (head_written expression.args []) 0
      obtain ⟨inside, second, givesInside, counts⟩ | ⟨error, fails⟩ :=
        written_cases names.2 isRead.numbers [] first
      · obtain ⟨closing, third, draw, closes⟩ := Lexer.exists_closing [] second
        obtain ⟨last, whole, _⟩ :=
          Lexer.exists_final (begins.trans (givesInside.trans (.cons draw (.nil _))))
        have parts := (Prod.mk.inj (drained.symm.trans whole)).1
        have balance := spells.words_eq
        rw [(List.append_inj' parts rfl).1] at balance
        have none : (Arg.numbersAll expression.args).countP Binary64.isInfinite = 0 := by
          simpa [opens, kind, closes, counts] using balance
        exact absurd (List.countP_pos_iff.mpr infinite) (by omega)
      · rw [List.nil_append] at begins
        rw [begins.drain, fails] at drained
        cases (Prod.mk.inj drained).2

theorem read_numeral (negative : Bool) {whole fraction body : List Char}
    (numeral : Number.Numeral whole fraction body) :
    read table (String.ofList ('(' :: 'a' :: ' ' :: (Number.signText negative ++ body ++ [')']))) =
      .ok ⟨"a", [.number (.ofMagnitude negative (Magnitude.ofDecimal
        (Number.digitsValue (whole ++ fraction)) (-(fraction.length : Int))))]⟩ := by
  have identifier : IsIdentifier "a" := ⟨'a', [], rfl, by simp, by simp⟩
  have found := lexeme?_of_splitNumber?
    (splitNumber?_numeral negative numeral (ends_number (head_written [] [])))
  obtain ⟨opening, head, first, begins, opens, kind, text⟩ :=
    Lexer.exists_opening [] (by simp) identifier
      (by simp; decide : ∀ c ∈ (' ' :: (Number.signText negative ++ body ++ [')'])).head?, _) 0
  obtain ⟨token, second, draw, number, spelled⟩ := Lexer.exists_token [' '] _ isBlank_space found first
  obtain ⟨closing, third, last, closes⟩ := Lexer.exists_closing [] second
  obtain ⟨final, drained, ends⟩ :=
    Lexer.exists_final (begins.trans (.cons draw (.cons last (.nil _))))
  have reads := Number.read?_numeral negative numeral
  rw [← spelled] at reads
  refine read_of_spells same reading ?_ ends
    ⟨opening, head, [token], closing, rfl, opens, kind, text, .number number reads .nil, closes⟩
  rw [Lexer.start, String.toList_ofList]
  exact drained

end Table

/-- What has been read is read again from its text as the same expression exactly if its numbers are
finite. -/
theorem read_text_iff_isFinite {table : Table TokenKind Phrase} (built : SExpr.table = .ok table)
    {input : String} {expression : SExpr} (done : read table input = .ok expression) :
    (∃ again, read table expression.text = .ok again ∧ again = expression ∧
        again.text = expression.text) ↔
      ∀ value ∈ Arg.numbersAll expression.args, value.IsFinite := by
  obtain ⟨other, builtOther, same, reading⟩ := exists_table
  obtain rfl : other = table := Except.ok.inj (builtOther.symm.trans built)
  have isRead := isRead_of_read same reading done
  constructor
  · rintro ⟨again, doneAgain, _⟩ value found
    rcases isRead.numbers value found with finite | infinite
    · exact finite
    · obtain ⟨error, refused⟩ :=
        read_text_of_isInfinite same reading isRead ⟨value, found, infinite⟩
      rw [refused] at doneAgain
      cases doneAgain
  · intro finite
    exact ⟨expression, read_of_wellFormed same reading ⟨isRead.names, finite⟩, rfl, rfl⟩

theorem ofDecimal_powerOfTen {places : Nat} (large : 400 < places) :
    Magnitude.ofDecimal (Number.digitsValue ('1' :: List.replicate places '0' ++ [])) 0 = none := by
  have digits : '1' :: List.replicate places '0' ++ [] = ['1'] ++ List.replicate places '0' := by simp
  rw [digits, Number.digitsValue_append_zeros, Magnitude.ofDecimal_mul_pow, Magnitude.ofDecimal,
    if_neg (by decide), if_pos (by omega)]

def powerOfTen (places : Nat) : String :=
  String.ofList ('(' :: 'a' :: ' ' :: '1' :: (List.replicate places '0' ++ [')']))

theorem read_powerOfTen {table : Table TokenKind Phrase} (same : table.grammar = grammar)
    (reading : table.Predictive) {places : Nat} (large : 400 < places) :
    read table (powerOfTen places) = .ok ⟨"a", [.number (.infinite false)]⟩ := by
  have numeral : Number.Numeral ('1' :: List.replicate places '0') []
      ('1' :: List.replicate places '0') :=
    .plain (List.cons_ne_nil _ _) (List.forall_mem_cons.mpr ⟨by decide, Number.isDigit_zeros⟩)
  have done := read_numeral same reading false numeral
  rw [List.length_nil, Int.natCast_zero, Int.neg_zero, ofDecimal_powerOfTen large] at done
  exact done

theorem read_minusZero {table : Table TokenKind Phrase} (same : table.grammar = grammar)
    (reading : table.Predictive) :
    read table "(a -0)" = .ok ⟨"a", [.number (.finite true ⟨0, 0⟩)]⟩ := by
  have numeral : Number.Numeral ['0'] [] ['0'] := .plain (by simp) (by simp)
  have zero : Magnitude.ofDecimal (Number.digitsValue (['0'] ++ []))
      (-(([] : List Char).length : Int)) = some ⟨0, 0⟩ := rfl
  have done := read_numeral same reading true numeral
  rw [zero] at done
  exact done

theorem read_text_iff_isFinite_minusZero : ∃ table, SExpr.table = .ok table ∧
    read table "(a -0)" = .ok ⟨"a", [.number (.finite true ⟨0, 0⟩)]⟩ ∧
    ∃ again, read table (text ⟨"a", [.number (.finite true ⟨0, 0⟩)]⟩) = .ok again ∧
      again = ⟨"a", [.number (.finite true ⟨0, 0⟩)]⟩ ∧
      again.text = text ⟨"a", [.number (.finite true ⟨0, 0⟩)]⟩ := by
  obtain ⟨table, built, same, reading⟩ := exists_table
  have done := read_minusZero same reading
  refine ⟨table, built, done, (read_text_iff_isFinite built done).mpr ?_⟩
  simp only [Arg.numbersAll, Arg.numbers, List.append_nil, List.forall_mem_singleton]
  exact (by decide : Magnitude.IsNormal ⟨0, 0⟩)

/-- A text that is read as an expression whose own text, `(a inf)`, is not read. -/
theorem not_read_text_powerOfTen : ∃ table, SExpr.table = .ok table ∧
    ∃ expression, read table (powerOfTen 401) = .ok expression ∧ expression.text = "(a inf)" ∧
      ¬ ∃ again, read table expression.text = .ok again := by
  obtain ⟨table, built, same, reading⟩ := exists_table
  have large := read_powerOfTen same reading (by decide : 400 < 401)
  obtain ⟨error, refused⟩ := read_text_of_isInfinite same reading (isRead_of_read same reading large)
    ⟨.infinite false, by simp [Arg.numbersAll, Arg.numbers], rfl⟩
  refine ⟨table, built, _, large, ?_, ?_⟩
  · apply String.toList_inj.mp
    rw [toList_text]
    rfl
  · rintro ⟨again, done⟩
    rw [refused] at done
    cases done

end SExpr

end Lookahead
