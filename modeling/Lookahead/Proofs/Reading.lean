import Lookahead.Proofs.Completeness
import Lookahead.Proofs.Lexeme
import Lookahead.Proofs.Spelling

/-!
# Reading and printing S-expressions

Which texts are read as an expression, and that the text of an expression is one of them.
-/

set_option autoImplicit false

namespace Lookahead.SExpr

/-!
## What is read as an S-expression

Reading draws tokens, parses them with the table of the grammar, and reduces the tree. Put together,
a text is read as an expression exactly if its tokens, up to the end of the input, spell that
expression.
-/

theorem readTree_ok_iff {table : Table TokenKind Phrase} {input : String} {tree : Tree} :
    readTree table input = .ok tree ↔
      (table.parse Scan.source (Scan.start input)).outcome = .ok tree := by
  unfold readTree
  dsimp only
  split
  · rename_i parsed
    rw [parsed, Except.ok.injEq, Except.ok.injEq]
  · rename_i failed _
    simp [failed]
  · rename_i failed _
    simp [failed]

theorem read_ok_iff {table : Table TokenKind Phrase} {input : String} {expression : SExpr} :
    read table input = .ok expression ↔
      ∃ tree, (table.parse Scan.source (Scan.start input)).outcome = .ok tree ∧
        reduce tree = .ok expression := by
  simp only [← readTree_ok_iff]
  unfold read
  cases readTree table input with
  | error error => simp
  | ok tree => cases reduced : reduce tree <;> simp [reduced]

theorem Lexer.drain_of_isPrefix {lexer : Lexer} (unfinished : lexer.finished = false)
    {tokens : List (Token TokenKind)} {final : Token TokenKind}
    (begins : tokens ++ [final] <+: lexer.drain.1) (ends : final.kind = .endOfInput) :
    lexer.drain = (tokens ++ [final], none) := by
  rcases drain_ends unfinished with ⟨others, last, drained, _, apart⟩ | ⟨others, error, drained, apart⟩
  · rw [drained] at begins ⊢
    rcases List.prefix_concat_iff.mp begins with whole | shorter
    · rw [whole]
    · exact absurd ends (apart final (shorter.subset (by simp)))
  · rw [drained] at begins
    exact absurd ends (apart final (begins.subset (by simp)))

section Table

variable {table : Table TokenKind Phrase} (same : table.grammar = grammar)
  (reading : table.Predictive)

include same reading

theorem spells_of_read {input : String} {expression : SExpr}
    (done : read table input = .ok expression) :
    ∃ tokens final, (Lexer.start input).drain = (tokens ++ [final], none) ∧
      final.kind = .endOfInput ∧ Spells tokens expression := by
  obtain ⟨tree, parsed, reduced⟩ := read_ok_iff.mp done
  obtain ⟨isTree, begins⟩ := Parsing.isTree_of_parse reading parsed
  rw [same] at isTree
  obtain ⟨tokens, final, leaves, ends, spells⟩ := spells_of_reduce isTree reduced
  rw [leaves, Scan.start, Scan.drain_source] at begins
  exact ⟨tokens, final, Lexer.drain_of_isPrefix rfl begins ends, ends, spells⟩

theorem read_of_spells {input : String} {tokens : List (Token TokenKind)}
    {final : Token TokenKind} {expression : SExpr}
    (drained : (Lexer.start input).drain = (tokens ++ [final], none))
    (ends : final.kind = .endOfInput) (spells : Spells tokens expression) :
    read table input = .ok expression := by
  obtain ⟨tree, isTree, root, leaves, reduced⟩ := exists_document spells ends
  rw [← same] at isTree
  have given : (Scan.source.drain (Scan.start input)).1 = tree.leaves ++ [] := by
    rw [Scan.start, Scan.drain_source, drained, leaves, List.append_nil]
  have delimits : table.Delimits .document tree [] := by
    have found : table.grammar.rules[0]? =
        some ⟨0, .document, [.nonTerminal .expression, .terminal .endOfInput]⟩ := by rw [same]; rfl
    exact .inr ⟨0, _, .endOfInput, root, found, rfl⟩
  have started : table.grammar.start = .document := by rw [same]; rfl
  have parsed := Parsing.outcome_of_isTree reading isTree given delimits
  rw [← started] at parsed
  exact read_ok_iff.mpr ⟨tree, parsed, reduced⟩

end Table

/-- A text is read as an expression exactly if a lexer gives, without an error, tokens that spell
the expression and then the end of the input. -/
theorem read_iff_spells : ∃ table, SExpr.table = .ok table ∧
    ∀ (input : String) (expression : SExpr), read table input = .ok expression ↔
      ∃ tokens final, (Lexer.start input).drain = (tokens ++ [final], none) ∧
        final.kind = .endOfInput ∧ Spells tokens expression := by
  obtain ⟨table, built, same, reading⟩ := exists_table
  refine ⟨table, built, fun input expression => ?_⟩
  constructor
  · exact spells_of_read same reading
  · rintro ⟨tokens, final, drained, ends, spells⟩
    exact read_of_spells same reading drained ends spells

/-!
## Printing and reading back

The text of an S-expression is written part by part, each with the blank before it (`written`,
`toList_text`). A lexer that stands before a part takes exactly that part, since a blank or a
parenthesis follows it. So the text of a well-formed expression gives tokens that spell the expression
(`gives_written`), and it is read back (`read_text`).
-/

/-! ### Well-formed expressions -/

mutual

def Arg.names : Arg → List String
  | number _ => []
  | nested identifier args => identifier :: Arg.namesAll args

def Arg.namesAll : List Arg → List String
  | [] => []
  | arg :: args => Arg.names arg ++ Arg.namesAll args

end

mutual

def Arg.numbers : Arg → List Binary64
  | number value => [value]
  | nested _ args => Arg.numbersAll args

def Arg.numbersAll : List Arg → List Binary64
  | [] => []
  | arg :: args => Arg.numbers arg ++ Arg.numbersAll args

end

theorem Arg.namesAll_number (value : Binary64) (args : List Arg) :
    namesAll (.number value :: args) = namesAll args :=
  rfl

theorem Arg.namesAll_nested (identifier : String) (inner args : List Arg) :
    namesAll (.nested identifier inner :: args) =
      identifier :: (namesAll inner ++ namesAll args) :=
  rfl

theorem Arg.numbersAll_number (value : Binary64) (args : List Arg) :
    numbersAll (.number value :: args) = value :: numbersAll args :=
  rfl

theorem Arg.numbersAll_nested (identifier : String) (inner args : List Arg) :
    numbersAll (.nested identifier inner :: args) = numbersAll inner ++ numbersAll args :=
  rfl

/-- Arguments are none, or a number before others, or a nested expression before others. -/
@[elab_as_elim]
theorem Arg.inductionAll {motive : List Arg → Prop} (nil : motive [])
    (number : ∀ value args, motive args → motive (.number value :: args))
    (nested : ∀ identifier inner args, motive inner → motive args →
      motive (.nested identifier inner :: args)) : ∀ args, motive args
  | [] => nil
  | .number value :: args => number value args (inductionAll nil number nested args)
  | .nested identifier inner :: args =>
      nested identifier inner args (inductionAll nil number nested inner)
        (inductionAll nil number nested args)

/-- Its identifiers are what the lexer takes for identifiers, and its numbers are finite. -/
structure WellFormed (expression : SExpr) : Prop where
  names : ∀ name ∈ expression.identifier :: Arg.namesAll expression.args, IsIdentifier name
  numbers : ∀ value ∈ Arg.numbersAll expression.args, value.IsFinite

/-! ### The text of an expression -/

mutual

def Arg.written : Arg → List Char
  | number value => ' ' :: (Number.text value).toList
  | nested identifier args => ' ' :: '(' :: (identifier.toList ++ (Arg.writtenAll args ++ [')']))

def Arg.writtenAll : List Arg → List Char
  | [] => []
  | arg :: args => Arg.written arg ++ Arg.writtenAll args

end

theorem Arg.writtenAll_number (value : Binary64) (args : List Arg) :
    writtenAll (.number value :: args) =
      ' ' :: ((Number.text value).toList ++ writtenAll args) :=
  rfl

theorem Arg.writtenAll_nested (identifier : String) (inner args : List Arg) :
    writtenAll (.nested identifier inner :: args) =
      ' ' :: '(' :: (identifier.toList ++ (writtenAll inner ++ ')' :: writtenAll args)) := by
  simp [writtenAll, written]

theorem textFrom_pieces (before : String) (args : List Arg) (others : List Piece) :
    textFrom before (pieces args ++ others) =
      textFrom (before ++ String.ofList (Arg.writtenAll args)) others := by
  induction args using Arg.inductionAll generalizing before others with
  | nil => simp [pieces, Arg.writtenAll]
  | number value args ih =>
      have rest := ih (before ++ " " ++ Number.text value) others
      simp only [pieces, List.map_cons, List.cons_append, textFrom] at rest ⊢
      rw [rest]
      congr 1
      apply String.toList_inj.mp
      simp [Arg.writtenAll_number]
  | nested identifier inner args ihInner ih =>
      -- the pieces of the nested expression come before those that were pending
      have rest := ih
        (before ++ " (" ++ identifier ++ String.ofList (Arg.writtenAll inner) ++ ")") others
      have inside := ihInner (before ++ " (" ++ identifier) (.close :: (pieces args ++ others))
      simp only [pieces, List.map_cons, List.cons_append, textFrom] at rest inside ⊢
      rw [inside, rest]
      congr 1
      apply String.toList_inj.mp
      simp [Arg.writtenAll_nested]

theorem toList_text (expression : SExpr) :
    expression.text.toList =
      '(' :: (expression.identifier.toList ++ (Arg.writtenAll expression.args ++ [')'])) := by
  rw [text, textFrom_pieces]
  simp [textFrom]

/-! ### The tokens of a text -/

theorem Lexer.exists_token (blanks taken : List Char) {rest : List Char} {kind : TokenKind}
    (blank : ∀ c ∈ blanks, Text.isBlank c = true)
    (found : lexeme? (taken ++ rest) = some (kind, taken, rest)) (position : Nat) :
    ∃ token after,
      Draw ⟨blanks ++ (taken ++ rest), position, false⟩ (.ok token) ⟨rest, after, false⟩ ∧
      token.kind = kind ∧ token.text = String.ofList taken :=
  ⟨_, _, draw_token blank found position, rfl, rfl⟩

theorem isBlank_space : ∀ c ∈ [' '], Text.isBlank c = true :=
  List.forall_mem_singleton.mpr rfl

theorem head_written (args : List Arg) (later : List Char) :
    ∀ c ∈ (Arg.writtenAll args ++ ')' :: later).head?, isWordRest c = false := by
  intro c first
  cases args with
  | nil =>
      obtain rfl : ')' = c := by simpa [Arg.writtenAll] using first
      decide
  | cons arg args =>
      have blank : ' ' = c := by
        cases arg <;> simpa [Arg.writtenAll, Arg.written] using first
      obtain rfl := blank
      decide

theorem Lexer.exists_opening (blanks : List Char) (blank : ∀ c ∈ blanks, Text.isBlank c = true)
    {name : String} (identifier : IsIdentifier name) {rest : List Char}
    (ends : ∀ c ∈ rest.head?, isWordRest c = false) (position : Nat) :
    ∃ opening head after,
      Gives ⟨blanks ++ '(' :: (name.toList ++ rest), position, false⟩ [opening, head]
        ⟨rest, after, false⟩ ∧
      opening.kind = .leftParen ∧ head.kind = .identifier ∧ head.text = name := by
  obtain ⟨opening, middle, first, opens, _⟩ :=
    exists_token _ ['('] blank (rfl : lexeme? ('(' :: _) = _) position
  have word := lexeme?_identifier identifier ends
  obtain ⟨head, after, second, kind, text⟩ := exists_token [] _ (by simp) word middle
  rw [String.ofList_toList] at text
  exact ⟨opening, head, after, .cons first (.cons second (.nil _)), opens, kind, text⟩

theorem Lexer.exists_closing (later : List Char) (position : Nat) :
    ∃ closing after, Draw ⟨')' :: later, position, false⟩ (.ok closing) ⟨later, after, false⟩ ∧
      closing.kind = .rightParen := by
  obtain ⟨closing, after, draw, closes, _⟩ :=
    exists_token [] [')'] (by simp) (rfl : lexeme? (')' :: _) = _) position
  exact ⟨closing, after, draw, closes⟩

theorem gives_written {args : List Arg} (names : ∀ name ∈ Arg.namesAll args, IsIdentifier name)
    (numbers : ∀ value ∈ Arg.numbersAll args, value.IsFinite) (later : List Char) (position : Nat) :
    ∃ tokens after, Lexer.Gives ⟨Arg.writtenAll args ++ ')' :: later, position, false⟩ tokens
      ⟨')' :: later, after, false⟩ ∧ SpellsArgs tokens args := by
  induction args using Arg.inductionAll generalizing later position with
  | nil => exact ⟨[], position, .nil _, .nil⟩
  | number value args ih =>
      rw [Arg.namesAll_number] at names
      rw [Arg.numbersAll_number, List.forall_mem_cons] at numbers
      obtain ⟨token, middle, draw, kind, text⟩ := Lexer.exists_token [' '] _ isBlank_space
        (lexeme?_number numbers.1 (head_written args later)) position
      obtain ⟨tokens, after, gives, spells⟩ := ih names numbers.2 later middle
      rw [String.ofList_toList] at text
      refine ⟨token :: tokens, after, ?_, .number kind ?_ spells⟩
      · simpa [Arg.writtenAll_number] using Lexer.Gives.cons draw gives
      · rw [text, Number.read?_text numbers.1]
  | nested identifier inner args ihInner ih =>
      rw [Arg.namesAll_nested, List.forall_mem_cons, List.forall_mem_append] at names
      rw [Arg.numbersAll_nested, List.forall_mem_append] at numbers
      obtain ⟨name, namesInner, names⟩ := names
      obtain ⟨numbersInner, numbers⟩ := numbers
      obtain ⟨opening, head, first, begins, opens, kind, text⟩ := Lexer.exists_opening [' ']
        isBlank_space name (head_written inner (Arg.writtenAll args ++ ')' :: later)) position
      obtain ⟨inside, second, givesInside, spellsInside⟩ :=
        ihInner namesInner numbersInner (Arg.writtenAll args ++ ')' :: later) first
      obtain ⟨closing, third, draw, closes⟩ :=
        Lexer.exists_closing (Arg.writtenAll args ++ ')' :: later) second
      obtain ⟨tokens, after, gives, spells⟩ := ih names numbers later third
      refine ⟨opening :: head :: (inside ++ closing :: tokens), after, ?_, ?_⟩
      · simpa [Arg.writtenAll_nested] using begins.trans (givesInside.trans (.cons draw gives))
      · rw [← text]
        exact .nested opens kind spellsInside closes spells

theorem Lexer.exists_final {lexer : Lexer} {tokens : List (Token TokenKind)} {position : Nat}
    (gives : Gives lexer tokens ⟨[], position, false⟩) :
    ∃ final, lexer.drain = (tokens ++ [final], none) ∧ final.kind = .endOfInput := by
  rw [gives.drain, drain_of_blank rfl]
  exact ⟨_, rfl, rfl⟩

theorem drain_text {expression : SExpr} (wellFormed : expression.WellFormed) :
    ∃ tokens final, (Lexer.start expression.text).drain = (tokens ++ [final], none) ∧
      final.kind = .endOfInput ∧ Spells tokens expression := by
  have names := List.forall_mem_cons.mp wellFormed.names
  obtain ⟨opening, head, first, begins, opens, kind, text⟩ :=
    Lexer.exists_opening [] (by simp) names.1 (head_written expression.args []) 0
  obtain ⟨inside, second, givesInside, spells⟩ := gives_written names.2 wellFormed.numbers [] first
  obtain ⟨closing, third, draw, closes⟩ := Lexer.exists_closing [] second
  obtain ⟨final, drained, ends⟩ :=
    Lexer.exists_final (begins.trans (givesInside.trans (.cons draw (.nil _))))
  rw [Lexer.start, toList_text]
  exact ⟨_, final, drained, ends,
    opening, head, inside, closing, rfl, opens, kind, text, spells, closes⟩

theorem read_of_wellFormed {table : Table TokenKind Phrase} (same : table.grammar = grammar)
    (reading : table.Predictive) {expression : SExpr} (wellFormed : expression.WellFormed) :
    read table expression.text = .ok expression := by
  obtain ⟨tokens, final, drained, ends, spells⟩ := drain_text wellFormed
  exact read_of_spells same reading drained ends spells

/-- A well-formed expression is read back from its text, with the table of the grammar. -/
theorem read_text : ∃ table, SExpr.table = .ok table ∧
    ∀ expression : SExpr, expression.WellFormed → read table expression.text = .ok expression := by
  obtain ⟨table, built, same, reading⟩ := exists_table
  exact ⟨table, built, fun _ wellFormed => read_of_wellFormed same reading wellFormed⟩

def unusual : SExpr where
  identifier := "a.-1"
  args := [.number (.finite true ⟨4503599627370496, 1021⟩),
    .nested "_é" [.nested "Z#1" [], .number (.finite false ⟨6755399441055744, 1023⟩)]]

theorem wellFormed_unusual : unusual.WellFormed := by
  constructor
  · simp only [unusual, Arg.namesAll, Arg.names, List.nil_append, List.append_nil,
      List.forall_mem_cons, List.not_mem_nil, false_implies, implies_true, and_true]
    refine ⟨⟨'a', ['.', '-', '1'], rfl, ?_, ?_⟩, ⟨'_', ['é'], rfl, ?_, ?_⟩,
      ⟨'Z', ['#', '1'], rfl, ?_, ?_⟩⟩ <;> simp [Text.isBlank]
  · simp only [unusual, Arg.numbersAll, Arg.numbers, List.nil_append, List.cons_append,
      List.append_nil, List.forall_mem_cons, List.not_mem_nil, false_implies, implies_true, and_true]
    exact ⟨(by decide : Magnitude.IsNormal _), (by decide : Magnitude.IsNormal _)⟩

theorem read_text_unusual : ∃ table, SExpr.table = .ok table ∧ unusual.WellFormed ∧
    read table unusual.text = .ok unusual := by
  obtain ⟨table, built, reads⟩ := read_text
  exact ⟨table, built, wellFormed_unusual, reads unusual wellFormed_unusual⟩

end Lookahead.SExpr
