import Lookahead.SyntaxTree
import Lookahead.Table
import Lookahead.Parsing.Source
import Lookahead.Text.Basic

/-!
# The language of S-expressions

The grammar and the tokens of S-expressions.
-/

set_option autoImplicit false

namespace Lookahead.SExpr

/-!
## The grammar of S-expressions

A document is one expression and the end of the input. An expression is an identifier and arguments
between parentheses. The grammar is LL(1); its table has seven cells.
-/

inductive TokenKind where
  | leftParen
  | rightParen
  | identifier
  | number
  | endOfInput
  deriving DecidableEq

inductive Phrase where
  | document
  | expression
  | arguments
  | argument
  deriving DecidableEq

instance : Labelled TokenKind where
  label
    | .leftParen => "LPar"
    | .rightParen => "RPar"
    | .identifier => "Identifier"
    | .number => "Number"
    | .endOfInput => "Eos"

instance : Labelled Phrase where
  label
    | .document => "S"
    | .expression => "SExpr"
    | .arguments => "Args"
    | .argument => "Arg"

abbrev Tree := SyntaxTree TokenKind Phrase

def rules : List (Rule TokenKind Phrase) :=
  Rule.numbered [
    (.document, [.nonTerminal .expression, .terminal .endOfInput]),
    (.expression, [.terminal .leftParen, .terminal .identifier, .nonTerminal .arguments,
      .terminal .rightParen]),
    (.arguments, [.nonTerminal .argument, .nonTerminal .arguments]),
    (.arguments, []),
    (.argument, [.terminal .number]),
    (.argument, [.nonTerminal .expression])]

def table : Except (TableError TokenKind Phrase) (Table TokenKind Phrase) :=
  Table.ofRules rules .document

/-!
## Tokens of S-expressions

The lexer skips blanks and takes a parenthesis, a number or an identifier, in this order of
preference. A number is `-?[0-9]+(\.[0-9]*)?`, as long as possible. An identifier starts with an
ASCII letter, a digit or an underscore and goes on to the next blank or parenthesis. The end of the
input is a token of its own. Anything else is an error, and the lexer gives nothing after it.

Positions count bytes of the UTF-8 form of the input.
-/

structure LexError where
  position : Nat
  rest : String
  deriving DecidableEq

def LexError.message (error : LexError) : String :=
  "cannot tokenize input at " ++ toString error.position ++ ": " ++
    Text.quoted (String.ofList (error.rest.toList.take 16))

def isWordStart (c : Char) : Bool :=
  c.isAlphanum || c == '_'

def isWordRest (c : Char) : Bool :=
  !(Text.isBlank c || c == '(' || c == ')')

def splitFraction : List Char → List Char × List Char
  | '.' :: text => ('.' :: text.takeWhile Char.isDigit, text.dropWhile Char.isDigit)
  | text => ([], text)

def splitUnsigned? (text : List Char) : Option (List Char × List Char) :=
  let digits := text.takeWhile Char.isDigit
  if digits.isEmpty then none
  else
    let fraction := splitFraction (text.dropWhile Char.isDigit)
    some (digits ++ fraction.1, fraction.2)

def splitNumber? : List Char → Option (List Char × List Char)
  | '-' :: text => (splitUnsigned? text).map fun split => ('-' :: split.1, split.2)
  | text => splitUnsigned? text

def splitWord? : List Char → Option (List Char × List Char)
  | [] => none
  | c :: text =>
      if isWordStart c then some (c :: text.takeWhile isWordRest, text.dropWhile isWordRest)
      else none

/-- The token at the start of a text: its kind, its characters, and the text after it. -/
def lexeme? : List Char → Option (TokenKind × List Char × List Char)
  | '(' :: text => some (.leftParen, ['('], text)
  | ')' :: text => some (.rightParen, [')'], text)
  | text =>
      match splitNumber? text with
      | some split => some (.number, split)
      | none => (splitWord? text).map fun split => (.identifier, split)

/-! ### No token is empty -/

theorem splitFraction_append (text : List Char) :
    (splitFraction text).1 ++ (splitFraction text).2 = text := by
  unfold splitFraction
  split <;> simp

theorem splitUnsigned?_append {text taken rest : List Char}
    (split : splitUnsigned? text = some (taken, rest)) : taken ++ rest = text ∧ taken ≠ [] := by
  unfold splitUnsigned? at split
  dsimp only at split
  split at split
  · cases split
  · rename_i digits
    cases split
    constructor
    · rw [List.append_assoc, splitFraction_append, List.takeWhile_append_dropWhile]
    · intro empty
      rw [List.append_eq_nil_iff] at empty
      simp [empty.1] at digits

theorem splitNumber?_append {text taken rest : List Char}
    (split : splitNumber? text = some (taken, rest)) : taken ++ rest = text ∧ taken ≠ [] := by
  unfold splitNumber? at split
  split at split
  · rename_i unsigned
    rw [Option.map_eq_some_iff] at split
    obtain ⟨⟨digits, after⟩, found, same⟩ := split
    simp only [Prod.mk.injEq] at same
    obtain ⟨rfl, rfl⟩ := same
    simp [(splitUnsigned?_append found).1]
  · exact splitUnsigned?_append split

theorem splitWord?_append {text taken rest : List Char}
    (split : splitWord? text = some (taken, rest)) : taken ++ rest = text ∧ taken ≠ [] := by
  unfold splitWord? at split
  split at split
  · cases split
  · split at split
    · cases split
      simp
    · cases split

theorem lexeme?_append {text taken rest : List Char} {kind : TokenKind}
    (split : lexeme? text = some (kind, taken, rest)) : taken ++ rest = text ∧ taken ≠ [] := by
  unfold lexeme? at split
  split at split
  · cases split
    simp
  · cases split
    simp
  · split at split
    · rename_i number
      cases split
      exact splitNumber?_append number
    · rw [Option.map_eq_some_iff] at split
      obtain ⟨⟨word, after⟩, found, same⟩ := split
      simp only [Prod.mk.injEq] at same
      obtain ⟨_, rfl, rfl⟩ := same
      exact splitWord?_append found

/-! ### The lexer -/

/-- It is finished after the end of the input or an error. -/
structure Lexer where
  rest : List Char
  position : Nat
  finished : Bool

namespace Lexer

def start (input : String) : Lexer :=
  ⟨input.toList, 0, false⟩

def next (lexer : Lexer) : Option (Except LexError (Token TokenKind)) × Lexer :=
  if lexer.finished then (none, lexer)
  else
    let position := lexer.position + Text.byteLength (lexer.rest.takeWhile Text.isBlank)
    match Text.skipBlank lexer.rest with
    | [] => (some (.ok ⟨.endOfInput, "", position⟩), ⟨[], position, true⟩)
    | c :: text =>
        match lexeme? (c :: text) with
        | some (kind, taken, rest) =>
            (some (.ok ⟨kind, String.ofList taken, position⟩),
              ⟨rest, position + Text.byteLength taken, false⟩)
        | none =>
            (some (.error ⟨position, String.ofList (c :: text)⟩), ⟨c :: text, position, true⟩)

def size (lexer : Lexer) : Nat :=
  if lexer.finished then 0 else lexer.rest.length + 1

theorem size_next {lexer rest : Lexer} {given : Except LexError (Token TokenKind)}
    (drawn : lexer.next = (some given, rest)) : rest.size < lexer.size := by
  unfold next at drawn
  split at drawn
  · cases drawn
  · rename_i unfinished
    have skipped : (Text.skipBlank lexer.rest).length ≤ lexer.rest.length :=
      (List.dropWhile_suffix _).length_le
    dsimp only at drawn
    split at drawn
    · cases drawn
      simp [size, unfinished]
    · rename_i c text left
      rw [left] at skipped
      split at drawn
      · rename_i kind taken after found
        cases drawn
        obtain ⟨whole, nonempty⟩ := lexeme?_append found
        have lengths := congrArg List.length whole
        rw [List.length_append] at lengths
        have positive := List.length_pos_iff.mpr nonempty
        simp only [size, unfinished]
        simp only [Bool.false_eq_true, if_false]
        omega
      · cases drawn
        simp [size, unfinished]

def drain (lexer : Lexer) : List (Token TokenKind) × Option LexError :=
  match _drawn : lexer.next with
  | (none, _) => ([], none)
  | (some (.error error), _) => ([], some error)
  | (some (.ok token), rest) =>
      let others := drain rest
      (token :: others.1, others.2)
termination_by lexer.size
decreasing_by exact size_next _drawn

end Lexer

/-! ### The lexer as a source of tokens -/

/-- A lexer whose error ends the tokens and is kept aside. -/
structure Scan where
  lexer : Lexer
  failure : Option LexError

namespace Scan

def start (input : String) : Scan :=
  ⟨.start input, none⟩

def next (scan : Scan) : Option (Token TokenKind) × Scan :=
  match scan.lexer.next with
  | (none, lexer) => (none, { scan with lexer := lexer })
  | (some (.ok token), lexer) => (some token, { scan with lexer := lexer })
  | (some (.error error), lexer) => (none, ⟨lexer, some error⟩)

def source : TokenSource Scan TokenKind where
  next := next
  size scan := scan.lexer.size
  size_next {scan token rest} drawn := by
    unfold next at drawn
    split at drawn
    · cases drawn
    · rename_i given
      cases drawn
      exact Lexer.size_next given
    · cases drawn

end Scan

end Lookahead.SExpr
