import Lookahead.SExpr.Lexer
import Lookahead.Text.Basic

/-!
# The line editor

What helps the one who types: completion, matching brackets and the lines typed before.
-/

set_option autoImplicit false

namespace Lookahead.Editor

/-!
## Completion of identifiers

What is completed is the word that ends at the cursor, which starts after the last blank or
parenthesis before it. The candidates are the known identifiers that start with it.
-/

/-- A position that is no place in its line: beyond the end, or inside a character. -/
structure OutsideLine where
  position : Nat
  deriving DecidableEq

structure Candidate where
  display : String
  replacement : String
  deriving DecidableEq

structure Completion where
  start : Nat
  candidates : List Candidate
  deriving DecidableEq

def remember (known names : List String) : List String :=
  names.foldl (fun known name => Text.insertSorted name known) known

def candidates (known : List String) (word : List Char) : List Candidate :=
  (known.filter fun name => word.isPrefixOf name.toList).map fun name => ⟨name, name⟩

def lastWord (text : List Char) : List Char :=
  (text.reverse.takeWhile SExpr.isWordRest).reverse

def complete (known : List String) (line : String) (position : Nat) :
    Except OutsideLine Completion :=
  match Text.cutAt? position line.toList with
  | none => .error ⟨position⟩
  | some (before, _) =>
      let word := lastWord before
      .ok ⟨position - Text.byteLength word, candidates known word⟩

/-!
## Matching brackets

A bracket under the cursor, or else right before it, has its partner shown in colour. The partner is
the bracket of the same shape that closes or opens it, where brackets of other shapes do not count.
Positions count bytes.
-/

structure Bracket where
  char : Char
  position : Nat
  deriving DecidableEq

def isOpening (c : Char) : Bool :=
  c == '(' || c == '[' || c == '\x7b'

def isClosing (c : Char) : Bool :=
  c == ')' || c == ']' || c == '\x7d'

def partner (c : Char) : Char :=
  match c with
  | '(' => ')'
  | ')' => '('
  | '[' => ']'
  | ']' => '['
  | '\x7b' => '\x7d'
  | '\x7d' => '\x7b'
  | other => other

def charAt? (view : List (Option Char)) (position : Nat) : Option Char :=
  view[position]?.join

/-- An opening bracket is not the last byte of the line, a closing one not the first. -/
def hasRoom (view : List (Option Char)) (bracket : Bracket) : Bool :=
  if isOpening bracket.char then bracket.position + 1 < view.length else 0 < bracket.position

def bracketAt? (view : List (Option Char)) (position : Nat) : Option Bracket :=
  match charAt? view position with
  | some c => if isOpening c || isClosing c then some ⟨c, position⟩ else none
  | none => none

/-- At the end of a line only a closing bracket before it counts. -/
def chooseBracket (line : String) (position : Nat) : Option Bracket :=
  let view := Text.byteView line.toList
  if view.length ≤ position then
    (bracketAt? view (view.length - 1)).filter fun bracket => isClosing bracket.char
  else
    match bracketAt? view position with
    | some bracket => if hasRoom view bracket then some bracket else none
    | none =>
        if position = 0 then none
        else (bracketAt? view (position - 1)).filter (hasRoom view)

/-- How many bytes stand before the partner, with `depth` more brackets of the same kind open. -/
def distance? (bracket : Char) (depth : Nat) : List (Option Char) → Option Nat
  | [] => none
  | byte :: rest =>
      if byte = some (partner bracket) then
        if depth = 0 then some 0 else (distance? bracket (depth - 1) rest).map (· + 1)
      else if byte = some bracket then (distance? bracket (depth + 1) rest).map (· + 1)
      else (distance? bracket depth rest).map (· + 1)

/-- The bracket may come from another line, and its position may be outside this one. -/
def partnerPosition? (view : List (Option Char)) (bracket : Bracket) :
    Except OutsideLine (Option Nat) :=
  if isOpening bracket.char then
    if view.length < bracket.position + 1 then .error ⟨bracket.position⟩
    else
      .ok ((distance? bracket.char 0 (view.drop (bracket.position + 1))).map fun bytes =>
        bracket.position + 1 + bytes)
  else if view.length < bracket.position then .error ⟨bracket.position⟩
  else
    .ok ((distance? bracket.char 0 (view.take bracket.position).reverse).map fun bytes =>
      bracket.position - 1 - bytes)

/-- A line of one byte has no pair. -/
def highlight (chosen : Option Bracket) (line : String) : Except OutsideLine String :=
  let view := Text.byteView line.toList
  match chosen with
  | none => .ok line
  | some bracket =>
      if view.length ≤ 1 then .ok line
      else
        match partnerPosition? view bracket with
        | .error error => .error error
        | .ok none => .ok line
        | .ok (some position) =>
            .ok (String.ofList (Text.ofByteView (view.take position)) ++ "\x1b[1;34m" ++
              String.ofList [partner bracket.char] ++ "\x1b[0m" ++
              String.ofList (Text.ofByteView (view.drop (position + 1))))

/-!
## Lines typed before

The history keeps the latest lines. While a line is being typed, its end is suggested by the latest
line of the history that starts with it.
-/

def historyLimit : Nat := 100

def isWorthKeeping (history : List String) (line : String) : Bool :=
  match line.toList with
  | [] => false
  | c :: _ => !Text.isBlank c && history.head? != some line

def addLine (history : List String) (line : String) : List String :=
  if isWorthKeeping history line then (line :: history).take historyLimit else history

def continuation? (typed line : List Char) : Option (List Char) :=
  if typed = line then none else some (line.drop typed.length)

def hint? (history : List String) (line : String) (position : Nat) :
    Except OutsideLine (Option String) :=
  let typed := line.toList
  if position < Text.byteLength typed then .ok none
  else if Text.byteLength typed < position then .error ⟨position⟩
  else if typed.isEmpty then .ok none
  else
    match history.find? fun entry => typed.isPrefixOf entry.toList with
    | none => .ok none
    | some entry => .ok ((continuation? typed entry.toList).map String.ofList)

end Lookahead.Editor

namespace Lookahead

/-!
## The line editor's helper

What an interactive session remembers for the one who types: the identifiers seen so far, the lines
typed before, and the bracket that the cursor has chosen last.
-/

/-- The lines are kept latest first. -/
structure Editor where
  known : List String
  history : List String
  bracket : Option Editor.Bracket

namespace Editor

def empty : Editor :=
  ⟨[], [], none⟩

def learn (editor : Editor) (names : List String) : Editor :=
  { editor with known := remember editor.known names }

def keepLine (editor : Editor) (line : String) : Editor :=
  { editor with history := addLine editor.history line }

def moveCursor (editor : Editor) (line : String) (position : Nat) : Editor :=
  { editor with bracket := chooseBracket line position }

def prompt (given : String) (isUsual : Bool) : String :=
  if isUsual then "\x1b[1;32m>>\x1b[0m " else given

def emphasize (hint : String) : String :=
  "\x1b[1m" ++ hint ++ "\x1b[m"

end Editor

end Lookahead
