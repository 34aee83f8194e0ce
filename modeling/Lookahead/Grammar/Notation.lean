import Lookahead.Grammar.Basic
import Lookahead.Text.Basic

/-!
# Grammars as text

A textual grammar has a rule on every line that is not blank: a name, an arrow (`→` or `->`), and
the names of the right side separated by blanks. An empty right side may be written as a lone `ε`.
A name is a non terminal if some line has it on its left side, and a terminal otherwise, so the
kind of a name is known only when all lines have been read.
-/

set_option autoImplicit false

namespace Lookahead

inductive LineError where
  | missingArrow
  | tooManyArrows
  | emptyLeftSide
  | spaceInLeftSide
  | misplacedEpsilon
  deriving DecidableEq

def LineError.message : LineError → String
  | missingArrow => "missing \"→\""
  | tooManyArrows => "too many \"→\""
  | emptyLeftSide => "empty left side"
  | spaceInLeftSide => "left side contains whitespace"
  | misplacedEpsilon => "\"ε\" must be alone on the right side"

/-- Lines are counted from 1, blank ones included. -/
inductive NotationError where
  | line (number : Nat) (error : LineError)
  | empty
  | grammar (error : GrammarError String)
  deriving DecidableEq

def NotationError.message : NotationError → String
  | line number error => "line " ++ toString number ++ ": " ++ error.message
  | empty => "grammar has no rule"
  | grammar error => error.message

namespace Notation

def epsilon : String := "ε"

/-- `held` is the part being read, its last character first. -/
def arrowPartsFrom (held : List Char) : List Char → List (List Char)
  | [] => [held.reverse]
  | '→' :: text => held.reverse :: arrowPartsFrom [] text
  | '-' :: '>' :: text => held.reverse :: arrowPartsFrom [] text
  | c :: text => arrowPartsFrom (c :: held) text

def arrowParts (line : List Char) : List (List Char) :=
  arrowPartsFrom [] line

example : arrowParts "a->b→".toList = [['a'], ['b'], []] := by decide

structure Line where
  left : String
  right : List String
  deriving DecidableEq

def readRight (text : List Char) : Except LineError (List String) :=
  let names := (Text.words text).map String.ofList
  if names = [epsilon] then .ok []
  else if epsilon ∈ names then .error .misplacedEpsilon
  else .ok names

/-- The left side is looked at before the right one. -/
def readLine (text : List Char) : Except LineError Line :=
  match arrowParts text with
  | [left, right] =>
      let name := Text.trim left
      if name.isEmpty then .error .emptyLeftSide
      else if (Text.words name).length ≠ 1 then .error .spaceInLeftSide
      else
        match readRight right with
        | .error error => .error error
        | .ok names => .ok ⟨String.ofList name, names⟩
  | _ :: _ :: _ => .error .tooManyArrows
  | _ => .error .missingArrow

def readLines (number : Nat) : List (List Char) → Except NotationError (List Line)
  | [] => .ok []
  | text :: rest =>
      if Text.isAllBlank text then readLines (number + 1) rest
      else
        match readLine text with
        | .error error => .error (.line number error)
        | .ok line =>
            match readLines (number + 1) rest with
            | .error error => .error error
            | .ok lines => .ok (line :: lines)

def classify (defined : List String) (name : String) : Symbol String String :=
  if name ∈ defined then .nonTerminal name else .terminal name

def rulesOfLines (lines : List Line) : List (Rule String String) :=
  let defined := lines.map Line.left
  Rule.numbered (lines.map fun line => (line.left, line.right.map (classify defined)))

def readRules (text : String) : Except NotationError (List (Rule String String)) :=
  (readLines 1 (Text.lines text.toList)).map rulesOfLines

end Notation

/-- Without a start symbol of its own it starts with the left side of the first rule. -/
def Grammar.ofNotation (text : String) (start : Option String) :
    Except NotationError (Grammar String String) :=
  match Notation.readRules text with
  | .error error => .error error
  | .ok rules =>
      match start <|> (rules.head?.map Rule.lhs) with
      | none => .error .empty
      | some name =>
          match Grammar.ofRules rules name with
          | .error error => .error (.grammar error)
          | .ok grammar => .ok grammar

end Lookahead
