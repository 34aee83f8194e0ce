import Lookahead.Number
import Lookahead.SExpr.Basic
import Lookahead.SExpr.Lexer
import Lookahead.Parsing.Machine

/-!
# From text to S-expressions

A text is scanned and parsed, and the syntax tree is reduced to an S-expression.
-/

set_option autoImplicit false

namespace Lookahead.SExpr

/-!
## Syntax trees reduced to S-expressions

A reduction visits the nodes of a tree after those below them and gives each a value. A token that
is no parenthesis has its text as value, a node of a phrase combines the values of its children.
Only what the combination needs is looked at: the number of children and the kind of the values it
uses. The values of finished nodes wait in a list, last first, until their parent takes them.
-/

inductive ReduceError where
  | unexpectedShape (phrase : Phrase) (rule : Option Nat)
  | invalidNumber (token : Token TokenKind)
  /-- A node has more children than there are values left. No tree leads here. -/
  | missingValue
  deriving DecidableEq

def ReduceError.message : ReduceError → String
  | unexpectedShape phrase (some rule) =>
      "malformed " ++ label phrase ++ " node for rule " ++ toString rule
  | unexpectedShape phrase none => "malformed " ++ label phrase ++ " node"
  | invalidNumber token => "invalid number " ++ token.describe
  | missingValue => "missing value"

inductive Value where
  | expression (value : SExpr)
  | arguments (values : List Arg)
  | argument (value : Arg)
  | identifier (name : String)
  | number (value : Binary64)
  | punctuation

def valueOfToken (token : Token TokenKind) : Except ReduceError Value :=
  match token.kind with
  | .identifier => .ok (.identifier token.text)
  | .number =>
      match Number.read? token.text with
      | some value => .ok (.number value)
      | none => .error (.invalidNumber token)
  | .leftParen | .rightParen | .endOfInput => .ok .punctuation

def combine (phrase : Phrase) (rule : Option Nat) (values : List Value) :
    Except ReduceError Value :=
  match phrase, values with
  | .document, [.expression value, _] => .ok (.expression value)
  | .expression, [_, .identifier name, .arguments args, _] => .ok (.expression ⟨name, args⟩)
  | .arguments, [.argument first, .arguments rest] => .ok (.arguments (first :: rest))
  | .arguments, [] => .ok (.arguments [])
  | .argument, [.number value] => .ok (.argument (.number value))
  | .argument, [.expression value] => .ok (.argument (.nested value.identifier value.args))
  | _, _ => .error (.unexpectedShape phrase rule)

/-- Visit a tree, or combine the values of a node whose children have been visited. -/
inductive Task where
  | visit (tree : Tree)
  | combine (phrase : Phrase) (rule : Option Nat) (arity : Nat)

def visits (trees : List Tree) : List Task :=
  trees.map .visit

def tasksSize : List Task → Nat
  | [] => 0
  | .visit tree :: tasks => 2 * tree.size + tasksSize tasks
  | .combine .. :: tasks => 1 + tasksSize tasks

theorem tasksSize_visits (trees : List Tree) (tasks : List Task) :
    tasksSize (visits trees ++ tasks) = 2 * SyntaxTree.sizeAll trees + tasksSize tasks := by
  induction trees with
  | nil => simp [visits, SyntaxTree.sizeAll]
  | cons tree trees ih =>
      simp only [visits, List.map_cons, List.cons_append, tasksSize, SyntaxTree.sizeAll] at ih ⊢
      omega

/-- Takes a number of values off a list that holds the last one first. They come out in order,
before those already taken. -/
def takeValues : Nat → List Value → List Value → Option (List Value × List Value)
  | 0, taken, values => some (taken, values)
  | _ + 1, _, [] => none
  | arity + 1, taken, value :: values => takeValues arity (value :: taken) values

def reduceFrom : List Task → List Value → Except ReduceError (List Value)
  | [], values => .ok values
  | .visit (.node (.terminal token) _ _) :: tasks, values =>
      match valueOfToken token with
      | .error error => .error error
      | .ok value => reduceFrom tasks (value :: values)
  | .visit (.node (.nonTerminal phrase) rule children) :: tasks, values =>
      reduceFrom (visits children ++ .combine phrase rule children.length :: tasks) values
  | .combine phrase rule arity :: tasks, values =>
      match takeValues arity [] values with
      | none => .error .missingValue
      | some (taken, others) =>
          match combine phrase rule taken with
          | .error error => .error error
          | .ok value => reduceFrom tasks (value :: others)
termination_by tasks => tasksSize tasks
decreasing_by
  · simp [tasksSize, SyntaxTree.size]
  · simp only [tasksSize, SyntaxTree.size, tasksSize_visits]
    omega
  · simp [tasksSize]

def valueOf (tree : Tree) : Except ReduceError Value :=
  match reduceFrom [.visit tree] [] with
  | .error error => .error error
  | .ok (value :: _) => .ok value
  | .ok [] => .error (.unexpectedShape .document tree.rule?)

def reduce (tree : Tree) : Except ReduceError SExpr :=
  match valueOf tree with
  | .error error => .error error
  | .ok (.expression value) => .ok value
  | .ok _ => .error (.unexpectedShape .document tree.rule?)

/-!
## S-expressions read from text

Scanning, parsing and reducing in one go. The parser draws tokens as it needs them, and a lexical
error ends them. It is reported if the parser got there; a parse that failed on a token before it
never met it.
-/

inductive ReadError where
  | lexical (error : LexError)
  | parse (error : ParseError TokenKind Phrase)
  | reduction (error : ReduceError)
  deriving DecidableEq

def ReadError.message : ReadError → String
  | lexical error => "lexical error: " ++ error.message
  | parse error => "syntax error: " ++ error.message
  | reduction error => "reduction error: " ++ error.message

def readTree (table : Table TokenKind Phrase) (input : String) : Except ReadError Tree :=
  let run := table.parse Scan.source (Scan.start input)
  match run.outcome, run.source.failure with
  | .ok tree, _ => .ok tree
  | .error (.unexpectedEnd _ _), some failure => .error (.lexical failure)
  | .error error, _ => .error (.parse error)

def read (table : Table TokenKind Phrase) (input : String) : Except ReadError SExpr :=
  match readTree table input with
  | .error error => .error error
  | .ok tree =>
      match reduce tree with
      | .error error => .error (.reduction error)
      | .ok expression => .ok expression

end Lookahead.SExpr
