import Lookahead.Grammar.Notation
import Lookahead.Table
import Lookahead.Text.Basic
import Lookahead.Editor
import Lookahead.SExpr.Reader
import Lookahead.Command.Arguments

/-!
# The program

What the program does for its arguments: it checks a grammar, reads an expression, or answers lines.
-/

set_option autoImplicit false

namespace Lookahead.Command

/-!
## Checking a grammar

A textual grammar is checked by building its table. What is shown are the sets of its non terminals
and the table. A grammar that is none, or has no table, shows nothing.
-/

inductive CheckError where
  | text (error : NotationError)
  | table (error : TableError String String)

structure Check where
  output : String
  records : List Record
  failure : Option CheckError

def CheckError.message : CheckError → String
  | text error => error.message
  | table error => error.message

def joined (names : List String) : String :=
  " ".intercalate (Text.sorted names)

def describeSets (sets : Sets String String) (name : String) : String :=
  name ++ (if sets.isNullable name then " (nullable)" else "") ++
    "\n  FIRST  = \x7b" ++ joined ((sets.first? (.nonTerminal name)).getD []) ++
    "\x7d\n  FOLLOW = \x7b" ++ joined ((sets.follow? name).getD []) ++ "\x7d\n"

def describeTable (table : Table String String) : String :=
  String.join (table.grammar.nonTerminals.map (describeSets table.sets)) ++ table.grid

def Check.run (path text : String) (start : Option String) : Check :=
  match Grammar.ofNotation text start with
  | .error error => ⟨"", [], some (.text error)⟩
  | .ok grammar =>
      let records : List Record :=
        [⟨.debug, .command, path ++ ": " ++ toString grammar.rules.length ++
          " rules, start symbol " ++ grammar.start⟩]
      match Table.ofGrammar grammar with
      | .error error => ⟨"", records, some (.table error)⟩
      | .ok table => ⟨describeTable table, records, none⟩

/-!
## Reading and answering expressions

An expression is answered by its printed form, after its syntax tree if that is wanted. A session
answers one line after the other, errors included, and remembers the identifiers it has seen.
-/

open SExpr

/-- The text that is shown meanwhile is the syntax tree, if it is wanted and there is one. -/
def evaluate (table : Table TokenKind Phrase) (showTree : Bool) (input : String) :
    String × Except ReadError SExpr :=
  match readTree table input with
  | .error error => ("", .error error)
  | .ok tree =>
      (if showTree then tree.listing else "",
        match reduce tree with
        | .error error => .error (.reduction error)
        | .ok expression => .ok expression)

structure Session where
  table : Table TokenKind Phrase
  showTree : Bool
  editor : Editor

namespace Session

def start (table : Table TokenKind Phrase) (showTree : Bool) : Session :=
  ⟨table, showTree, Editor.empty⟩

def answer (session : Session) (line : String) : Session × String :=
  if Text.isAllBlank line.toList then (session, "")
  else
    let editor := session.editor.keepLine line
    match evaluate session.table session.showTree line with
    | (shown, .ok expression) =>
        ({ session with editor := editor.learn expression.identifiers },
          shown ++ expression.text ++ "\n")
    | (shown, .error error) =>
        ({ session with editor := editor }, shown ++ error.message ++ "\n")

end Session

/-!
## The program

What the program does for its arguments, short of reading files and lines. It either knows its
answer at once, or needs the contents of a grammar file, or goes on to answer lines. Errors go to
the error output, each on a line of its own, and end the program with code 1.
-/

structure Answer where
  code : Nat
  output : String
  errors : String
  deriving DecidableEq

def errorLine (message : String) : String :=
  " ERROR sexpr_grammar > " ++ message ++ "\n"

def Answer.failed (output message : String) : Answer :=
  ⟨1, output, errorLine message⟩

def Answer.done (output : String) : Answer :=
  ⟨0, output, ""⟩

inductive Plan where
  | finish (answer : Answer)
  | check (path : String) (start : Option String)
  | converse (shown : String) (session : Session)

def versionText : String := "sexpr_grammar 0.1.0\n"

def helpText : String :=
  "sexpr_grammar 0.1.0\nParses S-expressions with a predictive LL(1) parser.\n\nUSAGE:\n" ++
  "    sexpr_grammar [FLAGS] [OPTIONS] [EXPR]\n\nFLAGS:\n" ++
  "    -h, --help           Prints help information\n" ++
  "        --print-table    Print the S-expression parse table\n" ++
  "        --tree           Print the parse tree of every input\n" ++
  "    -V, --version        Prints version information\n\nOPTIONS:\n" ++
  "        --grammar <FILE>    Compile a grammar written as `LHS → s1 s2 …` lines and print its table\n" ++
  "        --start <NT>        Start symbol of the grammar, the first rule's left side by default\n" ++
  "\nARGS:\n" ++
  "    <EXPR>    Expression to parse, starts an interactive session when omitted\n"

def notTextMessage : String := "stream did not contain valid UTF-8"

def answerCheck (path : String) (start : Option String) :
    Except String (List UInt8) → Answer
  | .error message => .failed "" message
  | .ok bytes =>
      match Text.ofBytes? bytes with
      | none => .failed "" notTextMessage
      | some text =>
          let check := Check.run path text start
          match check.failure with
          | some error => .failed check.output error.message
          | none => .done check.output

/-- A grammar file goes before all else. -/
def Plan.ofSettings (table : Table SExpr.TokenKind SExpr.Phrase) (settings : Settings) : Plan :=
  match settings.grammar with
  | some path => .check path settings.start
  | none =>
      let shown := if settings.printTable then table.grid else ""
      match settings.expression with
      | none => .converse shown (Session.start table settings.tree)
      | some input =>
          match evaluate table settings.tree input with
          | (tree, .ok expression) => .finish (.done (shown ++ tree ++ expression.text ++ "\n"))
          | (tree, .error error) => .finish (.failed (shown ++ tree) error.message)

def Plan.ofArguments (arguments : List String) : Plan :=
  match readArguments arguments with
  | .error error => .finish ⟨1, "", error.message⟩
  | .ok .version => .finish (.done versionText)
  | .ok .help => .finish (.done helpText)
  | .ok (.work settings) =>
      match SExpr.table with
      | .error error => .finish (.failed "" error.message)
      | .ok table => .ofSettings table settings

/-- Bytes that are no text end the session. -/
def converseLine (session : Session) (line : List UInt8) : Except String (Session × String) :=
  match Text.ofBytes? line with
  | none => .error (errorLine notTextMessage)
  | some text => .ok (session.answer text)

def converse (session : Session) (shown : String) : List (List UInt8) → Answer
  | [] => .done shown
  | line :: lines =>
      match converseLine session line with
      | .error errors => ⟨0, shown, errors⟩
      | .ok (next, answer) => converse next (shown ++ answer) lines

end Lookahead.Command
