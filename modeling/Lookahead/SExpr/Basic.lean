import Lookahead.Number

/-!
# S-expressions

An S-expression names an operation and gives it arguments, each of them a number or another
S-expression. Printing and listing the names keep the parts still to be visited in a list of their
own, so an S-expression may be nested as deep as memory allows.
-/

set_option autoImplicit false

namespace Lookahead

/-- An argument: a number, or an S-expression by its identifier and its own arguments. -/
inductive SExpr.Arg where
  | number (value : Binary64)
  | nested (identifier : String) (args : List SExpr.Arg)

structure SExpr where
  identifier : String
  args : List SExpr.Arg

namespace SExpr

def Arg.expression? : Arg → Option SExpr
  | number _ => none
  | nested identifier args => some ⟨identifier, args⟩

mutual

def Arg.size : Arg → Nat
  | number _ => 1
  | nested _ args => Arg.sizeAll args + 2

def Arg.sizeAll : List Arg → Nat
  | [] => 0
  | arg :: args => Arg.size arg + Arg.sizeAll args

end

/-! ## Printing -/

/-- What is still to be printed: an argument with the blank before it, or a closing parenthesis. -/
inductive Piece where
  | argument (arg : Arg)
  | close

def pieces (args : List Arg) : List Piece :=
  args.map .argument

def piecesSize : List Piece → Nat
  | [] => 0
  | .argument arg :: pieces => arg.size + piecesSize pieces
  | .close :: pieces => 1 + piecesSize pieces

theorem piecesSize_pieces (args : List Arg) (others : List Piece) :
    piecesSize (pieces args ++ others) = Arg.sizeAll args + piecesSize others := by
  induction args with
  | nil => simp [pieces, Arg.sizeAll]
  | cons arg args ih =>
      simp only [pieces, List.map_cons, List.cons_append, piecesSize, Arg.sizeAll] at ih ⊢
      omega

def textFrom (written : String) : List Piece → String
  | [] => written
  | .argument (.number value) :: pending => textFrom (written ++ " " ++ Number.text value) pending
  | .argument (.nested identifier args) :: pending =>
      textFrom (written ++ " (" ++ identifier) (pieces args ++ .close :: pending)
  | .close :: pending => textFrom (written ++ ")") pending
termination_by pending => piecesSize pending
decreasing_by
  · simp [piecesSize, Arg.size]
  · simp only [piecesSize, Arg.size, piecesSize_pieces]
    omega
  · simp [piecesSize]

def text (expression : SExpr) : String :=
  textFrom ("(" ++ expression.identifier) (pieces expression.args ++ [.close])

/-! ## Identifiers -/

def nested (expression : SExpr) : List SExpr :=
  expression.args.filterMap Arg.expression?

def sizeAll : List SExpr → Nat
  | [] => 0
  | expression :: expressions => Arg.sizeAll expression.args + 1 + sizeAll expressions

theorem sizeAll_append (first second : List SExpr) :
    sizeAll (first ++ second) = sizeAll first + sizeAll second := by
  induction first with
  | nil => simp [sizeAll]
  | cons expression expressions ih => simp [sizeAll, ih, Nat.add_assoc]

theorem sizeAll_reverse (expressions : List SExpr) :
    sizeAll expressions.reverse = sizeAll expressions := by
  induction expressions with
  | nil => rfl
  | cons expression expressions ih =>
      simp only [List.reverse_cons, sizeAll_append, ih, sizeAll]
      omega

theorem sizeAll_expressions_le (args : List Arg) :
    sizeAll (args.filterMap Arg.expression?) ≤ Arg.sizeAll args := by
  induction args with
  | nil => exact Nat.le_refl _
  | cons arg args ih =>
      cases arg with
      | number value =>
          simp only [List.filterMap_cons, Arg.expression?, Arg.sizeAll, Arg.size]
          omega
      | nested identifier inner =>
          simp only [List.filterMap_cons, Arg.expression?, Arg.sizeAll, Arg.size, sizeAll]
          omega

def identifiersFrom (names : List String) : List SExpr → List String
  | [] => names.reverse
  | expression :: pending =>
      identifiersFrom (expression.identifier :: names) (expression.nested.reverse ++ pending)
termination_by pending => sizeAll pending
decreasing_by
  have inner := sizeAll_expressions_le expression.args
  simp only [sizeAll, sizeAll_append, sizeAll_reverse, nested]
  omega

/-- The identifiers of an S-expression and of all inside it, each before those inside it, the
arguments visited from the last to the first. -/
def identifiers (expression : SExpr) : List String :=
  identifiersFrom [] [expression]

end SExpr

end Lookahead
