import Lookahead.Grammar.Basic

/-!
# Syntax trees

A node holds a token, or a non terminal with the number of the rule that was applied there and one
child per symbol of that rule. The type does not enforce this: trees may be made by hand, with any
children below any node. What hangs below a token is no part of the tree's text.

The walks keep the subtrees still to be visited in a list of their own, so a tree may be as deep as
memory allows.
-/

set_option autoImplicit false

namespace Lookahead

inductive SyntaxTree (T N : Type) where
  | node (symbol : Symbol (Token T) N) (rule : Option Nat) (children : List (SyntaxTree T N))

namespace SyntaxTree

variable {T N : Type}

def leaf (token : Token T) : SyntaxTree T N :=
  node (.terminal token) none []

def symbol : SyntaxTree T N → Symbol (Token T) N
  | node symbol _ _ => symbol

def rule? : SyntaxTree T N → Option Nat
  | node _ rule _ => rule

def children : SyntaxTree T N → List (SyntaxTree T N)
  | node _ _ children => children

mutual

def size : SyntaxTree T N → Nat
  | node _ _ children => sizeAll children + 1

def sizeAll : List (SyntaxTree T N) → Nat
  | [] => 0
  | tree :: trees => size tree + sizeAll trees

end

theorem sizeAll_append (first second : List (SyntaxTree T N)) :
    sizeAll (first ++ second) = sizeAll first + sizeAll second := by
  induction first with
  | nil => simp [sizeAll]
  | cons tree trees ih => simp [sizeAll, ih, Nat.add_assoc]

/-- The leaves of trees still to be visited, after the ones found so far, last first. -/
def leavesFrom (found : List (Token T)) : List (SyntaxTree T N) → List (Token T)
  | [] => found.reverse
  | node (.terminal token) _ _ :: pending => leavesFrom (token :: found) pending
  | node (.nonTerminal _) _ children :: pending => leavesFrom found (children ++ pending)
termination_by pending => sizeAll pending
decreasing_by
  · simp [sizeAll, size]
  · simp [sizeAll, size, sizeAll_append]

def leaves (tree : SyntaxTree T N) : List (Token T) :=
  leavesFrom [] [tree]

theorem leavesFrom_append_found (found held : List (Token T)) (pending : List (SyntaxTree T N)) :
    leavesFrom (found ++ held) pending = held.reverse ++ leavesFrom found pending := by
  fun_induction leavesFrom found pending with
  | case1 found => rw [leavesFrom, List.reverse_append]
  | case2 found token _ _ pending ih =>
      rw [leavesFrom]
      exact ih
  | case3 found _ _ children pending ih =>
      rw [leavesFrom]
      exact ih

theorem leavesFrom_append (found : List (Token T)) (first second : List (SyntaxTree T N)) :
    leavesFrom found (first ++ second) = leavesFrom found first ++ leavesFrom [] second := by
  fun_induction leavesFrom found first with
  | case1 found => exact leavesFrom_append_found [] found second
  | case2 found token _ _ pending ih =>
      rw [List.cons_append, leavesFrom]
      exact ih
  | case3 found _ _ children pending ih =>
      rw [List.cons_append, leavesFrom, ← List.append_assoc]
      exact ih

def leavesAll (trees : List (SyntaxTree T N)) : List (Token T) :=
  trees.flatMap leaves

theorem leavesFrom_nil (trees : List (SyntaxTree T N)) : leavesFrom [] trees = leavesAll trees := by
  induction trees with
  | nil => rw [leavesFrom, leavesAll, List.flatMap_nil, List.reverse_nil]
  | cons tree trees ih =>
      have parts := leavesFrom_append [] [tree] trees
      rw [List.singleton_append] at parts
      rw [parts, ih, leavesAll, leavesAll, List.flatMap_cons, leaves]

@[simp]
theorem leaves_leaf (token : Token T) : (leaf token : SyntaxTree T N).leaves = [token] := by
  rw [leaves, leaf, leavesFrom, leavesFrom, List.reverse_singleton]

@[simp]
theorem leaves_node (name : N) (rule : Option Nat) (children : List (SyntaxTree T N)) :
    (node (.nonTerminal name) rule children).leaves = leavesAll children := by
  rw [leaves, leavesFrom, List.append_nil, leavesFrom_nil]

@[simp]
theorem leavesAll_nil : leavesAll ([] : List (SyntaxTree T N)) = [] := rfl

@[simp]
theorem leavesAll_cons (tree : SyntaxTree T N) (trees : List (SyntaxTree T N)) :
    leavesAll (tree :: trees) = tree.leaves ++ leavesAll trees := rfl

@[simp]
theorem leavesAll_append (first second : List (SyntaxTree T N)) :
    leavesAll (first ++ second) = leavesAll first ++ leavesAll second :=
  List.flatMap_append

def nodesFrom (found : List (SyntaxTree T N)) : List (SyntaxTree T N) → List (SyntaxTree T N)
  | [] => found.reverse
  | node (.terminal token) rule children :: pending =>
      nodesFrom (node (.terminal token) rule children :: found) pending
  | node (.nonTerminal name) rule children :: pending =>
      nodesFrom (node (.nonTerminal name) rule children :: found) (children ++ pending)
termination_by pending => sizeAll pending
decreasing_by
  · simp [sizeAll, size]
  · simp [sizeAll, size, sizeAll_append]

/-- The nodes of a tree, each before those below it, which go left to right. -/
def nodes (tree : SyntaxTree T N) : List (SyntaxTree T N) :=
  nodesFrom [] [tree]

theorem nodesFrom_append_found (found held pending : List (SyntaxTree T N)) :
    nodesFrom (found ++ held) pending = held.reverse ++ nodesFrom found pending := by
  fun_induction nodesFrom found pending with
  | case1 found => rw [nodesFrom, List.reverse_append]
  | case2 found token rule children pending ih =>
      rw [nodesFrom]
      exact ih
  | case3 found name rule children pending ih =>
      rw [nodesFrom]
      exact ih

theorem nodesFrom_append (found first second : List (SyntaxTree T N)) :
    nodesFrom found (first ++ second) = nodesFrom found first ++ nodesFrom [] second := by
  fun_induction nodesFrom found first with
  | case1 found => exact nodesFrom_append_found [] found second
  | case2 found token rule children pending ih =>
      rw [List.cons_append, nodesFrom]
      exact ih
  | case3 found name rule children pending ih =>
      rw [List.cons_append, nodesFrom, ← List.append_assoc]
      exact ih

def nodesAll (trees : List (SyntaxTree T N)) : List (SyntaxTree T N) :=
  trees.flatMap nodes

theorem nodesFrom_nil (trees : List (SyntaxTree T N)) : nodesFrom [] trees = nodesAll trees := by
  induction trees with
  | nil => rw [nodesFrom, nodesAll, List.flatMap_nil, List.reverse_nil]
  | cons tree trees ih =>
      have parts := nodesFrom_append [] [tree] trees
      rw [List.singleton_append] at parts
      rw [parts, ih, nodesAll, nodesAll, List.flatMap_cons, nodes]

@[simp]
theorem nodes_terminal (token : Token T) (rule : Option Nat) (children : List (SyntaxTree T N)) :
    (node (.terminal token) rule children).nodes = [node (.terminal token) rule children] := by
  rw [nodes, nodesFrom, nodesFrom, List.reverse_singleton]

@[simp]
theorem nodes_nonTerminal (name : N) (rule : Option Nat) (children : List (SyntaxTree T N)) :
    (node (.nonTerminal name) rule children).nodes =
      node (.nonTerminal name) rule children :: nodesAll children := by
  have walk := nodesFrom_append_found [] [node (.nonTerminal name) rule children] children
  rw [nodesFrom_nil, List.nil_append, List.reverse_singleton, List.singleton_append] at walk
  rw [nodes, nodesFrom, List.append_nil, walk]

@[simp]
theorem nodesAll_append (first second : List (SyntaxTree T N)) :
    nodesAll (first ++ second) = nodesAll first ++ nodesAll second :=
  List.flatMap_append

@[simp]
theorem nodesAll_singleton (tree : SyntaxTree T N) : nodesAll [tree] = tree.nodes :=
  List.flatMap_singleton ..

variable [Labelled T] [Labelled N]

def listingLine (depth : Nat) (text : String) : String :=
  ("".pushn ' ' (2 * depth)) ++ text ++ "\n"

def atDepth (depth : Nat) (trees : List (SyntaxTree T N)) : List (SyntaxTree T N × Nat) :=
  trees.map fun tree => (tree, depth)

def pendingSize (pending : List (SyntaxTree T N × Nat)) : Nat :=
  sizeAll (pending.map Prod.fst)

omit [Labelled T] [Labelled N] in
theorem pendingSize_atDepth (depth : Nat) (trees : List (SyntaxTree T N))
    (pending : List (SyntaxTree T N × Nat)) :
    pendingSize (atDepth depth trees ++ pending) = sizeAll trees + pendingSize pending := by
  simp [pendingSize, atDepth, sizeAll_append, Function.comp_def]

def listingFrom (listed : String) : List (SyntaxTree T N × Nat) → String
  | [] => listed
  | (node (.terminal token) _ _, depth) :: pending =>
      listingFrom (listed ++ listingLine depth token.describe) pending
  | (node (.nonTerminal name) _ children, depth) :: pending =>
      listingFrom (listed ++ listingLine depth (label name))
        (atDepth (depth + 1) children ++ pending)
termination_by pending => pendingSize pending
decreasing_by
  · simp [pendingSize, sizeAll, size]
  · simp only [pendingSize_atDepth]
    simp [pendingSize, sizeAll, size]

def listing (tree : SyntaxTree T N) : String :=
  listingFrom "" [(tree, 0)]

end SyntaxTree

end Lookahead
