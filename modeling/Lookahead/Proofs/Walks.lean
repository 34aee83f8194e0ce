import Lookahead.Proofs.Completion

/-!
# Walks and recursion

The walks over syntax trees and S-expressions keep what is still to be visited in a list. From any
such list a walk goes on to give what recursion gives for each part of it, one after the other
(`leavesFrom_eq`, `listingFrom_eq`, `textFrom_pieces`, `identifiersFrom_eq`).

Recursion also knows where it is. The address of a node holds the positions of the children that
lead to it from the root. `IsWalk` says without recursion what is listed and in which order: what
stands at some address, once, a node before those below it, and all below one child before all below
another. Together: `walks_eq_recursion`.
-/

set_option autoImplicit false

namespace Lookahead

/-! ## Addresses -/

structure Placed (α : Type) where
  address : List Nat
  value : α

variable {α : Type} {ahead : Nat → Nat → Prop}

namespace Placed

/-- The same place, as seen from the node whose child at a position it was seen from. -/
def below (position : Nat) (placed : Placed α) : Placed α :=
  ⟨position :: placed.address, placed.value⟩

/-- The order of addresses in which a prefix comes first. Of two children of a node, the one whose
position is `ahead` of the other's comes first, with all below it. -/
def Before (ahead : Nat → Nat → Prop) (first second : Placed α) : Prop :=
  List.Lex ahead first.address second.address

theorem pairwise_below (position : Nat) {places : List (Placed α)}
    (ordered : places.Pairwise (Before ahead)) :
    (places.map (below position)).Pairwise (Before ahead) := by
  rw [List.pairwise_map]
  exact ordered.imp fun earlier => .cons earlier

end Placed

/-- A walk lists what is found at addresses: all of it, at each address once, and in their order. -/
structure IsWalk (ahead : Nat → Nat → Prop) (found? : List Nat → Option α)
    (places : List (Placed α)) : Prop where
  mem_iff : ∀ place, place ∈ places ↔ found? place.address = some place.value
  once : (places.map Placed.address).Nodup
  ordered : places.Pairwise (Placed.Before ahead)

theorem IsWalk.of_ordered [Std.Irrefl ahead] {found? : List Nat → Option α}
    {places : List (Placed α)}
    (mem_iff : ∀ place, place ∈ places ↔ found? place.address = some place.value)
    (ordered : places.Pairwise (Placed.Before ahead)) : IsWalk ahead found? places := by
  refine ⟨mem_iff, ?_, ordered⟩
  rw [List.Nodup, List.pairwise_map]
  refine ordered.imp ?_
  intro first second earlier same
  rw [Placed.Before, same] at earlier
  exact List.lex_irrefl Std.Irrefl.irrefl _ earlier

/-! ## Syntax trees -/

namespace SyntaxTree

variable {T N : Type}

mutual

/-- What hangs below a token is not visited. -/
def frontier : SyntaxTree T N → List (Token T)
  | node (.terminal token) _ _ => [token]
  | node (.nonTerminal _) _ children => frontierAll children

def frontierAll : List (SyntaxTree T N) → List (Token T)
  | [] => []
  | tree :: trees => frontier tree ++ frontierAll trees

end

mutual

def outline : SyntaxTree T N → List (Placed (Symbol (Token T) N))
  | node (.terminal token) _ _ => [⟨[], .terminal token⟩]
  | node (.nonTerminal name) _ children => ⟨[], .nonTerminal name⟩ :: outlineFrom 0 children

/-- The symbols below a node, from the child at that position on. -/
def outlineFrom (position : Nat) : List (SyntaxTree T N) → List (Placed (Symbol (Token T) N))
  | [] => []
  | tree :: trees => (outline tree).map (.below position) ++ outlineFrom (position + 1) trees

end

/-- No address leads below a token. -/
def symbolAt? : SyntaxTree T N → List Nat → Option (Symbol (Token T) N)
  | tree, [] => some tree.symbol
  | node (.terminal _) _ _, _ :: _ => none
  | node (.nonTerminal _) _ children, position :: address =>
      children[position]?.bind fun child => symbolAt? child address

/-! ### Leaves -/

theorem frontierAll_append (first second : List (SyntaxTree T N)) :
    frontierAll (first ++ second) = frontierAll first ++ frontierAll second := by
  induction first with
  | nil => rfl
  | cons tree trees ih => rw [List.cons_append, frontierAll, frontierAll, ih, List.append_assoc]

theorem leavesFrom_eq (found : List (Token T)) (pending : List (SyntaxTree T N)) :
    leavesFrom found pending = found.reverse ++ frontierAll pending := by
  fun_induction leavesFrom found pending with
  | case1 found => rw [frontierAll, List.append_nil]
  | case2 found token _ _ pending ih =>
      rw [ih, frontierAll, frontier, List.reverse_cons, List.append_assoc]
  | case3 found _ _ children pending ih =>
      rw [ih, frontierAll_append, frontierAll, frontier]

theorem leaves_eq_frontier (tree : SyntaxTree T N) : tree.leaves = tree.frontier := by
  simp [leaves, leavesFrom_eq, frontierAll]

mutual

theorem filterMap_outline : ∀ tree : SyntaxTree T N,
    tree.outline.filterMap (fun placed => placed.value.terminal?) = tree.frontier
  | node (.terminal token) _ _ => rfl
  | node (.nonTerminal name) _ children => by
      rw [outline, frontier, List.filterMap_cons_none rfl, filterMap_outlineFrom 0 children]

theorem filterMap_outlineFrom : ∀ (start : Nat) (trees : List (SyntaxTree T N)),
    (outlineFrom start trees).filterMap (fun placed => placed.value.terminal?) = frontierAll trees
  | _, [] => rfl
  | start, tree :: trees => by
      rw [outlineFrom, frontierAll, List.filterMap_append, List.filterMap_map,
        filterMap_outlineFrom (start + 1) trees, ← filterMap_outline tree]
      rfl

end

/-! ### The order of an outline -/

theorem mem_outlineFrom {start : Nat} {trees : List (SyntaxTree T N)}
    {place : Placed (Symbol (Token T) N)} :
    place ∈ outlineFrom start trees ↔ ∃ (position : Nat) (tree : SyntaxTree T N),
      trees[position]? = some tree ∧ ∃ inner ∈ tree.outline,
        inner.below (start + position) = place := by
  induction trees generalizing start with
  | nil => simp [outlineFrom]
  | cons tree trees ih =>
      -- the position of a child is the first, or one behind it
      rw [← Nat.or_exists_add_one, outlineFrom, List.mem_append, List.mem_map, ih]
      simp only [List.getElem?_cons_zero, List.getElem?_cons_succ, Option.some.injEq,
        exists_eq_left', Nat.add_zero, Nat.add_assoc, Nat.add_comm 1]

theorem mem_outline (tree : SyntaxTree T N) (address : List Nat) (symbol : Symbol (Token T) N) :
    ⟨address, symbol⟩ ∈ tree.outline ↔ tree.symbolAt? address = some symbol := by
  induction address generalizing tree with
  | nil =>
      obtain ⟨own, _, children⟩ := tree
      cases own <;>
        simp [outline, mem_outlineFrom, Placed.below, symbolAt?, SyntaxTree.symbol, eq_comm]
  | cons position address ih =>
      obtain ⟨own, _, children⟩ := tree
      cases own with
      | terminal token => simp [outline, symbolAt?]
      | nonTerminal name =>
          simp only [outline, List.mem_cons, Placed.mk.injEq, reduceCtorEq, false_and, false_or,
            mem_outlineFrom, Placed.below, List.cons.injEq, Nat.zero_add, symbolAt?,
            Option.bind_eq_some_iff]
          constructor
          · rintro ⟨_, child, found, ⟨_, _⟩, inside, ⟨rfl, rfl⟩, rfl⟩
            exact ⟨child, found, (ih child).mp inside⟩
          · rintro ⟨child, found, inside⟩
            exact ⟨position, child, found, _, (ih child).mpr inside, ⟨rfl, rfl⟩, rfl⟩

mutual

theorem ordered_outline : ∀ tree : SyntaxTree T N,
    tree.outline.Pairwise (Placed.Before (· < ·))
  | node (.terminal token) _ _ => by
      rw [outline]
      exact List.pairwise_singleton ..
  | node (.nonTerminal name) _ children => by
      rw [outline, List.pairwise_cons]
      refine ⟨?_, ordered_outlineFrom 0 children⟩
      intro place inside
      obtain ⟨position, child, _, inner, _, rfl⟩ := mem_outlineFrom.mp inside
      exact .nil

theorem ordered_outlineFrom : ∀ (start : Nat) (trees : List (SyntaxTree T N)),
    (outlineFrom start trees).Pairwise (Placed.Before (· < ·))
  | _, [] => by
      rw [outlineFrom]
      exact .nil
  | start, tree :: trees => by
      rw [outlineFrom, List.pairwise_append]
      refine ⟨Placed.pairwise_below start (ordered_outline tree),
        ordered_outlineFrom (start + 1) trees, ?_⟩
      intro place inside other behind
      obtain ⟨inner, _, rfl⟩ := List.mem_map.mp inside
      obtain ⟨position, child, _, later, _, rfl⟩ := mem_outlineFrom.mp behind
      exact .rel (by omega)

end

theorem isWalk_outline (tree : SyntaxTree T N) : IsWalk (· < ·) tree.symbolAt? tree.outline :=
  .of_ordered (fun place => mem_outline tree place.address place.value) (ordered_outline tree)

/-! ### Listings -/

variable [Labelled T] [Labelled N]

def symbolText : Symbol (Token T) N → String
  | .terminal token => token.describe
  | .nonTerminal name => label name

def line (depth : Nat) (symbol : Symbol (Token T) N) : String :=
  String.join (List.replicate depth "  ") ++ symbolText symbol ++ "\n"

/-- The lines of a tree that has a number of nodes above it. -/
def lines (depth : Nat) (tree : SyntaxTree T N) : List String :=
  tree.outline.map fun placed => line (depth + placed.address.length) placed.value

theorem pushn_blank (depth : Nat) :
    "".pushn ' ' (2 * depth) = String.join (List.replicate depth "  ") := by
  induction depth with
  | zero => rfl
  | succ depth ih =>
      have two : "".pushn ' ' (2 * (depth + 1)) = (("".pushn ' ' (2 * depth)).push ' ').push ' ' :=
        rfl
      rw [two, ih, List.replicate_succ', String.join_append]
      simp [String.ext_iff]

theorem listingLine_eq (depth : Nat) (symbol : Symbol (Token T) N) :
    listingLine depth (symbolText symbol) = line depth symbol := by
  rw [listingLine, pushn_blank, line]

theorem lines_terminal (depth : Nat) (token : Token T) (rule : Option Nat)
    (children : List (SyntaxTree T N)) :
    lines depth (node (.terminal token) rule children) =
      [line depth (.terminal token : Symbol (Token T) N)] :=
  rfl

theorem lines_outlineFrom (depth start : Nat) (trees : List (SyntaxTree T N)) :
    (outlineFrom start trees).map
        (fun placed => line (depth + placed.address.length) placed.value) =
      trees.flatMap (lines (depth + 1)) := by
  induction trees generalizing start with
  | nil => rfl
  | cons tree trees ih =>
      rw [outlineFrom, List.map_append, ih, List.flatMap_cons, lines, List.map_map]
      congr 2
      funext placed
      simp [Placed.below, Nat.add_assoc, Nat.add_comm 1]

theorem lines_nonTerminal (depth : Nat) (name : N) (rule : Option Nat)
    (children : List (SyntaxTree T N)) :
    lines depth (node (.nonTerminal name) rule children) =
      line depth (.nonTerminal name : Symbol (Token T) N) ::
        children.flatMap (lines (depth + 1)) := by
  rw [lines, outline, List.map_cons, lines_outlineFrom]
  rfl

theorem listingFrom_eq (listed : String) (pending : List (SyntaxTree T N × Nat)) :
    listingFrom listed pending =
      listed ++ String.join (pending.flatMap fun visit => lines visit.2 visit.1) := by
  fun_induction listingFrom listed pending with
  | case1 listed => simp
  | case2 listed token _ _ depth pending ih =>
      have own := listingLine_eq depth (.terminal token : Symbol (Token T) N)
      rw [symbolText] at own
      rw [ih, own, List.flatMap_cons, lines_terminal]
      simp [String.append_assoc]
  | case3 listed name _ children depth pending ih =>
      have own := listingLine_eq depth (.nonTerminal name : Symbol (Token T) N)
      rw [symbolText] at own
      -- the children take the place of their node, one level deeper
      rw [ih, own, List.flatMap_cons, lines_nonTerminal, atDepth, List.flatMap_append,
        List.flatMap_map]
      simp [String.append_assoc]

theorem listing_eq_outline (tree : SyntaxTree T N) :
    tree.listing =
      String.join (tree.outline.map fun placed => line placed.address.length placed.value) := by
  simp [listing, listingFrom_eq, lines]

-- a tree made by hand, in which something hangs below a token
example : (node (.nonTerminal "a") none [node (.terminal ⟨"x", "", 7⟩) (some 1) [leaf ⟨"y", "", 8⟩],
    node (.nonTerminal "b") none []]).listing = "\"a\"\n  \"x\" at 7\n  \"b\"\n" := by
  cbv

theorem terminals_outline (tree : SyntaxTree T N) :
    (tree.outline.filter fun placed => placed.value.isTerminal).map
      (fun placed => symbolText placed.value) = tree.leaves.map Token.describe := by
  rw [leaves_eq_frontier, ← filterMap_outline]
  induction tree.outline with
  | nil => rfl
  | cons placed places ih =>
      obtain ⟨address, symbol⟩ := placed
      cases symbol with
      | terminal token => simpa [Symbol.isTerminal, Symbol.terminal?, symbolText] using ih
      | nonTerminal name => simpa [Symbol.isTerminal, Symbol.terminal?] using ih

end SyntaxTree

/-! ## S-expressions -/

namespace SExpr

def written (expression : SExpr) : List Char :=
  '(' :: (expression.identifier.toList ++ (Arg.writtenAll expression.args ++ [')']))

mutual

def Arg.places : Arg → List (Placed String)
  | number _ => []
  | nested identifier args => ⟨[], identifier⟩ :: Arg.placesFrom 0 args

/-- The names in the arguments from that position on. -/
def Arg.placesFrom (position : Nat) : List Arg → List (Placed String)
  | [] => []
  | arg :: args => Arg.placesFrom (position + 1) args ++ (Arg.places arg).map (.below position)

end

def places (expression : SExpr) : List (Placed String) :=
  ⟨[], expression.identifier⟩ :: Arg.placesFrom 0 expression.args

/-- There is none where a number stands. -/
def nestedAt? : SExpr → List Nat → Option SExpr
  | expression, [] => some expression
  | expression, position :: address =>
      (expression.args[position]?.bind Arg.expression?).bind fun inner => nestedAt? inner address

def nameAt? (expression : SExpr) (address : List Nat) : Option String :=
  (expression.nestedAt? address).map SExpr.identifier

theorem text_eq_written (expression : SExpr) :
    expression.text = String.ofList expression.written := by
  rw [written, ← toList_text, String.ofList_toList]

theorem Arg.mem_placesFrom {start : Nat} {args : List Arg} {place : Placed String} :
    place ∈ placesFrom start args ↔ ∃ (position : Nat) (arg : Arg), args[position]? = some arg ∧
      ∃ inner ∈ arg.places, inner.below (start + position) = place := by
  induction args generalizing start with
  | nil => simp [placesFrom]
  | cons arg args ih =>
      rw [← Nat.or_exists_add_one, placesFrom, List.mem_append, List.mem_map, ih, or_comm]
      simp only [List.getElem?_cons_zero, List.getElem?_cons_succ, Option.some.injEq,
        exists_eq_left', Nat.add_zero, Nat.add_assoc, Nat.add_comm 1]

theorem Arg.map_placesFrom (start : Nat) (args : List Arg) :
    (placesFrom start args).map Placed.value = visitedAll args := by
  induction args using Arg.inductionAll generalizing start with
  | nil => rfl
  | number value args ih =>
      rw [placesFrom, places, List.map_nil, List.append_nil, ih, visitedAll_number]
  | nested identifier inner args ihInner ih =>
      rw [visitedAll_nested, ← ih (start + 1), ← ihInner 0, placesFrom, places, List.map_append,
        List.map_map]
      rfl

theorem identifiers_eq_places (expression : SExpr) :
    expression.identifiers = expression.places.map Placed.value := by
  rw [identifiers_eq_visited, visited, places, List.map_cons, Arg.map_placesFrom]

example : identifiers ⟨"a", [.nested "b" [], .number .nan, .nested "c" [.nested "d" []]]⟩ =
    ["a", "c", "d", "b"] := by
  cbv

/-! ### The order of names -/

theorem Arg.mem_places {arg : Arg} {place : Placed String} :
    place ∈ arg.places ↔ ∃ inner, arg.expression? = some inner ∧ place ∈ inner.places := by
  cases arg with
  | number value => simp [places, expression?]
  | nested identifier args => simp [places, expression?, SExpr.places]

theorem nameAt?_cons (expression : SExpr) (position : Nat) (address : List Nat) :
    expression.nameAt? (position :: address) =
      (expression.args[position]?.bind Arg.expression?).bind fun inner =>
        inner.nameAt? address := by
  rw [nameAt?, nestedAt?, Option.map_bind]
  rfl

theorem mem_places (expression : SExpr) (address : List Nat) (name : String) :
    ⟨address, name⟩ ∈ expression.places ↔ expression.nameAt? address = some name := by
  induction address generalizing expression with
  | nil => simp [places, Arg.mem_placesFrom, Placed.below, nameAt?, nestedAt?, eq_comm]
  | cons position address ih =>
      simp only [places, List.mem_cons, Placed.mk.injEq, reduceCtorEq, false_and, false_or,
        Arg.mem_placesFrom, Placed.below, List.cons.injEq, Nat.zero_add, nameAt?_cons,
        Option.bind_eq_some_iff]
      constructor
      · rintro ⟨_, arg, found, ⟨_, _⟩, inside, ⟨rfl, rfl⟩, rfl⟩
        obtain ⟨inner, nested, inside⟩ := Arg.mem_places.mp inside
        exact ⟨inner, ⟨arg, found, nested⟩, (ih inner).mp inside⟩
      · rintro ⟨inner, ⟨arg, found, nested⟩, named⟩
        have inside := Arg.mem_places.mpr ⟨inner, nested, (ih inner).mpr named⟩
        exact ⟨position, arg, found, _, inside, ⟨rfl, rfl⟩, rfl⟩

theorem Arg.ordered_cons {args : List Arg} (name : String)
    (ordered : (placesFrom 0 args).Pairwise (Placed.Before (· > ·))) :
    (⟨[], name⟩ :: placesFrom 0 args).Pairwise (Placed.Before (· > ·)) := by
  refine .cons ?_ ordered
  intro place inside
  obtain ⟨position, arg, _, inner, _, rfl⟩ := mem_placesFrom.mp inside
  exact .nil

theorem Arg.ordered_placesFrom (start : Nat) (args : List Arg) :
    (placesFrom start args).Pairwise (Placed.Before (· > ·)) := by
  induction args using Arg.inductionAll generalizing start with
  | nil =>
      rw [placesFrom]
      exact .nil
  | number value args ih =>
      rw [placesFrom, places, List.map_nil, List.append_nil]
      exact ih (start + 1)
  | nested identifier inner args ihInner ih =>
      rw [placesFrom, places, List.pairwise_append]
      refine ⟨ih (start + 1), Placed.pairwise_below start (ordered_cons identifier (ihInner 0)), ?_⟩
      -- the arguments behind come first, and their positions are larger
      intro place behind other inside
      obtain ⟨position, arg, _, later, _, rfl⟩ := mem_placesFrom.mp behind
      obtain ⟨own, _, rfl⟩ := List.mem_map.mp inside
      exact .rel (by omega)

theorem isWalk_places (expression : SExpr) :
    IsWalk (· > ·) expression.nameAt? expression.places :=
  .of_ordered (fun place => mem_places expression place.address place.value)
    (Arg.ordered_cons expression.identifier (Arg.ordered_placesFrom 0 expression.args))

end SExpr

/-! ## The walks -/

variable {T N : Type} [Labelled T] [Labelled N]

/-- The walks give what recursion gives: the tokens and the lines of a syntax tree, the text and the
names of an expression. The lines are those of all nodes not below a token, children from the left,
and the names those of all expressions inside, arguments from the right. -/
theorem walks_eq_recursion :
    (∀ tree : SyntaxTree T N,
      tree.leaves = tree.frontier ∧
      tree.listing = String.join
        (tree.outline.map fun placed => SyntaxTree.line placed.address.length placed.value) ∧
      (tree.outline.filter fun placed => placed.value.isTerminal).map
        (fun placed => SyntaxTree.symbolText placed.value) = tree.leaves.map Token.describe ∧
      IsWalk (· < ·) tree.symbolAt? tree.outline) ∧
    ∀ expression : SExpr,
      expression.text = String.ofList expression.written ∧
      expression.identifiers = expression.visited ∧
      expression.identifiers = expression.places.map Placed.value ∧
      IsWalk (· > ·) expression.nameAt? expression.places := by
  refine ⟨fun tree => ⟨?_, ?_, ?_, ?_⟩, fun expression => ⟨?_, ?_, ?_, ?_⟩⟩
  · exact tree.leaves_eq_frontier
  · exact tree.listing_eq_outline
  · exact tree.terminals_outline
  · exact tree.isWalk_outline
  · exact expression.text_eq_written
  · exact expression.identifiers_eq_visited
  · exact expression.identifiers_eq_places
  · exact expression.isWalk_places

end Lookahead
