import Lookahead.Proofs.Folding
import Lookahead.Proofs.Reducing

/-!
# The trees that are reduced

A tree has a value exactly if its nodes are sound, each by itself (`hasValue_iff_isSound`): a token
that is no wrong number, or a phrase whose children pass for a right side of it. More trees are sound
than are derived, since marks and documents are not looked at. `reduce_ok_iff_isSound` says which are
reduced, and when these are derived.
-/

set_option autoImplicit false

namespace Lookahead.SExpr

open SyntaxTree (leaf)

/-! ## Nodes with values -/

/-- A node is right in itself: a token that is no wrong number, or a phrase whose children pass for a
right side of it. -/
def IsSound : Tree → Prop
  | .node (.terminal token) _ _ => isUnreadable token = false
  | .node (.nonTerminal phrase) _ children => Fits phrase (children.map kindOf)

theorem hasValue_terminal_iff {token : Token TokenKind} {rule : Option Nat} {children : List Tree} :
    HasValue (.node (.terminal token) rule children) ↔ isUnreadable token = false := by
  rw [HasValue, evaluate]
  rcases valueOfToken_cases token with ⟨wrong, failed⟩ | ⟨right, value, read⟩
  · simp [wrong, failed]
  · simp [right, read]

theorem hasValue_nonTerminal_iff {phrase : Phrase} {rule : Option Nat} {children : List Tree} :
    HasValue (.node (.nonTerminal phrase) rule children) ↔
      (∃ values, evaluateAll children = .ok values) ∧ Fits phrase (children.map kindOf) := by
  constructor
  · rintro ⟨value, evaluated⟩
    obtain ⟨values, below, combined⟩ := evaluate_nonTerminal_ok_iff.mp evaluated
    have shown := shows_of_evaluateAll below
    exact ⟨⟨values, below⟩, (exists_combine_iff shown).mp ⟨value, combined⟩⟩
  · rintro ⟨⟨values, below⟩, fits⟩
    have shown := shows_of_evaluateAll below
    obtain ⟨value, combined⟩ := (exists_combine_iff shown).mpr fits
    exact ⟨value, evaluate_nonTerminal_ok_iff.mpr ⟨values, below, combined⟩⟩

theorem evaluateAll_cons_isOk_iff {tree : Tree} {trees : List Tree} :
    (∃ values, evaluateAll (tree :: trees) = .ok values) ↔
      HasValue tree ∧ ∃ values, evaluateAll trees = .ok values := by
  simp only [evaluateAll_cons_ok_iff]
  constructor
  · rintro ⟨_, value, others, first, later, _⟩
    exact ⟨⟨value, first⟩, others, later⟩
  · rintro ⟨⟨value, first⟩, others, later⟩
    exact ⟨_, value, others, first, later, rfl⟩

mutual

theorem hasValue_iff_isSound (tree : Tree) :
    HasValue tree ↔ ∀ node ∈ postorder tree, IsSound node := by
  match tree with
  | .node (.terminal token) rule children =>
      rw [hasValue_terminal_iff, postorder, List.forall_mem_singleton, IsSound]
  | .node (.nonTerminal phrase) rule children =>
      rw [hasValue_nonTerminal_iff, evaluateAll_iff_isSound children, postorder,
        List.forall_mem_append, List.forall_mem_singleton, IsSound]

theorem evaluateAll_iff_isSound (trees : List Tree) :
    (∃ values, evaluateAll trees = .ok values) ↔ ∀ node ∈ postorderAll trees, IsSound node := by
  match trees with
  | [] => simp [evaluateAll, postorderAll]
  | tree :: trees =>
      rw [evaluateAll_cons_isOk_iff, hasValue_iff_isSound tree, evaluateAll_iff_isSound trees,
        postorderAll, List.forall_mem_append]

end

theorem reduce_isOk_iff {tree : Tree} : (∃ expression, reduce tree = .ok expression) ↔
    (kindOf tree = .nonTerminal .document ∨ kindOf tree = .nonTerminal .expression) ∧
      HasValue tree := by
  simp only [reduce_ok_iff, ← passesFor_expression_iff]
  constructor
  · rintro ⟨expression, evaluated⟩
    exact ⟨(shows_of_evaluate evaluated).isExpression_iff.mp ⟨expression, rfl⟩, _, evaluated⟩
  · rintro ⟨root, value, evaluated⟩
    obtain ⟨expression, rfl⟩ := (shows_of_evaluate evaluated).isExpression_iff.mpr root
    exact ⟨expression, evaluated⟩

/-! ## Derived trees -/

/-- A node of a tree, also below a token. -/
inductive Within (node : Tree) : Tree → Prop
  | self : Within node node
  | under {symbol : Symbol (Token TokenKind) Phrase} {rule : Option Nat} {children : List Tree}
      {child : Tree} (listed : child ∈ children) (inner : Within node child) :
      Within node (.node symbol rule children)

/-- The root is a document, and the children of every node match a rule, whatever its number. -/
structure IsDerived (tree : Tree) : Prop where
  root : kindOf tree = .nonTerminal .document
  nodes : ∀ phrase rule children, Within (.node (.nonTerminal phrase) rule children) tree →
    Matches phrase (children.map kindOf)

/-- What a reduction does not look at is as in a derived tree: the root is no expression, the nodes it
visits are marked, and the others, which hang below tokens, match a rule. -/
structure UnseenIsRight (tree : Tree) : Prop where
  root : kindOf tree ≠ .nonTerminal .expression
  visited : ∀ phrase rule children, .node (.nonTerminal phrase) rule children ∈ postorder tree →
    IsMarked phrase (children.map kindOf)
  hidden : ∀ phrase rule children, Within (.node (.nonTerminal phrase) rule children) tree →
    .node (.nonTerminal phrase) rule children ∉ postorder tree →
      Matches phrase (children.map kindOf)

theorem within_node_iff {node : Tree} {symbol : Symbol (Token TokenKind) Phrase} {rule : Option Nat}
    {children : List Tree} : Within node (.node symbol rule children) ↔
      node = .node symbol rule children ∨ ∃ child ∈ children, Within node child := by
  constructor
  · intro within
    cases within with
    | self => exact .inl rfl
    | under listed inner => exact .inr ⟨_, listed, inner⟩
  · rintro (rfl | ⟨child, listed, inner⟩)
    · exact .self
    · exact .under listed inner

mutual

theorem within_of_mem_postorder {node tree : Tree} (inside : node ∈ postorder tree) :
    Within node tree := by
  match tree with
  | .node (.terminal token) rule children =>
      obtain rfl := List.mem_singleton.mp inside
      exact .self
  | .node (.nonTerminal phrase) rule children =>
      rw [postorder, List.mem_append, List.mem_singleton] at inside
      rcases inside with inner | rfl
      · obtain ⟨child, listed, below⟩ := exists_within_of_mem_postorderAll inner
        exact .under listed below
      · exact .self

theorem exists_within_of_mem_postorderAll {node : Tree} {trees : List Tree}
    (inside : node ∈ postorderAll trees) : ∃ tree ∈ trees, Within node tree := by
  match trees with
  | [] => cases inside
  | tree :: trees =>
      rw [postorderAll, List.mem_append] at inside
      rcases inside with here | there
      · exact ⟨tree, List.mem_cons_self, within_of_mem_postorder here⟩
      · obtain ⟨later, listed, below⟩ := exists_within_of_mem_postorderAll there
        exact ⟨later, List.mem_cons_of_mem _ listed, below⟩

end

theorem isDerived_iff_unseenIsRight {tree : Tree}
    (reduced : ∃ expression, reduce tree = .ok expression) :
    IsDerived tree ↔ UnseenIsRight tree := by
  obtain ⟨root, valued⟩ := reduce_isOk_iff.mp reduced
  have sound := (hasValue_iff_isSound tree).mp valued
  constructor
  · intro derived
    have otherRoot : kindOf tree ≠ .nonTerminal .expression := by
      rw [derived.root]
      decide
    refine ⟨otherRoot, fun phrase rule children inside => ?_,
      fun phrase rule children within _ => derived.nodes phrase rule children within⟩
    have matched := derived.nodes phrase rule children (within_of_mem_postorder inside)
    exact (matches_iff.mp matched).2
  · intro right
    refine ⟨root.resolve_right right.root, fun phrase rule children within => ?_⟩
    by_cases inside : .node (.nonTerminal phrase) rule children ∈ postorder tree
    · have fits := sound _ inside
      exact fits.matches (right.visited phrase rule children inside)
    · exact right.hidden phrase rule children within inside

/-- A tree is reduced exactly if it is a document or an expression of nodes that are right in
themselves. It is a derived one then if it is right where the reduction does not look. -/
theorem reduce_ok_iff_isSound (tree : Tree) :
    ((∃ expression, reduce tree = .ok expression) ↔
      (kindOf tree = .nonTerminal .document ∨ kindOf tree = .nonTerminal .expression) ∧
        ∀ node ∈ postorder tree, IsSound node) ∧
    ((∃ expression, reduce tree = .ok expression) → (IsDerived tree ↔ UnseenIsRight tree)) ∧
    (UnseenIsRight tree →
      (∃ phrase rule children, Within (.node (.nonTerminal phrase) rule children) tree ∧
        ¬ Matches phrase (children.map kindOf)) → ∃ error, reduce tree = .error error) := by
  refine ⟨?_, isDerived_iff_unseenIsRight, ?_⟩
  · rw [reduce_isOk_iff, hasValue_iff_isSound]
  · rintro right ⟨phrase, rule, children, within, unmatched⟩
    cases reduced : reduce tree with
    | error error => exact ⟨error, rfl⟩
    | ok expression =>
        have derived := (isDerived_iff_unseenIsRight ⟨expression, reduced⟩).mpr right
        exact absurd (derived.nodes phrase rule children within) unmatched

def enclosed (opening closing : Token TokenKind) : Tree :=
  .node (.nonTerminal .document) (some 0) [
    .node (.nonTerminal .expression) (some 1) [leaf opening, leaf ⟨.identifier, "f", 1⟩,
      .node (.nonTerminal .arguments) (some 3) [], leaf closing],
    leaf ⟨.endOfInput, "", 3⟩]

def parenthesized : Tree :=
  enclosed ⟨.leftParen, "(", 0⟩ ⟨.rightParen, ")", 2⟩

def unfinished : Tree :=
  .node (.nonTerminal .document) none [leaf ⟨.leftParen, "(", 0⟩, leaf ⟨.endOfInput, "", 1⟩]

theorem reduce_ok_iff_isSound_parenthesized : UnseenIsRight parenthesized ∧
    reduce parenthesized = .ok ⟨"f", []⟩ ∧ IsDerived parenthesized ∧
    UnseenIsRight unfinished ∧ ∃ error, reduce unfinished = .error error := by
  have right : UnseenIsRight parenthesized := by
    refine ⟨by decide, fun phrase rule children inside => ?_,
      fun phrase rule children within _ => ?_⟩
    · simp [parenthesized, enclosed, leaf, postorder, postorderAll] at inside
      rcases inside with ⟨rfl, -, rfl⟩ | ⟨rfl, -, rfl⟩ | ⟨rfl, -, rfl⟩
      all_goals exact (matches_iff.mp (by decide)).2
    · simp [parenthesized, enclosed, leaf, within_node_iff] at within
      rcases within with ⟨rfl, -, rfl⟩ | ⟨rfl, -, rfl⟩ | ⟨rfl, -, rfl⟩
      all_goals decide
  have wrong : UnseenIsRight unfinished := by
    refine ⟨by decide, fun phrase rule children inside => ?_,
      fun phrase rule children within outside => ?_⟩
    · simp [unfinished, leaf, postorder, postorderAll] at inside
      obtain ⟨rfl, -, rfl⟩ := inside
      exact ⟨by decide, by decide, by decide, by decide⟩
    · simp [unfinished, leaf, within_node_iff] at within
      obtain ⟨rfl, rfl, rfl⟩ := within
      simp [unfinished, leaf, postorder, postorderAll] at outside
  have reduced : reduce parenthesized = .ok ⟨"f", []⟩ := reduce_ok_iff.mpr rfl
  have derived := (reduce_ok_iff_isSound parenthesized).2.1 ⟨_, reduced⟩
  have fails := (reduce_ok_iff_isSound unfinished).2.2 wrong
  exact ⟨right, reduced, derived.mpr right, wrong, fails ⟨_, _, _, .self, by decide⟩⟩

def exchanged : Tree :=
  enclosed ⟨.rightParen, ")", 0⟩ ⟨.leftParen, "(", 2⟩

/-- With its parentheses exchanged, the expression is a node of no rule. It is reduced all the same. -/
theorem reduce_exchanged : reduce exchanged = .ok ⟨"f", []⟩ ∧ ¬ IsDerived exchanged ∧
    ∃ phrase rule children, Within (.node (.nonTerminal phrase) rule children) exchanged ∧
      ¬ Matches phrase (children.map kindOf) := by
  obtain ⟨rule, children, inside, unmatched⟩ : ∃ rule children,
      Within (.node (.nonTerminal .expression) rule children) exchanged ∧
        ¬ Matches .expression (children.map kindOf) :=
    ⟨_, _, .under List.mem_cons_self .self, by decide⟩
  refine ⟨reduce_ok_iff.mpr rfl, ?_, _, rule, children, inside, unmatched⟩
  intro derived
  exact unmatched (derived.nodes _ _ _ inside)

end Lookahead.SExpr
