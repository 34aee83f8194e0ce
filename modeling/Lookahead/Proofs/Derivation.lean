import Lookahead.SyntaxTree
import Mathlib.Data.List.Forall2
import Mathlib.Logic.Relation

/-!
# Derivations

What a grammar derives, and the trees that show it.
-/

set_option autoImplicit false

namespace Lookahead

/-!
## What a grammar derives

`Grammar.Derives` is rewriting of sentential forms: a rule replaces one non terminal, any number of
times, anywhere. `Grammar.Yields` reads the same off a sequence from the left: every symbol is kept
or expanded once, and what it is expanded into yields the rest of the form. The two agree
(`derives_iff_yields`). Yields is the form for inductions, since it follows the sequence and not
the order in which rules are applied.
-/

namespace Grammar

variable {T N : Type}

inductive Rewrites (grammar : Grammar T N) : List (Symbol T N) → List (Symbol T N) → Prop
  | apply {rule : Rule T N} (listed : rule ∈ grammar.rules) (before after : List (Symbol T N)) :
      Rewrites grammar (before ++ .nonTerminal rule.lhs :: after) (before ++ (rule.rhs ++ after))

def Derives (grammar : Grammar T N) : List (Symbol T N) → List (Symbol T N) → Prop :=
  Relation.ReflTransGen grammar.Rewrites

/-- A sequence yields a sentential form: each symbol is kept, or expanded by a rule whose right
side yields its part of the form. -/
inductive Yields (grammar : Grammar T N) : List (Symbol T N) → List (Symbol T N) → Prop
  | nil : Yields grammar [] []
  | keep (symbol : Symbol T N) {rest form : List (Symbol T N)}
      (later : Yields grammar rest form) : Yields grammar (symbol :: rest) (symbol :: form)
  | expand {rule : Rule T N} {rest inner form : List (Symbol T N)} (listed : rule ∈ grammar.rules)
      (side : Yields grammar rule.rhs inner) (later : Yields grammar rest form) :
      Yields grammar (.nonTerminal rule.lhs :: rest) (inner ++ form)

variable {grammar : Grammar T N}

namespace Yields

theorem refl (symbols : List (Symbol T N)) : grammar.Yields symbols symbols := by
  induction symbols with
  | nil => exact .nil
  | cons symbol symbols ih => exact .keep symbol ih

theorem append {first second left right : List (Symbol T N)} (front : grammar.Yields first left)
    (back : grammar.Yields second right) :
    grammar.Yields (first ++ second) (left ++ right) := by
  induction front with
  | nil => exact back
  | keep symbol _ ih => exact .keep symbol ih
  | expand listed side _ _ ih =>
      rw [List.append_assoc]
      exact .expand listed side ih

theorem split {first second form : List (Symbol T N)}
    (yields : grammar.Yields (first ++ second) form) :
    ∃ left right, form = left ++ right ∧ grammar.Yields first left ∧
      grammar.Yields second right := by
  induction first generalizing form with
  | nil => exact ⟨[], form, rfl, .nil, yields⟩
  | cons symbol first ih =>
      cases yields with
      | keep _ later =>
          obtain ⟨left, right, rfl, front, back⟩ := ih later
          exact ⟨symbol :: left, right, rfl, .keep symbol front, back⟩
      | @expand rule _ inner _ listed side later =>
          obtain ⟨left, right, rfl, front, back⟩ := ih later
          exact ⟨inner ++ left, right, (List.append_assoc ..).symm, .expand listed side front, back⟩

theorem nonTerminal_cases {name : N} {rest form : List (Symbol T N)}
    (yields : grammar.Yields (.nonTerminal name :: rest) form) :
    (∃ later, form = .nonTerminal name :: later ∧ grammar.Yields rest later) ∨
      ∃ rule ∈ grammar.rules, ∃ inner later, rule.lhs = name ∧ form = inner ++ later ∧
        grammar.Yields rule.rhs inner ∧ grammar.Yields rest later := by
  cases yields with
  | keep _ later => exact .inl ⟨_, rfl, later⟩
  | expand listed side later => exact .inr ⟨_, listed, _, _, rfl, rfl, side, later⟩

theorem of_rule {rule : Rule T N} {form : List (Symbol T N)} (listed : rule ∈ grammar.rules)
    (side : grammar.Yields rule.rhs form) : grammar.Yields [.nonTerminal rule.lhs] form := by
  simpa using Yields.expand listed side .nil

theorem trans {first second third : List (Symbol T N)} (lower : grammar.Yields first second)
    (upper : grammar.Yields second third) : grammar.Yields first third := by
  -- the upper derivation is taken apart where the lower one has put its parts together
  induction lower generalizing third with
  | nil => exact upper
  | keep symbol _ ih =>
      obtain ⟨left, right, rfl, front, back⟩ := split (List.singleton_append ▸ upper)
      exact front.append (ih back)
  | expand listed _ _ ihSide ih =>
      obtain ⟨left, right, rfl, front, back⟩ := split upper
      exact .expand listed (ihSide front) (ih back)

theorem append_nil_iff {first second : List (Symbol T N)} :
    grammar.Yields (first ++ second) [] ↔
      grammar.Yields first [] ∧ grammar.Yields second [] := by
  constructor
  · intro yields
    obtain ⟨left, right, parts, front, back⟩ := yields.split
    obtain ⟨rfl, rfl⟩ := List.nil_eq_append_iff.mp parts
    exact ⟨front, back⟩
  · rintro ⟨front, back⟩
    exact front.append back

theorem exists_rule_of_mem {symbols : List (Symbol T N)} (yields : grammar.Yields symbols [])
    {symbol : Symbol T N} (inside : symbol ∈ symbols) :
    ∃ rule ∈ grammar.rules, symbol = .nonTerminal rule.lhs := by
  -- nothing can be kept, so every symbol has been expanded
  generalize whole : ([] : List (Symbol T N)) = form at yields
  induction yields with
  | nil => cases inside
  | keep _ _ _ => cases whole
  | @expand rule _ _ _ listed _ _ _ ih =>
      obtain ⟨_, rfl⟩ := List.nil_eq_append_iff.mp whole
      rcases List.mem_cons.mp inside with rfl | later
      · exact ⟨rule, listed, rfl⟩
      · exact ih later rfl

theorem not_mem_of_nil {symbols : List (Symbol T N)} (yields : grammar.Yields symbols [])
    (name : T) : .terminal name ∉ symbols := by
  intro inside
  obtain ⟨rule, _, same⟩ := yields.exists_rule_of_mem inside
  cases same

theorem mem_or_mem_rhs {symbols form : List (Symbol T N)} {symbol : Symbol T N}
    (yields : grammar.Yields symbols form) (inside : symbol ∈ form) :
    symbol ∈ symbols ∨ ∃ rule ∈ grammar.rules, symbol ∈ rule.rhs := by
  induction yields with
  | nil => cases inside
  | keep other _ ih =>
      rcases List.mem_cons.mp inside with rfl | later
      · exact .inl List.mem_cons_self
      · exact (ih later).imp_left (List.mem_cons_of_mem _)
  | @expand rule _ _ _ listed _ _ ihSide ih =>
      rcases List.mem_append.mp inside with here | later
      · exact .inr ((ihSide here).elim (fun own => ⟨rule, listed, own⟩) id)
      · exact (ih later).imp_left (List.mem_cons_of_mem _)

/-- What holds of the symbols of a sequence, and passes from the left side of a rule to its right
side, holds of all that the sequence yields. -/
theorem forall_mem (good : Symbol T N → Prop) {symbols form : List (Symbol T N)}
    (yields : grammar.Yields symbols form)
    (passed : ∀ rule ∈ grammar.rules, good (.nonTerminal rule.lhs) →
      ∀ symbol ∈ rule.rhs, good symbol)
    (own : ∀ symbol ∈ symbols, good symbol) : ∀ symbol ∈ form, good symbol := by
  induction yields with
  | nil => exact own
  | keep symbol _ ih =>
      rw [List.forall_mem_cons] at own ⊢
      exact ⟨own.1, ih own.2⟩
  | @expand rule _ _ _ listed _ _ ihSide ih =>
      rw [List.forall_mem_cons] at own
      rw [List.forall_mem_append]
      exact ⟨ihSide (passed rule listed own.1), ih own.2⟩

theorem mem_terminals {symbols form : List (Symbol T N)} {terminal : T}
    (yields : grammar.Yields symbols form)
    (known : ∀ {rule : Rule T N} {terminal : T}, rule ∈ grammar.rules →
      .terminal terminal ∈ rule.rhs → terminal ∈ grammar.terminals)
    (own : .terminal terminal ∈ symbols → terminal ∈ grammar.terminals)
    (inside : .terminal terminal ∈ form) : terminal ∈ grammar.terminals := by
  rcases yields.mem_or_mem_rhs inside with here | ⟨rule, listed, side⟩
  · exact own here
  · exact known listed side

theorem mem_rhs {name : N} {form : List (Symbol T N)} {symbol : Symbol T N}
    (yields : grammar.Yields [.nonTerminal name] form) (other : form ≠ [.nonTerminal name])
    (inside : symbol ∈ form) : ∃ rule ∈ grammar.rules, symbol ∈ rule.rhs := by
  rcases yields.nonTerminal_cases with ⟨later, rfl, rest⟩ | ⟨rule, listed, inner, later, parts⟩
  · cases rest
    exact absurd rfl other
  · obtain ⟨rfl, rfl, side, rest⟩ := parts
    cases rest
    rw [List.append_nil] at inside
    exact (side.mem_or_mem_rhs inside).elim (fun own => ⟨rule, listed, own⟩) id

theorem exists_rule_of_nil {name : N} {rest : List (Symbol T N)}
    (yields : grammar.Yields (.nonTerminal name :: rest) []) :
    ∃ rule ∈ grammar.rules, rule.lhs = name ∧ grammar.Yields rule.rhs [] ∧
      grammar.Yields rest [] := by
  rcases yields.nonTerminal_cases with ⟨_, kept, _⟩ | ⟨rule, listed, inner, later, rest⟩
  · cases kept
  · obtain ⟨same, parts, side, after⟩ := rest
    obtain ⟨rfl, rfl⟩ := List.nil_eq_append_iff.mp parts
    exact ⟨rule, listed, same, side, after⟩

end Yields

theorem Rewrites.inContext {first second : List (Symbol T N)}
    (rewrites : grammar.Rewrites first second) (before after : List (Symbol T N)) :
    grammar.Rewrites (before ++ (first ++ after)) (before ++ (second ++ after)) := by
  obtain ⟨listed, left, right⟩ := rewrites
  have step := Rewrites.apply listed (before ++ left) (right ++ after)
  simpa only [List.append_assoc, List.cons_append] using step

theorem Derives.inContext {first second : List (Symbol T N)}
    (derives : grammar.Derives first second) (before after : List (Symbol T N)) :
    grammar.Derives (before ++ (first ++ after)) (before ++ (second ++ after)) := by
  induction derives with
  | refl => exact .refl
  | tail _ step ih => exact ih.tail (step.inContext before after)

theorem Yields.derives {first second : List (Symbol T N)}
    (yields : grammar.Yields first second) : grammar.Derives first second := by
  induction yields with
  | nil => exact .refl
  | keep symbol _ ih => simpa using ih.inContext [symbol] []
  | @expand rule rest inner form listed _ _ ihSide ih =>
      have applied : grammar.Derives (.nonTerminal rule.lhs :: rest) (rule.rhs ++ rest) :=
        .single (.apply listed [] rest)
      have expanded : grammar.Derives (rule.rhs ++ rest) (inner ++ rest) :=
        ihSide.inContext [] rest
      have finished : grammar.Derives (inner ++ rest) (inner ++ form) := by
        simpa using ih.inContext inner []
      exact applied.trans (expanded.trans finished)

theorem Rewrites.yields {first second : List (Symbol T N)}
    (rewrites : grammar.Rewrites first second) : grammar.Yields first second := by
  obtain ⟨listed, before, after⟩ := rewrites
  exact (Yields.refl before).append (.expand listed (.refl _) (.refl after))

theorem derives_iff_yields {first second : List (Symbol T N)} :
    grammar.Derives first second ↔ grammar.Yields first second := by
  constructor
  · intro derives
    induction derives with
    | refl => exact .refl first
    | tail _ step ih => exact ih.trans step.yields
  · exact Yields.derives

end Grammar

/-!
## Derivation trees

`Grammar.IsTree` tells the trees of a grammar among all syntax trees: below a non terminal stands
one tree for each symbol of the right side of the rule that the node names. A tree for every symbol
of a sequence is a forest, and forests are what inductions go over. The tokens of a forest are one
of the forms that its sequence yields (`Forest.yields`).
-/

variable {T N : Type}

def Token.word (tokens : List (Token T)) : List (Symbol T N) :=
  tokens.map fun token => .terminal token.kind

namespace Token

@[simp]
theorem word_append (first second : List (Token T)) :
    (word (first ++ second) : List (Symbol T N)) = word first ++ word second :=
  List.map_append

end Token

namespace Grammar

/-- One derivation tree for every symbol of a sequence. -/
inductive Forest (grammar : Grammar T N) : List (Symbol T N) → List (SyntaxTree T N) → Prop
  | nil : Forest grammar [] []
  | leaf (token : Token T) {symbols : List (Symbol T N)} {trees : List (SyntaxTree T N)}
      (later : Forest grammar symbols trees) :
      Forest grammar (.terminal token.kind :: symbols) (.leaf token :: trees)
  | node {position : Nat} {rule : Rule T N} {symbols : List (Symbol T N)}
      {children trees : List (SyntaxTree T N)} (found : grammar.rules[position]? = some rule)
      (below : Forest grammar rule.rhs children) (later : Forest grammar symbols trees) :
      Forest grammar (.nonTerminal rule.lhs :: symbols)
        (.node (.nonTerminal rule.lhs) (some position) children :: trees)

def IsTree (grammar : Grammar T N) (symbol : Symbol T N) (tree : SyntaxTree T N) : Prop :=
  grammar.Forest [symbol] [tree]

variable {grammar : Grammar T N}

namespace Forest

theorem append {first second : List (Symbol T N)} {front back : List (SyntaxTree T N)}
    (left : grammar.Forest first front) (right : grammar.Forest second back) :
    grammar.Forest (first ++ second) (front ++ back) := by
  induction left with
  | nil => exact right
  | leaf token _ ih => exact .leaf token ih
  | node found below _ _ ih => exact .node found below ih

theorem yields {symbols : List (Symbol T N)} {trees : List (SyntaxTree T N)}
    (forest : grammar.Forest symbols trees) :
    grammar.Yields symbols (Token.word (SyntaxTree.leavesAll trees)) := by
  induction forest with
  | nil => exact .nil
  | leaf token _ ih =>
      rw [SyntaxTree.leavesAll_cons, SyntaxTree.leaves_leaf]
      exact .keep _ ih
  | node found _ _ ihBelow ih =>
      rw [SyntaxTree.leavesAll_cons, SyntaxTree.leaves_node, Token.word_append]
      exact .expand (List.mem_of_getElem? found) ihBelow ih

end Forest

theorem forest_iff {symbols : List (Symbol T N)} {trees : List (SyntaxTree T N)} :
    grammar.Forest symbols trees ↔ List.Forall₂ grammar.IsTree symbols trees := by
  constructor
  · intro forest
    induction forest with
    | nil => exact .nil
    | leaf token _ ih => exact .cons (.leaf token .nil) ih
    | node found below _ _ ih => exact .cons (.node found below .nil) ih
  · intro all
    induction all with
    | nil => exact .nil
    | cons tree _ ih => exact Forest.append tree ih

theorem isTree_terminal_iff {name : T} {tree : SyntaxTree T N} :
    grammar.IsTree (.terminal name) tree ↔ ∃ token, token.kind = name ∧ tree = .leaf token := by
  constructor
  · intro forest
    cases forest with
    | leaf token _ => exact ⟨token, rfl, rfl⟩
  · rintro ⟨token, rfl, rfl⟩
    exact .leaf token .nil

theorem isTree_nonTerminal_iff {name : N} {tree : SyntaxTree T N} :
    grammar.IsTree (.nonTerminal name) tree ↔
      ∃ position rule children, grammar.rules[position]? = some rule ∧ rule.lhs = name ∧
        tree = .node (.nonTerminal name) (some position) children ∧
        List.Forall₂ grammar.IsTree rule.rhs children := by
  constructor
  · intro forest
    cases forest with
    | node found below _ => exact ⟨_, _, _, found, rfl, rfl, forest_iff.mp below⟩
  · rintro ⟨position, rule, children, found, rfl, rfl, below⟩
    exact .node found (forest_iff.mpr below) .nil

end Grammar

end Lookahead
