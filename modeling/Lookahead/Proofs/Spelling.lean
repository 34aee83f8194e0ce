import Lookahead.Proofs.Derivation
import Lookahead.Proofs.Folding
import Lookahead.Proofs.Table

/-!
# How tokens spell an S-expression

`Spells` says which tokens stand for an S-expression, without a grammar and without trees. The
derivation trees of the grammar and the reduction agree with it, both ways: the tokens of a tree that
has a value spell that value (`means_of_forest`), and tokens that spell an S-expression are those of a
tree that is reduced to it (`exists_document`).
-/

set_option autoImplicit false

namespace Lookahead.SExpr

open SyntaxTree (leaf leavesAll)

/-- The arguments that tokens spell, in order. A number is one token whose text is read as its value,
a nested expression is spelled between parentheses, its identifier first. -/
inductive SpellsArgs : List (Token TokenKind) → List Arg → Prop
  | nil : SpellsArgs [] []
  | number {token : Token TokenKind} {value : Binary64} {tokens : List (Token TokenKind)}
      {args : List Arg} (kind : token.kind = .number) (reads : Number.read? token.text = some value)
      (later : SpellsArgs tokens args) : SpellsArgs (token :: tokens) (.number value :: args)
  | nested {opening name closing : Token TokenKind} {inner tokens : List (Token TokenKind)}
      {innerArgs args : List Arg} (opens : opening.kind = .leftParen)
      (names : name.kind = .identifier) (inside : SpellsArgs inner innerArgs)
      (closes : closing.kind = .rightParen) (later : SpellsArgs tokens args) :
      SpellsArgs (opening :: name :: (inner ++ closing :: tokens))
        (.nested name.text innerArgs :: args)

/-- Tokens spell an S-expression if they are a left parenthesis, its identifier, the spellings of its
arguments in order, and a right parenthesis. -/
def Spells (tokens : List (Token TokenKind)) (expression : SExpr) : Prop :=
  ∃ opening name inner closing, tokens = opening :: name :: (inner ++ [closing]) ∧
    opening.kind = .leftParen ∧ name.kind = .identifier ∧ name.text = expression.identifier ∧
    SpellsArgs inner expression.args ∧ closing.kind = .rightParen

theorem spellsArgs_singleton {tokens : List (Token TokenKind)} {expression : SExpr}
    (spells : Spells tokens expression) :
    SpellsArgs tokens [.nested expression.identifier expression.args] := by
  obtain ⟨opening, name, inner, closing, rfl, opens, names, same, inside, closes⟩ := spells
  rw [← same]
  exact .nested opens names inside closes .nil

theorem SpellsArgs.append {front back : List (Token TokenKind)} {first second : List Arg}
    (left : SpellsArgs front first) (right : SpellsArgs back second) :
    SpellsArgs (front ++ back) (first ++ second) := by
  induction left with
  | nil => exact right
  | number kind reads _ ih => exact .number kind reads ih
  | nested opens names inside closes _ _ ih =>
      rw [List.cons_append, List.cons_append, List.append_assoc, List.cons_append]
      exact .nested opens names inside closes ih

/-! ## The grammar and its table -/

def grammar : Grammar TokenKind Phrase where
  rules := rules
  start := .document
  terminals := [.endOfInput, .leftParen, .identifier, .rightParen, .number]
  nonTerminals := [.document, .expression, .arguments, .argument]

theorem exists_table : ∃ table : Table TokenKind Phrase,
    SExpr.table = .ok table ∧ table.grammar = grammar ∧ table.Predictive := by
  have accepted : Grammar.ofRules rules .document = .ok grammar := rfl
  obtain ⟨table, built⟩ : ∃ table, Table.ofGrammar grammar = .ok table := ⟨_, rfl⟩
  obtain ⟨same, reading⟩ := Table.predictive_of_ofGrammar accepted built
  refine ⟨table, ?_, same, reading⟩
  rw [SExpr.table, Table.ofRules, accepted]
  exact built

/-! ## From trees to spellings -/

/-- The values of a symbol, with the tokens that spell them. -/
inductive Means : Symbol TokenKind Phrase → List (Token TokenKind) → Value → Prop
  | token (token : Token TokenKind) {value : Value} (read : valueOfToken token = .ok value) :
      Means (.terminal token.kind) [token] value
  | argument {tokens : List (Token TokenKind)} {arg : Arg} (spells : SpellsArgs tokens [arg]) :
      Means (.nonTerminal .argument) tokens (.argument arg)
  | arguments {tokens : List (Token TokenKind)} {args : List Arg} (spells : SpellsArgs tokens args) :
      Means (.nonTerminal .arguments) tokens (.arguments args)
  | expression {tokens : List (Token TokenKind)} {expression : SExpr}
      (spells : Spells tokens expression) :
      Means (.nonTerminal .expression) tokens (.expression expression)
  | document {tokens : List (Token TokenKind)} {final : Token TokenKind} {expression : SExpr}
      (spells : Spells tokens expression) (ends : final.kind = .endOfInput) :
      Means (.nonTerminal .document) (tokens ++ [final]) (.expression expression)

inductive MeansAll : List (Symbol TokenKind Phrase) → List (Token TokenKind) → List Value → Prop
  | nil : MeansAll [] [] []
  | cons {symbol : Symbol TokenKind Phrase} {symbols : List (Symbol TokenKind Phrase)}
      {front back : List (Token TokenKind)} {value : Value} {values : List Value}
      (first : Means symbol front value) (later : MeansAll symbols back values) :
      MeansAll (symbol :: symbols) (front ++ back) (value :: values)

theorem Means.exists_token {kind : TokenKind} {tokens : List (Token TokenKind)} {value : Value}
    (means : Means (.terminal kind) tokens value) :
    ∃ token, tokens = [token] ∧ token.kind = kind ∧ valueOfToken token = .ok value := by
  cases means with
  | token token read => exact ⟨token, rfl, rfl, read⟩

theorem valueOfToken_identifier {token : Token TokenKind} {value : Value}
    (kind : token.kind = .identifier) (read : valueOfToken token = .ok value) :
    value = .identifier token.text := by
  simp only [valueOfToken, kind] at read
  exact (Except.ok.inj read).symm

theorem valueOfToken_number {token : Token TokenKind} {value : Value}
    (kind : token.kind = .number) (read : valueOfToken token = .ok value) :
    ∃ number, Number.read? token.text = some number ∧ value = .number number := by
  simp only [valueOfToken, kind] at read
  cases found : Number.read? token.text with
  | none => simp [found] at read
  | some number =>
      rw [found] at read
      exact ⟨number, rfl, (Except.ok.inj read).symm⟩

theorem means_of_combine_document {position : Option Nat} {tokens : List (Token TokenKind)}
    {values : List Value} {value : Value}
    (below : MeansAll [.nonTerminal .expression, .terminal .endOfInput] tokens values)
    (combined : combine .document position values = .ok value) :
    Means (.nonTerminal .document) tokens value := by
  obtain _ | ⟨first, _ | ⟨second, _ | _⟩⟩ := below
  obtain ⟨final, rfl, ends, _⟩ := second.exists_token
  cases first with
  | expression spells =>
      obtain rfl := Except.ok.inj combined
      exact .document spells ends

theorem means_of_combine_expression {position : Option Nat} {tokens : List (Token TokenKind)}
    {values : List Value} {value : Value}
    (below : MeansAll [.terminal .leftParen, .terminal .identifier, .nonTerminal .arguments,
      .terminal .rightParen] tokens values)
    (combined : combine .expression position values = .ok value) :
    Means (.nonTerminal .expression) tokens value := by
  obtain _ | ⟨first, _ | ⟨second, _ | ⟨third, _ | ⟨fourth, _ | _⟩⟩⟩⟩ := below
  obtain ⟨opening, rfl, opens, _⟩ := first.exists_token
  obtain ⟨name, rfl, names, read⟩ := second.exists_token
  obtain ⟨closing, rfl, closes, _⟩ := fourth.exists_token
  obtain rfl := valueOfToken_identifier names read
  cases third with
  | arguments spells =>
      obtain rfl := Except.ok.inj combined
      exact .expression ⟨opening, name, _, closing, rfl, opens, names, rfl, spells, closes⟩

theorem means_of_combine_more {position : Option Nat} {tokens : List (Token TokenKind)}
    {values : List Value} {value : Value}
    (below : MeansAll [.nonTerminal .argument, .nonTerminal .arguments] tokens values)
    (combined : combine .arguments position values = .ok value) :
    Means (.nonTerminal .arguments) tokens value := by
  obtain _ | ⟨first, _ | ⟨second, _ | _⟩⟩ := below
  rw [List.append_nil]
  cases first with
  | argument spells =>
      cases second with
      | arguments spellsLater =>
          obtain rfl := Except.ok.inj combined
          exact .arguments (spells.append spellsLater)

theorem means_of_combine_number {position : Option Nat} {tokens : List (Token TokenKind)}
    {values : List Value} {value : Value} (below : MeansAll [.terminal .number] tokens values)
    (combined : combine .argument position values = .ok value) :
    Means (.nonTerminal .argument) tokens value := by
  obtain _ | ⟨first, _ | _⟩ := below
  obtain ⟨token, rfl, kind, read⟩ := first.exists_token
  obtain ⟨number, reads, rfl⟩ := valueOfToken_number kind read
  obtain rfl := Except.ok.inj combined
  exact .argument (.number kind reads .nil)

theorem means_of_combine_nested {position : Option Nat} {tokens : List (Token TokenKind)}
    {values : List Value} {value : Value}
    (below : MeansAll [.nonTerminal .expression] tokens values)
    (combined : combine .argument position values = .ok value) :
    Means (.nonTerminal .argument) tokens value := by
  obtain _ | ⟨first, _ | _⟩ := below
  rw [List.append_nil]
  cases first with
  | expression spells =>
      obtain rfl := Except.ok.inj combined
      exact .argument (spellsArgs_singleton spells)

/-- What the values of a right side are combined into is a value of the left side, spelled by the same
tokens. -/
theorem means_of_combine {rule : Rule TokenKind Phrase} (listed : rule ∈ rules)
    {position : Option Nat} {tokens : List (Token TokenKind)} {values : List Value} {value : Value}
    (below : MeansAll rule.rhs tokens values)
    (combined : combine rule.lhs position values = .ok value) :
    Means (.nonTerminal rule.lhs) tokens value := by
  simp only [rules, Rule.numbered, List.zipIdx_cons, List.zipIdx_nil, List.map_cons, List.map_nil,
    List.mem_cons, List.not_mem_nil, or_false] at listed
  rcases listed with rfl | rfl | rfl | rfl | rfl | rfl
  · exact means_of_combine_document below combined
  · exact means_of_combine_expression below combined
  · exact means_of_combine_more below combined
  · cases below
    obtain rfl := Except.ok.inj combined
    exact .arguments .nil
  · exact means_of_combine_number below combined
  · exact means_of_combine_nested below combined

theorem means_of_forest {symbols : List (Symbol TokenKind Phrase)} {trees : List Tree}
    (forest : grammar.Forest symbols trees) {values : List Value}
    (evaluated : evaluateAll trees = .ok values) : MeansAll symbols (leavesAll trees) values := by
  induction forest generalizing values with
  | nil =>
      obtain rfl := Except.ok.inj evaluated
      exact .nil
  | leaf token _ ih =>
      obtain ⟨value, others, read, later, rfl⟩ := evaluateAll_cons_ok_iff.mp evaluated
      rw [leaf, evaluate] at read
      rw [SyntaxTree.leavesAll_cons, SyntaxTree.leaves_leaf]
      exact .cons (.token token read) (ih later)
  | node found _ _ ihBelow ih =>
      obtain ⟨value, others, first, later, rfl⟩ := evaluateAll_cons_ok_iff.mp evaluated
      obtain ⟨inner, below, combined⟩ := evaluate_nonTerminal_ok_iff.mp first
      rw [SyntaxTree.leavesAll_cons, SyntaxTree.leaves_node]
      exact .cons (means_of_combine (List.mem_of_getElem? found) (ihBelow below) combined) (ih later)

theorem spells_of_reduce {tree : Tree} (isTree : grammar.IsTree (.nonTerminal .document) tree)
    {expression : SExpr} (reduced : reduce tree = .ok expression) :
    ∃ tokens final, tree.leaves = tokens ++ [final] ∧ final.kind = .endOfInput ∧
      Spells tokens expression := by
  have evaluated : evaluateAll [tree] = .ok [.expression expression] :=
    evaluateAll_cons_ok_iff.mpr ⟨_, [], reduce_ok_iff.mp reduced, rfl, rfl⟩
  have means := means_of_forest isTree evaluated
  rw [SyntaxTree.leavesAll_cons, SyntaxTree.leavesAll_nil, List.append_nil] at means
  generalize tree.leaves = leaves at means ⊢
  cases means with
  | cons first later =>
      cases later
      cases first with
      | document spells ends => exact ⟨_, _, List.append_nil _, ends, spells⟩

/-! ## From spellings to trees -/

theorem isTree_leaf {kind : TokenKind} {token : Token TokenKind} (same : token.kind = kind) :
    grammar.IsTree (.terminal kind) (leaf token) :=
  Grammar.isTree_terminal_iff.mpr ⟨token, same, rfl⟩

theorem isTree_node (position : Nat) {rule : Rule TokenKind Phrase}
    (found : rules[position]? = some rule) {children : List Tree}
    (below : List.Forall₂ grammar.IsTree rule.rhs children) :
    grammar.IsTree (.nonTerminal rule.lhs)
      (.node (.nonTerminal rule.lhs) (some position) children) :=
  Grammar.isTree_nonTerminal_iff.mpr ⟨position, rule, children, found, rfl, rfl, below⟩

theorem isTree_arguments {first rest : Tree} (isFirst : grammar.IsTree (.nonTerminal .argument) first)
    (isRest : grammar.IsTree (.nonTerminal .arguments) rest) :
    grammar.IsTree (.nonTerminal .arguments)
      (.node (.nonTerminal .arguments) (some 2) [first, rest]) :=
  isTree_node 2 rfl (.cons isFirst (.cons isRest .nil))

theorem exists_expression {opening name closing : Token TokenKind} (opens : opening.kind = .leftParen)
    (names : name.kind = .identifier) (closes : closing.kind = .rightParen) {inside : Tree}
    (isTree : grammar.IsTree (.nonTerminal .arguments) inside) {args : List Arg}
    (evaluated : evaluate inside = .ok (.arguments args)) :
    ∃ tree, grammar.IsTree (.nonTerminal .expression) tree ∧
      tree.leaves = opening :: name :: (inside.leaves ++ [closing]) ∧
      evaluate tree = .ok (.expression ⟨name.text, args⟩) := by
  refine ⟨.node (.nonTerminal .expression) (some 1) [leaf opening, leaf name, inside, leaf closing],
    ?_, ?_, ?_⟩
  · exact isTree_node 1 rfl
      (.cons (isTree_leaf opens) (.cons (isTree_leaf names) (.cons isTree
        (.cons (isTree_leaf closes) .nil))))
  · simp
  · simp [evaluate, evaluateAll, leaf, valueOfToken, opens, names, closes, evaluated, combine]

theorem exists_arguments {tokens : List (Token TokenKind)} {args : List Arg}
    (spells : SpellsArgs tokens args) :
    ∃ tree, grammar.IsTree (.nonTerminal .arguments) tree ∧ tree.leaves = tokens ∧
      evaluate tree = .ok (.arguments args) := by
  induction spells with
  | nil =>
      refine ⟨.node (.nonTerminal .arguments) (some 3) [], isTree_node 3 rfl .nil, ?_, ?_⟩
      · simp
      · simp [evaluate, evaluateAll, combine]
  | @number token value tokens args kind reads _ ih =>
      obtain ⟨rest, isRest, leaves, evaluated⟩ := ih
      have isFirst : grammar.IsTree (.nonTerminal .argument)
          (.node (.nonTerminal .argument) (some 4) [leaf token]) :=
        isTree_node 4 rfl (.cons (isTree_leaf kind) .nil)
      refine ⟨_, isTree_arguments isFirst isRest, ?_, ?_⟩
      · simp [leaves]
      · simp [evaluate, evaluateAll, leaf, valueOfToken, kind, reads, evaluated, combine]
  | nested opens names _ closes _ ihInside ih =>
      obtain ⟨inside, isInside, leavesInside, evaluatedInside⟩ := ihInside
      obtain ⟨rest, isRest, leaves, evaluated⟩ := ih
      obtain ⟨tree, isTree, leavesTree, evaluatedTree⟩ :=
        exists_expression opens names closes isInside evaluatedInside
      have isFirst : grammar.IsTree (.nonTerminal .argument)
          (.node (.nonTerminal .argument) (some 5) [tree]) :=
        isTree_node 5 rfl (.cons isTree .nil)
      refine ⟨_, isTree_arguments isFirst isRest, ?_, ?_⟩
      · simp [leavesTree, leavesInside, leaves]
      · simp [evaluate, evaluateAll, evaluatedTree, evaluated, combine]

theorem exists_document {tokens : List (Token TokenKind)} {final : Token TokenKind}
    {expression : SExpr} (spells : Spells tokens expression) (ends : final.kind = .endOfInput) :
    ∃ tree, grammar.IsTree (.nonTerminal .document) tree ∧ tree.rule? = some 0 ∧
      tree.leaves = tokens ++ [final] ∧ reduce tree = .ok expression := by
  obtain ⟨opening, name, inner, closing, rfl, opens, names, same, inside, closes⟩ := spells
  obtain ⟨args, isArgs, leaves, evaluatedArgs⟩ := exists_arguments inside
  obtain ⟨tree, isTree, leavesTree, evaluated⟩ :=
    exists_expression opens names closes isArgs evaluatedArgs
  refine ⟨.node (.nonTerminal .document) (some 0) [tree, leaf final], ?_, rfl, ?_, ?_⟩
  · exact isTree_node 0 rfl (.cons isTree (.cons (isTree_leaf ends) .nil))
  · simp [leavesTree, leaves]
  · rw [reduce_ok_iff]
    simp [evaluate, evaluateAll, leaf, valueOfToken, ends, evaluated, combine, same]

end Lookahead.SExpr
