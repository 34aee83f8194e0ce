import Lookahead.Command.Program
import Lookahead.Proofs.Accounting
import Lookahead.Proofs.Reading
import Lookahead.Proofs.Shape

/-!
# Parsed trees are reduced

The reduction looks at how many children a node has and at the kinds of their values, not at the
rule of the node. In a tree of the grammar that is enough: the values of a right side are always
such that they can be combined (`exists_combine`). So nothing but the text of a number can be wrong,
and since children are evaluated from left to right, the first wrong number of the tree is the one
that is reported (`evaluate_of_isTree`). The lexer gives no wrong numbers, so no text fails in its
reduction (`exists_reduce_of_readTree`).
-/

set_option autoImplicit false

namespace Lookahead.SExpr

open SyntaxTree (leaf leavesAll)

def isUnreadable (token : Token TokenKind) : Bool :=
  token.kind = .number && (Number.read? token.text).isNone

/-- An outcome is a value if all numbers among some tokens can be read, and else the error of the
first one that cannot. -/
def FailsAtFirst {α : Type} (tokens : List (Token TokenKind)) (outcome : Except ReduceError α) :
    Prop :=
  match tokens.find? isUnreadable with
  | none => ∃ value, outcome = .ok value
  | some token => outcome = .error (.invalidNumber token)

theorem failsAtFirst_iff {α : Type} {tokens : List (Token TokenKind)}
    {outcome : Except ReduceError α} : FailsAtFirst tokens outcome ↔
      (∃ value, tokens.find? isUnreadable = none ∧ outcome = .ok value) ∨
        ∃ token, tokens.find? isUnreadable = some token ∧
          outcome = .error (.invalidNumber token) := by
  unfold FailsAtFirst
  cases tokens.find? isUnreadable <;> simp

theorem valueOfToken_cases (token : Token TokenKind) :
    isUnreadable token = true ∧ valueOfToken token = .error (.invalidNumber token) ∨
      isUnreadable token = false ∧ ∃ value, valueOfToken token = .ok value := by
  cases kind : token.kind with
  | number =>
      cases found : Number.read? token.text with
      | none =>
          exact .inl ⟨by simp [isUnreadable, kind, found], by simp [valueOfToken, kind, found]⟩
      | some number =>
          exact .inr ⟨by simp [isUnreadable, found], .number number,
            by simp [valueOfToken, kind, found]⟩
  | leftParen | rightParen | identifier | endOfInput =>
      exact .inr ⟨by simp [isUnreadable, kind], by simp [valueOfToken, kind]⟩

theorem kinds_of_forest {symbols : List (Symbol TokenKind Phrase)} {trees : List Tree}
    (forest : grammar.Forest symbols trees) : trees.map kindOf = symbols := by
  induction forest with
  | nil => rfl
  | leaf token _ ih =>
      rw [List.map_cons, ih]
      rfl
  | node _ _ _ _ ih =>
      rw [List.map_cons, ih]
      rfl

theorem exists_combine {rule : Rule TokenKind Phrase} (listed : rule ∈ rules)
    (position : Option Nat) {children : List Tree} {values : List Value}
    (below : grammar.Forest rule.rhs children) (evaluated : evaluateAll children = .ok values) :
    ∃ value, combine rule.lhs position values = .ok value := by
  have shown := shows_of_evaluateAll evaluated
  rw [kinds_of_forest below] at shown
  have own : Matches rule.lhs rule.rhs := ⟨rule, listed, rfl, rfl⟩
  exact (exists_combine_iff shown).mpr (matches_iff.mp own).1

theorem failsAtFirst_cons {tree : Tree} {trees : List Tree}
    (first : FailsAtFirst tree.leaves (evaluate tree))
    (later : FailsAtFirst (leavesAll trees) (evaluateAll trees)) :
    FailsAtFirst (leavesAll (tree :: trees)) (evaluateAll (tree :: trees)) := by
  rw [failsAtFirst_iff, SyntaxTree.leavesAll_cons, List.find?_append]
  rcases failsAtFirst_iff.mp first with ⟨value, right, evaluated⟩ | ⟨token, wrong, failed⟩
  · rw [right, Option.none_or]
    rcases failsAtFirst_iff.mp later with ⟨values, rightLater, others⟩ | ⟨token, wrong, failed⟩
    · exact .inl ⟨value :: values, rightLater, by simp only [evaluateAll, evaluated, others]⟩
    · exact .inr ⟨token, wrong, by simp only [evaluateAll, evaluated, failed]⟩
  · exact .inr ⟨token, by rw [wrong, Option.some_or], by simp only [evaluateAll, failed]⟩

theorem evaluateAll_of_forest {symbols : List (Symbol TokenKind Phrase)} {trees : List Tree}
    (forest : grammar.Forest symbols trees) :
    FailsAtFirst (leavesAll trees) (evaluateAll trees) := by
  induction forest with
  | nil => exact ⟨[], rfl⟩
  | leaf token _ ih =>
      refine failsAtFirst_cons ?_ ih
      rw [SyntaxTree.leaves_leaf, leaf, evaluate, failsAtFirst_iff]
      rcases valueOfToken_cases token with ⟨wrong, failed⟩ | ⟨right, value, read⟩
      · exact .inr ⟨token, List.find?_cons_of_pos wrong, failed⟩
      · exact .inl ⟨value, List.find?_cons_of_neg (by simp [right]), read⟩
  | @node position rule _ children _ found below _ ihBelow ih =>
      refine failsAtFirst_cons ?_ ih
      rw [SyntaxTree.leaves_node, evaluate, failsAtFirst_iff]
      rcases failsAtFirst_iff.mp ihBelow with ⟨values, right, evaluated⟩ | ⟨token, wrong, failed⟩
      · obtain ⟨value, combined⟩ :=
          exists_combine (List.mem_of_getElem? found) (some position) below evaluated
        exact .inl ⟨value, right, by simp only [evaluated, combined]⟩
      · exact .inr ⟨token, wrong, by simp only [failed]⟩

theorem evaluate_of_isTree {symbol : Symbol TokenKind Phrase} {tree : Tree}
    (isTree : grammar.IsTree symbol tree) : FailsAtFirst tree.leaves (evaluate tree) := by
  have all := evaluateAll_of_forest isTree
  rw [SyntaxTree.leavesAll_cons, SyntaxTree.leavesAll_nil, List.append_nil] at all
  rw [failsAtFirst_iff]
  rcases failsAtFirst_iff.mp all with ⟨values, right, evaluated⟩ | ⟨token, wrong, failed⟩
  · obtain ⟨value, _, first, _⟩ := evaluateAll_cons_ok_iff.mp evaluated
    exact .inl ⟨value, right, first⟩
  · cases evaluated : evaluate tree with
    | error error =>
        simp only [evaluateAll, evaluated, Except.error.injEq] at failed
        exact .inr ⟨token, wrong, by rw [failed]⟩
    | ok value => simp [evaluateAll, evaluated] at failed

theorem expression_of_document {tree : Tree} {value : Value}
    (isTree : grammar.IsTree (.nonTerminal .document) tree)
    (evaluated : evaluate tree = .ok value) :
    ∃ expression, value = .expression expression := by
  have kinds := kinds_of_forest isTree
  obtain ⟨root, _⟩ := List.cons.inj kinds
  have shows := shows_of_evaluate evaluated
  rw [root] at shows
  cases shows
  exact ⟨_, rfl⟩

theorem reduce_of_isTree {tree : Tree} (isTree : grammar.IsTree (.nonTerminal .document) tree) :
    FailsAtFirst tree.leaves (reduce tree) := by
  rw [failsAtFirst_iff, reduce, valueOf_eq_evaluate]
  rcases failsAtFirst_iff.mp (evaluate_of_isTree isTree) with
    ⟨value, right, evaluated⟩ | ⟨token, wrong, failed⟩
  · obtain ⟨expression, rfl⟩ := expression_of_document isTree evaluated
    exact .inl ⟨expression, right, by simp only [evaluated]⟩
  · exact .inr ⟨token, wrong, by simp only [failed]⟩

theorem FailsAtFirst.ne_unexpectedShape {α : Type} {tokens : List (Token TokenKind)}
    {outcome : Except ReduceError α} (fails : FailsAtFirst tokens outcome) (phrase : Phrase)
    (rule : Option Nat) : outcome ≠ .error (.unexpectedShape phrase rule) := by
  rcases failsAtFirst_iff.mp fails with ⟨_, _, rfl⟩ | ⟨_, _, rfl⟩
  · exact nofun
  · exact nofun

/-! ## Texts -/

theorem Lexer.not_isUnreadable {lexer : Lexer} {token : Token TokenKind}
    (given : token ∈ lexer.drain.1) : isUnreadable token = false := by
  cases kind : token.kind with
  | number =>
      obtain ⟨_, taken, _, found, spelled⟩ :=
        exists_lexeme?_of_mem_drain given (by rw [kind]; decide)
      rw [kind] at found
      obtain ⟨negative, whole, fraction, body, rfl, numeral⟩ := exists_numeral_of_lexeme? found
      have reads := Number.read?_numeral negative numeral
      rw [← spelled] at reads
      simp [isUnreadable, reads]
  | leftParen | rightParen | identifier | endOfInput => simp [isUnreadable, kind]

theorem readTree_ne_reduction {table : Table TokenKind Phrase} {input : String}
    {error : ReduceError} : readTree table input ≠ .error (.reduction error) := by
  unfold readTree
  dsimp only
  split <;> simp

section Table

variable {table : Table TokenKind Phrase} (same : table.grammar = grammar)
  (reading : table.Predictive)

include same reading

theorem isTree_document {Source : Type} {kind : TokenSource Source TokenKind} {source : Source}
    {tree : Tree} (parsed : (table.parse kind source).outcome = .ok tree) :
    grammar.IsTree (.nonTerminal .document) tree ∧ tree.leaves <+: (kind.drain source).1 := by
  have sound := Parsing.isTree_of_parse reading parsed
  rw [same] at sound
  exact sound

theorem exists_reduce_of_readTree {input : String} {tree : Tree}
    (read : readTree table input = .ok tree) : ∃ expression, reduce tree = .ok expression := by
  obtain ⟨isTree, begins⟩ := isTree_document same reading (readTree_ok_iff.mp read)
  rw [Scan.start, Scan.drain_source] at begins
  rcases failsAtFirst_iff.mp (reduce_of_isTree isTree) with
    ⟨expression, _, reduced⟩ | ⟨token, wrong, _⟩
  · exact ⟨expression, reduced⟩
  · have given := begins.subset (List.mem_of_find?_eq_some wrong)
    have unreadable := List.find?_some wrong
    rw [Lexer.not_isUnreadable given] at unreadable
    cases unreadable

end Table

/-- A tree that the parser makes is reduced to an expression, unless a matched number cannot be
read, and then the first such token is reported. No text fails in its reduction. -/
theorem reduce_parsed : ∃ table, SExpr.table = .ok table ∧
    (∀ (Source : Type) (kind : TokenSource Source TokenKind) (source : Source) (tree : Tree),
      (table.parse kind source).outcome = .ok tree →
        FailsAtFirst (table.parse kind source).matched (reduce tree) ∧
          ∀ phrase rule, reduce tree ≠ .error (.unexpectedShape phrase rule)) ∧
    ∀ (input : String) (error : ReduceError), read table input ≠ .error (.reduction error) ∧
      ∀ showTree, (Command.evaluate table showTree input).2 ≠ .error (.reduction error) := by
  obtain ⟨table, built, same, reading⟩ := exists_table
  refine ⟨table, built, fun Source kind source tree parsed => ?_, fun input error => ?_⟩
  · have fails := reduce_of_isTree (isTree_document same reading parsed).1
    rw [Table.parse, Parsing.matched_of_ok reading parsed]
    exact ⟨fails, fails.ne_unexpectedShape⟩
  · unfold SExpr.read Command.evaluate
    cases parsed : readTree table input with
    | error other =>
        have apart : other ≠ .reduction error := by
          rintro rfl
          exact readTree_ne_reduction parsed
        simp [apart]
    | ok tree =>
        obtain ⟨expression, reduced⟩ := exists_reduce_of_readTree same reading parsed
        simp only [reduced]
        exact ⟨nofun, fun _ => nofun⟩

def misread : List (Token TokenKind) :=
  [⟨.leftParen, "(", 0⟩, ⟨.identifier, "a", 1⟩, ⟨.number, "-2.", 3⟩, ⟨.leftParen, "(", 7⟩,
    ⟨.identifier, "b", 8⟩, ⟨.number, "1e", 10⟩, ⟨.rightParen, ")", 12⟩, ⟨.number, "x", 14⟩,
    ⟨.rightParen, ")", 15⟩, ⟨.endOfInput, "", 16⟩]

theorem reduce_parsed_leftmost : ∃ table, SExpr.table = .ok table ∧
    ∃ tree, (table.parse .list misread).outcome = .ok tree ∧
      reduce tree = .error (.invalidNumber ⟨.number, "1e", 10⟩) := by
  obtain ⟨table, built, done, matched⟩ : ∃ table, SExpr.table = .ok table ∧
      (table.parse .list misread).outcome.isOk = true ∧
      (table.parse .list misread).matched = misread :=
    ⟨_, rfl, by cbv, by cbv⟩
  have first : misread.find? isUnreadable = some ⟨.number, "1e", 10⟩ := by decide +kernel
  cases parsed : (table.parse .list misread).outcome with
  | error error =>
      rw [parsed] at done
      exact absurd done (by simp [Except.isOk, Except.toBool])
  | ok tree =>
      obtain ⟨other, builtOther, reduced, _⟩ := reduce_parsed
      rw [built] at builtOther
      obtain rfl := Except.ok.inj builtOther
      have fails := (reduced _ _ _ tree parsed).1
      rw [matched, FailsAtFirst, first] at fails
      exact ⟨table, built, tree, parsed, fails⟩

end Lookahead.SExpr
