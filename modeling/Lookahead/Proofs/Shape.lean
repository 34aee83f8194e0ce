import Lookahead.Proofs.Spelling

/-!
# The shapes that are reduced

A reduction does not compare the children of a node with the rules. It counts them and asks for the
kinds of some of their values. So symbols pass that no rule has: anything passes for a parenthesis or
for the end of the input, whose values are not looked at, and a document passes for an expression,
since it has the value of one. The values of a node's children can be combined exactly if their
symbols pass for a right side (`exists_combine_iff`), and `matches_iff` says which of those are one.
-/

set_option autoImplicit false

namespace Lookahead.SExpr

/-! ## Symbols and their values -/

/-- What the root of a tree is for the rules. -/
def kindOf : Tree → Symbol TokenKind Phrase
  | .node (.terminal token) _ _ => .terminal token.kind
  | .node (.nonTerminal phrase) _ _ => .nonTerminal phrase

def TokenKind.isMark : TokenKind → Bool
  | .leftParen | .rightParen | .endOfInput => true
  | .identifier | .number => false

/-- The values that the root of a tree can have. -/
inductive Shows : Symbol TokenKind Phrase → Value → Prop
  | mark {kind : TokenKind} (marks : kind.isMark = true) : Shows (.terminal kind) .punctuation
  | identifier {name : String} : Shows (.terminal .identifier) (.identifier name)
  | number {value : Binary64} : Shows (.terminal .number) (.number value)
  | document {value : SExpr} : Shows (.nonTerminal .document) (.expression value)
  | expression {value : SExpr} : Shows (.nonTerminal .expression) (.expression value)
  | arguments {values : List Arg} : Shows (.nonTerminal .arguments) (.arguments values)
  | argument {value : Arg} : Shows (.nonTerminal .argument) (.argument value)

theorem shows_of_valueOfToken {token : Token TokenKind} {value : Value}
    (read : valueOfToken token = .ok value) : Shows (.terminal token.kind) value := by
  cases kind : token.kind with
  | number =>
      obtain ⟨number, _, rfl⟩ := valueOfToken_number kind read
      exact .number
  | identifier =>
      obtain rfl := valueOfToken_identifier kind read
      exact .identifier
  | leftParen | rightParen | endOfInput =>
      simp only [valueOfToken, kind, Except.ok.injEq] at read
      subst read
      exact .mark rfl

theorem shows_of_combine {phrase : Phrase} {rule : Option Nat} {values : List Value} {value : Value}
    (combined : combine phrase rule values = .ok value) : Shows (.nonTerminal phrase) value := by
  unfold combine at combined
  split at combined <;> cases combined <;> constructor

theorem shows_of_evaluate {tree : Tree} {value : Value} (evaluated : evaluate tree = .ok value) :
    Shows (kindOf tree) value := by
  obtain ⟨symbol, rule, children⟩ := tree
  cases symbol with
  | terminal token =>
      rw [evaluate] at evaluated
      exact shows_of_valueOfToken evaluated
  | nonTerminal phrase =>
      obtain ⟨values, _, combined⟩ := evaluate_nonTerminal_ok_iff.mp evaluated
      exact shows_of_combine combined

theorem shows_of_evaluateAll {trees : List Tree} {values : List Value}
    (evaluated : evaluateAll trees = .ok values) :
    List.Forall₂ Shows (trees.map kindOf) values := by
  induction trees generalizing values with
  | nil =>
      obtain rfl := Except.ok.inj evaluated
      exact .nil
  | cons tree trees ih =>
      obtain ⟨value, others, first, later, rfl⟩ := evaluateAll_cons_ok_iff.mp evaluated
      exact .cons (shows_of_evaluate first) (ih later)

/-! ## Rules and their right sides -/

def Matches (phrase : Phrase) (symbols : List (Symbol TokenKind Phrase)) : Prop :=
  ∃ rule ∈ rules, rule.lhs = phrase ∧ rule.rhs = symbols

instance (phrase : Phrase) (symbols : List (Symbol TokenKind Phrase)) :
    Decidable (Matches phrase symbols) :=
  inferInstanceAs (Decidable (∃ rule ∈ rules, rule.lhs = phrase ∧ rule.rhs = symbols))

/-- What passes for a symbol of a right side. -/
inductive PassesFor : Symbol TokenKind Phrase → Symbol TokenKind Phrase → Prop
  | same {symbol : Symbol TokenKind Phrase} : PassesFor symbol symbol
  | mark {kind : TokenKind} {symbol : Symbol TokenKind Phrase} (marks : kind.isMark = true) :
      PassesFor (.terminal kind) symbol
  | document : PassesFor (.nonTerminal .expression) (.nonTerminal .document)

def Fits (phrase : Phrase) (symbols : List (Symbol TokenKind Phrase)) : Prop :=
  ∃ rule ∈ rules, rule.lhs = phrase ∧ List.Forall₂ PassesFor rule.rhs symbols

theorem exists_rule_iff {motive : Rule TokenKind Phrase → Prop} :
    (∃ rule ∈ rules, motive rule) ↔
      motive ⟨0, .document, [.nonTerminal .expression, .terminal .endOfInput]⟩ ∨
      motive ⟨1, .expression, [.terminal .leftParen, .terminal .identifier, .nonTerminal .arguments,
        .terminal .rightParen]⟩ ∨
      motive ⟨2, .arguments, [.nonTerminal .argument, .nonTerminal .arguments]⟩ ∨
      motive ⟨3, .arguments, []⟩ ∨ motive ⟨4, .argument, [.terminal .number]⟩ ∨
      motive ⟨5, .argument, [.nonTerminal .expression]⟩ := by
  simp only [rules, Rule.numbered, List.zipIdx_cons, List.zipIdx_nil, List.map_cons, List.map_nil,
    List.exists_mem_cons_iff, List.not_mem_nil, false_and, exists_false, or_false]

theorem PassesFor.eq_of_terminal {kind : TokenKind} {symbol : Symbol TokenKind Phrase}
    (passes : PassesFor (.terminal kind) symbol) (read : kind.isMark = false) :
    symbol = .terminal kind := by
  cases passes with
  | same => rfl
  | mark marks =>
      rw [read] at marks
      cases marks

theorem PassesFor.eq_of_nonTerminal {phrase : Phrase} {symbol : Symbol TokenKind Phrase}
    (passes : PassesFor (.nonTerminal phrase) symbol) (other : phrase ≠ .expression) :
    symbol = .nonTerminal phrase := by
  cases passes with
  | same => rfl
  | document => exact absurd rfl other

theorem passesFor_expression_iff {symbol : Symbol TokenKind Phrase} :
    PassesFor (.nonTerminal .expression) symbol ↔
      symbol = .nonTerminal .document ∨ symbol = .nonTerminal .expression := by
  constructor
  · intro passes
    cases passes with
    | same => exact .inr rfl
    | document => exact .inl rfl
  · intro known
    cases known with
    | inl document =>
        subst document
        exact .document
    | inr expression =>
        subst expression
        exact .same

theorem Shows.isExpression_iff {symbol : Symbol TokenKind Phrase} {value : Value}
    (shows : Shows symbol value) :
    (∃ expression, value = .expression expression) ↔ PassesFor (.nonTerminal .expression) symbol := by
  rw [passesFor_expression_iff]
  cases shows <;> simp

/-! ## What is combined -/

theorem fits_of_combine {phrase : Phrase} {rule : Option Nat}
    {symbols : List (Symbol TokenKind Phrase)} {values : List Value} {value : Value}
    (shown : List.Forall₂ Shows symbols values) (combined : combine phrase rule values = .ok value) :
    Fits phrase symbols := by
  rw [Fits, exists_rule_iff]
  unfold combine at combined
  split at combined
  · obtain _ | ⟨first, _ | ⟨_, _ | _⟩⟩ := shown
    have passes := first.isExpression_iff.mp ⟨_, rfl⟩
    exact .inl ⟨rfl, .cons passes (.cons (.mark rfl) .nil)⟩
  · obtain _ | ⟨_, _ | ⟨name, _ | ⟨args, _ | ⟨_, _ | _⟩⟩⟩⟩ := shown
    cases name
    cases args
    exact .inr (.inl ⟨rfl, .cons (.mark rfl) (.cons .same (.cons .same (.cons (.mark rfl) .nil)))⟩)
  · obtain _ | ⟨first, _ | ⟨rest, _ | _⟩⟩ := shown
    cases first
    cases rest
    exact .inr (.inr (.inl ⟨rfl, .cons .same (.cons .same .nil)⟩))
  · cases shown
    exact .inr (.inr (.inr (.inl ⟨rfl, .nil⟩)))
  · obtain _ | ⟨first, _ | _⟩ := shown
    cases first
    exact .inr (.inr (.inr (.inr (.inl ⟨rfl, .cons .same .nil⟩))))
  · obtain _ | ⟨first, _ | _⟩ := shown
    have passes := first.isExpression_iff.mp ⟨_, rfl⟩
    exact .inr (.inr (.inr (.inr (.inr ⟨rfl, .cons passes .nil⟩))))
  · cases combined

theorem exists_combine_of_fits {phrase : Phrase} {rule : Option Nat}
    {symbols : List (Symbol TokenKind Phrase)} {values : List Value}
    (shown : List.Forall₂ Shows symbols values) (fits : Fits phrase symbols) :
    ∃ value, combine phrase rule values = .ok value := by
  rw [Fits, exists_rule_iff] at fits
  rcases fits with
    ⟨rfl, side⟩ | ⟨rfl, side⟩ | ⟨rfl, side⟩ | ⟨rfl, side⟩ | ⟨rfl, side⟩ | ⟨rfl, side⟩
  · obtain _ | ⟨passes, _ | ⟨_, _ | _⟩⟩ := side
    obtain _ | ⟨first, _ | ⟨_, _ | _⟩⟩ := shown
    obtain ⟨expression, rfl⟩ := first.isExpression_iff.mpr passes
    exact ⟨_, rfl⟩
  · obtain _ | ⟨_, _ | ⟨passesName, _ | ⟨passesArgs, _ | ⟨_, _ | _⟩⟩⟩⟩ := side
    obtain _ | ⟨_, _ | ⟨name, _ | ⟨args, _ | ⟨_, _ | _⟩⟩⟩⟩ := shown
    obtain rfl := passesName.eq_of_terminal rfl
    obtain rfl := passesArgs.eq_of_nonTerminal (by decide)
    cases name with
    | mark marks => cases marks
    | identifier =>
        cases args
        exact ⟨_, rfl⟩
  · obtain _ | ⟨passesFirst, _ | ⟨passesRest, _ | _⟩⟩ := side
    obtain _ | ⟨first, _ | ⟨rest, _ | _⟩⟩ := shown
    obtain rfl := passesFirst.eq_of_nonTerminal (by decide)
    obtain rfl := passesRest.eq_of_nonTerminal (by decide)
    cases first
    cases rest
    exact ⟨_, rfl⟩
  · cases side
    cases shown
    exact ⟨_, rfl⟩
  · obtain _ | ⟨passes, _ | _⟩ := side
    obtain _ | ⟨first, _ | _⟩ := shown
    obtain rfl := passes.eq_of_terminal rfl
    cases first with
    | mark marks => cases marks
    | number => exact ⟨_, rfl⟩
  · obtain _ | ⟨passes, _ | _⟩ := side
    obtain _ | ⟨first, _ | _⟩ := shown
    obtain ⟨expression, rfl⟩ := first.isExpression_iff.mpr passes
    exact ⟨_, rfl⟩

/-- The values of some symbols can be combined into that of a phrase exactly if the symbols pass for a
right side of it, whatever the number of the node says. -/
theorem exists_combine_iff {phrase : Phrase} {rule : Option Nat}
    {symbols : List (Symbol TokenKind Phrase)} {values : List Value}
    (shown : List.Forall₂ Shows symbols values) :
    (∃ value, combine phrase rule values = .ok value) ↔ Fits phrase symbols := by
  constructor
  · rintro ⟨value, combined⟩
    exact fits_of_combine shown combined
  · intro fits
    exact exists_combine_of_fits shown fits

/-! ## What keeps a node from a rule -/

/-- The marks are where the rules of a phrase have them, and no document is below it. -/
structure IsMarked (phrase : Phrase) (symbols : List (Symbol TokenKind Phrase)) : Prop where
  inner : .nonTerminal .document ∉ symbols
  ends : phrase = .document → symbols[1]? = some (.terminal .endOfInput)
  opens : phrase = .expression → symbols[0]? = some (.terminal .leftParen)
  closes : phrase = .expression → symbols[3]? = some (.terminal .rightParen)

theorem isMarked_of_mem {rule : Rule TokenKind Phrase} (listed : rule ∈ rules) :
    IsMarked rule.lhs rule.rhs where
  inner := by
    have all : ∀ rule ∈ rules, .nonTerminal .document ∉ rule.rhs := by decide
    exact all rule listed
  ends := by
    have all : ∀ rule ∈ rules, rule.lhs = .document →
        rule.rhs[1]? = some (.terminal .endOfInput) := by decide
    exact all rule listed
  opens := by
    have all : ∀ rule ∈ rules, rule.lhs = .expression →
        rule.rhs[0]? = some (.terminal .leftParen) := by decide
    exact all rule listed
  closes := by
    have all : ∀ rule ∈ rules, rule.lhs = .expression →
        rule.rhs[3]? = some (.terminal .rightParen) := by decide
    exact all rule listed

theorem IsMarked.eq_expression {phrase : Phrase} {symbols : List (Symbol TokenKind Phrase)}
    (marked : IsMarked phrase symbols) {symbol : Symbol TokenKind Phrase} (listed : symbol ∈ symbols)
    (passes : PassesFor (.nonTerminal .expression) symbol) : symbol = .nonTerminal .expression := by
  cases passes with
  | same => rfl
  | document => exact absurd listed marked.inner

theorem Fits.matches {phrase : Phrase} {symbols : List (Symbol TokenKind Phrase)}
    (fits : Fits phrase symbols) (marked : IsMarked phrase symbols) : Matches phrase symbols := by
  rw [Fits, exists_rule_iff] at fits
  rw [Matches, exists_rule_iff]
  rcases fits with
    ⟨rfl, side⟩ | ⟨rfl, side⟩ | ⟨rfl, side⟩ | ⟨rfl, side⟩ | ⟨rfl, side⟩ | ⟨rfl, side⟩
  · obtain _ | ⟨passes, _ | ⟨_, _ | _⟩⟩ := side
    obtain rfl := marked.eq_expression List.mem_cons_self passes
    obtain rfl := Option.some.inj (marked.ends rfl)
    exact .inl ⟨rfl, rfl⟩
  · obtain _ | ⟨_, _ | ⟨passesName, _ | ⟨passesArgs, _ | ⟨_, _ | _⟩⟩⟩⟩ := side
    obtain rfl := Option.some.inj (marked.opens rfl)
    obtain rfl := passesName.eq_of_terminal rfl
    obtain rfl := passesArgs.eq_of_nonTerminal (by decide)
    obtain rfl := Option.some.inj (marked.closes rfl)
    exact .inr (.inl ⟨rfl, rfl⟩)
  · obtain _ | ⟨passesFirst, _ | ⟨passesRest, _ | _⟩⟩ := side
    obtain rfl := passesFirst.eq_of_nonTerminal (by decide)
    obtain rfl := passesRest.eq_of_nonTerminal (by decide)
    exact .inr (.inr (.inl ⟨rfl, rfl⟩))
  · cases side
    exact .inr (.inr (.inr (.inl ⟨rfl, rfl⟩)))
  · obtain _ | ⟨passes, _ | _⟩ := side
    obtain rfl := passes.eq_of_terminal rfl
    exact .inr (.inr (.inr (.inr (.inl ⟨rfl, rfl⟩))))
  · obtain _ | ⟨passes, _ | _⟩ := side
    obtain rfl := marked.eq_expression List.mem_cons_self passes
    exact .inr (.inr (.inr (.inr (.inr ⟨rfl, rfl⟩))))

theorem matches_iff {phrase : Phrase} {symbols : List (Symbol TokenKind Phrase)} :
    Matches phrase symbols ↔ Fits phrase symbols ∧ IsMarked phrase symbols := by
  constructor
  · rintro ⟨rule, listed, rfl, rfl⟩
    have passes : List.Forall₂ PassesFor rule.rhs rule.rhs := List.forall₂_same.mpr fun _ _ => .same
    exact ⟨⟨rule, listed, rfl, passes⟩, isMarked_of_mem listed⟩
  · rintro ⟨fits, marked⟩
    exact fits.matches marked

end Lookahead.SExpr
