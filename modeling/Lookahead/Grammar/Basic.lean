import Lookahead.Text.Quoted

/-!
# Grammars and tokens

Rules over terminals and non terminals, and the tokens, whose kinds are the terminals.
-/

set_option autoImplicit false

namespace Lookahead

/-!
## Grammars

A grammar is a numbered list of rules over terminals and non terminals, with a start symbol.
`Grammar.ofRules` accepts the closed ones, in which the start symbol and every non terminal of a
right side have a rule, and lists their symbols in order of appearance.

The fields of a `Grammar` are open to other producers (a grammar may be read back from a file), so
a rule's `index` is not bound to its position, and the symbol lists need not be complete. The
analyses of this library are defined for all such values.
-/

inductive Symbol (T N : Type) where
  | terminal (name : T)
  | nonTerminal (name : N)
  deriving DecidableEq

namespace Symbol

variable {T N : Type}

def terminal? : Symbol T N → Option T
  | terminal name => some name
  | nonTerminal _ => none

def nonTerminal? : Symbol T N → Option N
  | terminal _ => none
  | nonTerminal name => some name

def isTerminal : Symbol T N → Bool
  | terminal _ => true
  | nonTerminal _ => false

instance [Labelled T] [Labelled N] : Labelled (Symbol T N) where
  label
    | terminal name => label name
    | nonTerminal name => label name

end Symbol

/-- The index is the number that tables and trees refer to the rule by. -/
structure Rule (T N : Type) where
  index : Nat
  lhs : N
  rhs : List (Symbol T N)
  deriving DecidableEq

namespace Rule

variable {T N : Type}

def isEpsilon (rule : Rule T N) : Bool :=
  rule.rhs.isEmpty

def terminals (rule : Rule T N) : List T :=
  rule.rhs.filterMap Symbol.terminal?

def nonTerminals (rule : Rule T N) : List N :=
  rule.rhs.filterMap Symbol.nonTerminal?

@[simp]
theorem mem_terminals {rule : Rule T N} {name : T} :
    name ∈ rule.terminals ↔ .terminal name ∈ rule.rhs := by
  simp only [terminals, List.mem_filterMap]
  constructor
  · rintro ⟨symbol, inside, found⟩
    cases symbol <;> simp_all [Symbol.terminal?]
  · exact fun inside => ⟨.terminal name, inside, rfl⟩

@[simp]
theorem mem_nonTerminals {rule : Rule T N} {name : N} :
    name ∈ rule.nonTerminals ↔ .nonTerminal name ∈ rule.rhs := by
  simp only [nonTerminals, List.mem_filterMap]
  constructor
  · rintro ⟨symbol, inside, found⟩
    cases symbol <;> simp_all [Symbol.nonTerminal?]
  · exact fun inside => ⟨.nonTerminal name, inside, rfl⟩

def numbered (sides : List (N × List (Symbol T N))) : List (Rule T N) :=
  sides.zipIdx.map fun entry => ⟨entry.2, entry.1.1, entry.1.2⟩

def renumber (rules : List (Rule T N)) : List (Rule T N) :=
  rules.zipIdx.map fun entry => { entry.1 with index := entry.2 }

theorem index_of_renumber {rules : List (Rule T N)} {position : Nat} {rule : Rule T N}
    (found : (renumber rules)[position]? = some rule) : rule.index = position := by
  simp only [renumber, List.getElem?_map, List.getElem?_zipIdx, Option.map_map] at found
  obtain ⟨original, _, rfl⟩ := Option.map_eq_some_iff.mp found
  simp

theorem getElem?_index {rules : List (Rule T N)}
    (numbered : ∀ {position : Nat} {rule : Rule T N},
      rules[position]? = some rule → rule.index = position)
    {rule : Rule T N} (listed : rule ∈ rules) : rules[rule.index]? = some rule := by
  obtain ⟨position, found⟩ := List.mem_iff_getElem?.mp listed
  rw [numbered found, found]

theorem exists_of_mem_renumber {rules : List (Rule T N)} {rule : Rule T N}
    (listed : rule ∈ renumber rules) :
    ∃ original ∈ rules, original.lhs = rule.lhs ∧ original.rhs = rule.rhs := by
  obtain ⟨⟨original, position⟩, found, rfl⟩ := List.mem_map.mp listed
  exact ⟨original, List.fst_mem_of_mem_zipIdx found, rfl, rfl⟩

variable [Labelled T] [Labelled N]

def describeSide (side : List (Symbol T N)) : String :=
  if side.isEmpty then "ε" else " ".intercalate (side.map label)

def describe (rule : Rule T N) : String :=
  toString rule.index ++ ": " ++ label rule.lhs ++ " -> " ++ describeSide rule.rhs

end Rule

structure Grammar (T N : Type) where
  rules : List (Rule T N)
  start : N
  terminals : List T
  nonTerminals : List N
  deriving DecidableEq

inductive GrammarError (N : Type) where
  | undefinedStart (start : N)
  | underived (name : N)
  deriving DecidableEq

def GrammarError.symbol {N : Type} : GrammarError N → N
  | undefinedStart start => start
  | underived name => name

def GrammarError.message {N : Type} [Labelled N] : GrammarError N → String
  | undefinedStart start => "start symbol " ++ label start ++ " has no rule"
  | underived name => label name ++ " is used in a rule but has no rule deriving it"

namespace Grammar

variable {T N : Type} [DecidableEq T] [DecidableEq N]

/-- What keeps rules from being closed: first a start symbol without a rule, then the first non
terminal of a right side without one. -/
def openness? (rules : List (Rule T N)) (start : N) : Option (GrammarError N) :=
  let defined := rules.map Rule.lhs
  if start ∈ defined then
    ((rules.flatMap Rule.nonTerminals).find? (· ∉ defined)).map .underived
  else
    some (.undefinedStart start)

/-- The non terminals are listed in order of their first rule, the terminals in order of first
use. -/
def ofRules (rules : List (Rule T N)) (start : N) : Except (GrammarError N) (Grammar T N) :=
  match openness? rules start with
  | some error => .error error
  | none =>
      .ok {
        rules := Rule.renumber rules
        start := start
        terminals := (rules.flatMap Rule.terminals).eraseDups
        nonTerminals := (rules.map Rule.lhs).eraseDups }

theorem index_of_ofRules {rules : List (Rule T N)} {start : N} {grammar : Grammar T N}
    (accepted : ofRules rules start = .ok grammar) {position : Nat} {rule : Rule T N}
    (found : grammar.rules[position]? = some rule) : rule.index = position := by
  unfold ofRules at accepted
  split at accepted
  · cases accepted
  · cases accepted
    exact Rule.index_of_renumber found

theorem mem_terminals_of_ofRules {rules : List (Rule T N)} {start : N} {grammar : Grammar T N}
    (accepted : ofRules rules start = .ok grammar) {rule : Rule T N} (listed : rule ∈ grammar.rules)
    {terminal : T} (used : .terminal terminal ∈ rule.rhs) : terminal ∈ grammar.terminals := by
  unfold ofRules at accepted
  split at accepted
  · cases accepted
  · cases accepted
    obtain ⟨original, known, _, side⟩ := Rule.exists_of_mem_renumber listed
    rw [List.mem_eraseDups, List.mem_flatMap]
    exact ⟨original, known, Rule.mem_terminals.mpr (side ▸ used)⟩

omit [DecidableEq T] [DecidableEq N] in
def rule? (grammar : Grammar T N) (position : Nat) : Option (Rule T N) :=
  grammar.rules[position]?

omit [DecidableEq T] in
def rulesFor (grammar : Grammar T N) (name : N) : List (Rule T N) :=
  grammar.rules.filter (·.lhs = name)

end Grammar

/-!
## Tokens

What a scanner hands to the parser: the kind of the token, which is a terminal of the grammar, the
text it was read from, and where in the input that text starts.
-/

/-- The position counts bytes. The text is empty at the end of the input. -/
structure Token (T : Type) where
  kind : T
  text : String
  position : Nat
  deriving DecidableEq

def Token.describe {T : Type} [Labelled T] (token : Token T) : String :=
  if token.text.isEmpty then
    label token.kind ++ " at " ++ toString token.position
  else
    "\"" ++ token.text ++ "\" (" ++ label token.kind ++ ") at " ++ toString token.position

end Lookahead
