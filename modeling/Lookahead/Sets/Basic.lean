import Lookahead.Grammar.Basic
import Lookahead.Sets.Saturation
import Lookahead.Sets.Rows

/-!
# The sets of a grammar

Three sets are computed one after the other, each by passes over the rules: the nullable non
terminals, FIRST, which needs them, and FOLLOW, which needs both.
-/

set_option autoImplicit false

namespace Lookahead

/-!
## Records of what is done

The analyses and the parser can tell what they do step by step. Such an account is a list of
records, each about one part of the work.
-/

inductive Detail where
  | debug
  | trace
  deriving DecidableEq

inductive Topic where
  | sets
  | table
  | parsing
  | command
  deriving DecidableEq

structure Record where
  detail : Detail
  topic : Topic
  message : String
  deriving DecidableEq

/-!
## Nullable non terminals

A non terminal is nullable if it derives the empty string. The set is found by passes over the
rules: a left side becomes nullable when all symbols of a right side are.
-/

section Nullability

variable {T N : Type} [DecidableEq N]

def Symbol.isNullable (nullable : List N) : Symbol T N → Bool
  | terminal _ => false
  | nonTerminal name => name ∈ nullable

namespace Nullable

def stepRule (state : List N × Bool) (rule : Rule T N) : List N × Bool :=
  if rule.lhs ∈ state.1 then state
  else if rule.rhs.all (Symbol.isNullable state.1) then (rule.lhs :: state.1, true)
  else state

def pass (rules : List (Rule T N)) (nullable : List N) : List N × Bool :=
  rules.foldl stepRule (nullable, false)

def compute (grammar : Grammar T N) : List N × Nat :=
  saturate (pass grammar.rules) grammar.rules.length []

end Nullable

end Nullability

/-!
## FIRST sets

FIRST of a symbol holds the terminals that what it derives can start with. A listed terminal starts
with itself. The rows of the non terminals are found by passes over the rules.
-/

variable {T N : Type} [DecidableEq T] [DecidableEq N]

structure FirstSets (T N : Type) where
  terminals : List T
  rows : Rows T N

namespace FirstSets

def set? (first : FirstSets T N) : Symbol T N → Option (List T)
  | .terminal name => if name ∈ first.terminals then some [name] else none
  | .nonTerminal name => first.rows.row? name

def set (first : FirstSets T N) (symbol : Symbol T N) : List T :=
  (first.set? symbol).getD []

/-- FIRST of a sequence: that of its first symbol, and while the symbols are nullable that of the
symbols after them too. -/
def ofSequence (nullable : List N) (first : FirstSets T N) : List (Symbol T N) → List T
  | [] => []
  | symbol :: rest =>
      if symbol.isNullable nullable then
        unite (first.set symbol) (ofSequence nullable first rest)
      else
        first.set symbol

@[simp]
theorem mem_set_terminal {first : FirstSets T N} {name terminal : T} :
    terminal ∈ first.set (.terminal name) ↔ name ∈ first.terminals ∧ terminal = name := by
  by_cases listed : name ∈ first.terminals <;> simp [set, set?, listed]

@[simp]
theorem mem_ofSequence_cons {nullable : List N} {first : FirstSets T N} {symbol : Symbol T N}
    {rest : List (Symbol T N)} {terminal : T} :
    terminal ∈ ofSequence nullable first (symbol :: rest) ↔
      terminal ∈ first.set symbol ∨
        symbol.isNullable nullable = true ∧ terminal ∈ ofSequence nullable first rest := by
  by_cases erasable : symbol.isNullable nullable = true <;> simp [ofSequence, erasable]

def stepRule (nullable : List N) (terminals : List T) (growth : Growth T N) (rule : Rule T N) :
    Growth T N :=
  growth.add rule.lhs (ofSequence nullable ⟨terminals, growth.rows⟩ rule.rhs)

def pass (rules : List (Rule T N)) (nullable : List N) (terminals : List T) (rows : Rows T N) :
    Rows T N × Bool :=
  let growth := rules.foldl (stepRule nullable terminals) ⟨rows, false⟩
  (growth.rows, growth.grew)

def compute (grammar : Grammar T N) (nullable : List N) : FirstSets T N × Nat :=
  let spare := grammar.rules.length * grammar.terminals.length
  let found := saturate (pass grammar.rules nullable grammar.terminals) spare
    (Rows.ofNames grammar.nonTerminals)
  (⟨grammar.terminals, found.1⟩, found.2)

def entries (first : FirstSets T N) : List (Symbol T N × List T) :=
  first.rows.map (fun entry => (.nonTerminal entry.1, entry.2)) ++
    first.terminals.eraseDups.map (fun name => (.terminal name, [name]))

end FirstSets

/-!
## FOLLOW sets

FOLLOW of a non terminal holds the terminals that can stand right after it in what some non
terminal derives. No end marker is added: a grammar has one of its own if it needs one.

A pass scans every right side from its end with a trailer, the set of terminals that can stand
after the place it has reached. The trailer starts as FOLLOW of the left side.
-/

namespace Follow

def trailerBefore (nullable : List N) (first : FirstSets T N) (symbol : Symbol T N)
    (trailer : List T) : List T :=
  if symbol.isNullable nullable then unite trailer (first.set symbol) else first.set symbol

@[simp]
theorem mem_trailerBefore {nullable : List N} {first : FirstSets T N} {symbol : Symbol T N}
    {trailer : List T} {terminal : T} :
    terminal ∈ trailerBefore nullable first symbol trailer ↔
      terminal ∈ first.set symbol ∨ symbol.isNullable nullable = true ∧ terminal ∈ trailer := by
  by_cases erasable : symbol.isNullable nullable = true <;>
    simp [trailerBefore, erasable, or_comm]

/-- Scans a right side, given in reverse: each non terminal is followed by the trailer at it. -/
def scan (nullable : List N) (first : FirstSets T N) :
    List (Symbol T N) → List T → Growth T N → Growth T N
  | [], _, growth => growth
  | symbol :: before, trailer, growth =>
      scan nullable first before (trailerBefore nullable first symbol trailer)
        (match symbol with
          | .terminal _ => growth
          | .nonTerminal name => growth.add name trailer)

/-- FOLLOW of the left side is read once, before the scan. -/
def stepRule (nullable : List N) (first : FirstSets T N) (growth : Growth T N) (rule : Rule T N) :
    Growth T N :=
  scan nullable first rule.rhs.reverse (growth.rows.row rule.lhs) growth

def pass (rules : List (Rule T N)) (nullable : List N) (first : FirstSets T N) (rows : Rows T N) :
    Rows T N × Bool :=
  let growth := rules.foldl (stepRule nullable first) ⟨rows, false⟩
  (growth.rows, growth.grew)

def compute (grammar : Grammar T N) (nullable : List N) (first : FirstSets T N) :
    Rows T N × Nat :=
  let spare := (grammar.rules.flatMap Rule.nonTerminals).length * grammar.terminals.length
  saturate (pass grammar.rules nullable first) spare (Rows.ofNames grammar.nonTerminals)

end Follow

/-!
## All three sets

The nullable non terminals, FIRST and FOLLOW of a grammar, computed in that order, with the
questions that tables and readers ask of them. The lookaheads of a rule are the terminals on which
a parser may choose it.
-/

/-- The last pass of each set changes nothing. -/
structure Passes where
  nullable : Nat
  first : Nat
  follow : Nat
  deriving DecidableEq

structure Sets (T N : Type) where
  nullable : List N
  first : FirstSets T N
  follow : Rows T N
  passes : Passes

namespace Sets

def ofGrammar (grammar : Grammar T N) : Sets T N :=
  let nullable := Nullable.compute grammar
  let first := FirstSets.compute grammar nullable.1
  let follow := Follow.compute grammar nullable.1 first.1
  { nullable := nullable.1
    first := first.1
    follow := follow.1
    passes := ⟨nullable.2, first.2, follow.2⟩ }

omit [DecidableEq T] in
def isNullable (sets : Sets T N) (name : N) : Bool :=
  name ∈ sets.nullable

omit [DecidableEq T] in
def isNullableSequence (sets : Sets T N) (symbols : List (Symbol T N)) : Bool :=
  symbols.all (Symbol.isNullable sets.nullable)

def first? (sets : Sets T N) (symbol : Symbol T N) : Option (List T) :=
  sets.first.set? symbol

def firstOf (sets : Sets T N) (symbols : List (Symbol T N)) : List T :=
  sets.first.ofSequence sets.nullable symbols

omit [DecidableEq T] in
def follow? (sets : Sets T N) (name : N) : Option (List T) :=
  sets.follow.row? name

/-- The lookaheads of a rule: FIRST of its right side, and FOLLOW of its left side if the right
side is nullable. -/
def lookaheads (sets : Sets T N) (rule : Rule T N) : List T :=
  if sets.isNullableSequence rule.rhs then
    unite (sets.firstOf rule.rhs) (sets.follow.row rule.lhs)
  else
    sets.firstOf rule.rhs

theorem mem_lookaheads {sets : Sets T N} {rule : Rule T N} {terminal : T} :
    terminal ∈ sets.lookaheads rule ↔
      terminal ∈ sets.firstOf rule.rhs ∨
        sets.isNullableSequence rule.rhs = true ∧ terminal ∈ sets.follow.row rule.lhs := by
  by_cases erasable : sets.isNullableSequence rule.rhs = true <;> simp [lookaheads, erasable]

omit [DecidableEq T] [DecidableEq N] in
def records (sets : Sets T N) (grammar : Grammar T N) : List Record :=
  [⟨.debug, .sets, "nullable converged after " ++ toString sets.passes.nullable ++ " passes: " ++
      toString sets.nullable.length ++ " of " ++ toString grammar.nonTerminals.length ++
      " non terminals"⟩,
    ⟨.debug, .sets, "FIRST converged after " ++ toString sets.passes.first ++ " passes"⟩,
    ⟨.debug, .sets, "FOLLOW converged after " ++ toString sets.passes.follow ++ " passes"⟩]

end Sets

end Lookahead
