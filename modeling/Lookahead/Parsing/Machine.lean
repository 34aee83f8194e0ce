import Lookahead.Parsing.Turn

/-!
# The predictive parser

A parse takes turns until one of them ends it. Expansions take no token, so a table could make them
follow each other for ever. The quiet frames all look at the same token, so when there are more of
them than the grammar has rules, a non terminal has come back to itself and will do so again and
again. The parser stops there; the table of an accepted grammar never lets it come to that
(`Coherent.quiet_le`). With that bound, every step either takes a token, or makes the weight of
the frames smaller, where a frame weighs the less the more quiet frames are around it.
-/

set_option autoImplicit false

namespace Lookahead

namespace Parsing

variable {Source T N : Type} [DecidableEq T] [DecidableEq N]

/-- One step: a turn, unless it opens more quiet frames than the grammar has rules. -/
def step (table : Table T N) (kind : TokenSource Source T) (state : State Source T N) :
    Step Source T N :=
  match advance table kind state with
  | .done run => .done run
  | .next next =>
      if next.quiet ≤ table.grammar.rules.length then .next next
      else .done ⟨.error (.endless next.current.rule.lhs), state.events.reverse, next.feed.source⟩

theorem advance_of_step {table : Table T N} {kind : TokenSource Source T}
    {state next : State Source T N} (stepped : step table kind state = .next next) :
    advance table kind state = .next next ∧ next.quiet ≤ table.grammar.rules.length := by
  unfold step at stepped
  split at stepped
  · cases stepped
  · rename_i after advanced
    split at stepped
    · rename_i room
      cases stepped
      exact ⟨advanced, room⟩
    · cases stepped

/-! ## Every parse ends -/

/-- More than the number of symbols on any right side, so that a frame weighs more than a quiet one
inside it. -/
def frameBase (rules : List (Rule T N)) : Nat :=
  rules.foldr (fun rule bound => max (rule.rhs.length + 2) bound) 2

/-- Frames are listed innermost first, and the first `quiet` of them are quiet. -/
def weight (base limit : Nat) : Nat → List (Frame T N) → Nat
  | _, [] => 0
  | quiet, frame :: around =>
      (frame.pending.length + 1) * Nat.pow base (limit - quiet) + weight base limit (quiet - 1) around

/-- What gets smaller with every step: the tokens left, then the weight of the frames. -/
def State.measure (table : Table T N) (kind : TokenSource Source T) (state : State Source T N) :
    Nat × Nat :=
  (state.feed.size kind,
    weight (frameBase table.grammar.rules) table.grammar.rules.length state.quiet
      (state.current :: state.parents))

omit [DecidableEq T] [DecidableEq N] in
theorem two_le_frameBase (rules : List (Rule T N)) : 2 ≤ frameBase rules := by
  induction rules with
  | nil => exact Nat.le_refl _
  | cons rule rules ih => exact Nat.le_trans ih (Nat.le_max_right ..)

omit [DecidableEq T] [DecidableEq N] in
theorem length_lt_frameBase {rules : List (Rule T N)} {rule : Rule T N} (listed : rule ∈ rules) :
    rule.rhs.length + 1 < frameBase rules := by
  induction rules with
  | nil => cases listed
  | cons first rules ih =>
      cases listed with
      | head => exact Nat.lt_of_lt_of_le (Nat.lt_succ_self _) (Nat.le_max_left ..)
      | tail _ later => exact Nat.lt_of_lt_of_le (ih later) (Nat.le_max_right ..)

omit [DecidableEq T] [DecidableEq N] in
theorem weight_expand {base limit quiet : Nat} {inner rule : Rule T N} {symbol : Symbol T N}
    {pending : List (Symbol T N)} {children : List (SyntaxTree T N)} (around : List (Frame T N))
    (short : inner.rhs.length + 1 < base) (room : quiet < limit) :
    weight base limit (quiet + 1) (.start inner :: ⟨rule, pending, children⟩ :: around) <
      weight base limit quiet (⟨rule, symbol :: pending, children⟩ :: around) := by
  obtain ⟨exponent, split⟩ : ∃ exponent, limit - quiet = exponent + 1 :=
    ⟨limit - quiet - 1, by omega⟩
  have below : limit - (quiet + 1) = exponent := by omega
  have positive : 0 < Nat.pow base exponent := Nat.pow_pos (by omega)
  have raised : Nat.pow base (exponent + 1) = base * Nat.pow base exponent := Nat.pow_succ'
  have lighter : (inner.rhs.length + 1) * Nat.pow base exponent < base * Nat.pow base exponent :=
    Nat.mul_lt_mul_of_pos_right short positive
  simp only [weight, Frame.start, below, split, Nat.add_sub_cancel, List.length_cons, raised,
    Nat.add_mul, Nat.one_mul] at lighter ⊢
  omega

omit [DecidableEq T] [DecidableEq N] in
theorem weight_finish {base limit quiet : Nat} (frame parent : Frame T N) (tree : SyntaxTree T N)
    (around : List (Frame T N)) (large : 0 < base) :
    weight base limit (quiet - 1) (parent.push tree parent.pending :: around) <
      weight base limit quiet (frame :: parent :: around) := by
  have positive : 0 < (frame.pending.length + 1) * Nat.pow base (limit - quiet) :=
    Nat.mul_pos (Nat.succ_pos _) (Nat.pow_pos large)
  simp only [weight, Frame.push]
  omega

theorem measure_step {table : Table T N} {kind : TokenSource Source T}
    {state next : State Source T N} (stepped : step table kind state = .next next) :
    Prod.Lex (· < ·) (· < ·) (next.measure table kind) (state.measure table kind) := by
  obtain ⟨advanced, room⟩ := advance_of_step stepped
  cases turn_iff.mpr advanced with
  | close =>
      exact .right _ (weight_finish _ _ _ _ (Nat.lt_of_lt_of_le (by decide)
        (two_le_frameBase table.grammar.rules)))
  | shift taken => exact .left _ _ (Feed.size_take taken)
  | expand seen chosen =>
      rcases Nat.lt_or_eq_of_le (Feed.size_peek seen) with shorter | same
      · exact .left _ _ shorter
      · simp only [State.measure, same]
        exact .right _ (weight_expand _ (length_lt_frameBase (Table.mem_rules_of_get? chosen)) room)

def run (table : Table T N) (kind : TokenSource Source T) (state : State Source T N) :
    Run Source T N :=
  match _stepped : step table kind state with
  | .done run => run
  | .next next => run table kind next
termination_by state.measure table kind
decreasing_by exact measure_step _stepped

end Parsing

namespace Table

variable {Source T N : Type} [DecidableEq T] [DecidableEq N]

/-- Tokens after the derivation are left in the source. -/
def parseSymbol (table : Table T N) (kind : TokenSource Source T) (symbol : Symbol T N)
    (source : Source) : Run Source T N :=
  match Parsing.opening table kind symbol source with
  | .done run => run
  | .next state => Parsing.run table kind state

theorem parseSymbol_of_done {table : Table T N} {kind : TokenSource Source T}
    {symbol : Symbol T N} {source : Source} {run : Run Source T N}
    (opened : Parsing.opening table kind symbol source = .done run) :
    table.parseSymbol kind symbol source = run := by
  rw [parseSymbol, opened]

theorem parseSymbol_of_next {table : Table T N} {kind : TokenSource Source T}
    {symbol : Symbol T N} {source : Source} {state : Parsing.State Source T N}
    (opened : Parsing.opening table kind symbol source = .next state) :
    table.parseSymbol kind symbol source = Parsing.run table kind state := by
  rw [parseSymbol, opened]

def parse (table : Table T N) (kind : TokenSource Source T) (source : Source) :
    Run Source T N :=
  table.parseSymbol kind (.nonTerminal table.grammar.start) source

end Table

end Lookahead
