import Lookahead.Sets.Basic

/-!
# Closed grammars

`Grammar.ofRules` accepts the closed lists of rules and gives each rule its position
(`ofRules_ok_iff`, `mem_renumber`). All non terminals of such a grammar are listed, so no pass makes
a row that was not there from the start, and FIRST and FOLLOW have entries for exactly the listed
ones (`Sets.first?_isSome_iff`, `Sets.follow?_isSome_iff`).
-/

set_option autoImplicit false

namespace Lookahead

variable {T N : Type}

structure Grammar.IsClosed (rules : List (Rule T N)) (start : N) : Prop where
  start : start ∈ rules.map Rule.lhs
  used : ∀ rule ∈ rules, ∀ name, .nonTerminal name ∈ rule.rhs → name ∈ rules.map Rule.lhs

theorem Rule.getElem?_renumber {rules : List (Rule T N)} {position : Nat} :
    (renumber rules)[position]? =
      rules[position]?.map fun original => ⟨position, original.lhs, original.rhs⟩ := by
  simp [renumber, Function.comp_def]

theorem Rule.mem_renumber {rules : List (Rule T N)} {rule : Rule T N} :
    rule ∈ renumber rules ↔
      ∃ original, rules[rule.index]? = some original ∧ original.lhs = rule.lhs ∧
        original.rhs = rule.rhs := by
  constructor
  · intro listed
    obtain ⟨position, found⟩ := List.mem_iff_getElem?.mp listed
    rw [getElem?_renumber] at found
    obtain ⟨original, atPosition, rfl⟩ := Option.map_eq_some_iff.mp found
    exact ⟨original, atPosition, rfl, rfl⟩
  · rintro ⟨original, found, left, right⟩
    apply List.mem_of_getElem? (i := rule.index)
    rw [getElem?_renumber, found, Option.map_some, left, right]

theorem nodup_eraseDups {α : Type} [DecidableEq α] (list : List α) : list.eraseDups.Nodup := by
  induction size : list.length using Nat.strongRecOn generalizing list with
  | ind bound ih =>
      cases list with
      | nil => exact List.nodup_nil
      | cons first rest =>
          have shorter : (rest.filter fun other => !other == first).length < bound := by
            rw [← size]
            exact Nat.lt_succ_of_le (List.length_filter_le _ rest)
          rw [List.eraseDups_cons, List.nodup_cons]
          refine ⟨?_, ih _ shorter _ rfl⟩
          rw [List.mem_eraseDups, List.mem_filter]
          simp

namespace Grammar

variable [DecidableEq T] [DecidableEq N] {rules : List (Rule T N)} {start : N}
  {grammar : Grammar T N}

omit [DecidableEq T] in
theorem openness?_eq_none_iff : openness? rules start = none ↔ IsClosed rules start := by
  unfold openness?
  dsimp only
  split
  · rename_i begins
    simp only [Option.map_eq_none_iff, List.find?_eq_none, List.mem_flatMap, decide_eq_true_eq,
      Decidable.not_not]
    constructor
    · intro all
      refine ⟨begins, fun rule listed name used => ?_⟩
      exact all name ⟨rule, listed, Rule.mem_nonTerminals.mpr used⟩
    · rintro ⟨_, used⟩ name ⟨rule, listed, inside⟩
      exact used rule listed name (Rule.mem_nonTerminals.mp inside)
  · rename_i missing
    constructor
    · intro impossible
      cases impossible
    · intro closed
      exact absurd closed.start missing

theorem ofRules_ok_iff : ofRules rules start = .ok grammar ↔ IsClosed rules start ∧
    grammar = ⟨Rule.renumber rules, start, (rules.flatMap Rule.terminals).eraseDups,
      (rules.map Rule.lhs).eraseDups⟩ := by
  rw [← openness?_eq_none_iff]
  unfold ofRules
  cases openness? rules start with
  | some error => simp
  | none =>
      simp only [Except.ok.injEq, true_and]
      exact eq_comm

section Accepted

variable (accepted : ofRules rules start = .ok grammar) {rule : Rule T N}

include accepted

theorem lhs_mem_nonTerminals (listed : rule ∈ grammar.rules) : rule.lhs ∈ grammar.nonTerminals := by
  obtain ⟨_, rfl⟩ := ofRules_ok_iff.mp accepted
  obtain ⟨original, known, left, _⟩ := Rule.exists_of_mem_renumber listed
  rw [List.mem_eraseDups, ← left]
  exact List.mem_map_of_mem known

theorem mem_nonTerminals_of_ofRules (listed : rule ∈ grammar.rules) {name : N}
    (used : .nonTerminal name ∈ rule.rhs) : name ∈ grammar.nonTerminals := by
  obtain ⟨closed, rfl⟩ := ofRules_ok_iff.mp accepted
  obtain ⟨original, known, _, right⟩ := Rule.exists_of_mem_renumber listed
  rw [List.mem_eraseDups]
  exact closed.used original known name (right ▸ used)

end Accepted

end Grammar

/-! ## Rows -/

theorem saturate_keeps {State : Type} {pass : State → State × Bool} (good : State → Prop)
    (kept : ∀ state, good state → good (pass state).1) (spare : Nat) {state : State}
    (start : good state) : good (saturate pass spare state).1 := by
  induction spare generalizing state with
  | zero => exact kept state start
  | succ spare ih =>
      cases changed : (pass state).2 with
      | false =>
          rw [saturate_unchanged _ changed]
          exact kept state start
      | true =>
          rw [saturate_changed _ changed]
          exact ih (kept state start)

variable [DecidableEq T] [DecidableEq N]

namespace Rows

omit [DecidableEq T] [DecidableEq N] in
def names (rows : Rows T N) : List N :=
  rows.map Prod.fst

omit [DecidableEq T] in
theorem row?_isSome_iff {rows : Rows T N} {name : N} :
    (rows.row? name).isSome = true ↔ name ∈ rows.names := by
  induction rows with
  | nil => simp [row?, names]
  | cons entry rest ih =>
      obtain ⟨other, row⟩ := entry
      rw [names, List.map_cons, List.mem_cons, ← names, ← ih, row?]
      by_cases same : other = name
      · simp [same]
      · simp [same, Ne.symm same]

omit [DecidableEq T] in
theorem names_ofNames (listed : List N) : (ofNames listed : Rows T N).names = listed.eraseDups := by
  simp [names, ofNames, Function.comp_def]

theorem names_add {rows : Rows T N} {name : N} (listed : name ∈ rows.names) (terminals : List T) :
    (rows.add name terminals).names = rows.names := by
  induction rows with
  | nil => cases listed
  | cons entry rest ih =>
      obtain ⟨other, row⟩ := entry
      rw [add]
      by_cases same : other = name
      · rw [if_pos same]
        rfl
      · have later : name ∈ Rows.names rest := by
          rcases List.mem_cons.mp listed with here | later
          · exact absurd here.symm same
          · exact later
        rw [if_neg same, names, List.map_cons, ← names, ih later]
        rfl

omit [DecidableEq T] [DecidableEq N] in
theorem names_foldl {Item : Type} {step : Growth T N → Item → Growth T N} {listed : List N}
    {items : List Item} (keeps : ∀ growth, ∀ item ∈ items, growth.rows.names = listed →
      (step growth item).rows.names = listed) (growth : Growth T N)
    (start : growth.rows.names = listed) : (items.foldl step growth).rows.names = listed := by
  induction items generalizing growth with
  | nil => exact start
  | cons item items ih =>
      have first := keeps growth item List.mem_cons_self start
      exact ih (fun growth item later => keeps growth item (List.mem_cons_of_mem _ later)) _ first

end Rows

open Rows (names)

theorem FirstSets.names_pass {rules : List (Rule T N)} {rows : Rows T N}
    (defined : ∀ rule ∈ rules, rule.lhs ∈ rows.names) (nullable : List N) (terminals : List T) :
    (pass rules nullable terminals rows).1.names = rows.names := by
  apply Rows.names_foldl _ _ rfl
  intro growth rule listed same
  have within : rule.lhs ∈ growth.rows.names := same ▸ defined rule listed
  exact (Rows.names_add within _).trans same

theorem Follow.names_scan {symbols : List (Symbol T N)} {growth : Growth T N}
    (defined : ∀ name, .nonTerminal name ∈ symbols → name ∈ growth.rows.names) (nullable : List N)
    (first : FirstSets T N) (trailer : List T) :
    (scan nullable first symbols trailer growth).rows.names = growth.rows.names := by
  induction symbols generalizing trailer growth with
  | nil => rfl
  | cons symbol symbols ih =>
      have later : ∀ name, .nonTerminal name ∈ symbols → name ∈ growth.rows.names :=
        fun name inside => defined name (List.mem_cons_of_mem _ inside)
      cases symbol with
      | terminal terminal => exact ih later _
      | nonTerminal name =>
          have same : (growth.add name trailer).rows.names = growth.rows.names :=
            Rows.names_add (defined name List.mem_cons_self) trailer
          rw [scan, ih (same.symm ▸ later), same]

theorem Follow.names_pass {rules : List (Rule T N)} {rows : Rows T N}
    (defined : ∀ rule ∈ rules, ∀ name, .nonTerminal name ∈ rule.rhs → name ∈ rows.names)
    (nullable : List N) (first : FirstSets T N) :
    (pass rules nullable first rows).1.names = rows.names := by
  apply Rows.names_foldl _ _ rfl
  intro growth rule listed same
  refine (names_scan ?_ nullable first _).trans same
  intro name used
  rw [same]
  exact defined rule listed name (List.mem_reverse.mp used)

namespace Sets

theorem first?_terminal_isSome_iff {grammar : Grammar T N} {name : T} :
    ((Sets.ofGrammar grammar).first? (.terminal name)).isSome = true ↔
      name ∈ grammar.terminals := by
  have listed : (Sets.ofGrammar grammar).first.terminals = grammar.terminals := rfl
  rw [first?, FirstSets.set?, listed]
  by_cases known : name ∈ grammar.terminals <;> simp [known]

variable {rules : List (Rule T N)} {start name : N} {grammar : Grammar T N}
  (accepted : Grammar.ofRules rules start = .ok grammar)

include accepted

theorem names_first :
    (Sets.ofGrammar grammar).first.rows.names = grammar.nonTerminals.eraseDups := by
  apply saturate_keeps fun rows : Rows T N => rows.names = grammar.nonTerminals.eraseDups
  · intro rows same
    refine (FirstSets.names_pass ?_ _ _).trans same
    intro rule listed
    rw [same, List.mem_eraseDups]
    exact Grammar.lhs_mem_nonTerminals accepted listed
  · exact Rows.names_ofNames _

theorem names_follow : (Sets.ofGrammar grammar).follow.names = grammar.nonTerminals.eraseDups := by
  apply saturate_keeps fun rows : Rows T N => rows.names = grammar.nonTerminals.eraseDups
  · intro rows same
    refine (Follow.names_pass ?_ _ _).trans same
    intro rule listed name used
    rw [same, List.mem_eraseDups]
    exact Grammar.mem_nonTerminals_of_ofRules accepted listed used
  · exact Rows.names_ofNames _

theorem first?_isSome_iff :
    ((Sets.ofGrammar grammar).first? (.nonTerminal name)).isSome = true ↔
      name ∈ grammar.nonTerminals := by
  rw [first?, FirstSets.set?, Rows.row?_isSome_iff, names_first accepted, List.mem_eraseDups]

theorem follow?_isSome_iff :
    ((Sets.ofGrammar grammar).follow? name).isSome = true ↔ name ∈ grammar.nonTerminals := by
  rw [follow?, Rows.row?_isSome_iff, names_follow accepted, List.mem_eraseDups]

end Sets

end Lookahead
