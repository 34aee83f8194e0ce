import Lookahead.Proofs.Closed
import Mathlib.Data.List.Basic
import Mathlib.Data.List.Nodup

/-!
# Which lists of rules are grammars

The symbols of the right sides have one order, rule by rule and from left to right (`Rule.uses`). A
start symbol without a rule is reported before anything else, and after it the first non terminal in
that order that has no rule (`Grammar.IsFirstUnderived`). A list of rules that is accepted keeps its
rules as they are, but for their numbers, and the symbol lists of the grammar have each symbol at its
first place (`IsFirsts`). `Grammar.Presents` says so without the functions that compute these lists,
and there is one grammar that it holds of (`Grammar.presents_iff`).
-/

set_option autoImplicit false

namespace Lookahead

/-! ## First places -/

section Firsts

variable {α β : Type} [DecidableEq α] [DecidableEq β]

/-- A list has the items of another, each once, in the order of their first places there. -/
structure IsFirsts (listed source : List α) : Prop where
  once : listed.Nodup
  mem_iff : ∀ item, item ∈ listed ↔ item ∈ source
  inOrder : listed.Pairwise fun item later => source.idxOf item < source.idxOf later

theorem idxOf_lt_of_filter {keep : α → Bool} {source : List α} {item later : α}
    (kept : keep later = true)
    (before : (source.filter keep).idxOf item < (source.filter keep).idxOf later) :
    source.idxOf item < source.idxOf later := by
  induction source with
  | nil => exact before
  | cons first rest ih =>
      by_cases here : first = later
      · rw [here, List.filter_cons_of_pos kept, List.idxOf_cons_self] at before
        exact absurd before (Nat.not_lt_zero _)
      · by_cases atItem : first = item
        · rw [atItem, List.idxOf_cons_self, List.idxOf_cons_ne rest (atItem ▸ here)]
          exact Nat.succ_pos _
        · rw [List.idxOf_cons_ne rest here, List.idxOf_cons_ne rest atItem]
          apply Nat.succ_lt_succ
          apply ih
          by_cases keptFirst : keep first = true
          · rw [List.filter_cons_of_pos keptFirst, List.idxOf_cons_ne _ atItem,
              List.idxOf_cons_ne _ here] at before
            exact Nat.lt_of_succ_lt_succ before
          · rwa [List.filter_cons_of_neg keptFirst] at before

theorem pairwise_eraseDups (source : List α) :
    source.eraseDups.Pairwise fun item later => source.idxOf item < source.idxOf later := by
  cases source with
  | nil => exact .nil
  | cons first rest =>
      have kept : ∀ item ∈ (rest.filter fun other => !other == first).eraseDups,
          (!item == first) = true := by
        intro item inside
        exact (List.mem_filter.mp (List.mem_eraseDups.mp inside)).2
      have apart : ∀ item ∈ (rest.filter fun other => !other == first).eraseDups,
          first ≠ item := by
        rintro item inside rfl
        simpa using kept first inside
      rw [List.eraseDups_cons, List.pairwise_cons]
      constructor
      · intro item inside
        rw [List.idxOf_cons_self, List.idxOf_cons_ne _ (apart item inside)]
        exact Nat.succ_pos _
      · apply (pairwise_eraseDups (rest.filter fun other => !other == first)).imp_of_mem
        intro item later inside insideLater before
        rw [List.idxOf_cons_ne _ (apart item inside),
          List.idxOf_cons_ne _ (apart later insideLater)]
        exact Nat.succ_lt_succ (idxOf_lt_of_filter (kept later insideLater) before)
termination_by source.length
decreasing_by
  exact Nat.lt_succ_of_le (List.length_filter_le _ rest)

theorem isFirsts_eraseDups (source : List α) : IsFirsts source.eraseDups source where
  once := nodup_eraseDups source
  mem_iff := fun _ => List.mem_eraseDups
  inOrder := pairwise_eraseDups source

theorem IsFirsts.unique {listed other source : List α} (isFirsts : IsFirsts listed source)
    (isFirstsToo : IsFirsts other source) : listed = other := by
  have same : listed.Perm other := by
    rw [List.perm_ext_iff_of_nodup isFirsts.once isFirstsToo.once]
    intro item
    rw [isFirsts.mem_iff, isFirstsToo.mem_iff]
  refine same.eq_of_pairwise ?_ isFirsts.inOrder isFirstsToo.inOrder
  intro item later _ _ before after
  exact absurd before (Nat.lt_asymm after)

theorem eq_eraseDups_iff {listed source : List α} :
    listed = source.eraseDups ↔ IsFirsts listed source := by
  constructor
  · rintro rfl
    exact isFirsts_eraseDups source
  · intro isFirsts
    exact isFirsts.unique (isFirsts_eraseDups source)

theorem idxOf_map {f : α → β} (apart : Function.Injective f) (item : α) (source : List α) :
    (source.map f).idxOf (f item) = source.idxOf item := by
  induction source with
  | nil => rfl
  | cons first rest ih =>
      by_cases here : first = item
      · rw [here, List.map_cons, List.idxOf_cons_self, List.idxOf_cons_self]
      · rw [List.map_cons, List.idxOf_cons_ne _ here, List.idxOf_cons_ne _ (apart.ne here), ih]

theorem isFirsts_map_iff {f : α → β} (apart : Function.Injective f) {listed source : List α} :
    IsFirsts (listed.map f) (source.map f) ↔ IsFirsts listed source := by
  have order : ((listed.map f).Pairwise fun item later =>
      (source.map f).idxOf item < (source.map f).idxOf later) ↔
        listed.Pairwise fun item later => source.idxOf item < source.idxOf later := by
    simp only [List.pairwise_map, idxOf_map apart]
  constructor
  · rintro ⟨once, mem_iff, inOrder⟩
    refine ⟨(List.nodup_map_iff apart).mp once, fun item => ?_, order.mp inOrder⟩
    have same := mem_iff (f item)
    rwa [List.mem_map_of_injective apart, List.mem_map_of_injective apart] at same
  · rintro ⟨once, mem_iff, inOrder⟩
    refine ⟨(List.nodup_map_iff apart).mpr once, fun image => ?_, order.mpr inOrder⟩
    simp only [List.mem_map, mem_iff]

end Firsts

variable {T N : Type}

/-! ## Rules -/

namespace Rule

def sides (rule : Rule T N) : N × List (Symbol T N) :=
  (rule.lhs, rule.rhs)

def uses (rules : List (Rule T N)) : List (Symbol T N) :=
  rules.flatMap rhs

theorem mem_uses {rules : List (Rule T N)} {symbol : Symbol T N} :
    symbol ∈ uses rules ↔ ∃ rule ∈ rules, symbol ∈ rule.rhs :=
  List.mem_flatMap

theorem flatMap_nonTerminals (rules : List (Rule T N)) :
    rules.flatMap nonTerminals = (uses rules).filterMap Symbol.nonTerminal? := by
  rw [uses, List.filterMap_flatMap]
  rfl

theorem map_flatMap_terminals (rules : List (Rule T N)) :
    (rules.flatMap terminals).map Symbol.terminal = (uses rules).filter Symbol.isTerminal := by
  have kept : ∀ symbols : List (Symbol T N), (symbols.filterMap Symbol.terminal?).map
      Symbol.terminal = symbols.filter Symbol.isTerminal := by
    intro symbols
    induction symbols with
    | nil => rfl
    | cons symbol symbols ih =>
        cases symbol with
        | terminal name => exact congrArg (Symbol.terminal name :: ·) ih
        | nonTerminal name => exact ih
  rw [uses, List.filter_flatMap, List.map_flatMap]
  simp only [terminals, kept]

theorem renumber_eq_numbered (rules : List (Rule T N)) :
    renumber rules = numbered (rules.map sides) := by
  simp [renumber, numbered, List.zipIdx_map, sides, Function.comp_def]

theorem map_sides_numbered (given : List (N × List (Symbol T N))) :
    (numbered given).map sides = given := by
  simp [numbered, sides, Function.comp_def]

theorem eq_renumber_iff {listed rules : List (Rule T N)} :
    listed = renumber rules ↔ listed.map sides = rules.map sides ∧
      ∀ (position : Nat) (rule : Rule T N), listed[position]? = some rule →
        rule.index = position := by
  constructor
  · rintro rfl
    rw [renumber_eq_numbered, map_sides_numbered, ← renumber_eq_numbered]
    exact ⟨rfl, fun _ _ => index_of_renumber⟩
  · rintro ⟨same, inOrder⟩
    rw [renumber_eq_numbered, ← same, ← renumber_eq_numbered]
    apply List.ext_getElem?
    intro position
    rw [getElem?_renumber]
    cases found : listed[position]? with
    | none => rfl
    | some rule => simp [← inOrder position rule found]

end Rule

theorem find?_nonTerminals {symbols : List (Symbol T N)} {missing : N → Bool} {name : N} :
    (symbols.filterMap Symbol.nonTerminal?).find? missing = some name ↔
      missing name = true ∧ ∃ before after, symbols = before ++ .nonTerminal name :: after ∧
        ∀ other, .nonTerminal other ∈ before → missing other = false := by
  rw [List.find?_filterMap, Option.bind_eq_some_iff]
  constructor
  · rintro ⟨symbol, found, named⟩
    obtain ⟨missed, before, after, split, free⟩ := List.find?_eq_some_iff_append.mp found
    cases symbol with
    | terminal => cases named
    | nonTerminal own =>
        obtain rfl : own = name := Option.some.inj named
        refine ⟨missed, before, after, split, fun other inside => ?_⟩
        simpa [Symbol.nonTerminal?] using free _ inside
  · rintro ⟨missed, before, after, split, free⟩
    refine ⟨.nonTerminal name, List.find?_eq_some_iff_append.mpr ?_, rfl⟩
    refine ⟨missed, before, after, split, fun symbol inside => ?_⟩
    cases symbol with
    | terminal => rfl
    | nonTerminal other => simp [Symbol.nonTerminal?, free other inside]

/-! ## Grammars -/

namespace Grammar

/-- A non terminal without a rule is used, and each one that is used before it has a rule. -/
def IsFirstUnderived (rules : List (Rule T N)) (name : N) : Prop :=
  name ∉ rules.map Rule.lhs ∧ ∃ before after,
    Rule.uses rules = before ++ .nonTerminal name :: after ∧
      ∀ other, .nonTerminal other ∈ before → other ∈ rules.map Rule.lhs

def Lists (grammar : Grammar T N) : Symbol T N → Prop
  | .terminal name => name ∈ grammar.terminals
  | .nonTerminal name => name ∈ grammar.nonTerminals

variable [DecidableEq T] [DecidableEq N] {rules : List (Rule T N)} {start name : N}
  {grammar : Grammar T N}

/-- A grammar has some rules, numbered by position, and their symbols. -/
structure Presents (grammar : Grammar T N) (rules : List (Rule T N)) (start : N) : Prop where
  start : grammar.start = start
  sides : grammar.rules.map Rule.sides = rules.map Rule.sides
  numbered : ∀ (position : Nat) (rule : Rule T N), grammar.rules[position]? = some rule →
    rule.index = position
  nonTerminals : IsFirsts grammar.nonTerminals (rules.map Rule.lhs)
  terminals : IsFirsts (grammar.terminals.map .terminal)
    ((Rule.uses rules).filter Symbol.isTerminal)

theorem presents_iff : grammar.Presents rules start ↔
    grammar = ⟨Rule.renumber rules, start, (rules.flatMap Rule.terminals).eraseDups,
      (rules.map Rule.lhs).eraseDups⟩ := by
  have apart : Function.Injective (Symbol.terminal : T → Symbol T N) := by
    intro name other same
    exact Symbol.terminal.inj same
  obtain ⟨listed, begins, terminals, nonTerminals⟩ := grammar
  rw [Grammar.mk.injEq, Rule.eq_renumber_iff, eq_eraseDups_iff, eq_eraseDups_iff,
    ← isFirsts_map_iff apart, Rule.map_flatMap_terminals]
  constructor
  · rintro ⟨start, sides, numbered, nonTerminals, terminals⟩
    exact ⟨⟨sides, numbered⟩, start, terminals, nonTerminals⟩
  · rintro ⟨⟨sides, numbered⟩, start, terminals, nonTerminals⟩
    exact ⟨start, sides, numbered, nonTerminals, terminals⟩

theorem Presents.lefts (presents : grammar.Presents rules start) :
    grammar.rules.map Rule.lhs = rules.map Rule.lhs := by
  have same := congrArg (List.map Prod.fst) presents.sides
  rwa [List.map_map, List.map_map] at same

theorem Presents.uses (presents : grammar.Presents rules start) :
    Rule.uses grammar.rules = Rule.uses rules := by
  have same := congrArg (List.flatMap Prod.snd) presents.sides
  rwa [List.flatMap_map, List.flatMap_map] at same

omit [DecidableEq T] in
theorem openness?_eq_undefinedStart_iff :
    openness? rules start = some (.undefinedStart name) ↔
      name = start ∧ start ∉ rules.map Rule.lhs := by
  unfold openness?
  dsimp only
  split
  · rename_i begins
    constructor
    · intro found
      obtain ⟨_, _, other⟩ := Option.map_eq_some_iff.mp found
      cases other
    · rintro ⟨_, missing⟩
      exact absurd begins missing
  · rename_i missing
    rw [Option.some.injEq, GrammarError.undefinedStart.injEq, eq_comm]
    exact (and_iff_left missing).symm

omit [DecidableEq T] in
theorem openness?_eq_underived_iff :
    openness? rules start = some (.underived name) ↔
      start ∈ rules.map Rule.lhs ∧ IsFirstUnderived rules name := by
  unfold openness?
  dsimp only
  split
  · rename_i begins
    rw [Rule.flatMap_nonTerminals, Option.map_eq_some_iff]
    simp only [find?_nonTerminals, GrammarError.underived.injEq, exists_eq_right,
      decide_eq_true_eq, decide_eq_false_iff_not, Decidable.not_not, IsFirstUnderived,
      iff_true_intro begins, true_and]
  · rename_i missing
    constructor
    · intro found
      cases found
    · rintro ⟨begins, _⟩
      exact absurd begins missing

omit [DecidableEq T] in
theorem exists_isFirstUnderived_iff :
    (∃ name, IsFirstUnderived rules name) ↔
      ∃ rule ∈ rules, ∃ name, .nonTerminal name ∈ rule.rhs ∧ name ∉ rules.map Rule.lhs := by
  constructor
  · rintro ⟨name, missing, before, after, split, _⟩
    have inside : .nonTerminal name ∈ Rule.uses rules := by simp [split]
    obtain ⟨rule, listed, used⟩ := Rule.mem_uses.mp inside
    exact ⟨rule, listed, name, used, missing⟩
  · rintro ⟨rule, listed, name, used, missing⟩
    have some_missing : (((Rule.uses rules).filterMap Symbol.nonTerminal?).find?
        fun name => decide (name ∉ rules.map Rule.lhs)).isSome = true := by
      rw [List.find?_isSome]
      refine ⟨name, List.mem_filterMap.mpr ⟨_, Rule.mem_uses.mpr ⟨rule, listed, used⟩, rfl⟩, ?_⟩
      exact decide_eq_true missing
    obtain ⟨first, found⟩ := Option.isSome_iff_exists.mp some_missing
    obtain ⟨missingFirst, before, after, split, derived⟩ := find?_nonTerminals.mp found
    refine ⟨first, of_decide_eq_true missingFirst, before, after, split, fun other inside => ?_⟩
    exact Decidable.not_not.mp (of_decide_eq_false (derived other inside))

theorem ofRules_error_iff {error : GrammarError N} :
    ofRules rules start = .error error ↔ openness? rules start = some error := by
  unfold ofRules
  cases openness? rules start with
  | none => simp
  | some other => simp

theorem Presents.listed (presents : grammar.Presents rules start) (closed : IsClosed rules start) :
    start ∈ grammar.nonTerminals ∧ ∀ rule ∈ grammar.rules, ∀ symbol ∈ rule.rhs,
      grammar.Lists symbol := by
  have accepted : ofRules rules start = .ok grammar :=
    ofRules_ok_iff.mpr ⟨closed, presents_iff.mp presents⟩
  refine ⟨(presents.nonTerminals.mem_iff start).mpr closed.start, ?_⟩
  intro rule listed symbol used
  cases symbol with
  | terminal name => exact mem_terminals_of_ofRules accepted listed used
  | nonTerminal name => exact mem_nonTerminals_of_ofRules accepted listed used

/-- A list of rules is refused for its start symbol, or else for the first non terminal that is used
without having a rule, or else the grammar has the same rules, numbered by position, and lists every
symbol of theirs once, at its first place. -/
theorem ofRules_exact (rules : List (Rule T N)) (start : N) :
    (∀ name, ofRules rules start = .error (.undefinedStart name) ↔
      name = start ∧ start ∉ rules.map Rule.lhs) ∧
    (∀ name, ofRules rules start = .error (.underived name) ↔
      start ∈ rules.map Rule.lhs ∧ IsFirstUnderived rules name) ∧
    ((∃ name, IsFirstUnderived rules name) ↔
      ∃ rule ∈ rules, ∃ name, .nonTerminal name ∈ rule.rhs ∧ name ∉ rules.map Rule.lhs) ∧
    ((∃ grammar, ofRules rules start = .ok grammar) ↔ IsClosed rules start) ∧
    ∀ grammar, ofRules rules start = .ok grammar ↔ grammar.Presents rules start ∧
      IsClosed rules start ∧ start ∈ grammar.nonTerminals ∧
        ∀ rule ∈ grammar.rules, ∀ symbol ∈ rule.rhs, grammar.Lists symbol := by
  refine ⟨fun name => ?_, fun name => ?_, exists_isFirstUnderived_iff, ?_, fun grammar => ?_⟩
  · rw [ofRules_error_iff, openness?_eq_undefinedStart_iff]
  · rw [ofRules_error_iff, openness?_eq_underived_iff]
  · constructor
    · rintro ⟨grammar, accepted⟩
      exact (ofRules_ok_iff.mp accepted).1
    · intro closed
      exact ⟨_, ofRules_ok_iff.mpr ⟨closed, rfl⟩⟩
  · rw [ofRules_ok_iff, ← presents_iff]
    constructor
    · rintro ⟨closed, presents⟩
      exact ⟨presents, closed, presents.listed closed⟩
    · rintro ⟨presents, closed, _⟩
      exact ⟨closed, presents⟩

end Grammar

end Lookahead
