import Lookahead.Proofs.Termination

/-!
# Parses that go alike

What a parse does depends on its tokens and on what its table chooses, not on how the tokens are
drawn or on the numbers that rules carry. Two tables are alike if they choose the same rules up to
new indices (`Table.Alike`), and two states are if their frames are the same up to these indices and
the same tokens are left (`State.Alike`). A turn of one parse is then a turn of the other
(`State.Alike.turn`), so both end in the same tree up to the indices, or in errors that differ in
the expected terminals at most (`parseSymbol_alike`).
-/

set_option autoImplicit false

namespace Lookahead

variable {T N : Type}

def Rule.moved (place : Nat → Nat) (rule : Rule T N) : Rule T N :=
  { rule with index := place rule.index }

namespace SyntaxTree

mutual

def moved (place : Nat → Nat) : SyntaxTree T N → SyntaxTree T N
  | node symbol rule children => node symbol (rule.map place) (movedAll place children)

def movedAll (place : Nat → Nat) : List (SyntaxTree T N) → List (SyntaxTree T N)
  | [] => []
  | tree :: trees => moved place tree :: movedAll place trees

end

variable {place : Nat → Nat}

theorem movedAll_eq_map (trees : List (SyntaxTree T N)) :
    movedAll place trees = trees.map (moved place) := by
  induction trees with
  | nil => rfl
  | cons tree trees ih => rw [movedAll, ih, List.map_cons]

mutual

theorem moved_id : (tree : SyntaxTree T N) → tree.moved id = tree
  | node symbol rule children => by rw [moved, movedAll_id, Option.map_id]; rfl

theorem movedAll_id : (trees : List (SyntaxTree T N)) → movedAll id trees = trees
  | [] => rfl
  | tree :: trees => by rw [movedAll, moved_id, movedAll_id]

end

end SyntaxTree

/-- Errors that agree, up to a relation between the terminals that they list as expected. -/
inductive ParseError.Alike (lists : List T → List T → Prop) : ParseError T N → ParseError T N → Prop
  | unexpectedToken (expected : T) (got : Token T) (context : Option N) :
      Alike lists (.unexpectedToken expected got context) (.unexpectedToken expected got context)
  | noRule (name : N) (got : Token T) {expected others : List T} (related : lists expected others) :
      Alike lists (.noRule name got expected) (.noRule name got others)
  | unexpectedEnd (expecting : Symbol T N) (context : Option N) :
      Alike lists (.unexpectedEnd expecting context) (.unexpectedEnd expecting context)

theorem ParseError.Alike.eq {error other : ParseError T N} (alike : error.Alike (· = ·) other) :
    other = error := by
  cases alike with
  | unexpectedToken => rfl
  | noRule name got related => rw [related]
  | unexpectedEnd => rfl

inductive AlikeOutcomes (place : Nat → Nat) (lists : List T → List T → Prop) :
    Except (ParseError T N) (SyntaxTree T N) → Except (ParseError T N) (SyntaxTree T N) → Prop
  | ok (tree : SyntaxTree T N) : AlikeOutcomes place lists (.ok tree) (.ok (tree.moved place))
  | error {error other : ParseError T N} (alike : error.Alike lists other) :
      AlikeOutcomes place lists (.error error) (.error other)

theorem AlikeOutcomes.eq {outcome other : Except (ParseError T N) (SyntaxTree T N)}
    (alike : AlikeOutcomes id (· = ·) outcome other) : other = outcome := by
  cases alike with
  | ok tree => rw [SyntaxTree.moved_id]
  | error alike => rw [alike.eq]

variable [DecidableEq T] [DecidableEq N]

/-- The rules that the second table chooses are those of the first with new indices. -/
structure Table.Alike (place : Nat → Nat) (lists : List T → List T → Prop)
    (table other : Table T N) : Prop where
  chosen : ∀ name terminal,
    other.get? name terminal = (table.get? name terminal).map (Rule.moved place)
  expected : ∀ name, lists (table.expected name) (other.expected name)

theorem Table.Alike.refl (table : Table T N) : table.Alike id (· = ·) table where
  chosen name terminal := by
    cases table.get? name terminal with
    | none => rfl
    | some rule => rfl
  expected _ := rfl

namespace Parsing

variable {Source Other : Type} {kind : TokenSource Source T} {otherKind : TokenSource Other T}
  {place : Nat → Nat} {lists : List T → List T → Prop} {table otherTable : Table T N}

def Frame.moved (place : Nat → Nat) (frame : Frame T N) : Frame T N :=
  ⟨frame.rule.moved place, frame.pending, frame.children.map (.moved place)⟩

omit [DecidableEq T] [DecidableEq N] in
theorem Frame.tree_moved (place : Nat → Nat) (frame : Frame T N) :
    (frame.moved place).tree = frame.tree.moved place := by
  rw [tree, tree, SyntaxTree.moved, SyntaxTree.movedAll_eq_map, List.map_reverse]
  rfl

omit [DecidableEq T] [DecidableEq N] in
theorem Frame.push_moved (place : Nat → Nat) (frame : Frame T N) (tree : SyntaxTree T N)
    (pending : List (Symbol T N)) :
    (frame.push tree pending).moved place = (frame.moved place).push (tree.moved place) pending :=
  rfl

structure State.Alike (place : Nat → Nat) (kind : TokenSource Source T)
    (otherKind : TokenSource Other T) (state : State Source T N) (other : State Other T N) :
    Prop where
  current : other.current = state.current.moved place
  parents : other.parents = state.parents.map (Frame.moved place)
  left : other.feed.tokens otherKind = state.feed.tokens kind

inductive Step.Alike (place : Nat → Nat) (lists : List T → List T → Prop)
    (kind : TokenSource Source T) (otherKind : TokenSource Other T) :
    Step Source T N → Step Other T N → Prop
  | next {state : State Source T N} {other : State Other T N}
      (alike : state.Alike place kind otherKind other) :
      Step.Alike place lists kind otherKind (.next state) (.next other)
  | done {result : Run Source T N} {other : Run Other T N}
      (alike : AlikeOutcomes place lists result.outcome other.outcome) :
      Step.Alike place lists kind otherKind (.done result) (.done other)

theorem State.Alike.turn {state : State Source T N} {other : State Other T N}
    {step : Step Source T N} (tables : table.Alike place lists otherTable)
    (alike : state.Alike place kind otherKind other) (turn : Turn table kind state step) :
    ∃ otherStep, Turn otherTable otherKind other otherStep ∧
      step.Alike place lists kind otherKind otherStep := by
  obtain ⟨current, parents, quiet, otherFeed, events⟩ := other
  obtain ⟨rfl, rfl, left⟩ := alike
  cases turn with
  | @close rule children parent parents _ feed _ =>
      refine ⟨_, .close, .next ⟨?_, rfl, left⟩⟩
      rw [Frame.push_moved, ← Frame.tree_moved]
      rfl
  | @shift rule token pending children parents _ feed rest _ taken =>
      rw [Feed.tokens_of_take taken] at left
      obtain ⟨otherRest, otherTaken, leftRest⟩ := Feed.take_of_tokens left
      exact ⟨_, .shift otherTaken, .next ⟨rfl, rfl, leftRest⟩⟩
  | @expand rule name pending children parents _ feed inner ahead rest _ seen chosen =>
      obtain ⟨same, others, first⟩ := Feed.tokens_of_peek seen
      rw [first] at left
      obtain ⟨otherRest, otherSeen, leftRest⟩ := Feed.peek_of_tokens left
      -- both parses look at the same token
      have otherChosen : otherTable.get? name ahead.kind = some (inner.moved place) := by
        rw [tables.chosen, chosen, Option.map_some]
      refine ⟨_, .expand otherSeen otherChosen, .next ⟨rfl, rfl, ?_⟩⟩
      exact leftRest.trans (first.symm.trans same.symm)
  | @finish rule children _ feed _ =>
      have outcomes : AlikeOutcomes place lists (.ok (Frame.tree ⟨rule, [], children⟩))
          (.ok (Frame.tree (Frame.moved place ⟨rule, [], children⟩))) := by
        rw [Frame.tree_moved]
        exact .ok _
      exact ⟨_, .finish, .done outcomes⟩
  | @noToken rule expected pending children parents _ feed rest _ taken =>
      rw [Feed.tokens_of_take_none taken] at left
      obtain ⟨otherRest, otherTaken⟩ := Feed.take_none_of_tokens left
      exact ⟨_, .noToken otherTaken, .done (.error (.unexpectedEnd _ _))⟩
  | @otherToken rule expected token pending children parents _ feed rest _ taken unlike =>
      rw [Feed.tokens_of_take taken] at left
      obtain ⟨otherRest, otherTaken, _⟩ := Feed.take_of_tokens left
      exact ⟨_, .otherToken otherTaken unlike, .done (.error (.unexpectedToken _ _ _))⟩
  | @noLookahead rule name pending children parents _ feed rest _ seen =>
      rw [Feed.tokens_of_peek_none seen] at left
      obtain ⟨otherRest, otherSeen⟩ := Feed.peek_none_of_tokens left
      exact ⟨_, .noLookahead otherSeen, .done (.error (.unexpectedEnd _ _))⟩
  | @noRule rule name ahead pending children parents _ feed rest _ seen empty =>
      obtain ⟨_, others, first⟩ := Feed.tokens_of_peek seen
      rw [first] at left
      obtain ⟨otherRest, otherSeen, _⟩ := Feed.peek_of_tokens left
      have otherEmpty : otherTable.get? name ahead.kind = none := by
        rw [tables.chosen, empty, Option.map_none]
      exact ⟨_, .noRule otherSeen otherEmpty, .done (.error (.noRule _ _ (tables.expected name)))⟩

theorem Opening.alike (tables : table.Alike place lists otherTable) {symbol : Symbol T N}
    {source : Source} {other : Other} {step : Step Source T N}
    (drained : (otherKind.drain other).1 = (kind.drain source).1)
    (case : Opening table kind source symbol step) :
    step.Alike place lists kind otherKind (opening otherTable otherKind symbol other) := by
  have left : (Feed.start other).tokens otherKind = (Feed.start source).tokens kind := drained
  cases case with
  | @leaf token rest taken =>
      rw [Feed.tokens_of_take taken] at left
      obtain ⟨otherRest, otherTaken, _⟩ := Feed.take_of_tokens left
      simp only [opening, matchTerminal, otherTaken, if_true]
      exact .done (.ok (.leaf token))
  | @expand name rule ahead rest seen chosen =>
      obtain ⟨same, others, first⟩ := Feed.tokens_of_peek seen
      rw [first] at left
      obtain ⟨otherRest, otherSeen, leftRest⟩ := Feed.peek_of_tokens left
      simp only [opening, predict, otherSeen, tables.chosen, chosen, Option.map_some]
      exact .next ⟨rfl, rfl, leftRest.trans (first.symm.trans same.symm)⟩
  | @noToken expected rest taken =>
      rw [Feed.tokens_of_take_none taken] at left
      obtain ⟨otherRest, otherTaken⟩ := Feed.take_none_of_tokens left
      simp only [opening, matchTerminal, otherTaken]
      exact .done (.error (.unexpectedEnd _ _))
  | @otherToken expected token rest taken unlike =>
      rw [Feed.tokens_of_take taken] at left
      obtain ⟨otherRest, otherTaken, _⟩ := Feed.take_of_tokens left
      simp only [opening, matchTerminal, otherTaken, if_neg unlike]
      exact .done (.error (.unexpectedToken _ _ _))
  | @noLookahead name rest seen =>
      rw [Feed.tokens_of_peek_none seen] at left
      obtain ⟨otherRest, otherSeen⟩ := Feed.peek_none_of_tokens left
      simp only [opening, predict, otherSeen]
      exact .done (.error (.unexpectedEnd _ _))
  | @noRule name ahead rest seen empty =>
      obtain ⟨_, others, first⟩ := Feed.tokens_of_peek seen
      rw [first] at left
      obtain ⟨otherRest, otherSeen, _⟩ := Feed.peek_of_tokens left
      simp only [opening, predict, otherSeen, tables.chosen, empty, Option.map_none]
      exact .done (.error (.noRule _ _ (tables.expected name)))

theorem State.Alike.reach {state last : State Source T N} {other : State Other T N}
    (tables : table.Alike place lists otherTable)
    (alike : state.Alike place kind otherKind other) (reach : Reach table kind state last) :
    ∃ otherLast, Reach otherTable otherKind other otherLast ∧
      last.Alike place kind otherKind otherLast := by
  induction reach with
  | refl => exact ⟨other, .refl, alike⟩
  | tail _ turn ih =>
      obtain ⟨middle, reach, alikeMiddle⟩ := ih
      obtain ⟨otherStep, otherTurn, steps⟩ := alikeMiddle.turn tables turn
      cases steps with
      | next alikeNext => exact ⟨_, reach.tail otherTurn, alikeNext⟩

theorem parseSymbol_alike (reading : table.Predictive) (otherReading : otherTable.Predictive)
    (tables : table.Alike place lists otherTable) (symbol : Symbol T N) {source : Source}
    {other : Other} (drained : (otherKind.drain other).1 = (kind.drain source).1) :
    AlikeOutcomes place lists (table.parseSymbol kind symbol source).outcome
      (otherTable.parseSymbol otherKind symbol other).outcome := by
  have openings := (opening_cases table kind symbol source).alike tables drained
  generalize ended : table.parseSymbol kind symbol source = result
  generalize otherOpened : opening otherTable otherKind symbol other = otherStep at openings
  rcases ends_of_parseSymbol reading ended with opened | ⟨first, last, opened, reach, _, done⟩
  · rw [opened] at openings
    cases openings with
    | done alike =>
        rw [Table.parseSymbol_of_done otherOpened]
        exact alike
  · rw [opened] at openings
    cases openings with
    | next alike =>
        obtain ⟨otherLast, otherReach, alikeLast⟩ := alike.reach tables reach
        obtain ⟨otherDone, otherTurn, steps⟩ := alikeLast.turn tables done
        cases steps with
        | done outcomes =>
            have coherent := coherent_opening otherReading otherOpened
            rw [Table.parseSymbol_of_next otherOpened,
              coherent.run_eq otherReading otherReach otherTurn]
            exact outcomes

theorem outcome_eq_of_drain (reading : table.Predictive) (symbol : Symbol T N) {source : Source}
    {other : Other} (drained : (otherKind.drain other).1 = (kind.drain source).1) :
    (table.parseSymbol otherKind symbol other).outcome =
      (table.parseSymbol kind symbol source).outcome :=
  (parseSymbol_alike reading reading (.refl table) symbol drained).eq

end Parsing

end Lookahead
