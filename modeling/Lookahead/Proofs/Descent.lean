import Lookahead.Proofs.Locality
import Mathlib.Data.List.Permutation
import Mathlib.Data.Nat.Find

/-!
# Recursive descent

The parser keeps its frames in a list. What it computes is what the plain recursion does, in which a
non terminal is parsed by parsing the symbols of its rule in order (`descend`). With an arbitrary
table that recursion need not end, so it is cut off at some depth.

The frames of the parser are the calls of the recursion, and where the recursion ends, so does the
parser, in the same way (`followedAt`). Its bound on quiet frames does not get in the way: if the
rule of one of them were expanded again, on the same token, the recursion would do so for ever.
Hence the quiet frames have different rules (`Unfinished`).
-/

set_option autoImplicit false

namespace Lookahead.Parsing

variable {Source T N : Type}

/-- What a part of a parse gives. Nothing if it was cut off. -/
abbrev Descent (Source T N Result : Type) :=
  Option (Except (ParseError T N) Result × Feed Source T)

def inOrder (parse : Symbol T N → Feed Source T → Descent Source T N (SyntaxTree T N)) :
    List (Symbol T N) → Feed Source T → Descent Source T N (List (SyntaxTree T N))
  | [], feed => some (.ok [], feed)
  | symbol :: symbols, feed =>
      match parse symbol feed with
      | none => none
      | some (.error error, rest) => some (.error error, rest)
      | some (.ok tree, rest) =>
          (inOrder parse symbols rest).map fun later => (later.1.map (tree :: ·), later.2)

section Order

variable {parse : Symbol T N → Feed Source T → Descent Source T N (SyntaxTree T N)}
  {symbol : Symbol T N} {symbols : List (Symbol T N)} {feed after : Feed Source T}
  {outcome : Except (ParseError T N) (List (SyntaxTree T N))}

theorem inOrder_cons_iff :
    inOrder parse (symbol :: symbols) feed = some (outcome, after) ↔
      (∃ error, parse symbol feed = some (.error error, after) ∧ outcome = .error error) ∨
        ∃ tree rest later, parse symbol feed = some (.ok tree, rest) ∧
          inOrder parse symbols rest = some (later, after) ∧ outcome = later.map (tree :: ·) := by
  cases parsed : parse symbol feed with
  | none => simp [inOrder, parsed]
  | some result =>
      obtain ⟨error | tree, rest⟩ := result
      · simp only [inOrder, parsed]
        grind
      · simp only [inOrder, parsed, Option.map_eq_some_iff]
        grind

theorem inOrder_mono
    {deeper : Symbol T N → Feed Source T → Descent Source T N (SyntaxTree T N)}
    (more : ∀ {symbol feed result}, parse symbol feed = some result →
      deeper symbol feed = some result)
    (parsed : inOrder parse symbols feed = some (outcome, after)) :
    inOrder deeper symbols feed = some (outcome, after) := by
  induction symbols generalizing feed outcome with
  | nil => exact parsed
  | cons symbol symbols ih =>
      rcases inOrder_cons_iff.mp parsed with
        ⟨error, failed, rfl⟩ | ⟨tree, rest, later, first, others, rfl⟩
      · exact inOrder_cons_iff.mpr (.inl ⟨error, more failed, rfl⟩)
      · exact inOrder_cons_iff.mpr (.inr ⟨tree, rest, later, more first, ih others, rfl⟩)

theorem inOrder_error {error : ParseError T N}
    (failed : inOrder parse symbols feed = some (.error error, after)) :
    ∃ symbol rest, parse symbol rest = some (.error error, after) := by
  induction symbols generalizing feed with
  | nil => cases failed
  | cons symbol symbols ih =>
      rcases inOrder_cons_iff.mp failed with
        ⟨_, first, same⟩ | ⟨_, _, later, _, others, same⟩
      · cases same
        exact ⟨symbol, feed, first⟩
      · cases later with
        | ok trees => cases same
        | error other =>
            cases same
            exact ih others

end Order

variable [DecidableEq T] [DecidableEq N]

/-- A terminal is the next token, and a non terminal is parsed by its rule on the token ahead. Cut
off where more than `depth` rules are inside each other. -/
def descend (table : Table T N) (kind : TokenSource Source T) :
    Nat → Option N → Symbol T N → Feed Source T → Descent Source T N (SyntaxTree T N)
  | _, context, .terminal expected, feed =>
      match feed.take kind with
      | (none, rest) => some (.error (.unexpectedEnd (.terminal expected) context), rest)
      | (some token, rest) =>
          if token.kind = expected then some (.ok (.leaf token), rest)
          else some (.error (.unexpectedToken expected token context), rest)
  | 0, _, .nonTerminal _, _ => none
  | depth + 1, context, .nonTerminal name, feed =>
      match feed.peek kind with
      | (none, rest) => some (.error (.unexpectedEnd (.nonTerminal name) context), rest)
      | (some ahead, rest) =>
          match table.get? name ahead.kind with
          | none => some (.error (.noRule name ahead (table.expected name)), rest)
          | some rule =>
              (inOrder (descend table kind depth (some rule.lhs)) rule.rhs rest).map fun result =>
                (result.1.map (.node (.nonTerminal rule.lhs) (some rule.index)), result.2)

def descendRule (table : Table T N) (kind : TokenSource Source T) (depth : Nat) (rule : Rule T N)
    (feed : Feed Source T) : Descent Source T N (List (SyntaxTree T N)) :=
  inOrder (descend table kind depth (some rule.lhs)) rule.rhs feed

variable {table : Table T N} {kind : TokenSource Source T} {depth : Nat}

section Equations

variable {context : Option N} {feed rest : Feed Source T} {token : Token T}

theorem descend_terminal (expected : T) : descend table kind depth context (.terminal expected) feed =
    match feed.take kind with
    | (none, rest) => some (.error (.unexpectedEnd (.terminal expected) context), rest)
    | (some token, rest) =>
        if token.kind = expected then some (.ok (.leaf token), rest)
        else some (.error (.unexpectedToken expected token context), rest) := by
  cases depth <;> rfl

theorem descend_nonTerminal (name : N) :
    descend table kind (depth + 1) context (.nonTerminal name) feed =
      match feed.peek kind with
      | (none, rest) => some (.error (.unexpectedEnd (.nonTerminal name) context), rest)
      | (some ahead, rest) =>
          match table.get? name ahead.kind with
          | none => some (.error (.noRule name ahead (table.expected name)), rest)
          | some rule =>
              (descendRule table kind depth rule rest).map fun result =>
                (result.1.map (.node (.nonTerminal rule.lhs) (some rule.index)), result.2) :=
  rfl

theorem descend_leaf (taken : feed.take kind = (some token, rest)) :
    descend table kind depth context (.terminal token.kind) feed =
      some (.ok (.leaf token), rest) := by
  simp only [descend_terminal, taken, if_true]

theorem descend_noToken {expected : T} (taken : feed.take kind = (none, rest)) :
    descend table kind depth context (.terminal expected) feed =
      some (.error (.unexpectedEnd (.terminal expected) context), rest) := by
  simp only [descend_terminal, taken]

theorem descend_otherToken {expected : T} (taken : feed.take kind = (some token, rest))
    (other : token.kind ≠ expected) :
    descend table kind depth context (.terminal expected) feed =
      some (.error (.unexpectedToken expected token context), rest) := by
  simp only [descend_terminal, taken, if_neg other]

theorem descend_noLookahead {name : N} (seen : feed.peek kind = (none, rest)) :
    descend table kind (depth + 1) context (.nonTerminal name) feed =
      some (.error (.unexpectedEnd (.nonTerminal name) context), rest) := by
  simp only [descend_nonTerminal, seen]

theorem descend_noRule {name : N} (seen : feed.peek kind = (some token, rest))
    (empty : table.get? name token.kind = none) :
    descend table kind (depth + 1) context (.nonTerminal name) feed =
      some (.error (.noRule name token (table.expected name)), rest) := by
  simp only [descend_nonTerminal, seen, empty]

theorem descend_expand_iff {name : N} {rule : Rule T N} {after : Feed Source T}
    {outcome : Except (ParseError T N) (SyntaxTree T N)}
    (seen : feed.peek kind = (some token, rest)) (chosen : table.get? name token.kind = some rule) :
    descend table kind (depth + 1) context (.nonTerminal name) feed = some (outcome, after) ↔
      ∃ inside, descendRule table kind depth rule rest = some (inside, after) ∧
        outcome = inside.map (.node (.nonTerminal rule.lhs) (some rule.index)) := by
  simp only [descend_nonTerminal, seen, chosen, Option.map_eq_some_iff, Prod.mk.injEq]
  constructor
  · rintro ⟨⟨inside, last⟩, found, rfl, rfl⟩
    exact ⟨inside, found, rfl⟩
  · rintro ⟨inside, found, rfl⟩
    exact ⟨(inside, after), found, rfl, rfl⟩

end Equations

theorem descend_mono {deeper : Nat} (le : depth ≤ deeper) {context : Option N}
    {symbol : Symbol T N} {feed : Feed Source T}
    {result : Except (ParseError T N) (SyntaxTree T N) × Feed Source T}
    (parsed : descend table kind depth context symbol feed = some result) :
    descend table kind deeper context symbol feed = some result := by
  induction depth generalizing deeper context symbol feed result with
  | zero =>
      cases symbol with
      | terminal expected => simpa only [descend_terminal] using parsed
      | nonTerminal name => cases parsed
  | succ depth ih =>
      cases symbol with
      | terminal expected => simpa only [descend_terminal] using parsed
      | nonTerminal name =>
          obtain ⟨further, rfl⟩ : ∃ further, deeper = further + 1 := ⟨deeper - 1, by omega⟩
          simp only [descend_nonTerminal] at parsed ⊢
          split at parsed
          · exact parsed
          · split at parsed
            · exact parsed
            · rename_i rule _
              obtain ⟨⟨trees, after⟩, inside, rfl⟩ := Option.map_eq_some_iff.mp parsed
              rw [descendRule, inOrder_mono (ih (Nat.le_of_succ_le_succ le)) inside]
              rfl

/-- A rule that is descended into is finished at some depth and at none before. -/
theorem exists_least {rule : Rule T N} {feed : Feed Source T}
    {result : Except (ParseError T N) (List (SyntaxTree T N)) × Feed Source T}
    (inside : descendRule table kind depth rule feed = some result) :
    ∃ least ≤ depth, descendRule table kind least rule feed = some result ∧
      ∀ less < least, descendRule table kind less rule feed = none := by
  have ends : ∃ depth, (descendRule table kind depth rule feed).isSome = true :=
    ⟨depth, by rw [inside]; rfl⟩
  have least := Nat.find_spec ends
  have le : Nat.find ends ≤ depth := Nat.find_min' ends (by rw [inside]; rfl)
  obtain ⟨⟨outcome, after⟩, found⟩ := Option.isSome_iff_exists.mp least
  refine ⟨Nat.find ends, le, ?_, fun less before => ?_⟩
  · rw [found, ← inside]
    exact (inOrder_mono (descend_mono le) found).symm
  · exact Option.not_isSome_iff_eq_none.mp (Nat.find_min ends before)

/-! ## The parser as a descent -/

theorem run_of_turn {state next : State Source T N} (turn : Turn table kind state (.next next))
    (room : next.quiet ≤ table.grammar.rules.length) :
    run table kind state = run table kind next := by
  have stepped : step table kind state = .next next := by
    simp only [step, turn_iff.mp turn, if_pos room]
  rw [run]
  split
  · rename_i ended
    rw [stepped] at ended
    cases ended
  · rename_i went
    rw [stepped] at went
    rw [Step.next.inj went]

theorem run_of_done {state : State Source T N} {result : Run Source T N}
    (done : Turn table kind state (.done result)) : run table kind state = result := by
  have stepped : step table kind state = .done result := by
    simp only [step, turn_iff.mp done]
  rw [run]
  split
  · rename_i ended
    rw [stepped] at ended
    exact (Step.done.inj ended).symm
  · rename_i went
    rw [stepped] at went
    cases went

def State.quietRules (state : State Source T N) : List (Rule T N) :=
  (state.current.rule :: state.parents.map Frame.rule).take state.quiet

/-- The quiet frames have different rules, and to descend into one of them anew would take at least
some depth. -/
structure Unfinished (table : Table T N) (kind : TokenSource Source T) (depth : Nat)
    (state : State Source T N) : Prop where
  within : state.quiet ≤ state.parents.length + 1
  nodup : state.quietRules.Nodup
  listed : state.quietRules ⊆ table.grammar.rules
  looked : state.quiet = 0 ∨ ∃ token, state.feed.ahead = some token
  deep : ∀ rule ∈ state.quietRules, ∀ less < depth,
    descendRule table kind less rule state.feed = none

namespace Unfinished

theorem quiet_le {state : State Source T N} (unfinished : Unfinished table kind depth state) :
    state.quiet ≤ table.grammar.rules.length := by
  have whole : state.quietRules.length = state.quiet := by
    have within := unfinished.within
    simp only [State.quietRules, List.length_take, List.length_cons, List.length_map]
    omega
  rw [← whole]
  exact (List.subperm_of_subset unfinished.nodup unfinished.listed).length_le

variable {rule inner : Rule T N} {pending : List (Symbol T N)} {children : List (SyntaxTree T N)}
  {parents : List (Frame T N)} {quiet : Nat} {feed rest : Feed Source T}
  {events : List (Event T N)}

theorem change (unfinished : Unfinished table kind depth ⟨⟨rule, pending, children⟩, parents, quiet,
      feed, events⟩) {later : List (Symbol T N)} {trees : List (SyntaxTree T N)} {calm : Nat}
    {told : List (Event T N)} (kept : calm = 0 ∨ calm = quiet ∧ rest = feed) :
    Unfinished table kind depth ⟨⟨rule, later, trees⟩, parents, calm, rest, told⟩ := by
  rcases kept with rfl | ⟨rfl, rfl⟩
  · exact ⟨Nat.zero_le _, .nil, List.nil_subset _, .inl rfl, fun _ inside => nomatch inside⟩
  · exact ⟨unfinished.within, unfinished.nodup, unfinished.listed, unfinished.looked,
      unfinished.deep⟩

theorem same {ahead : Token T}
    (unfinished : Unfinished table kind depth ⟨⟨rule, pending, children⟩, parents, quiet, feed,
      events⟩)
    (seen : feed.peek kind = (some ahead, rest)) : quiet = 0 ∨ rest = feed := by
  rcases unfinished.looked with none | ⟨token, held⟩
  · exact .inl none
  · have kept : feed.ahead = some token := held
    rw [Feed.peek, kept] at seen
    cases seen
    exact .inr rfl

/-- The rule that is expanded next is not the one of a quiet frame, since it can be finished at less
depth. -/
theorem expand {name : N} {ahead : Token T} {least : Nat}
    {result : Except (ParseError T N) (List (SyntaxTree T N)) × Feed Source T}
    (unfinished : Unfinished table kind depth ⟨⟨rule, .nonTerminal name :: pending, children⟩,
      parents, quiet, feed, events⟩)
    (seen : feed.peek kind = (some ahead, rest)) (chosen : table.get? name ahead.kind = some inner)
    (less : least < depth) (inside : descendRule table kind least inner rest = some result)
    (first : ∀ shallow < least, descendRule table kind shallow inner rest = none) :
    Unfinished table kind least ⟨.start inner, ⟨rule, pending, children⟩ :: parents, quiet + 1,
      rest, .expanded inner ahead :: events⟩ := by
  have same := unfinished.same seen
  obtain ⟨within, nodup, listed, _, deep⟩ := unfinished
  have around : ∀ other ∈ (rule :: parents.map Frame.rule).take quiet, ∀ shallow < depth,
      descendRule table kind shallow other rest = none := by
    intro other quietOne
    rcases same with rfl | rfl
    · cases quietOne
    · exact deep other quietOne
  refine ⟨Nat.succ_le_succ within, ?_, ?_, .inr ⟨ahead, Feed.ahead_of_peek seen⟩, ?_⟩
  · refine List.nodup_cons.mpr ⟨fun again => ?_, nodup⟩
    -- a quiet frame of this rule could not be finished at the depth at which this one is
    rw [around inner again least less] at inside
    cases inside
  · exact List.cons_subset.mpr ⟨Table.mem_rules_of_get? chosen, listed⟩
  · intro other quietOne shallow shallower
    rcases List.mem_cons.mp quietOne with rfl | quietOne
    · exact first shallow shallower
    · exact around other quietOne shallow (by omega)

end Unfinished

/-- The parser goes on with what has come out of parsing symbols of the innermost frame: it puts the
trees into that frame, or it fails. -/
def Follows (table : Table T N) (kind : TokenSource Source T) (state : State Source T N)
    (later : List (Symbol T N)) (after : Feed Source T) :
    Except (ParseError T N) (List (SyntaxTree T N)) → Prop
  | .error error => (run table kind state).outcome = .error error ∧
      (run table kind state).source = after.source
  | .ok trees => ∃ quiet events, (quiet = 0 ∨ quiet = state.quiet ∧ after = state.feed) ∧
      run table kind state = run table kind
        ⟨⟨state.current.rule, later, trees.reverse ++ state.current.children⟩, state.parents, quiet,
          after, events⟩

variable {rule : Rule T N} {symbol : Symbol T N} {pending : List (Symbol T N)}
  {children : List (SyntaxTree T N)} {parents : List (Frame T N)} {quiet : Nat}
  {feed after : Feed Source T} {events : List (Event T N)}

theorem Follows.of_done {state : State Source T N} {error : ParseError T N}
    (done : Turn table kind state (.done ⟨.error error, state.events.reverse, after.source⟩)) :
    Follows table kind state pending after (.error error) := by
  rw [Follows, run_of_done done]
  exact ⟨rfl, rfl⟩

theorem Follows.prepend {rest : Feed Source T} {tree : SyntaxTree T N} {later : List (Symbol T N)}
    {calm : Nat} {told : List (Event T N)}
    {outcome : Except (ParseError T N) (List (SyntaxTree T N))}
    (followed : Follows table kind
      ⟨⟨rule, pending, tree :: children⟩, parents, calm, rest, told⟩ later after outcome)
    (goes : run table kind ⟨⟨rule, symbol :: pending, children⟩, parents, quiet, feed, events⟩ =
      run table kind ⟨⟨rule, pending, tree :: children⟩, parents, calm, rest, told⟩)
    (kept : calm = 0 ∨ calm = quiet ∧ rest = feed) :
    Follows table kind ⟨⟨rule, symbol :: pending, children⟩, parents, quiet, feed, events⟩ later
      after (outcome.map (tree :: ·)) := by
  cases outcome with
  | error error => exact ⟨goes ▸ followed.1, goes ▸ followed.2⟩
  | ok trees =>
      obtain ⟨quieter, events, still, ends⟩ := followed
      refine ⟨quieter, events, ?_, ?_⟩
      · rcases still with rfl | ⟨rfl, rfl⟩
        · exact .inl rfl
        · exact kept
      · rw [goes, ends]
        simp

theorem run_of_close {parent : Frame T N} (room : quiet - 1 ≤ table.grammar.rules.length) :
    run table kind ⟨⟨rule, [], children⟩, parent :: parents, quiet, feed, events⟩ =
      run table kind ⟨parent.push (Frame.tree ⟨rule, [], children⟩) parent.pending, parents,
        quiet - 1, feed, events⟩ :=
  run_of_turn .close room

theorem Follows.enclose {within : Rule T N} {rest : Feed Source T} {told : List (Event T N)}
    {outcome : Except (ParseError T N) (List (SyntaxTree T N))}
    (followed : Follows table kind ⟨.start within, ⟨rule, pending, children⟩ :: parents, quiet + 1,
      rest, told⟩ [] after outcome)
    (opens : run table kind ⟨⟨rule, symbol :: pending, children⟩, parents, quiet, feed, events⟩ =
      run table kind ⟨.start within, ⟨rule, pending, children⟩ :: parents, quiet + 1, rest, told⟩)
    (room : quiet + 1 ≤ table.grammar.rules.length) (same : quiet = 0 ∨ rest = feed) :
    Follows table kind ⟨⟨rule, symbol :: pending, children⟩, parents, quiet, feed, events⟩ pending
      after ((outcome.map (.node (.nonTerminal within.lhs) (some within.index))).map ([·])) := by
  cases outcome with
  | error error => exact ⟨opens ▸ followed.1, opens ▸ followed.2⟩
  | ok trees =>
      obtain ⟨calm, events, kept, goes⟩ := followed
      have few : calm ≤ quiet + 1 := by
        rcases kept with rfl | ⟨rfl, _⟩
        · exact Nat.zero_le _
        · exact Nat.le_refl _
      refine ⟨calm - 1, events, ?_, ?_⟩
      · rcases kept with rfl | ⟨rfl, rfl⟩
        · exact .inl rfl
        · rcases same with rfl | rfl
          · exact .inl rfl
          · exact .inr ⟨rfl, rfl⟩
      · rw [opens, goes]
        refine (run_of_close (by omega)).trans ?_
        simp [Frame.start, Frame.tree, Frame.push]

/-- Where recursive descent ends at some depth, the parser goes the same way. -/
def FollowedAt (table : Table T N) (kind : TokenSource Source T) (depth : Nat) : Prop :=
  ∀ {state : State Source T N} {after : Feed Source T}
    {outcome : Except (ParseError T N) (List (SyntaxTree T N))},
    Unfinished table kind depth state →
    inOrder (descend table kind depth (some state.current.rule.lhs)) state.current.pending
      state.feed = some (outcome, after) →
    Follows table kind state [] after outcome

theorem follows_symbol {outcome : Except (ParseError T N) (SyntaxTree T N)}
    (inner : ∀ less < depth, FollowedAt table kind less)
    (unfinished : Unfinished table kind depth
      ⟨⟨rule, symbol :: pending, children⟩, parents, quiet, feed, events⟩)
    (parsed : descend table kind depth (some rule.lhs) symbol feed = some (outcome, after)) :
    Follows table kind ⟨⟨rule, symbol :: pending, children⟩, parents, quiet, feed, events⟩ pending
      after (outcome.map ([·])) := by
  have turn := turn_advance table kind
    ⟨⟨rule, symbol :: pending, children⟩, parents, quiet, feed, events⟩
  generalize advance table kind _ = step at turn
  cases turn with
  | noToken taken =>
      rw [descend_noToken taken] at parsed
      cases parsed
      exact .of_done (.noToken taken)
  | otherToken taken other =>
      rw [descend_otherToken taken other] at parsed
      cases parsed
      exact .of_done (.otherToken taken other)
  | shift taken =>
      rw [descend_leaf taken] at parsed
      cases parsed
      exact ⟨0, _, .inl rfl, run_of_turn (.shift taken) (Nat.zero_le _)⟩
  | noLookahead seen =>
      obtain _ | depth := depth
      · cases parsed
      rw [descend_noLookahead seen] at parsed
      cases parsed
      exact .of_done (.noLookahead seen)
  | noRule seen empty =>
      obtain _ | depth := depth
      · cases parsed
      rw [descend_noRule seen empty] at parsed
      cases parsed
      exact .of_done (.noRule seen empty)
  | expand seen chosen =>
      obtain _ | depth := depth
      · cases parsed
      obtain ⟨result, inside, rfl⟩ := (descend_expand_iff seen chosen).mp parsed
      -- the rule is finished at some least depth, and there the parser follows
      obtain ⟨least, le, found, first⟩ := exists_least inside
      have less := Nat.lt_succ_of_le le
      have opened := unfinished.expand seen chosen less found first
      have opens := run_of_turn (.expand seen chosen) opened.quiet_le
      have followed := inner least less opened found
      exact followed.enclose opens opened.quiet_le (unfinished.same seen)

theorem followedAt (depth : Nat) : FollowedAt table kind depth := by
  -- on the depth for the rules inside the frame, and then on the symbols of the frame
  induction depth using Nat.strong_induction_on with
  | _ depth inner =>
      intro state after outcome unfinished parsed
      obtain ⟨⟨rule, symbols, children⟩, parents, quiet, feed, events⟩ := state
      induction symbols generalizing children quiet feed events outcome with
      | nil =>
          cases parsed
          exact ⟨quiet, events, .inr ⟨rfl, rfl⟩, rfl⟩
      | cons symbol symbols ih =>
          rcases inOrder_cons_iff.mp parsed with
            ⟨error, failed, rfl⟩ | ⟨tree, rest, later, first, others, rfl⟩
          · exact follows_symbol inner unfinished failed
          · obtain ⟨calm, told, kept, goes⟩ := follows_symbol inner unfinished first
            have followed :=
              ih _ _ told (tree :: children) (unfinished.change kept) others
            exact followed.prepend goes kept

theorem unfinished_start {source : Source} {ahead : Token T} {rest : Feed Source T} {name : N}
    {least : Nat} (seen : (Feed.start source).peek kind = (some ahead, rest))
    (chosen : table.get? name ahead.kind = some rule)
    (first : ∀ shallow < least, descendRule table kind shallow rule rest = none) :
    Unfinished table kind least ⟨.start rule, [], 1, rest, [.expanded rule ahead]⟩ := by
  have single : [rule].Nodup := List.nodup_cons.mpr ⟨List.not_mem_nil, List.nodup_nil⟩
  refine ⟨Nat.le_refl 1, single, ?_, .inr ⟨ahead, Feed.ahead_of_peek seen⟩, ?_⟩
  · exact List.cons_subset.mpr ⟨Table.mem_rules_of_get? chosen, List.nil_subset _⟩
  · intro other quietOne
    obtain rfl := List.mem_singleton.mp quietOne
    exact first

theorem Opening.descend_eq {source : Source} {result : Run Source T N}
    (case : Opening table kind source symbol (.done result)) :
    ∃ after, descend table kind 1 none symbol (Feed.start source) = some (result.outcome, after) ∧
      result.source = after.source := by
  cases case with
  | leaf taken => exact ⟨_, descend_leaf taken, rfl⟩
  | noToken taken => exact ⟨_, descend_noToken taken, rfl⟩
  | otherToken taken other => exact ⟨_, descend_otherToken taken other, rfl⟩
  | noLookahead seen => exact ⟨_, descend_noLookahead seen, rfl⟩
  | noRule seen empty => exact ⟨_, descend_noRule seen empty, rfl⟩

theorem parseSymbol_of_descend {source : Source}
    {outcome : Except (ParseError T N) (SyntaxTree T N)}
    (descended : descend table kind depth none symbol (Feed.start source) = some (outcome, after)) :
    (table.parseSymbol kind symbol source).outcome = outcome ∧
      (table.parseSymbol kind symbol source).source = after.source := by
  have case := opening_cases table kind symbol source
  cases opened : opening table kind symbol source with
  | done result =>
      rw [opened] at case
      obtain ⟨last, ended, left⟩ := case.descend_eq
      -- one depth for both, at which a descent has one result
      have deep := descend_mono (Nat.le_max_left depth 1) descended
      have shallow := descend_mono (Nat.le_max_right depth 1) ended
      obtain ⟨rfl, rfl⟩ := Prod.mk.inj (Option.some.inj (deep.symm.trans shallow))
      rw [Table.parseSymbol_of_done opened]
      exact ⟨rfl, left⟩
  | next state =>
      rw [opened] at case
      rw [Table.parseSymbol_of_next opened]
      cases case with
      | expand seen chosen =>
          obtain _ | depth := depth
          · cases descended
          obtain ⟨result, inside, rfl⟩ := (descend_expand_iff seen chosen).mp descended
          obtain ⟨least, _, found, first⟩ := exists_least inside
          have followed := followedAt least (unfinished_start seen chosen first) found
          cases result with
          | error error => exact followed
          | ok trees =>
              obtain ⟨quiet, events, _, goes⟩ := followed
              rw [goes, run_of_done .finish]
              simp [Frame.start, Frame.tree, Except.map]

/-! ## Where recursive descent does not end -/

/-- Descending from one frame after the other ends, in an error or with all of them finished. -/
def Finishes (table : Table T N) (kind : TokenSource Source T) :
    List (Frame T N) → Feed Source T → Prop
  | [], _ => True
  | frame :: around, feed => ∃ depth outcome after,
      inOrder (descend table kind depth (some frame.rule.lhs)) frame.pending feed =
        some (outcome, after) ∧ (outcome.isOk = true → Finishes table kind around after)

theorem Finishes.of_error {frames : List (Frame T N)} {error : ParseError T N} (depth : Nat)
    (failed : descend table kind depth (some rule.lhs) symbol feed = some (.error error, after)) :
    Finishes table kind (⟨rule, symbol :: pending, children⟩ :: frames) feed :=
  ⟨depth, .error error, after, inOrder_cons_iff.mpr (.inl ⟨error, failed, rfl⟩), nofun⟩

theorem Finishes.prepend {frames : List (Frame T N)} {tree : SyntaxTree T N} {rest : Feed Source T}
    {trees : List (SyntaxTree T N)}
    (ends : Finishes table kind (⟨rule, pending, trees⟩ :: frames) rest) (depth : Nat)
    (parsed : descend table kind depth (some rule.lhs) symbol feed = some (.ok tree, rest)) :
    Finishes table kind (⟨rule, symbol :: pending, children⟩ :: frames) feed := by
  obtain ⟨deeper, outcome, after, others, further⟩ := ends
  have first := descend_mono (Nat.le_max_left depth deeper) parsed
  have later := inOrder_mono (descend_mono (Nat.le_max_right depth deeper)) others
  refine ⟨max depth deeper, outcome.map (tree :: ·), after, ?_, ?_⟩
  · exact inOrder_cons_iff.mpr (.inr ⟨tree, rest, outcome, first, later, rfl⟩)
  · intro done
    cases outcome with
    | error error => cases done
    | ok trees => exact further rfl

theorem finishes_of_run (state : State Source T N)
    (stops : ∀ name, (run table kind state).outcome ≠ .error (.endless name)) :
    Finishes table kind (state.current :: state.parents) state.feed := by
  -- on the turns that the parser still makes, from its last one back
  fun_induction run table kind state with
  | case1 state result stepped =>
      unfold step at stepped
      split at stepped
      · rename_i advanced
        cases stepped
        cases turn_iff.mpr advanced with
        | finish => exact ⟨0, .ok [], _, rfl, fun _ => trivial⟩
        | noToken taken => exact .of_error 1 (descend_noToken taken)
        | otherToken taken other => exact .of_error 1 (descend_otherToken taken other)
        | noLookahead seen => exact .of_error 1 (descend_noLookahead seen)
        | noRule seen empty => exact .of_error 1 (descend_noRule seen empty)
      · split at stepped
        · cases stepped
        · cases stepped
          exact absurd rfl (stops _)
  | case2 state next stepped ih =>
      have ends := ih stops
      cases turn_iff.mpr (advance_of_step stepped).1 with
      | close => exact ⟨0, .ok [], _, rfl, fun _ => ends⟩
      | shift taken => exact ends.prepend 0 (descend_leaf taken)
      | expand seen chosen =>
          obtain ⟨depth, outcome, after, inside, further⟩ := ends
          cases outcome with
          | error error =>
              exact .of_error (depth + 1) ((descend_expand_iff seen chosen).mpr ⟨_, inside, rfl⟩)
          | ok trees =>
              exact (further rfl).prepend (depth + 1)
                ((descend_expand_iff seen chosen).mpr ⟨_, inside, rfl⟩)

theorem exists_descend {source : Source}
    (stops : ∀ name, (table.parseSymbol kind symbol source).outcome ≠ .error (.endless name)) :
    ∃ depth result, descend table kind depth none symbol (Feed.start source) = some result := by
  have case := opening_cases table kind symbol source
  cases opened : opening table kind symbol source with
  | done result =>
      rw [opened] at case
      obtain ⟨last, ended, _⟩ := case.descend_eq
      exact ⟨1, _, ended⟩
  | next state =>
      rw [opened] at case
      rw [Table.parseSymbol_of_next opened] at stops
      cases case with
      | expand seen chosen =>
          obtain ⟨depth, outcome, last, inside, _⟩ := finishes_of_run _ stops
          exact ⟨depth + 1, _, (descend_expand_iff seen chosen).mpr ⟨outcome, inside, rfl⟩⟩

theorem descend_terminal_ne_endless {context : Option N} {expected : T} {name : N} :
    descend table kind depth context (.terminal expected) feed ≠
      some (.error (.endless name), after) := by
  simp only [descend_terminal]
  split
  · simp
  · split <;> simp

theorem descend_ne_endless {context : Option N} {name : N} :
    descend table kind depth context symbol feed ≠ some (.error (.endless name), after) := by
  intro descended
  induction depth generalizing context symbol feed with
  | zero =>
      cases symbol with
      | terminal expected => exact descend_terminal_ne_endless descended
      | nonTerminal expanded => cases descended
  | succ depth ih =>
      cases symbol with
      | terminal expected => exact descend_terminal_ne_endless descended
      | nonTerminal expanded =>
          simp only [descend_nonTerminal] at descended
          split at descended
          · cases descended
          · split at descended
            · cases descended
            · obtain ⟨⟨outcome, last⟩, inside, same⟩ := Option.map_eq_some_iff.mp descended
              cases outcome with
              | ok trees => cases same
              | error error =>
                  cases same
                  obtain ⟨_, _, deeper⟩ := inOrder_error inside
                  exact ih deeper

/-- The parser of frames is recursive descent, with any table. Where the recursion ends, it has the
same outcome and leaves the same source. Where it does not, expansions without end are reported. -/
theorem parseSymbol_descends (table : Table T N) (kind : TokenSource Source T)
    (symbol : Symbol T N) (source : Source) :
    (∀ depth outcome after,
      descend table kind depth none symbol (Feed.start source) = some (outcome, after) →
        (table.parseSymbol kind symbol source).outcome = outcome ∧
          (table.parseSymbol kind symbol source).source = after.source) ∧
      ((∃ name, (table.parseSymbol kind symbol source).outcome = .error (.endless name)) ↔
        ∀ depth, descend table kind depth none symbol (Feed.start source) = none) := by
  refine ⟨fun depth outcome after => parseSymbol_of_descend, ?_, ?_⟩
  · rintro ⟨name, endless⟩ depth
    cases descended : descend table kind depth none symbol (Feed.start source) with
    | none => rfl
    | some result =>
        obtain ⟨outcome, after⟩ := result
        obtain rfl := (parseSymbol_of_descend descended).1.symm.trans endless
        exact absurd descended descend_ne_endless
  · intro never
    by_contra going
    obtain ⟨depth, result, descended⟩ := exists_descend (not_exists.mp going)
    rw [never depth] at descended
    cases descended

/-- Each rule carries the position of the other, so the table gives rules of the wrong left side. -/
def crossed : Grammar Char Char where
  rules := [⟨1, 'S', [.nonTerminal 'A', .terminal 'x']⟩,
    ⟨0, 'A', [.terminal 'y', .terminal 'z']⟩]
  start := 'S'
  terminals := ['x', 'y', 'z']
  nonTerminals := ['S', 'A']

theorem parseSymbol_descends_crossed : ∃ table, Table.ofGrammar crossed = .ok table ∧
    (table.parseSymbol .list (.nonTerminal 'S')
      [⟨'y', "y", 0⟩, ⟨'x', "x", 1⟩, ⟨'z', "z", 2⟩]).outcome =
        .error (.unexpectedToken 'z' ⟨'x', "x", 1⟩ (some 'A')) ∧
    (table.parseSymbol .list (.nonTerminal 'S')
      [⟨'y', "y", 0⟩, ⟨'x', "x", 1⟩, ⟨'z', "z", 2⟩]).source = [⟨'z', "z", 2⟩] ∧
    ∀ depth, descend table .list depth none (.nonTerminal 'A') (Feed.start [⟨'y', "y", 0⟩]) =
      none := by
  obtain ⟨table, built, fails, endless⟩ : ∃ table, Table.ofGrammar crossed = .ok table ∧
      descend table .list 1 none (.nonTerminal 'S')
        (Feed.start [⟨'y', "y", 0⟩, ⟨'x', "x", 1⟩, ⟨'z', "z", 2⟩]) =
          some (.error (.unexpectedToken 'z' ⟨'x', "x", 1⟩ (some 'A')),
            ⟨none, [⟨'z', "z", 2⟩]⟩) ∧
      (table.parseSymbol .list (.nonTerminal 'A') [⟨'y', "y", 0⟩]).outcome =
        .error (.endless 'S') :=
    ⟨_, rfl, rfl, by cbv⟩
  obtain ⟨same, left⟩ := (parseSymbol_descends table .list _ _).1 _ _ _ fails
  have never := (parseSymbol_descends table .list _ _).2.mp ⟨'S', endless⟩
  exact ⟨table, built, same, left, never⟩

end Lookahead.Parsing
