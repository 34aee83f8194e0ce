import Lookahead.SExpr.Reader
import Mathlib.Logic.Relation

/-!
# Reductions

A reduction keeps its tasks and the values of finished nodes in lists of its own. Its answer is that
of a recursion over the tree, be it a value or an error.
-/

set_option autoImplicit false

namespace Lookahead.SExpr

/-!
## The value of a tree

By recursion the children of a node are evaluated from left to right, up to the first error, and
their values are combined. A reduction computes this value (`reduceFrom_visit`). A node finds the values of its
children at the front of the values that wait, so none is ever missing.
-/

mutual

/-- What hangs below a token is not looked at. -/
def evaluate : Tree → Except ReduceError Value
  | .node (.terminal token) _ _ => valueOfToken token
  | .node (.nonTerminal phrase) rule children =>
      match evaluateAll children with
      | .error error => .error error
      | .ok values => combine phrase rule values

def evaluateAll : List Tree → Except ReduceError (List Value)
  | [] => .ok []
  | tree :: trees =>
      match evaluate tree with
      | .error error => .error error
      | .ok value =>
          match evaluateAll trees with
          | .error error => .error error
          | .ok values => .ok (value :: values)

end

theorem evaluateAll_cons_ok_iff {tree : Tree} {trees : List Tree} {values : List Value} :
    evaluateAll (tree :: trees) = .ok values ↔
      ∃ value others, evaluate tree = .ok value ∧ evaluateAll trees = .ok others ∧
        values = value :: others := by
  cases first : evaluate tree with
  | error error => simp [evaluateAll, first]
  | ok value =>
      cases later : evaluateAll trees with
      | error error => simp [evaluateAll, first, later]
      | ok others =>
          simp only [evaluateAll, first, later, Except.ok.injEq]
          constructor
          · rintro rfl
            exact ⟨value, others, rfl, rfl, rfl⟩
          · rintro ⟨_, _, rfl, rfl, rfl⟩
            rfl

theorem evaluate_nonTerminal_ok_iff {phrase : Phrase} {rule : Option Nat} {children : List Tree}
    {value : Value} :
    evaluate (.node (.nonTerminal phrase) rule children) = .ok value ↔
      ∃ values, evaluateAll children = .ok values ∧ combine phrase rule values = .ok value := by
  cases below : evaluateAll children <;> simp [evaluate, below]

theorem length_of_evaluateAll {trees : List Tree} {values : List Value}
    (evaluated : evaluateAll trees = .ok values) : values.length = trees.length := by
  induction trees generalizing values with
  | nil =>
      obtain rfl := Except.ok.inj evaluated
      rfl
  | cons tree trees ih =>
      obtain ⟨value, others, _, later, rfl⟩ := evaluateAll_cons_ok_iff.mp evaluated
      rw [List.length_cons, List.length_cons, ih later]

theorem takeValues_append (waiting taken others : List Value) :
    takeValues waiting.length taken (waiting ++ others) = some (waiting.reverse ++ taken, others) := by
  induction waiting generalizing taken with
  | nil => rfl
  | cons value waiting ih =>
      rw [List.length_cons, List.cons_append, takeValues, ih, List.reverse_cons, List.append_assoc,
        List.singleton_append]

mutual

/-- A visit puts the value of its tree before the values that wait, or ends in the tree's error. -/
theorem reduceFrom_visit (tree : Tree) (tasks : List Task) (values : List Value) :
    reduceFrom (.visit tree :: tasks) values =
      match evaluate tree with
      | .error error => .error error
      | .ok value => reduceFrom tasks (value :: values) := by
  match tree with
  | .node (.terminal token) rule children =>
      cases read : valueOfToken token <;> simp [reduceFrom, evaluate, read]
  | .node (.nonTerminal phrase) rule children =>
      rw [reduceFrom, reduceFrom_visits children, evaluate]
      cases evaluated : evaluateAll children with
      | error error => rfl
      | ok inner =>
          have waiting := takeValues_append inner.reverse [] values
          rw [List.length_reverse, List.reverse_reverse, List.append_nil,
            length_of_evaluateAll evaluated] at waiting
          cases combined : combine phrase rule inner <;> simp [reduceFrom, waiting, combined]

theorem reduceFrom_visits (trees : List Tree) (tasks : List Task) (values : List Value) :
    reduceFrom (visits trees ++ tasks) values =
      match evaluateAll trees with
      | .error error => .error error
      | .ok inner => reduceFrom tasks (inner.reverse ++ values) := by
  match trees with
  | [] =>
      rw [evaluateAll]
      rfl
  | tree :: trees =>
      have first := reduceFrom_visit tree (visits trees ++ tasks) values
      rw [visits, List.map_cons, List.cons_append]
      rw [visits] at first
      rw [first, evaluateAll]
      cases evaluate tree with
      | error error => rfl
      | ok value =>
          have later := reduceFrom_visits trees tasks (value :: values)
          rw [visits] at later
          simp only [later]
          cases evaluateAll trees with
          | error error => rfl
          | ok others =>
              simp only [List.reverse_cons, List.append_assoc, List.singleton_append]

end

theorem valueOf_eq_evaluate (tree : Tree) : valueOf tree = evaluate tree := by
  have visited := reduceFrom_visit tree [] []
  rw [valueOf, visited]
  cases evaluate tree with
  | error error => rfl
  | ok value => simp only [reduceFrom]

theorem reduce_ok_iff {tree : Tree} {expression : SExpr} :
    reduce tree = .ok expression ↔ evaluate tree = .ok (.expression expression) := by
  rw [reduce, valueOf_eq_evaluate]
  cases evaluate tree with
  | error error => simp
  | ok value => cases value <;> simp

/-!
## The walk of a reduction

`Reduction.Step` says once what the first task of a reduction does: a token leaves its value, a node
makes tasks of its children and of its own combination, and a combination takes the values of the
children off those that wait. `Reduction.Ends` says how this comes to an end. Whether there are
enough values can be told from the tasks and the number of values alone (`Supplied`). Every step
keeps it so, hence no combination of a reduction finds too few values, and one value is left when
all is done (`Reduction.supplied_of_reach`).

The errors are those of the recursion over the tree: the first in post-order is the one that is
reported (`firstError_of_evaluate`).
-/

open Relation (ReflTransGen)

/-! ### Enough values -/

/-- A number of waiting values is enough for tasks: each combination finds as many as it takes, and
one is left at the end. -/
def Supplied : List Task → Nat → Prop
  | [], waiting => waiting = 1
  | .visit _ :: tasks, waiting => Supplied tasks (waiting + 1)
  | .combine _ _ arity :: tasks, waiting =>
      arity ≤ waiting ∧ Supplied tasks (waiting - arity + 1)

theorem supplied_visits (trees : List Tree) (tasks : List Task) (waiting : Nat) :
    Supplied (visits trees ++ tasks) waiting ↔ Supplied tasks (waiting + trees.length) := by
  induction trees generalizing waiting with
  | nil => exact Iff.rfl
  | cons tree trees ih =>
      have later := ih (waiting + 1)
      rw [visits, List.map_cons, List.cons_append, Supplied, ← visits, later, List.length_cons]
      rw [Nat.add_assoc, Nat.add_comm 1]

theorem exists_inner {arity : Nat} {values : List Value} (enough : arity ≤ values.length) :
    ∃ inner others : List Value, inner.length = arity ∧ values = inner.reverse ++ others := by
  refine ⟨(values.take arity).reverse, values.drop arity, ?_, ?_⟩
  · rw [List.length_reverse, List.length_take]
    omega
  · rw [List.reverse_reverse, List.take_append_drop]

theorem takeValues_inner (inner others : List Value) :
    takeValues inner.length [] (inner.reverse ++ others) = some (inner, others) := by
  have taken := takeValues_append inner.reverse [] others
  rw [List.length_reverse, List.reverse_reverse, List.append_nil] at taken
  exact taken

/-! ### Steps -/

/-- What a reduction still has to do, and the values that wait, last first. -/
structure Reduction where
  tasks : List Task
  values : List Value

namespace Reduction

def start (tree : Tree) : Reduction :=
  ⟨[.visit tree], []⟩

inductive Step : Reduction → Reduction → Prop
  | reads {token : Token TokenKind} {rule : Option Nat} {children : List Tree} {tasks : List Task}
      {values : List Value} {value : Value} (read : valueOfToken token = .ok value) :
      Step ⟨.visit (.node (.terminal token) rule children) :: tasks, values⟩
        ⟨tasks, value :: values⟩
  | enters {phrase : Phrase} {rule : Option Nat} {children : List Tree} {tasks : List Task}
      {values : List Value} :
      Step ⟨.visit (.node (.nonTerminal phrase) rule children) :: tasks, values⟩
        ⟨visits children ++ .combine phrase rule children.length :: tasks, values⟩
  | combines {phrase : Phrase} {rule : Option Nat} {inner others : List Value} {tasks : List Task}
      {value : Value} (combined : combine phrase rule inner = .ok value) :
      Step ⟨.combine phrase rule inner.length :: tasks, inner.reverse ++ others⟩
        ⟨tasks, value :: others⟩

abbrev Reach : Reduction → Reduction → Prop :=
  ReflTransGen Step

/-- How a reduction ends: with the values that are left, or with the error of a token, or with that
of a node whose children have values. -/
inductive Ends : Reduction → Except ReduceError (List Value) → Prop
  | done {values : List Value} : Ends ⟨[], values⟩ (.ok values)
  | token {token : Token TokenKind} {rule : Option Nat} {children : List Tree} {tasks : List Task}
      {values : List Value} {error : ReduceError} (failed : valueOfToken token = .error error) :
      Ends ⟨.visit (.node (.terminal token) rule children) :: tasks, values⟩ (.error error)
  | node {phrase : Phrase} {rule : Option Nat} {inner others : List Value} {tasks : List Task}
      {error : ReduceError} (failed : combine phrase rule inner = .error error) :
      Ends ⟨.combine phrase rule inner.length :: tasks, inner.reverse ++ others⟩ (.error error)

theorem Step.supplied {before after : Reduction} (step : Step before after)
    (supplied : Supplied before.tasks before.values.length) :
    Supplied after.tasks after.values.length := by
  cases step with
  | reads => exact supplied
  | @enters phrase rule children tasks values =>
      -- the children leave as many values as their node takes
      rw [supplied_visits]
      refine ⟨Nat.le_add_left _ _, ?_⟩
      rw [Nat.add_sub_cancel]
      exact supplied
  | @combines phrase rule inner others =>
      obtain ⟨_, later⟩ := supplied
      rw [List.length_append, List.length_reverse, Nat.add_sub_cancel_left] at later
      exact later

theorem supplied_of_reach {tree : Tree} {state : Reduction} (reach : Reach (start tree) state) :
    Supplied state.tasks state.values.length := by
  induction reach with
  | refl => rfl
  | tail _ step ih => exact step.supplied ih

theorem exists_ends (tasks : List Task) (values : List Value)
    (supplied : Supplied tasks values.length) :
    ∃ last, Reach ⟨tasks, values⟩ last ∧ Ends last (reduceFrom tasks values) := by
  fun_induction reduceFrom tasks values with
  | case1 values => exact ⟨_, .refl, .done⟩
  | case2 token _ _ tasks values error failed => exact ⟨_, .refl, .token failed⟩
  | case3 token _ _ tasks values value read ih =>
      obtain ⟨last, reach, ends⟩ := ih supplied
      exact ⟨last, reach.head (.reads read), ends⟩
  | case4 phrase rule children tasks values ih =>
      have step : Step ⟨.visit (.node (.nonTerminal phrase) rule children) :: tasks, values⟩ _ :=
        .enters
      obtain ⟨last, reach, ends⟩ := ih (step.supplied supplied)
      exact ⟨last, reach.head step, ends⟩
  -- a combination that finds too few values is not supplied
  | case5 phrase rule arity tasks values missing =>
      obtain ⟨inner, others, rfl, rfl⟩ := exists_inner supplied.1
      rw [takeValues_inner] at missing
      cases missing
  | case6 phrase rule arity tasks values taken left found error failed =>
      obtain ⟨inner, others, rfl, rfl⟩ := exists_inner supplied.1
      rw [takeValues_inner] at found
      cases found
      exact ⟨_, .refl, .node failed⟩
  | case7 phrase rule arity tasks values taken left found value combined ih =>
      obtain ⟨inner, others, rfl, rfl⟩ := exists_inner supplied.1
      rw [takeValues_inner] at found
      cases found
      have step : Step ⟨.combine phrase rule taken.length :: tasks, taken.reverse ++ left⟩
          ⟨tasks, value :: left⟩ := .combines combined
      obtain ⟨last, reach, ends⟩ := ih (step.supplied supplied)
      exact ⟨last, reach.head step, ends⟩

theorem reduceFrom_start (tree : Tree) :
    reduceFrom [.visit tree] [] = (valueOf tree).map fun value => [value] := by
  rw [valueOf_eq_evaluate, reduceFrom_visit]
  cases evaluate tree with
  | error error => rfl
  | ok value => simp only [reduceFrom, Except.map]

end Reduction

/-! ### The first error -/

mutual

/-- The nodes of a tree that have values of their own, each after those below it, which go left to
right. -/
def postorder : Tree → List Tree
  | .node (.terminal token) rule children => [.node (.terminal token) rule children]
  | .node (.nonTerminal phrase) rule children =>
      postorderAll children ++ [.node (.nonTerminal phrase) rule children]

def postorderAll : List Tree → List Tree
  | [] => []
  | tree :: trees => postorder tree ++ postorderAll trees

end

def HasValue (tree : Tree) : Prop :=
  ∃ value, evaluate tree = .ok value

/-- A node is wrong in itself: a token that has no value, or a node whose children have values that
cannot be combined. -/
inductive FailsAt : Tree → ReduceError → Prop
  | token {token : Token TokenKind} {rule : Option Nat} {children : List Tree} {error : ReduceError}
      (failed : valueOfToken token = .error error) :
      FailsAt (.node (.terminal token) rule children) error
  | node {phrase : Phrase} {rule : Option Nat} {children : List Tree} {values : List Value}
      {error : ReduceError} (below : evaluateAll children = .ok values)
      (failed : combine phrase rule values = .error error) :
      FailsAt (.node (.nonTerminal phrase) rule children) error

/-- The first of some nodes that has no value is wrong in itself, with an error. -/
def FirstError (nodes : List Tree) (error : ReduceError) : Prop :=
  ∃ before node after, nodes = before ++ node :: after ∧ (∀ earlier ∈ before, HasValue earlier) ∧
    FailsAt node error

theorem FirstError.append {nodes : List Tree} {error : ReduceError}
    (first : FirstError nodes error) (others : List Tree) : FirstError (nodes ++ others) error := by
  obtain ⟨before, node, after, rfl, valued, fails⟩ := first
  exact ⟨before, node, after ++ others, by simp, valued, fails⟩

theorem FirstError.behind {nodes others : List Tree} {error : ReduceError}
    (first : FirstError nodes error) (valued : ∀ earlier ∈ others, HasValue earlier) :
    FirstError (others ++ nodes) error := by
  obtain ⟨before, node, after, rfl, valuedBefore, fails⟩ := first
  refine ⟨others ++ before, node, after, by simp, ?_, fails⟩
  intro earlier inside
  exact (List.mem_append.mp inside).elim (valued earlier) (valuedBefore earlier)

theorem evaluateAll_cons_error_iff {tree : Tree} {trees : List Tree} {error : ReduceError} :
    evaluateAll (tree :: trees) = .error error ↔ evaluate tree = .error error ∨
      HasValue tree ∧ evaluateAll trees = .error error := by
  rw [HasValue]
  cases first : evaluate tree with
  | error error => simp [evaluateAll, first]
  | ok value => cases later : evaluateAll trees <;> simp [evaluateAll, first, later]

mutual

theorem hasValue_of_evaluate {tree : Tree} {value : Value} (evaluated : evaluate tree = .ok value) :
    ∀ node ∈ postorder tree, HasValue node := by
  match tree with
  | .node (.terminal token) rule children =>
      intro node inside
      rw [postorder, List.mem_singleton] at inside
      subst inside
      exact ⟨value, evaluated⟩
  | .node (.nonTerminal phrase) rule children =>
      intro node inside
      obtain ⟨values, below, _⟩ := evaluate_nonTerminal_ok_iff.mp evaluated
      rw [postorder, List.mem_append, List.mem_singleton] at inside
      rcases inside with inner | rfl
      · exact hasValue_of_evaluateAll below node inner
      · exact ⟨value, evaluated⟩

theorem hasValue_of_evaluateAll {trees : List Tree} {values : List Value}
    (evaluated : evaluateAll trees = .ok values) : ∀ node ∈ postorderAll trees, HasValue node := by
  match trees with
  | [] =>
      intro node inside
      cases inside
  | tree :: trees =>
      intro node inside
      obtain ⟨value, others, first, later, _⟩ := evaluateAll_cons_ok_iff.mp evaluated
      rw [postorderAll, List.mem_append] at inside
      rcases inside with here | there
      · exact hasValue_of_evaluate first node here
      · exact hasValue_of_evaluateAll later node there

end

mutual

theorem firstError_of_evaluate {tree : Tree} {error : ReduceError}
    (evaluated : evaluate tree = .error error) : FirstError (postorder tree) error := by
  match tree with
  | .node (.terminal token) rule children =>
      exact ⟨[], _, [], rfl, by simp, .token evaluated⟩
  | .node (.nonTerminal phrase) rule children =>
      rw [postorder]
      cases below : evaluateAll children with
      | error inner =>
          simp only [evaluate, below, Except.error.injEq] at evaluated
          subst evaluated
          exact (firstError_of_evaluateAll below).append _
      | ok values =>
          simp only [evaluate, below] at evaluated
          refine ⟨_, _, [], rfl, hasValue_of_evaluateAll below, .node below evaluated⟩

theorem firstError_of_evaluateAll {trees : List Tree} {error : ReduceError}
    (evaluated : evaluateAll trees = .error error) : FirstError (postorderAll trees) error := by
  match trees with
  | [] => cases evaluated
  | tree :: trees =>
      rw [postorderAll]
      rcases evaluateAll_cons_error_iff.mp evaluated with first | ⟨⟨value, first⟩, later⟩
      · exact (firstError_of_evaluate first).append _
      · exact (firstError_of_evaluateAll later).behind (hasValue_of_evaluate first)

end

theorem FirstError.ne_missingValue {nodes : List Tree} {error : ReduceError}
    (first : FirstError nodes error) : error ≠ .missingValue := by
  rintro rfl
  obtain ⟨_, _, _, _, _, fails⟩ := first
  cases fails with
  | token failed =>
      unfold valueOfToken at failed
      split at failed <;> try split at failed
      all_goals cases failed
  | node below failed =>
      unfold combine at failed
      split at failed <;> cases failed

/-- The reduction of a tree is the recursion over it, up to the first error in post-order. On the
way no combination finds fewer values than its node has children. -/
theorem valueOf_folds (tree : Tree) :
    valueOf tree = evaluate tree ∧
      (∀ value, evaluate tree = .ok value → ∀ node ∈ postorder tree, HasValue node) ∧
      (∀ error, evaluate tree = .error error →
        FirstError (postorder tree) error ∧ error ≠ .missingValue) ∧
      (∃ last, Reduction.Reach (.start tree) last ∧
        last.Ends ((valueOf tree).map fun value => [value])) ∧
      ∀ state, Reduction.Reach (.start tree) state →
        (∀ phrase rule arity later, state.tasks = .combine phrase rule arity :: later →
          arity ≤ state.values.length ∧
            ∃ inner others, takeValues arity [] state.values = some (inner, others)) ∧
        (state.tasks = [] → ∃ value, state.values = [value]) := by
  refine ⟨valueOf_eq_evaluate tree, fun value => hasValue_of_evaluate, ?_, ?_, ?_⟩
  · intro error evaluated
    have first := firstError_of_evaluate evaluated
    exact ⟨first, first.ne_missingValue⟩
  · rw [← Reduction.reduceFrom_start]
    exact Reduction.exists_ends _ _ rfl
  · intro state reach
    have supplied := Reduction.supplied_of_reach reach
    constructor
    · intro phrase rule arity later first
      rw [first] at supplied
      obtain ⟨inner, others, rfl, parts⟩ := exists_inner supplied.1
      refine ⟨supplied.1, inner, others, ?_⟩
      rw [parts]
      exact takeValues_inner inner others
    · intro finished
      rw [finished] at supplied
      exact List.length_eq_one_iff.mp supplied

def misshapen : Tree :=
  .node (.nonTerminal .document) (some 7) [
    .node (.nonTerminal .argument) none [.node (.terminal ⟨.number, "1", 0⟩) none []],
    .node (.terminal ⟨.number, "x", 2⟩) (some 4) [.node (.nonTerminal .argument) none []],
    .node (.nonTerminal .document) none []]

theorem valueOf_folds_misshapen :
    valueOf misshapen = .error (.invalidNumber ⟨.number, "x", 2⟩) ∧
      FirstError (postorder misshapen) (.invalidNumber ⟨.number, "x", 2⟩) ∧
      ∃ state later, Reduction.Reach (.start misshapen) state ∧
        state.tasks = .combine .argument none 1 :: later ∧ 1 ≤ state.values.length := by
  obtain ⟨same, _, failing, _, supplied⟩ := valueOf_folds misshapen
  have failed : evaluate misshapen = .error (.invalidNumber ⟨.number, "x", 2⟩) := by rfl
  obtain ⟨value, read⟩ : ∃ value, valueOfToken ⟨.number, "1", 0⟩ = .ok value := ⟨_, rfl⟩
  have reach : Reduction.Reach (.start misshapen) _ :=
    .head .enters (.head .enters (.head (.reads read) .refl))
  refine ⟨same.trans failed, (failing _ failed).1, _, _, reach, rfl, ?_⟩
  exact ((supplied _ reach).1 _ _ _ _ rfl).1

end Lookahead.SExpr
