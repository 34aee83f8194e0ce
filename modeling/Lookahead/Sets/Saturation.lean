/-!
# Passes until nothing changes

The sets of a grammar are least fixed points. Each is computed by a pass over the rules that adds
what the sets so far call for and reports whether it has added anything; passes follow each other
until one reports no change.

`saturate` takes the number of elements that may be added at all. A pass that reports a change adds
one at least, so no run has more changing passes than that: the count is never what ends a run
(`Growing.settles`), and the last pass has added nothing (`Growing.settled`).
-/

set_option autoImplicit false

namespace Lookahead

/-- Repeats a pass until it reports no change, and counts the passes, the last one included.
At most `spare` passes that report a change are followed by another. -/
def saturate {State : Type} (pass : State → State × Bool) : Nat → State → State × Nat
  | 0, state => ((pass state).1, 1)
  | spare + 1, state =>
      match pass state with
      | (next, false) => (next, 1)
      | (next, true) =>
          let rest := saturate pass spare next
          (rest.1, rest.2 + 1)

theorem saturate_unchanged {State : Type} {pass : State → State × Bool} {state : State}
    (spare : Nat) (unchanged : (pass state).2 = false) :
    saturate pass spare state = ((pass state).1, 1) := by
  cases spare with
  | zero => rfl
  | succ spare =>
      simp only [saturate]
      split <;> simp_all

theorem saturate_changed {State : Type} {pass : State → State × Bool} {state : State}
    (spare : Nat) (changed : (pass state).2 = true) :
    saturate pass (spare + 1) state =
      ((saturate pass spare (pass state).1).1, (saturate pass spare (pass state).1).2 + 1) := by
  simp only [saturate]
  split <;> simp_all

/-- Passes follow each other until one reports no change. They lead from one state to another, and
their number counts the last one too. -/
inductive Settles {State : Type} (pass : State → State × Bool) : State → State → Nat → Prop
  | last {state : State} (unchanged : (pass state).2 = false) : Settles pass state (pass state).1 1
  | more {state final : State} {count : Nat} (changed : (pass state).2 = true)
      (later : Settles pass (pass state).1 final count) : Settles pass state final (count + 1)

theorem Settles.exists_last {State : Type} {pass : State → State × Bool} {good : State → Prop}
    (kept : ∀ state, good state → good (pass state).1) {state final : State} {count : Nat}
    (settles : Settles pass state final count) (start : good state) :
    ∃ last, good last ∧ final = (pass last).1 ∧ (pass last).2 = false := by
  induction settles with
  | @last state unchanged => exact ⟨state, start, rfl, unchanged⟩
  | @more state _ _ _ _ ih => exact ih (kept state start)

theorem foldl_stays {State Rule Item : Type} (holds : State → Item → Prop)
    {step : State → Rule → State} {closed : Item → Prop} {rules : List Rule}
    (stays : ∀ state, ∀ rule ∈ rules, (∀ item, holds state item → closed item) →
      ∀ item, holds (step state rule) item → closed item)
    (state : State) (within : ∀ item, holds state item → closed item) :
    ∀ item, holds (rules.foldl step state) item → closed item := by
  induction rules generalizing state with
  | nil => exact within
  | cons rule rules ih =>
      have first := stays state rule List.mem_cons_self within
      exact ih (fun state rule later => stays state rule (List.mem_cons_of_mem _ later)) _ first

/-- What additions do to a set: nothing is lost, and a change is noted exactly if there is one. -/
structure Grown {Item : Type} (before after : Item → Prop) (early late : Bool) : Prop where
  within : ∀ item, before item → after item
  noted : late = true ↔ early = true ∨ ∃ item, after item ∧ ¬ before item

namespace Grown

variable {Item : Type}

theorem refl (held : Item → Prop) (grew : Bool) : Grown held held grew grew where
  within := fun _ inside => inside
  noted := by
    constructor
    · exact .inl
    · rintro (already | ⟨item, inside, outside⟩)
      · exact already
      · exact absurd inside outside

theorem trans {first second third : Item → Prop} {early middle late : Bool}
    (lower : Grown first second early middle) (upper : Grown second third middle late) :
    Grown first third early late where
  within := fun item inside => upper.within item (lower.within item inside)
  noted := by
    rw [upper.noted, lower.noted]
    constructor
    · rintro ((already | ⟨item, inside, outside⟩) | ⟨item, inside, outside⟩)
      · exact .inl already
      · exact .inr ⟨item, upper.within item inside, outside⟩
      · exact .inr ⟨item, inside, fun known => outside (lower.within item known)⟩
    · rintro (already | ⟨item, inside, outside⟩)
      · exact .inl (.inl already)
      · cases Classical.em (second item) with
        | inl between => exact .inl (.inr ⟨item, between, outside⟩)
        | inr between => exact .inr ⟨item, inside, between⟩

section Scan

variable {State Rule : Type} (holds : State → Item → Prop) (grew : State → Bool)
  {step : State → Rule → State}

theorem foldl (grown : ∀ state rule, Grown (holds state) (holds (step state rule)) (grew state)
      (grew (step state rule))) (rules : List Rule) (state : State) :
    Grown (holds state) (holds (rules.foldl step state)) (grew state)
      (grew (rules.foldl step state)) := by
  induction rules generalizing state with
  | nil => exact refl _ _
  | cons rule rules ih => exact (grown state rule).trans (ih (step state rule))

/-- What one step of a scan adds is held at its end. The step adds to a set that has grown. -/
theorem held_foldl (grown : ∀ state rule, Grown (holds state) (holds (step state rule))
      (grew state) (grew (step state rule))) {rules : List Rule} {rule : Rule} {state : State}
    {item : Item} (listed : rule ∈ rules)
    (added : ∀ later, (∀ item, holds state item → holds later item) →
      holds (step later rule) item) : holds (rules.foldl step state) item := by
  obtain ⟨before, after, rfl⟩ := List.append_of_mem listed
  have early := foldl holds grew grown before state
  have late := foldl holds grew grown after (step (before.foldl step state) rule)
  rw [List.foldl_append, List.foldl_cons]
  exact late.within item (added _ early.within)

end Scan

end Grown

theorem countP_lt_countP {α : Type} {stronger weaker : α → Bool} {list : List α} {place : α}
    (implied : ∀ element, stronger element = true → weaker element = true)
    (listed : place ∈ list) (fails : stronger place = false) (passes : weaker place = true) :
    list.countP stronger < list.countP weaker := by
  obtain ⟨before, after, rfl⟩ := List.append_of_mem listed
  have left : before.countP stronger ≤ before.countP weaker :=
    List.countP_mono_left fun element _ => implied element
  have right : after.countP stronger ≤ after.countP weaker :=
    List.countP_mono_left fun element _ => implied element
  simp only [List.countP_append, List.countP_cons, fails, passes]
  simp only [Bool.false_eq_true, if_false, if_true]
  omega

namespace Grown

variable {Item : Type} {before after : Item → Prop}

theorem eq_of_unchanged (grown : Grown before after false false) {item : Item}
    (inside : after item) : before item := by
  refine Classical.byContradiction fun outside => ?_
  have changed := grown.noted.mpr (.inr ⟨item, inside, outside⟩)
  cases changed

theorem countP_free_lt [DecidablePred before] [DecidablePred after] {places : List Item}
    (grown : Grown before after false true) (bounded : ∀ item, after item → item ∈ places) :
    places.countP (fun place => ¬ after place) < places.countP (fun place => ¬ before place) := by
  obtain ⟨item, inside, outside⟩ : ∃ item, after item ∧ ¬ before item := by
    simpa using grown.noted.mp rfl
  apply countP_lt_countP _ (bounded item inside)
  · simpa using inside
  · simpa using outside
  · intro place free
    simp only [decide_eq_true_eq] at free ⊢
    exact fun held => free (grown.within place held)

end Grown

/-- A pass over states that hold items: what it keeps true of a state, how it adds, and the places
that can ever be filled. -/
structure Growing {State Item : Type} (pass : State → State × Bool)
    (holds : State → Item → Prop) (good : State → Prop) (places : List Item) : Prop where
  kept : ∀ state, good state → good (pass state).1
  grown : ∀ state, Grown (holds state) (holds (pass state).1) false (pass state).2
  bounded : ∀ state item, good state → holds state item → item ∈ places

namespace Growing

variable {State Item : Type} {pass : State → State × Bool} {holds : State → Item → Prop}
  {good : State → Prop} {places : List Item}

/-- With room for every place that is still free, passes follow each other until one reports no
change. -/
theorem settles_of_free [∀ state, DecidablePred (holds state)]
    (growing : Growing pass holds good places) (spare : Nat) (state : State) (start : good state)
    (enough : places.countP (fun place => ¬ holds state place) ≤ spare) :
    Settles pass state (saturate pass spare state).1 (saturate pass spare state).2 := by
  induction spare generalizing state with
  | zero =>
      have grows := growing.grown state
      cases changed : (pass state).2 with
      | false => exact .last changed
      | true =>
          rw [changed] at grows
          have fewer := grows.countP_free_lt fun item => growing.bounded _ item (growing.kept state start)
          omega
  | succ spare ih =>
      have grows := growing.grown state
      cases changed : (pass state).2 with
      | false =>
          rw [saturate_unchanged _ changed]
          exact .last changed
      | true =>
          rw [changed] at grows
          have fewer := grows.countP_free_lt fun item => growing.bounded _ item (growing.kept state start)
          rw [saturate_changed _ changed]
          exact .more changed (ih _ (growing.kept state start) (by omega))

theorem settles (growing : Growing pass holds good places) (spare : Nat) (state : State)
    (start : good state) (enough : places.length ≤ spare) :
    Settles pass state (saturate pass spare state).1 (saturate pass spare state).2 := by
  classical
  exact growing.settles_of_free spare state start (Nat.le_trans List.countP_le_length enough)

theorem settled (growing : Growing pass holds good places) (spare : Nat) (state : State)
    (start : good state) (enough : places.length ≤ spare) :
    ∃ last, good last ∧ (saturate pass spare state).1 = (pass last).1 ∧
      ∀ item, holds (pass last).1 item → holds last item := by
  obtain ⟨last, goodLast, result, unchanged⟩ :=
    (growing.settles spare state start enough).exists_last growing.kept start
  have grows := growing.grown last
  rw [unchanged] at grows
  exact ⟨last, goodLast, result, fun _ => grows.eq_of_unchanged⟩

end Growing

end Lookahead
