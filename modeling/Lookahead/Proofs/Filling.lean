import Lookahead.Table

/-!
# How the cells of a table are filled

`Filling.Step` says once what a claim does to the cells: it fills a free one, it finds its own index
in a filled one, or it fails. A filling is a chain of such steps (`Filling.outcome_cons`), and the
rest follows by induction on the claims. The cells at the end are those at the start and the claimed
ones (`Filling.indexAt?_run`), so that no claim takes a cell away from another
(`Filling.keeps_run`). A filling that fails does so at the first claim that meets another index
(`Filling.error_cases`), and one from empty cells succeeds exactly if the claims agree
(`Filling.outcome_ok_iff`).
-/

set_option autoImplicit false

namespace Lookahead.Filling

variable {T N : Type} [DecidableEq T] [DecidableEq N]

inductive Step (rules : List (Rule T N)) (claim : Claim T N) (cells : List (Cell T N)) :
    Except (TableError T N) (List (Cell T N)) → Prop
  | fills (free : Cell.indexAt? cells claim.rule.lhs claim.terminal = none) :
      Step rules claim cells (.ok (⟨claim.rule.lhs, claim.terminal, claim.rule.index⟩ :: cells))
  | repeats (held : Cell.indexAt? cells claim.rule.lhs claim.terminal = some claim.rule.index) :
      Step rules claim cells (.ok cells)
  | meets {index : Nat} {existing : Rule T N}
      (held : Cell.indexAt? cells claim.rule.lhs claim.terminal = some index)
      (other : index ≠ claim.rule.index) (found : rules[index]? = some existing) :
      Step rules claim cells
        (.error (.conflict ⟨claim.rule.lhs, claim.terminal, existing, claim.rule⟩))
  | strays {index : Nat} (held : Cell.indexAt? cells claim.rule.lhs claim.terminal = some index)
      (other : index ≠ claim.rule.index) (missing : rules[index]? = none) :
      Step rules claim cells (.error (.strayIndex claim index))

theorem outcome_cons (rules : List (Rule T N)) (claim : Claim T N) (cells : List (Cell T N)) :
    ∃ made, Step rules claim cells made ∧ ∀ rest, (run rules (claim :: rest) cells).outcome =
      made.bind fun next => (run rules rest next).outcome := by
  cases held : Cell.indexAt? cells claim.rule.lhs claim.terminal with
  | none =>
      refine ⟨_, .fills held, fun rest => ?_⟩
      simp [run, held, Except.bind]
  | some index =>
      by_cases same : index = claim.rule.index
      · subst index
        refine ⟨_, .repeats held, fun rest => ?_⟩
        simp [run, held, Except.bind]
      · cases found : rules[index]? with
        | none =>
            refine ⟨_, .strays held same found, fun rest => ?_⟩
            simp [run, held, same, found, Except.bind]
        | some existing =>
            refine ⟨_, .meets held same found, fun rest => ?_⟩
            simp [run, held, same, found, Except.bind]

variable {rules : List (Rule T N)} {claims : List (Claim T N)} {cells filled : List (Cell T N)}
  {name : N} {terminal : T} {index : Nat}

theorem Step.indexAt?_iff {claim : Claim T N} (step : Step rules claim cells (.ok filled)) :
    Cell.indexAt? filled name terminal = some index ↔
      Cell.indexAt? cells name terminal = some index ∨
        claim.rule.lhs = name ∧ claim.terminal = terminal ∧ claim.rule.index = index := by
  cases step with
  | fills free =>
      -- the new cell answers for its own place only
      rw [Cell.indexAt?_cons]
      by_cases here : claim.rule.lhs = name ∧ claim.terminal = terminal
      · obtain ⟨rfl, rfl⟩ := here
        simp [free]
      · rw [if_neg here]
        constructor
        · exact .inl
        · rintro (old | ⟨atName, atTerminal, _⟩)
          · exact old
          · exact absurd ⟨atName, atTerminal⟩ here
  | repeats held =>
      constructor
      · exact .inl
      · rintro (old | ⟨rfl, rfl, rfl⟩)
        · exact old
        · exact held

theorem Step.meets_index {claim : Claim T N} {error : TableError T N}
    (step : Step rules claim cells (.error error)) :
    ∃ index, Cell.indexAt? cells claim.rule.lhs claim.terminal = some index ∧
      index ≠ claim.rule.index ∧ ∀ existing, rules[index]? = some existing →
        error = .conflict ⟨claim.rule.lhs, claim.terminal, existing, claim.rule⟩ := by
  cases step with
  | meets held other found =>
      refine ⟨_, held, other, fun existing listed => ?_⟩
      rw [found] at listed
      obtain rfl := Option.some.inj listed
      rfl
  | strays held other missing =>
      refine ⟨_, held, other, fun existing listed => ?_⟩
      rw [missing] at listed
      cases listed

theorem indexAt?_run (ran : (run rules claims cells).outcome = .ok filled) :
    Cell.indexAt? filled name terminal = some index ↔
      Cell.indexAt? cells name terminal = some index ∨
        ∃ claim ∈ claims, claim.rule.lhs = name ∧ claim.terminal = terminal ∧
          claim.rule.index = index := by
  induction claims generalizing cells with
  | nil =>
      cases ran
      simp
  | cons claim rest ih =>
      obtain ⟨made, step, chain⟩ := outcome_cons rules claim cells
      rw [chain] at ran
      cases made with
      | error error => cases ran
      | ok next =>
          have later := ih ran
          rw [later, step.indexAt?_iff]
          simp [or_assoc]

/-- What the cells hold after some of the claims, they hold after more of them. -/
def Keeps (rules : List (Rule T N)) (claims : List (Claim T N)) : Prop :=
  ∀ early late, early <+: late → late <+: claims → ∀ cells filled,
    (run rules early []).outcome = .ok cells → (run rules late []).outcome = .ok filled →
      ∀ name terminal index, Cell.indexAt? cells name terminal = some index →
        Cell.indexAt? filled name terminal = some index

theorem keeps_run (rules : List (Rule T N)) (claims : List (Claim T N)) : Keeps rules claims := by
  intro early late longer _ cells filled ranEarly ranLate name terminal index held
  rcases (indexAt?_run ranEarly).mp held with empty | ⟨claim, made, own⟩
  · cases empty
  · exact (indexAt?_run ranLate).mpr (.inr ⟨claim, longer.subset made, own⟩)

theorem error_cases {error : TableError T N}
    (failed : (run rules claims cells).outcome = .error error) :
    ∃ early claim late filled, claims = early ++ claim :: late ∧
      (run rules early cells).outcome = .ok filled ∧ Step rules claim filled (.error error) := by
  induction claims generalizing cells with
  | nil => cases failed
  | cons claim rest ih =>
      obtain ⟨made, step, chain⟩ := outcome_cons rules claim cells
      rw [chain] at failed
      cases made with
      | error first =>
          obtain rfl := Except.error.inj failed
          exact ⟨[], claim, rest, cells, rfl, rfl, step⟩
      | ok next =>
          obtain ⟨early, other, late, filled, split, ran, last⟩ := ih failed
          refine ⟨claim :: early, other, late, filled, ?_, ?_, last⟩
          · rw [split, List.cons_append]
          · rw [chain]
            exact ran

theorem exists_earlier_of_error {error : TableError T N}
    (failed : (run rules claims []).outcome = .error error) :
    ∃ earlier ∈ claims, ∃ claim ∈ claims, earlier.rule.lhs = claim.rule.lhs ∧
      earlier.terminal = claim.terminal ∧ earlier.rule.index ≠ claim.rule.index ∧
        ∀ existing, rules[earlier.rule.index]? = some existing →
          error = .conflict ⟨claim.rule.lhs, claim.terminal, existing, claim.rule⟩ := by
  obtain ⟨early, claim, late, filled, split, ran, last⟩ := error_cases failed
  obtain ⟨index, held, other, reported⟩ := last.meets_index
  -- the cells were empty at first, so the index that is met was claimed before
  rcases (indexAt?_run ran).mp held with empty | ⟨earlier, made, atName, atTerminal, rfl⟩
  · cases empty
  · have listed : claim ∈ claims := by simp [split]
    have listedEarlier : earlier ∈ claims := by simp [split, made]
    exact ⟨earlier, listedEarlier, claim, listed, atName, atTerminal, other, reported⟩

def Agree (claims : List (Claim T N)) : Prop :=
  ∀ first ∈ claims, ∀ second ∈ claims, first.rule.lhs = second.rule.lhs →
    first.terminal = second.terminal → first.rule.index = second.rule.index

theorem outcome_ok_iff :
    (∃ filled, (run rules claims []).outcome = .ok filled) ↔ Agree claims := by
  constructor
  · rintro ⟨filled, ran⟩ first listedFirst second listedSecond sameName sameTerminal
    -- both indices are read from the one cell of the two claims
    have atFirst : Cell.indexAt? filled first.rule.lhs first.terminal = some first.rule.index :=
      (indexAt?_run ran).mpr (.inr ⟨first, listedFirst, rfl, rfl, rfl⟩)
    have atSecond : Cell.indexAt? filled first.rule.lhs first.terminal = some second.rule.index :=
      (indexAt?_run ran).mpr (.inr ⟨second, listedSecond, sameName.symm, sameTerminal.symm, rfl⟩)
    rw [atFirst] at atSecond
    exact Option.some.inj atSecond
  · intro agree
    cases ran : (run rules claims []).outcome with
    | ok filled => exact ⟨filled, rfl⟩
    | error error =>
        obtain ⟨earlier, listedEarlier, claim, listed, atName, atTerminal, other, _⟩ :=
          exists_earlier_of_error ran
        have same := agree earlier listedEarlier claim listed atName atTerminal
        exact absurd same other

end Lookahead.Filling
