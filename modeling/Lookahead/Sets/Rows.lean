import Lookahead.Sets.Saturation

/-!
# Rows of terminals

A set of terminals for each of some names: the form of FIRST and FOLLOW. A name without a row has
no terminals, which differs from a name with an empty row only when the rows are listed.

A pass builds rows by `Growth.add`, which loses nothing and notes exactly whether it has added
anything (`Growth.grown_add`).
-/

set_option autoImplicit false

namespace Lookahead

variable {T N : Type} [DecidableEq T] [DecidableEq N]

def unite (left right : List T) : List T :=
  left ++ right.filter (· ∉ left)

abbrev Rows (T N : Type) := List (N × List T)

namespace Rows

omit [DecidableEq T] in
def row? (name : N) : Rows T N → Option (List T)
  | [] => none
  | (other, row) :: rest => if other = name then some row else row? name rest

omit [DecidableEq T] in
def row (rows : Rows T N) (name : N) : List T :=
  (rows.row? name).getD []

/-- The row is made if there is none. -/
def add (name : N) (terminals : List T) : Rows T N → Rows T N
  | [] => [(name, unite [] terminals)]
  | (other, row) :: rest =>
      if other = name then (other, unite row terminals) :: rest
      else (other, row) :: add name terminals rest

omit [DecidableEq T] in
def ofNames (names : List N) : Rows T N :=
  names.eraseDups.map fun name => (name, [])

omit [DecidableEq N] in
@[simp]
theorem mem_unite {left right : List T} {terminal : T} :
    terminal ∈ unite left right ↔ terminal ∈ left ∨ terminal ∈ right := by
  simp only [unite, List.mem_append, List.mem_filter, decide_eq_true_eq]
  constructor
  · rintro (inside | ⟨inside, _⟩)
    · exact .inl inside
    · exact .inr inside
  · rintro (inside | inside)
    · exact .inl inside
    · by_cases known : terminal ∈ left
      · exact .inl known
      · exact .inr ⟨inside, known⟩

@[simp]
theorem mem_row_add {rows : Rows T N} {name other : N} {terminals : List T} {terminal : T} :
    terminal ∈ (rows.add name terminals).row other ↔
      terminal ∈ rows.row other ∨ name = other ∧ terminal ∈ terminals := by
  induction rows with
  | nil =>
      by_cases same : name = other <;> simp [add, row, row?, same]
  | cons entry rest ih =>
      obtain ⟨first, terms⟩ := entry
      simp only [row] at ih
      by_cases here : first = name
      · subst first
        by_cases same : name = other <;> simp [add, row, row?, same]
      · by_cases same : first = other
        · subst other
          simp [add, row, row?, here, Ne.symm here]
        · simp [add, row, row?, here, same, ih]

omit [DecidableEq T] in
@[simp]
theorem row_ofNames (names : List N) (name : N) :
    (ofNames names : Rows T N).row name = [] := by
  unfold ofNames
  generalize names.eraseDups = distinct
  induction distinct with
  | nil => rfl
  | cons first rest ih =>
      simp only [row] at ih
      by_cases same : first = name <;> simp [row, row?, same, ih]

def Has (rows : Rows T N) (place : N × T) : Prop :=
  place.2 ∈ rows.row place.1

omit [DecidableEq T] in
theorem not_has_ofNames (names : List N) (place : N × T) : ¬ (ofNames names).Has place := by
  simp only [Has, row_ofNames, List.not_mem_nil, not_false_eq_true]

end Rows

/-- Rows in the middle of a pass, and whether the pass has added a terminal to any of them. -/
structure Growth (T N : Type) where
  rows : Rows T N
  grew : Bool

namespace Growth

def Has (growth : Growth T N) (place : N × T) : Prop :=
  growth.rows.Has place

def add (name : N) (terminals : List T) (growth : Growth T N) : Growth T N where
  rows := growth.rows.add name terminals
  grew := growth.grew || terminals.any (· ∉ growth.rows.row name)

theorem grown_add (name : N) (terminals : List T) (growth : Growth T N) :
    Grown growth.Has (growth.add name terminals).Has growth.grew
      (growth.add name terminals).grew where
  within := fun place inside => Rows.mem_row_add.mpr (.inl inside)
  noted := by
    simp only [add, Bool.or_eq_true, List.any_eq_true, decide_eq_true_eq, Has, Rows.Has,
      Rows.mem_row_add]
    apply or_congr Iff.rfl
    constructor
    · rintro ⟨terminal, inside, outside⟩
      exact ⟨(name, terminal), .inr ⟨rfl, inside⟩, outside⟩
    · rintro ⟨⟨other, terminal⟩, known | ⟨rfl, inside⟩, outside⟩
      · exact absurd known outside
      · exact ⟨terminal, inside, outside⟩

end Growth

end Lookahead
