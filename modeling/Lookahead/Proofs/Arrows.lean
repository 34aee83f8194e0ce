import Lookahead.Grammar.Notation
import Lookahead.Proofs.Layout

/-!
# The arrows of a line

`arrowParts` splits a line at its arrows: `Parted` says which parts a line has, and the two agree
(`arrowParts_eq_iff`). Arrows are looked for before words, so a name may end in `-` or start with
`>`: no arrow is put together from the ends of two words, and none from a word and the arrow behind
it (`arrowFree_of_spaced`, `not_startsArrow_append`).
-/

set_option autoImplicit false

namespace Lookahead

open Text (IsGap IsWord Spaced)

namespace Notation

/-! ## Arrows -/

inductive IsArrow : List Char → Prop
  | unicode : IsArrow ['→']
  | ascii : IsArrow ['-', '>']

def ArrowFree (text : List Char) : Prop :=
  ∀ arrow, IsArrow arrow → ¬ arrow <:+: text

def StartsArrow (text : List Char) : Prop :=
  ∃ arrow, IsArrow arrow ∧ arrow <+: text

inductive Parted : List (List Char) → List Char → Prop
  | whole {text : List Char} (free : ArrowFree text) : Parted [text] text
  | arrow {part arrow rest : List Char} {parts : List (List Char)} (free : ArrowFree part)
      (isArrow : IsArrow arrow) (later : Parted parts rest) :
      Parted (part :: parts) (part ++ (arrow ++ rest))

theorem startsArrow_cons_iff {c : Char} {text : List Char} :
    StartsArrow (c :: text) ↔ c = '→' ∨ c = '-' ∧ text.head? = some '>' := by
  constructor
  · rintro ⟨arrow, isArrow, begins⟩
    cases isArrow with
    | unicode =>
        rw [List.cons_prefix_cons] at begins
        exact .inl begins.1.symm
    | ascii =>
        rw [List.cons_prefix_cons] at begins
        obtain ⟨rfl, rest, rfl⟩ := begins
        exact .inr ⟨rfl, rfl⟩
  · rintro (rfl | ⟨rfl, second⟩)
    · exact ⟨_, .unicode, text, rfl⟩
    · obtain ⟨rest, rfl⟩ := List.head?_eq_some_iff.mp second
      exact ⟨_, .ascii, rest, rfl⟩

theorem arrowFree_nil : ArrowFree [] := by
  intro arrow isArrow inside
  rw [List.infix_nil] at inside
  subst inside
  cases isArrow

theorem arrowFree_cons_iff {c : Char} {text : List Char} :
    ArrowFree (c :: text) ↔ ¬ StartsArrow (c :: text) ∧ ArrowFree text := by
  simp only [ArrowFree, StartsArrow, List.infix_cons_iff, not_or, not_exists, not_and, forall_and]

theorem ArrowFree.of_isInfix {part text : List Char} (free : ArrowFree text)
    (inside : part <:+: text) : ArrowFree part :=
  fun arrow isArrow within => free arrow isArrow (within.trans inside)

theorem not_startsArrow_append {c : Char} {part arrow : List Char} (free : ArrowFree (c :: part))
    (isArrow : IsArrow arrow) (rest : List Char) :
    ¬ StartsArrow (c :: (part ++ (arrow ++ rest))) := by
  have plain := (arrowFree_cons_iff.mp free).1
  rw [startsArrow_cons_iff] at plain ⊢
  rintro (first | ⟨first, second⟩)
  · exact plain (.inl first)
  · cases part with
    | cons next part => exact plain (.inr ⟨first, second⟩)
    | nil =>
        -- neither arrow starts with the second character of the other
        cases isArrow with
        | unicode => simp at second
        | ascii => simp at second

theorem arrowPartsFrom_cons {c : Char} {text : List Char} (plain : ¬ StartsArrow (c :: text))
    (held : List Char) : arrowPartsFrom held (c :: text) = arrowPartsFrom (c :: held) text := by
  rw [startsArrow_cons_iff, not_or] at plain
  rw [arrowPartsFrom]
  · exact plain.1
  · intro rest first second
    exact plain.2 ⟨first, by rw [second, List.head?_cons]⟩

theorem arrowPartsFrom_arrow {arrow : List Char} (isArrow : IsArrow arrow)
    (held rest : List Char) :
    arrowPartsFrom held (arrow ++ rest) = held.reverse :: arrowParts rest := by
  cases isArrow <;> rfl

theorem arrowParts_of_parted {parts : List (List Char)} {text : List Char}
    (parted : Parted parts text) : arrowParts text = parts := by
  induction parted with
  | @whole text free =>
      have read : ∀ held, arrowPartsFrom held text = [held.reverse ++ text] := by
        induction text with
        | nil => simp [arrowPartsFrom]
        | cons c text ih =>
            obtain ⟨plain, later⟩ := arrowFree_cons_iff.mp free
            intro held
            rw [arrowPartsFrom_cons plain, ih later]
            simp
      exact read []
  | @arrow part arrow rest parts free isArrow later ih =>
      have read : ∀ held, arrowPartsFrom held (part ++ (arrow ++ rest)) =
          (held.reverse ++ part) :: parts := by
        clear later
        induction part with
        | nil =>
            intro held
            rw [List.nil_append, arrowPartsFrom_arrow isArrow, ih, List.append_nil]
        | cons c part ihPart =>
            have laterFree := (arrowFree_cons_iff.mp free).2
            intro held
            rw [List.cons_append, arrowPartsFrom_cons (not_startsArrow_append free isArrow rest),
              ihPart laterFree]
            simp
      exact read []

theorem Parted.cons {c : Char} {first text : List Char} {parts : List (List Char)}
    (plain : ¬ StartsArrow (c :: text)) (parted : Parted (first :: parts) text) :
    Parted ((c :: first) :: parts) (c :: text) := by
  cases parted with
  | whole free => exact .whole (arrowFree_cons_iff.mpr ⟨plain, free⟩)
  | @arrow _ arrow rest _ free isArrow later =>
      have plainFirst : ¬ StartsArrow (c :: first) := by
        rintro ⟨other, isOther, begins⟩
        exact plain ⟨other, isOther, begins.trans (List.prefix_append (c :: first) _)⟩
      exact .arrow (arrowFree_cons_iff.mpr ⟨plainFirst, free⟩) isArrow later

theorem parted_arrowPartsFrom (held text : List Char) :
    ∃ first parts, arrowPartsFrom held text = (held.reverse ++ first) :: parts ∧
      Parted (first :: parts) text := by
  fun_induction arrowPartsFrom held text with
  | case1 held => exact ⟨[], [], by rw [List.append_nil], .whole arrowFree_nil⟩
  | case2 held text ih =>
      obtain ⟨first, parts, read, parted⟩ := ih
      refine ⟨[], _, by rw [List.append_nil], .arrow arrowFree_nil .unicode ?_⟩
      rwa [read]
  | case3 held text ih =>
      obtain ⟨first, parts, read, parted⟩ := ih
      refine ⟨[], _, by rw [List.append_nil], .arrow arrowFree_nil .ascii ?_⟩
      rwa [read]
  | case4 held c text other otherPair ih =>
      obtain ⟨first, parts, read, parted⟩ := ih
      have plain : ¬ StartsArrow (c :: text) := by
        rw [startsArrow_cons_iff]
        rintro (same | ⟨same, second⟩)
        · exact other same
        · obtain ⟨rest, split⟩ := List.head?_eq_some_iff.mp second
          exact otherPair rest same split
      refine ⟨c :: first, parts, ?_, parted.cons plain⟩
      rw [read]
      simp

theorem arrowParts_eq_iff {text : List Char} {parts : List (List Char)} :
    arrowParts text = parts ↔ Parted parts text := by
  constructor
  · rintro rfl
    obtain ⟨first, parts, read, parted⟩ := parted_arrowPartsFrom [] text
    rw [arrowParts, read]
    exact parted
  · exact arrowParts_of_parted

example : arrowParts "a-->>b".toList = ["a-".toList, ">b".toList] := by decide

/-! ## Names -/

theorem not_startsArrow_of_isBlank {c : Char} (blank : Text.isBlank c = true) (text : List Char) :
    ¬ StartsArrow (c :: text) := by
  rw [startsArrow_cons_iff]
  rintro (rfl | ⟨rfl, _⟩)
  · exact absurd blank (by decide)
  · exact absurd blank (by decide)

theorem arrowFree_gap_append {gap text : List Char} (blank : IsGap gap) (free : ArrowFree text) :
    ArrowFree (gap ++ text) := by
  induction gap with
  | nil => exact free
  | cons c gap ih =>
      rw [Text.isGap_cons] at blank
      exact arrowFree_cons_iff.mpr ⟨not_startsArrow_of_isBlank blank.1 _, ih blank.2⟩

theorem arrowFree_word_append {word rest : List Char} (freeWord : ArrowFree word)
    (free : ArrowFree rest) (ends : ∀ c ∈ rest.head?, Text.isBlank c = true) :
    ArrowFree (word ++ rest) := by
  induction word with
  | nil => exact free
  | cons c word ih =>
      obtain ⟨plain, freeLater⟩ := arrowFree_cons_iff.mp freeWord
      refine arrowFree_cons_iff.mpr ⟨?_, ih freeLater⟩
      rw [startsArrow_cons_iff] at plain ⊢
      rintro (first | ⟨first, second⟩)
      · exact plain (.inl first)
      · cases word with
        | cons next word => exact plain (.inr ⟨first, second⟩)
        | nil => exact absurd (ends '>' second) (by decide)

/-- Words without an arrow make no arrow together, since there is a blank between any two. -/
theorem arrowFree_of_spaced {words : List (List Char)} {text : List Char}
    (spaced : Spaced words text) (free : ∀ word ∈ words, ArrowFree word) : ArrowFree text := by
  induction spaced with
  | @gap text blank =>
      have alone := arrowFree_gap_append blank arrowFree_nil
      rwa [List.append_nil] at alone
  | @word gap word rest words before isWord ends later ih =>
      rw [List.forall_mem_cons] at free
      exact arrowFree_gap_append before (arrowFree_word_append free.1 (ih free.2) ends)

structure IsName (name : String) : Prop where
  isWord : IsWord name.toList
  free : ArrowFree name.toList

end Notation

end Lookahead
