import Lookahead.Proofs.Lexing
import Lookahead.Proofs.Numeral

/-!
# Single tokens

Which texts are taken as a token, and what a token looks like. An identifier or the text of a finite
value is taken as a whole, if what follows it ends a word (`lexeme?_identifier`, `lexeme?_number`).
The other way round, an identifier token is an identifier, and a number token is a numeral behind a
sign (`isIdentifier_of_lexeme?`, `exists_numeral_of_lexeme?`).
-/

set_option autoImplicit false

namespace Lookahead.SExpr

/-- An ASCII letter or an underscore, and characters behind it that are neither blanks nor
parentheses. -/
def IsIdentifier (name : String) : Prop :=
  ∃ c later, name.toList = c :: later ∧ (c.isAlpha = true ∨ c = '_') ∧
    ∀ d ∈ later, Text.isBlank d = false ∧ d ≠ '(' ∧ d ≠ ')'

/-! ## Characters -/

theorem isDigit_iff_toNat {c : Char} : c.isDigit = true ↔ 48 ≤ c.toNat ∧ c.toNat ≤ 57 := by
  simp [Char.isDigit, UInt32.le_iff_toNat_le]

theorem isAlpha_iff_toNat {c : Char} :
    c.isAlpha = true ↔ (65 ≤ c.toNat ∧ c.toNat ≤ 90) ∨ (97 ≤ c.toNat ∧ c.toNat ≤ 122) := by
  have upper : c.isUpper = true ↔ 65 ≤ c.toNat ∧ c.toNat ≤ 90 := by
    change decide ('A'.val ≤ c.val ∧ c.val ≤ 'Z'.val) = true ↔ _
    simp [UInt32.le_iff_toNat_le]
  have lower : c.isLower = true ↔ 97 ≤ c.toNat ∧ c.toNat ≤ 122 := by
    change (decide ('a'.val ≤ c.val) && decide (c.val ≤ 'z'.val)) = true ↔ _
    simp [UInt32.le_iff_toNat_le]
  change (c.isUpper || c.isLower) = true ↔ _
  rw [Bool.or_eq_true, upper, lower]

theorem isWordRest_iff {c : Char} :
    isWordRest c = true ↔ Text.isBlank c = false ∧ c ≠ '(' ∧ c ≠ ')' := by
  simp [isWordRest, and_assoc]

theorem isWordRest_of_isWordStart {c : Char} (start : isWordStart c = true) :
    isWordRest c = true := by
  simp only [isWordStart, Char.isAlphanum, Bool.or_eq_true, beq_iff_eq, isAlpha_iff_toNat,
    isDigit_iff_toNat] at start
  rw [isWordRest_iff]
  refine ⟨?_, ?_, ?_⟩
  · rcases start with inside | rfl
    · simp [Text.isBlank]
      omega
    · decide
  · rintro rfl
    simp at start
  · rintro rfl
    simp at start

theorem isWordRest_of_isDigit {c : Char} (digit : c.isDigit = true) : isWordRest c = true :=
  isWordRest_of_isWordStart (by simp [isWordStart, Char.isAlphanum, digit])

theorem ends_number {rest : List Char} (ends : ∀ c ∈ rest.head?, isWordRest c = false) :
    ∀ c ∈ rest.head?, c.isDigit = false ∧ c ≠ '.' := by
  intro c first
  have word := ends c first
  constructor
  · cases digit : c.isDigit with
    | false => rfl
    | true => simp [isWordRest_of_isDigit digit] at word
  · rintro rfl
    exact absurd word (by decide)

theorem isWordStart_of_isAlpha {c : Char} (letter : c.isAlpha = true ∨ c = '_') :
    isWordStart c = true := by
  rcases letter with letter | rfl
  · simp [isWordStart, Char.isAlphanum, letter]
  · decide

theorem not_isDigit_of_isAlpha {c : Char} (letter : c.isAlpha = true ∨ c = '_') :
    c.isDigit = false := by
  rcases letter with letter | rfl
  · rw [isAlpha_iff_toNat] at letter
    rw [← Bool.not_eq_true, isDigit_iff_toNat]
    omega
  · decide

/-! ## Lexemes -/

theorem lexeme?_cases {text taken rest : List Char} {kind : TokenKind}
    (found : lexeme? text = some (kind, taken, rest)) :
    (kind = .leftParen ∧ text = '(' :: rest ∧ taken = ['(']) ∨
      (kind = .rightParen ∧ text = ')' :: rest ∧ taken = [')']) ∨
      (kind = .number ∧ splitNumber? text = some (taken, rest)) ∨
      (kind = .identifier ∧ splitNumber? text = none ∧ splitWord? text = some (taken, rest)) := by
  unfold lexeme? at found
  split at found
  · cases found
    exact .inl ⟨rfl, rfl, rfl⟩
  · cases found
    exact .inr (.inl ⟨rfl, rfl, rfl⟩)
  · split at found
    · rename_i number
      cases found
      exact .inr (.inr (.inl ⟨rfl, number⟩))
    · rename_i none
      obtain ⟨⟨word, after⟩, split, same⟩ := Option.map_eq_some_iff.mp found
      cases same
      exact .inr (.inr (.inr ⟨rfl, none, split⟩))

theorem lexeme?_of_splitNumber? {text taken rest : List Char}
    (number : splitNumber? text = some (taken, rest)) :
    lexeme? text = some (.number, taken, rest) := by
  unfold lexeme?
  split
  · simp [splitNumber?, splitUnsigned?] at number
  · simp [splitNumber?, splitUnsigned?] at number
  · rw [number]

theorem lexeme?_of_splitWord? {text taken rest : List Char} (noNumber : splitNumber? text = none)
    (word : splitWord? text = some (taken, rest)) :
    lexeme? text = some (.identifier, taken, rest) := by
  unfold lexeme?
  split
  · simp [splitWord?, isWordStart] at word
  · simp [splitWord?, isWordStart] at word
  · rw [noNumber, word]
    rfl

theorem splitNumber?_eq_none_iff {c : Char} {text : List Char} (sign : c ≠ '-') :
    splitNumber? (c :: text) = none ↔ c.isDigit = false := by
  rw [splitNumber?_of_ne sign]
  cases digit : c.isDigit <;> simp [splitUnsigned?, digit]

theorem splitWord?_eq_some_iff {c : Char} {text taken rest : List Char} :
    splitWord? (c :: text) = some (taken, rest) ↔
      isWordStart c = true ∧ taken = c :: text.takeWhile isWordRest ∧
        rest = text.dropWhile isWordRest := by
  cases start : isWordStart c <;> simp [splitWord?, start, eq_comm]

theorem not_isBlank_of_lexeme? {c : Char} {text taken rest : List Char} {kind : TokenKind}
    (found : lexeme? (c :: text) = some (kind, taken, rest)) : Text.isBlank c = false := by
  rcases lexeme?_cases found with ⟨_, same, _⟩ | ⟨_, same, _⟩ | ⟨_, number⟩ | ⟨_, _, word⟩
  · obtain ⟨rfl, _⟩ := List.cons.inj same
    decide
  · obtain ⟨rfl, _⟩ := List.cons.inj same
    decide
  · by_cases sign : c = '-'
    · subst sign
      decide
    · cases digit : c.isDigit with
      | true => exact (isWordRest_iff.mp (isWordRest_of_isDigit digit)).1
      | false => simp [(splitNumber?_eq_none_iff sign).mpr digit] at number
  · obtain ⟨start, _⟩ := splitWord?_eq_some_iff.mp word
    exact (isWordRest_iff.mp (isWordRest_of_isWordStart start)).1

theorem lexeme?_identifier {name : String} (identifier : IsIdentifier name) {rest : List Char}
    (ends : ∀ c ∈ rest.head?, isWordRest c = false) :
    lexeme? (name.toList ++ rest) = some (.identifier, name.toList, rest) := by
  obtain ⟨c, later, spelled, letter, others⟩ := identifier
  have inside : ∀ d ∈ later, isWordRest d = true :=
    fun d found => isWordRest_iff.mpr (others d found)
  have taken := Text.takeWhile_part inside rest ends
  have dropped := Text.dropWhile_part inside rest ends
  have sign : c ≠ '-' := by
    rintro rfl
    exact absurd letter (by decide)
  rw [spelled, List.cons_append]
  apply lexeme?_of_splitWord?
  · exact (splitNumber?_eq_none_iff sign).mpr (not_isDigit_of_isAlpha letter)
  · exact splitWord?_eq_some_iff.mpr ⟨isWordStart_of_isAlpha letter, by rw [taken], dropped.symm⟩

theorem lexeme?_number {value : Binary64} (finite : value.IsFinite) {rest : List Char}
    (ends : ∀ c ∈ rest.head?, isWordRest c = false) :
    lexeme? ((Number.text value).toList ++ rest) =
      some (.number, (Number.text value).toList, rest) := by
  obtain ⟨negative, whole, fraction, body, spelled, numeral, _⟩ := Number.exists_numeral_text finite
  rw [spelled]
  exact lexeme?_of_splitNumber? (splitNumber?_numeral negative numeral (ends_number ends))

theorem Lexer.draw_token {blanks taken rest : List Char} {kind : TokenKind}
    (blank : ∀ c ∈ blanks, Text.isBlank c = true)
    (found : lexeme? (taken ++ rest) = some (kind, taken, rest)) (position : Nat) :
    Draw ⟨blanks ++ (taken ++ rest), position, false⟩
      (.ok ⟨kind, String.ofList taken, position + Text.byteLength blanks⟩)
      ⟨rest, position + Text.byteLength blanks + Text.byteLength taken, false⟩ := by
  obtain ⟨c, later, same⟩ := List.exists_cons_of_ne_nil (lexeme?_append found).2
  subst same
  have visible : Text.isBlank c = false := not_isBlank_of_lexeme? found
  have left : Text.skipBlank (blanks ++ (c :: later ++ rest)) = c :: (later ++ rest) := by
    rw [Text.skipBlank, List.dropWhile_append_of_pos blank, List.cons_append,
      List.dropWhile_cons_of_neg (by simp [visible])]
  have front : (blanks ++ (c :: later ++ rest)).takeWhile Text.isBlank = blanks := by
    refine Text.takeWhile_part blank _ ?_
    intro d first
    obtain rfl : c = d := by simpa using first
    exact visible
  have draw : Draw ⟨blanks ++ (c :: later ++ rest), position, false⟩ _ _ := .token left found
  rw [tokenStart, front] at draw
  exact draw

/-! ## What a token looks like -/

theorem isIdentifier_of_lexeme? {text taken rest : List Char}
    (found : lexeme? text = some (.identifier, taken, rest)) :
    IsIdentifier (String.ofList taken) := by
  obtain ⟨⟨⟩, _⟩ | ⟨⟨⟩, _⟩ | ⟨⟨⟩, _⟩ | ⟨_, noNumber, word⟩ := lexeme?_cases found
  cases text with
  | nil => cases word
  | cons c text =>
      obtain ⟨start, rfl, rfl⟩ := splitWord?_eq_some_iff.mp word
      have sign : c ≠ '-' := by
        rintro rfl
        exact absurd start (by decide)
      have noDigit := (splitNumber?_eq_none_iff sign).mp noNumber
      refine ⟨c, text.takeWhile isWordRest, String.toList_ofList, ?_, ?_⟩
      · simpa [isWordStart, Char.isAlphanum, noDigit] using start
      · intro d inside
        exact isWordRest_iff.mp (List.all_eq_true.mp List.all_takeWhile d inside)

theorem exists_numeral_of_lexeme? {text taken rest : List Char}
    (found : lexeme? text = some (.number, taken, rest)) :
    ∃ negative whole fraction body, taken = Number.signText negative ++ body ∧
      Number.Numeral whole fraction body := by
  obtain ⟨⟨⟩, _⟩ | ⟨⟨⟩, _⟩ | ⟨_, number⟩ | ⟨⟨⟩, _⟩ := lexeme?_cases found
  exact exists_numeral_of_splitNumber? number

end Lookahead.SExpr
