import Lookahead.Number
import Lookahead.Proofs.Rounding
import Lookahead.SExpr.Lexer

/-!
# Numerals

A numeral is a text of digits, with a point and more digits behind them or without. Lexer, reader
and printer meet in this form: what the lexer takes as a number is a numeral behind a sign
(`exists_numeral_of_splitNumber?`) and it takes all of one (`splitNumber?_numeral`), the reader
rounds its digits (`read?_numeral`), and the printer writes one whose digits are rounded to the value
printed (`exists_numeral_magnitudeText`). So a finite value is read back from its text
(`read?_text`).
-/

set_option autoImplicit false

namespace Lookahead

/-! ## Where a part of a text ends -/

section Parts

variable {p : Char → Bool} {part : List Char} (all : ∀ c ∈ part, p c = true) (rest : List Char)
  (ends : ∀ c ∈ rest.head?, p c = false)

include all ends

theorem Text.takeWhile_part : (part ++ rest).takeWhile p = part := by
  rw [List.takeWhile_append_of_pos all]
  cases rest with
  | nil => simp
  | cons c rest => simp [ends c rfl]

theorem Text.dropWhile_part : (part ++ rest).dropWhile p = rest := by
  rw [List.dropWhile_append_of_pos all]
  cases rest with
  | nil => rfl
  | cons c rest => simp [ends c rfl]

end Parts

theorem Text.head?_dropWhile {p : Char → Bool} (text : List Char) :
    ∀ c ∈ (text.dropWhile p).head?, p c = false := by
  intro c first
  have stops := List.head?_dropWhile_not p text
  rw [Option.mem_def.mp first] at stops
  exact stops

/-! ## Numerals -/

/-- A finite value of the format, its magnitude in its one form. -/
def Binary64.IsFinite : Binary64 → Prop
  | .finite _ magnitude => magnitude.IsNormal
  | .infinite _ => False
  | .nan => False

namespace Number

/-- The digits before a point, those behind it, and the text that they make. Without a point there are
none behind it. -/
inductive Numeral : List Char → List Char → List Char → Prop
  | plain {whole : List Char} (nonempty : whole ≠ []) (digits : ∀ c ∈ whole, c.isDigit = true) :
      Numeral whole [] whole
  | pointed {whole fraction : List Char} (nonempty : whole ≠ [])
      (digits : ∀ c ∈ whole, c.isDigit = true) (places : ∀ c ∈ fraction, c.isDigit = true) :
      Numeral whole fraction (whole ++ '.' :: fraction)

/-! ## Reading -/

theorem readDecimal?_numeral {whole fraction text : List Char}
    (numeral : Numeral whole fraction text) :
    readDecimal? text = some (digitsValue (whole ++ fraction), -(fraction.length : Int)) := by
  cases numeral with
  | plain nonempty digits =>
      have front := Text.takeWhile_part digits [] (by simp)
      have back := Text.dropWhile_part digits [] (by simp)
      rw [List.append_nil] at front back
      simp [readDecimal?, splitDigits, front, back, splitFraction, nonempty, readTail?]
  | pointed nonempty digits places =>
      have front := Text.takeWhile_part digits ('.' :: fraction) (by simp)
      have back := Text.dropWhile_part digits ('.' :: fraction) (by simp)
      have frontPlaces := Text.takeWhile_part places [] (by simp)
      have backPlaces := Text.dropWhile_part places [] (by simp)
      rw [List.append_nil] at frontPlaces backPlaces
      simp [readDecimal?, splitDigits, front, back, frontPlaces, backPlaces, splitFraction, nonempty,
        readTail?]

theorem Numeral.exists_cons {whole fraction text : List Char}
    (numeral : Numeral whole fraction text) :
    ∃ c later, text = c :: later ∧ c.isDigit = true := by
  cases numeral with
  | plain nonempty digits =>
      obtain ⟨c, later, rfl⟩ := List.exists_cons_of_ne_nil nonempty
      exact ⟨c, later, rfl, digits c (by simp)⟩
  | pointed nonempty digits places =>
      obtain ⟨c, later, rfl⟩ := List.exists_cons_of_ne_nil nonempty
      exact ⟨c, _, rfl, digits c (by simp)⟩

theorem splitSign_numeral {whole fraction text : List Char} (negative : Bool)
    (numeral : Numeral whole fraction text) :
    splitSign (signText negative ++ text) = (negative, text) := by
  cases negative with
  | true => rfl
  | false =>
      obtain ⟨c, later, rfl, digit⟩ := numeral.exists_cons
      simp only [signText, Bool.false_eq_true, if_false, List.nil_append]
      unfold splitSign
      split
      · simp_all
      · simp_all
      · rfl

theorem read?_numeral {whole fraction text : List Char} (negative : Bool)
    (numeral : Numeral whole fraction text) :
    read? (String.ofList (signText negative ++ text)) =
      some (.ofMagnitude negative
        (Magnitude.ofDecimal (digitsValue (whole ++ fraction)) (-(fraction.length : Int)))) := by
  simp only [read?, String.toList_ofList, splitSign_numeral negative numeral,
    readDecimal?_numeral numeral]

/-! ## Printing -/

theorem digitsValue_append (front back : List Char) :
    digitsValue (front ++ back) =
      back.foldl (fun value c => 10 * value + (c.toNat - '0'.toNat)) (digitsValue front) :=
  List.foldl_append

theorem digitsValue_append_zeros (digits : List Char) (zeros : Nat) :
    digitsValue (digits ++ List.replicate zeros '0') = digitsValue digits * Nat.pow 10 zeros := by
  induction zeros with
  | zero => simp
  | succ zeros ih =>
      rw [List.replicate_succ', ← List.append_assoc, digitsValue_append, ih, Magnitude.pow_succ,
        ← Nat.mul_assoc, Nat.mul_comm _ 10]
      rfl

theorem digitsValue_zeros_append (zeros : Nat) (digits : List Char) :
    digitsValue (List.replicate zeros '0' ++ digits) = digitsValue digits := by
  have nothing : digitsValue (List.replicate zeros '0') = 0 := by
    rw [← List.nil_append (List.replicate zeros '0'), digitsValue_append_zeros]
    exact Nat.zero_mul _
  rw [digitsValue_append, nothing]
  rfl

theorem digitsValue_toDigits (n : Nat) : digitsValue (Nat.toDigits 10 n) = n := by
  have read := Nat.ofDigitChars_toDigits (n := n) (b := 10) (by decide) (by decide)
  rw [Nat.ofDigitChars_eq_foldl] at read
  exact read

theorem exists_zeros (digits : List Char) :
    ∃ zeros, digits = dropZeros digits ++ List.replicate zeros '0' := by
  have zeros : ∀ c ∈ digits.reverse.takeWhile (· = '0'), c = '0' := by
    intro c taken
    simpa using List.all_eq_true.mp List.all_takeWhile c taken
  have taken := List.eq_replicate_iff.mpr ⟨rfl, zeros⟩
  refine ⟨(digits.reverse.takeWhile (· = '0')).length, ?_⟩
  calc
    digits = (digits.reverse.takeWhile (· = '0') ++ digits.reverse.dropWhile (· = '0')).reverse := by
        rw [List.takeWhile_append_dropWhile, List.reverse_reverse]
    _ = dropZeros digits ++ (digits.reverse.takeWhile (· = '0')).reverse := List.reverse_append
    _ = dropZeros digits ++ List.replicate _ '0' := by
        rw [← List.reverse_replicate, ← taken]

theorem numeral_dropZeros {whole places : List Char} (nonempty : whole ≠ [])
    (digits : ∀ c ∈ whole, c.isDigit = true) (digitsBehind : ∀ c ∈ places, c.isDigit = true) :
    Numeral whole (dropZeros places)
      (if (dropZeros places).isEmpty then whole else whole ++ '.' :: dropZeros places) := by
  obtain ⟨zeros, parts⟩ := exists_zeros places
  split
  · rename_i none
    rw [List.isEmpty_iff.mp none]
    exact .plain nonempty digits
  · refine .pointed nonempty digits fun c found => digitsBehind c ?_
    rw [parts]
    exact List.mem_append_left _ found

theorem ofDecimal_dropZeros (whole places : List Char) :
    Magnitude.ofDecimal (digitsValue (whole ++ dropZeros places))
        (-((dropZeros places).length : Int)) =
      Magnitude.ofDecimal (digitsValue (whole ++ places)) (-(places.length : Int)) := by
  obtain ⟨zeros, parts⟩ := exists_zeros places
  have length := congrArg List.length parts
  rw [List.length_append, List.length_replicate] at length
  have shift : -(places.length : Int) + zeros = -((dropZeros places).length : Int) := by omega
  have value : digitsValue (whole ++ places) =
      digitsValue (whole ++ dropZeros places) * Nat.pow 10 zeros := by
    rw [← digitsValue_append_zeros, List.append_assoc, ← parts]
  rw [value, Magnitude.ofDecimal_mul_pow, shift]

theorem isDigit_zeros {zeros : Nat} : ∀ c ∈ List.replicate zeros '0', c.isDigit = true := by
  intro c found
  obtain rfl := List.eq_of_mem_replicate found
  decide

theorem exists_numeral_decimalText (digits : Nat) (exponent : Int) :
    ∃ whole fraction, Numeral whole fraction (decimalText digits exponent) ∧
      Magnitude.ofDecimal (digitsValue (whole ++ fraction)) (-(fraction.length : Int)) =
        Magnitude.ofDecimal digits exponent := by
  have written : ∀ c ∈ Nat.toDigits 10 digits, c.isDigit = true :=
    fun c found => Nat.isDigit_of_mem_toDigits (by decide) (by decide) found
  have nonempty : Nat.toDigits 10 digits ≠ [] := Nat.toDigits_ne_nil
  by_cases integral : (-exponent).toNat = 0
  · -- zeros stand for the exponent
    have whole : 0 + (exponent.toNat : Int) = exponent := by omega
    refine ⟨Nat.toDigits 10 digits ++ List.replicate exponent.toNat '0', [], ?_, ?_⟩
    · rw [decimalText, if_pos integral]
      exact .plain (by simp [nonempty]) (List.forall_mem_append.mpr ⟨written, isDigit_zeros⟩)
    · rw [List.append_nil, digitsValue_append_zeros, digitsValue_toDigits, List.length_nil,
        Int.natCast_zero, Int.neg_zero, Magnitude.ofDecimal_mul_pow, whole]
  · -- zeros stand before the digits, so that one of all is before the point
    rw [decimalText, if_neg integral]
    dsimp only
    have negative : exponent = -((-exponent).toNat : Int) := by omega
    generalize (-exponent).toNat = places at integral negative ⊢
    generalize padding : (Nat.toDigits 10 digits).leftpad (places + 1) '0' = padded
    have value : digitsValue padded = digits := by
      rw [← padding, List.leftpad, digitsValue_zeros_append, digitsValue_toDigits]
    have all : ∀ c ∈ padded, c.isDigit = true := by
      rw [← padding, List.leftpad]
      exact List.forall_mem_append.mpr ⟨isDigit_zeros, written⟩
    have long : places + 1 ≤ padded.length := by
      rw [← padding, List.length_leftpad]
      omega
    have shown : (padded.drop (padded.length - places)).length = places := by
      rw [List.length_drop]
      omega
    refine ⟨padded.take (padded.length - places), dropZeros (padded.drop (padded.length - places)),
      ?_, ?_⟩
    · refine numeral_dropZeros ?_ (fun c found => all c (List.mem_of_mem_take found))
        (fun c found => all c (List.mem_of_mem_drop found))
      intro empty
      have length := congrArg List.length empty
      rw [List.length_take, List.length_nil] at length
      omega
    · rw [ofDecimal_dropZeros, List.take_append_drop, value, shown, negative]

theorem exists_numeral_magnitudeText {magnitude : Magnitude} (normal : magnitude.IsNormal) :
    ∃ whole fraction, Numeral whole fraction (magnitudeText magnitude) ∧
      Magnitude.ofDecimal (digitsValue (whole ++ fraction)) (-(fraction.length : Int)) =
        some magnitude := by
  unfold magnitudeText
  split
  · rename_i zero
    obtain ⟨mantissa, exponent⟩ := magnitude
    obtain rfl : mantissa = 0 := zero
    have unscaled : exponent = 0 := by
      rcases normal.2.2 with large | none
      · have none : ¬ Nat.pow 2 52 ≤ 0 := by decide
        exact absurd large none
      · exact none
    subst unscaled
    exact ⟨['0'], [], .plain (by simp) (by simp), rfl⟩
  · have reads := ofDecimal_shortest normal
    generalize shortest magnitude = decimal at reads ⊢
    obtain ⟨whole, fraction, numeral, same⟩ := exists_numeral_decimalText decimal.1 decimal.2
    exact ⟨whole, fraction, numeral, same.trans reads⟩

theorem exists_numeral_text {value : Binary64} (finite : value.IsFinite) :
    ∃ negative whole fraction body, (text value).toList = signText negative ++ body ∧
      Numeral whole fraction body ∧
      Binary64.ofMagnitude negative
          (Magnitude.ofDecimal (digitsValue (whole ++ fraction)) (-(fraction.length : Int))) =
        value := by
  cases value with
  | finite negative magnitude =>
      obtain ⟨whole, fraction, numeral, rounded⟩ := exists_numeral_magnitudeText finite
      refine ⟨negative, whole, fraction, magnitudeText magnitude, ?_, numeral, ?_⟩
      · rw [text, String.toList_ofList]
      · rw [rounded]
        rfl
  | infinite negative => exact finite.elim
  | nan => exact finite.elim

theorem read?_text {value : Binary64} (finite : value.IsFinite) :
    read? (text value) = some value := by
  obtain ⟨negative, whole, fraction, body, spelled, numeral, same⟩ := exists_numeral_text finite
  rw [← String.ofList_toList (s := text value), spelled, read?_numeral negative numeral, same]

end Number

/-! ## Lexing -/

namespace SExpr

open Number

theorem splitUnsigned?_plain {whole rest : List Char} (nonempty : whole ≠ [])
    (digits : ∀ c ∈ whole, c.isDigit = true)
    (ends : ∀ c ∈ rest.head?, c.isDigit = false ∧ c ≠ '.') :
    splitUnsigned? (whole ++ rest) = some (whole, rest) := by
  have noDigit : ∀ c ∈ rest.head?, c.isDigit = false := fun c first => (ends c first).1
  have noPoint : splitFraction rest = ([], rest) := by
    unfold splitFraction
    split
    · exact absurd rfl (ends '.' rfl).2
    · rfl
  simp [splitUnsigned?, Text.takeWhile_part digits rest noDigit,
    Text.dropWhile_part digits rest noDigit, nonempty, noPoint]

/-- Behind a point only a digit is taken, so a second point may follow. -/
theorem splitUnsigned?_pointed {whole places rest : List Char} (nonempty : whole ≠ [])
    (digits : ∀ c ∈ whole, c.isDigit = true) (inner : ∀ c ∈ places, c.isDigit = true)
    (ends : ∀ c ∈ rest.head?, c.isDigit = false) :
    splitUnsigned? (whole ++ '.' :: places ++ rest) = some (whole ++ '.' :: places, rest) := by
  have front := Text.takeWhile_part digits ('.' :: (places ++ rest)) (by simp)
  have back := Text.dropWhile_part digits ('.' :: (places ++ rest)) (by simp)
  simp [splitUnsigned?, front, back, nonempty, splitFraction,
    Text.takeWhile_part inner rest ends, Text.dropWhile_part inner rest ends]

theorem splitUnsigned?_numeral {whole fraction text : List Char}
    (numeral : Numeral whole fraction text) {rest : List Char}
    (ends : ∀ c ∈ rest.head?, c.isDigit = false ∧ c ≠ '.') :
    splitUnsigned? (text ++ rest) = some (text, rest) := by
  cases numeral with
  | plain nonempty digits => exact splitUnsigned?_plain nonempty digits ends
  | pointed nonempty digits places =>
      exact splitUnsigned?_pointed nonempty digits places fun c first => (ends c first).1

theorem splitNumber?_of_ne {c : Char} (sign : c ≠ '-') (text : List Char) :
    splitNumber? (c :: text) = splitUnsigned? (c :: text) := by
  unfold splitNumber?
  split
  · rename_i same
    exact absurd (List.cons.inj same).1 sign
  · rfl

theorem splitNumber?_numeral {whole fraction text : List Char} (negative : Bool)
    (numeral : Numeral whole fraction text) {rest : List Char}
    (ends : ∀ c ∈ rest.head?, c.isDigit = false ∧ c ≠ '.') :
    splitNumber? (signText negative ++ text ++ rest) = some (signText negative ++ text, rest) := by
  have unsigned := splitUnsigned?_numeral numeral ends
  cases negative with
  | true => simp [signText, splitNumber?, unsigned]
  | false =>
      obtain ⟨c, later, rfl, digit⟩ := numeral.exists_cons
      have sign : c ≠ '-' := by
        intro same
        rw [same] at digit
        exact absurd digit (by decide)
      simp only [signText, Bool.false_eq_true, if_false, List.nil_append]
      rw [List.cons_append, splitNumber?_of_ne sign]
      exact unsigned

theorem splitUnsigned?_cases {text taken rest : List Char}
    (split : splitUnsigned? text = some (taken, rest)) :
    ∃ whole : List Char, whole ≠ [] ∧ (∀ c ∈ whole, c.isDigit = true) ∧
      ((taken = whole ∧ ∀ c ∈ rest.head?, c.isDigit = false ∧ c ≠ '.') ∨
        ∃ places : List Char, taken = whole ++ '.' :: places ∧ (∀ c ∈ places, c.isDigit = true) ∧
          ∀ c ∈ rest.head?, c.isDigit = false) := by
  have digits : ∀ c ∈ text.takeWhile Char.isDigit, c.isDigit = true :=
    List.all_eq_true.mp List.all_takeWhile
  have stops : ∀ c ∈ (text.dropWhile Char.isDigit).head?, c.isDigit = false :=
    Text.head?_dropWhile text
  unfold splitUnsigned? at split
  dsimp only at split
  split at split
  · cases split
  · rename_i nonempty
    rw [List.isEmpty_iff] at nonempty
    refine ⟨_, nonempty, digits, ?_⟩
    generalize text.dropWhile Char.isDigit = after at split stops
    unfold splitFraction at split
    split at split
    · cases split
      refine .inr ⟨_, rfl, List.all_eq_true.mp List.all_takeWhile, ?_⟩
      exact Text.head?_dropWhile _
    · rename_i noPoint
      cases split
      refine .inl ⟨List.append_nil _, ?_⟩
      intro c first
      refine ⟨stops c first, ?_⟩
      intro point
      obtain ⟨later, same⟩ := List.head?_eq_some_iff.mp (Option.mem_def.mp first)
      exact noPoint later (point ▸ same)

theorem exists_numeral_of_splitUnsigned? {text taken rest : List Char}
    (split : splitUnsigned? text = some (taken, rest)) :
    ∃ whole fraction, Numeral whole fraction taken := by
  obtain ⟨whole, nonempty, digits, form⟩ := splitUnsigned?_cases split
  rcases form with ⟨same, _⟩ | ⟨places, same, inner, _⟩
  · rw [same]
    exact ⟨whole, [], .plain nonempty digits⟩
  · rw [same]
    exact ⟨whole, places, .pointed nonempty digits inner⟩

theorem exists_numeral_of_splitNumber? {text taken rest : List Char}
    (split : splitNumber? text = some (taken, rest)) :
    ∃ negative whole fraction body, taken = signText negative ++ body ∧
      Numeral whole fraction body := by
  unfold splitNumber? at split
  split at split
  · obtain ⟨⟨body, after⟩, found, same⟩ := Option.map_eq_some_iff.mp split
    obtain ⟨rfl, rfl⟩ := Prod.mk.inj same
    obtain ⟨whole, fraction, numeral⟩ := exists_numeral_of_splitUnsigned? found
    exact ⟨true, whole, fraction, body, rfl, numeral⟩
  · obtain ⟨whole, fraction, numeral⟩ := exists_numeral_of_splitUnsigned? split
    exact ⟨false, whole, fraction, taken, rfl, numeral⟩

end SExpr

end Lookahead
