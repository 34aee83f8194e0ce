/-!
# Texts

How the readers of this library look at a text: its blank characters and words, its lines, its places
as byte offsets, its order among other texts, and the bytes it comes as.
-/

set_option autoImplicit false

namespace Lookahead.Text

/-!
## Blank characters and words

Which characters count as white space, and what the readers of this library do with them: skip
them, trim them off both ends of a text, or cut a text into the words between them.
-/

def isBlank (c : Char) : Bool :=
  let n := c.toNat
  (0x09 ≤ n && n ≤ 0x0D) || n == 0x20 || n == 0x85 || n == 0xA0 || n == 0x1680 ||
    (0x2000 ≤ n && n ≤ 0x200A) || n == 0x2028 || n == 0x2029 || n == 0x202F || n == 0x205F ||
    n == 0x3000

def skipBlank (text : List Char) : List Char :=
  text.dropWhile isBlank

def trim (text : List Char) : List Char :=
  (skipBlank (skipBlank text).reverse).reverse

def isAllBlank (text : List Char) : Bool :=
  text.all isBlank

/-- `held` is the word being read, its last character first. -/
def wordsFrom (held : List Char) : List Char → List (List Char)
  | [] => if held.isEmpty then [] else [held.reverse]
  | c :: text =>
      if isBlank c then
        if held.isEmpty then wordsFrom [] text else held.reverse :: wordsFrom [] text
      else
        wordsFrom (c :: held) text

def words (text : List Char) : List (List Char) :=
  wordsFrom [] text

example : words "  a bc\td ".toList = [['a'], ['b', 'c'], ['d']] := by decide

/-!
## Lines of a text

A line ends at a line feed, and a carriage return right before that line feed belongs to the line
end. Text after the last line feed is a line too, unless there is none.
-/

/-- A line held last character first, without the carriage return at its end. -/
def dropReturn : List Char → List Char
  | '\r' :: held => held
  | held => held

def linesFrom (held : List Char) : List Char → List (List Char)
  | [] => if held.isEmpty then [] else [held.reverse]
  | c :: text =>
      if c = '\n' then (dropReturn held).reverse :: linesFrom [] text
      else linesFrom (c :: held) text

def lines (text : List Char) : List (List Char) :=
  linesFrom [] text

example : lines "a\r\n\nb".toList = [['a'], [], ['b']] := by decide

example : lines "a\n".toList = [['a']] ∧ lines [] = [] := by decide

/-!
## Byte offsets

A place in a text is given by the number of bytes before it in the UTF-8 form of the text. Not every
number is a place: it may lie inside a character or beyond the end.
-/

def byteLength (text : List Char) : Nat :=
  text.foldl (fun bytes c => bytes + c.utf8Size) 0

theorem byteLength_pos {text : List Char} (nonempty : text ≠ []) : 0 < byteLength text := by
  have grows : ∀ (later : List Char) (bytes : Nat),
      bytes ≤ later.foldl (fun bytes c => bytes + c.utf8Size) bytes := by
    intro later
    induction later with
    | nil => exact Nat.le_refl
    | cons c later ih => exact fun bytes => Nat.le_trans (Nat.le_add_right _ _) (ih _)
  cases text with
  | nil => exact absurd rfl nonempty
  | cons c text =>
      have first : 0 < 0 + c.utf8Size := by
        rw [Nat.zero_add]
        exact c.utf8Size_pos
      exact Nat.lt_of_lt_of_le first (grows text _)

/-- The characters before and after an offset, none if the offset is no place in the text. -/
def cutAt? : Nat → List Char → Option (List Char × List Char)
  | offset, [] => if offset = 0 then some ([], []) else none
  | offset, c :: text =>
      if offset = 0 then some ([], c :: text)
      else if c.utf8Size ≤ offset then
        (cutAt? (offset - c.utf8Size) text).map fun parts => (c :: parts.1, parts.2)
      else none

/-- A text with an entry for every byte: a character at its first byte, nothing at the others. -/
def byteView (text : List Char) : List (Option Char) :=
  text.flatMap fun c => some c :: List.replicate (c.utf8Size - 1) none

def ofByteView (view : List (Option Char)) : List Char :=
  view.filterMap id

example : byteView ['é', 'a'] = [some 'é', none, some 'a'] := by decide

example : cutAt? 2 ['é', 'a'] = some (['é'], ['a']) ∧ cutAt? 1 ['é', 'a'] = none := by decide

/-!
## Texts in order

Texts are ordered by the code points of their characters, a text before those it starts.
-/

def sorted (texts : List String) : List String :=
  texts.mergeSort fun first second => first ≤ second

def insertSorted (text : String) : List String → List String
  | [] => [text]
  | first :: rest =>
      if text = first then first :: rest
      else if text < first then text :: first :: rest
      else first :: insertSorted text rest

/-!
## Texts as bytes

Files and the lines of an interactive session come as bytes, which need not be the UTF-8 form of a
text.
-/

def ofBytes? (bytes : List UInt8) : Option String :=
  String.fromUTF8? ⟨bytes.toArray⟩

def byteLinesFrom (held : List UInt8) : List UInt8 → List (List UInt8)
  | [] => if held.isEmpty then [] else [held.reverse]
  | byte :: bytes =>
      if byte = 10 then (byte :: held).reverse :: byteLinesFrom [] bytes
      else byteLinesFrom (byte :: held) bytes

def byteLines (bytes : List UInt8) : List (List UInt8) :=
  byteLinesFrom [] bytes

end Lookahead.Text
