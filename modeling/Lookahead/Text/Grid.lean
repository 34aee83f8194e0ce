import Lookahead.Text.Quoted

/-!
# Texts in columns

Rows of cells as boxes of fixed width characters, and how many columns a text takes there.
-/

set_option autoImplicit false

namespace Lookahead.Text

/-!
## Columns that a text takes

In a fixed width layout most characters take one column. The East Asian wide and full width ones
take two (Unicode 15.1, property East_Asian_Width), and characters that are drawn into one beside
them take none: the vowels and final consonants of Hangul syllables, letters and signs that go in
front of a consonant, and the halfwidth voicing marks of Katakana. Two Khmer signs are wider than
their property tells.

Some characters form one sign with the character after them, the Arabic ones also across characters
without a column. Then the second of them takes its columns and the first takes none.

All this is about names as they are printed, whose combining marks and invisible characters have
been written out: those have no width here.
-/

/-! ### Single characters -/

/-- The code points that take two columns. -/
def wideRanges : CodeRanges := [
   (0x1100, 0x115F), (0x231A, 0x231B), (0x2329, 0x232A), (0x23E9, 0x23EC), (0x23F0, 0x23F0),
   (0x23F3, 0x23F3), (0x25FD, 0x25FE), (0x2614, 0x2615), (0x2648, 0x2653), (0x267F, 0x267F),
   (0x2693, 0x2693), (0x26A1, 0x26A1), (0x26AA, 0x26AB), (0x26BD, 0x26BE), (0x26C4, 0x26C5),
   (0x26CE, 0x26CE), (0x26D4, 0x26D4), (0x26EA, 0x26EA), (0x26F2, 0x26F3), (0x26F5, 0x26F5),
   (0x26FA, 0x26FA), (0x26FD, 0x26FD), (0x2705, 0x2705), (0x270A, 0x270B), (0x2728, 0x2728),
   (0x274C, 0x274C), (0x274E, 0x274E), (0x2753, 0x2755), (0x2757, 0x2757), (0x2795, 0x2797),
   (0x27B0, 0x27B0), (0x27BF, 0x27BF), (0x2B1B, 0x2B1C), (0x2B50, 0x2B50), (0x2B55, 0x2B55),
   (0x2E80, 0x2E99), (0x2E9B, 0x2EF3), (0x2F00, 0x2FD5), (0x2FF0, 0x303E), (0x3041, 0x3096),
   (0x3099, 0x30FF), (0x3105, 0x312F), (0x3131, 0x318E), (0x3190, 0x31E3), (0x31EF, 0x321E),
   (0x3220, 0x3247), (0x3250, 0x4DBF), (0x4E00, 0xA48C), (0xA490, 0xA4C6), (0xA960, 0xA97C),
   (0xAC00, 0xD7A3), (0xF900, 0xFAFF), (0xFE10, 0xFE19), (0xFE30, 0xFE52), (0xFE54, 0xFE66),
   (0xFE68, 0xFE6B), (0xFF01, 0xFF60), (0xFFE0, 0xFFE6), (0x16FE0, 0x16FE4), (0x16FF0, 0x16FF1),
   (0x17000, 0x187F7), (0x18800, 0x18CD5), (0x18D00, 0x18D08), (0x1AFF0, 0x1AFF3),
   (0x1AFF5, 0x1AFFB), (0x1AFFD, 0x1AFFE), (0x1B000, 0x1B122), (0x1B132, 0x1B132),
   (0x1B150, 0x1B152), (0x1B155, 0x1B155), (0x1B164, 0x1B167), (0x1B170, 0x1B2FB),
   (0x1F004, 0x1F004), (0x1F0CF, 0x1F0CF), (0x1F18E, 0x1F18E), (0x1F191, 0x1F19A),
   (0x1F200, 0x1F202), (0x1F210, 0x1F23B), (0x1F240, 0x1F248), (0x1F250, 0x1F251),
   (0x1F260, 0x1F265), (0x1F300, 0x1F320), (0x1F32D, 0x1F335), (0x1F337, 0x1F37C),
   (0x1F37E, 0x1F393), (0x1F3A0, 0x1F3CA), (0x1F3CF, 0x1F3D3), (0x1F3E0, 0x1F3F0),
   (0x1F3F4, 0x1F3F4), (0x1F3F8, 0x1F43E), (0x1F440, 0x1F440), (0x1F442, 0x1F4FC),
   (0x1F4FF, 0x1F53D), (0x1F54B, 0x1F54E), (0x1F550, 0x1F567), (0x1F57A, 0x1F57A),
   (0x1F595, 0x1F596), (0x1F5A4, 0x1F5A4), (0x1F5FB, 0x1F64F), (0x1F680, 0x1F6C5),
   (0x1F6CC, 0x1F6CC), (0x1F6D0, 0x1F6D2), (0x1F6D5, 0x1F6D7), (0x1F6DC, 0x1F6DF),
   (0x1F6EB, 0x1F6EC), (0x1F6F4, 0x1F6FC), (0x1F7E0, 0x1F7EB), (0x1F7F0, 0x1F7F0),
   (0x1F90C, 0x1F93A), (0x1F93C, 0x1F945), (0x1F947, 0x1F9FF), (0x1FA70, 0x1FA7C),
   (0x1FA80, 0x1FA88), (0x1FA90, 0x1FABD), (0x1FABF, 0x1FAC5), (0x1FACE, 0x1FADB),
   (0x1FAE0, 0x1FAE8), (0x1FAF0, 0x1FAF8), (0x20000, 0x2FFFD), (0x30000, 0x3FFFD)]

/-- The code points that take no column of their own. -/
def joinedRanges : CodeRanges := [
   (0xD4E, 0xD4E), (0x1160, 0x11FF), (0x3164, 0x3164), (0xA8FA, 0xA8FA), (0xD7B0, 0xD7C6),
   (0xD7CB, 0xD7FB), (0xFF9E, 0xFFA0), (0x111C2, 0x111C3), (0x1171E, 0x1171E),
   (0x1193F, 0x1193F), (0x11941, 0x11941), (0x11A3A, 0x11A3A), (0x11A84, 0x11A89),
   (0x11D46, 0x11D46), (0x11F02, 0x11F02)]

def columnsOfChar (c : Char) : Nat :=
  if c.toNat < 0xD4E then 1
  else if c = '\u17a4' then 2
  else if c = '\u17d8' then 3
  else if CodeRanges.contains c.toNat joinedRanges then 0
  else if CodeRanges.contains c.toNat wideRanges then 2
  else 1

/-! ### Characters that form one sign -/

def lamRanges : CodeRanges := [
   (0x644, 0x644), (0x6B5, 0x6B8), (0x76A, 0x76A), (0x8A6, 0x8A6), (0x8C7, 0x8C7)]

def alefRanges : CodeRanges := [
   (0x622, 0x623), (0x625, 0x625), (0x627, 0x627), (0x671, 0x673), (0x675, 0x675),
   (0x773, 0x774), (0x870, 0x882)]

def toneStartRanges : CodeRanges := [(0xA4F8, 0xA4FB)]

def toneEndRanges : CodeRanges := [(0xA4FC, 0xA4FD)]

/-- The emoji that can be given a skin tone (property Emoji_Modifier_Base). -/
def modifiableRanges : CodeRanges := [
   (0x261D, 0x261D), (0x26F9, 0x26F9), (0x270A, 0x270D), (0x1F385, 0x1F385), (0x1F3C2, 0x1F3C4),
   (0x1F3C7, 0x1F3C7), (0x1F3CA, 0x1F3CC), (0x1F442, 0x1F443), (0x1F446, 0x1F450),
   (0x1F466, 0x1F478), (0x1F47C, 0x1F47C), (0x1F481, 0x1F483), (0x1F485, 0x1F487),
   (0x1F48F, 0x1F48F), (0x1F491, 0x1F491), (0x1F4AA, 0x1F4AA), (0x1F574, 0x1F575),
   (0x1F57A, 0x1F57A), (0x1F590, 0x1F590), (0x1F595, 0x1F596), (0x1F645, 0x1F647),
   (0x1F64B, 0x1F64F), (0x1F6A3, 0x1F6A3), (0x1F6B4, 0x1F6B6), (0x1F6C0, 0x1F6C0),
   (0x1F6CC, 0x1F6CC), (0x1F90C, 0x1F90C), (0x1F90F, 0x1F90F), (0x1F918, 0x1F91F),
   (0x1F926, 0x1F926), (0x1F930, 0x1F939), (0x1F93C, 0x1F93E), (0x1F977, 0x1F977),
   (0x1F9B5, 0x1F9B6), (0x1F9B8, 0x1F9B9), (0x1F9BB, 0x1F9BB), (0x1F9CD, 0x1F9CF),
   (0x1F9D1, 0x1F9DD), (0x1FAC3, 0x1FAC5), (0x1FAF0, 0x1FAF8)]

def skinToneRanges : CodeRanges := [(0x1F3FB, 0x1F3FF)]

/-- The characters without a column that Arabic letters join across (property Joining_Type). -/
def transparentRanges : CodeRanges := [(0x1171E, 0x1171E)]

def startsIn (ranges : CodeRanges) (text : List Char) : Bool :=
  text.head?.any fun c => CodeRanges.contains c.toNat ranges

def skipTransparent (text : List Char) : List Char :=
  text.dropWhile fun c => CodeRanges.contains c.toNat transparentRanges

/-- Whether a character forms one sign with what follows it: Lam with Alef, two letters of one Lisu
tone, or an emoji with its skin tone. -/
def joinsNext (c : Char) (rest : List Char) : Bool :=
  c.toNat ≥ 0x644 &&
    ((CodeRanges.contains c.toNat lamRanges && startsIn alefRanges (skipTransparent rest)) ||
      (CodeRanges.contains c.toNat toneStartRanges && startsIn toneEndRanges rest) ||
      (CodeRanges.contains c.toNat modifiableRanges && startsIn skinToneRanges rest))

/-! ### Texts -/

def columnsFrom (total : Nat) : List Char → Nat
  | [] => total
  | c :: rest =>
      columnsFrom (if joinsNext c rest then total else total + columnsOfChar c) rest

def columns (text : String) : Nat :=
  columnsFrom 0 text.toList

example : columnsFrom 0 ['\u0644', '\u0644', '\u0627'] = 2 := by decide +kernel

example : columnsFrom 0 ['\u0644', '𑜞', '\u0627'] = 1 := by decide +kernel

example : columnsFrom 0 ['語', '\u1112', '\u1161', 'x'] = 5 := by decide +kernel

/-!
## Boxed grids

Rows of cells drawn with rules of `-` and `+` around every row and `|` around every cell. The cells
of a column are padded on the right to the widest of them, with a blank on each side.
-/

def widen : List Nat → List String → List Nat
  | [], cells => cells.map columns
  | widths, [] => widths
  | width :: widths, cell :: cells => max width (columns cell) :: widen widths cells

def columnWidths (rows : List (List String)) : List Nat :=
  rows.foldl widen []

def gridRule (widths : List Nat) : String :=
  widths.foldl (fun line width => (line.pushn '-' (width + 2)).push '+') "+"

def gridRow : List Nat → List String → String → String
  | [], _, line => line
  | width :: widths, cells, line =>
      let cell := cells.headD ""
      gridRow widths cells.tail
        ((line ++ " " ++ cell).pushn ' ' (width - columns cell) ++ " |")

def grid (rows : List (List String)) : String :=
  let widths := columnWidths rows
  let rule := gridRule widths ++ "\n"
  rows.foldl (fun drawn row => drawn ++ gridRow widths row "|" ++ "\n" ++ rule) rule

end Lookahead.Text
