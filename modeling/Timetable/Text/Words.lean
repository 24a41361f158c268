/-!
# Words of a text

A text is cut into words at its blank characters.  Blank are the characters
with the white-space property and the four information separators U+001C to
U+001F; runs of them count as one gap, and gaps at the two ends are dropped.

The second function joins words by single spaces, which is the written form of
a list of words.
-/

namespace Timetable.Text

/-- The ranges of the blank characters, in ascending order. -/
def blankRanges : List (Nat × Nat) :=
  [(0x09, 0x0D), (0x1C, 0x20), (0x85, 0x85), (0xA0, 0xA0),
    (0x1680, 0x1680), (0x2000, 0x200A), (0x2028, 0x2029),
    (0x202F, 0x202F), (0x205F, 0x205F), (0x3000, 0x3000)]

/-- Whether a character lies in one of the given ranges. -/
def inRanges (ranges : List (Nat × Nat)) (char : Char) : Bool :=
  ranges.any fun (first, last) =>
    decide (first ≤ char.toNat) && decide (char.toNat ≤ last)

/-- Whether a character separates words. -/
def isBlank (char : Char) : Bool := inRanges blankRanges char

/--
The words of a text, in order.  A character that is not blank extends the
word right after it, or is a word by itself if a gap or the end follows.
-/
def words : List Char → List (List Char)
  | [] => []
  | char :: rest =>
      if isBlank char then words rest
      else
        match rest, words rest with
        | next :: _, word :: more =>
            if isBlank next then [char] :: word :: more
            else (char :: word) :: more
        | _, more => [char] :: more

/-- Texts joined by a separator. -/
def joinBy (separator : List Char) : List (List Char) → List Char
  | [] => []
  | [text] => text
  | text :: rest => text ++ separator ++ joinBy separator rest

/-- Words joined by single spaces. -/
def unwords (parts : List (List Char)) : List Char := joinBy [' '] parts

end Timetable.Text
