/-!
# Cutting a text at a mark

`cut` splits a text at the first place where a mark stands, `pieces` at every
place.  The mark itself belongs to neither side.
-/

namespace Timetable.Text

/-- The text before the first mark and the text after it, if there is one. -/
def cut (mark : Char) : List Char → Option (List Char × List Char)
  | [] => none
  | char :: rest =>
      if char = mark then some ([], rest)
      else
        match cut mark rest with
        | some (before, after) => some (char :: before, after)
        | none => none

/-- The texts between the marks; one more than there are marks. -/
def pieces (mark : Char) : List Char → List (List Char)
  | [] => [[]]
  | char :: rest =>
      if char = mark then [] :: pieces mark rest
      else
        match pieces mark rest with
        | piece :: more => (char :: piece) :: more
        | [] => [[char]]

end Timetable.Text
