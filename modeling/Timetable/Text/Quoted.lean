import Timetable.Text.Hidden

/-!
# Quoted texts

A text is quoted on one line, between single quotes unless it holds a single
quote and no double quote.  The backslash, the quote in use, and characters
without a visible form are written as escapes: three of them by a letter, the
others by their number in two, four or eight hexadecimal digits.
-/

namespace Timetable.Text

/-- The single quotation mark. -/
def singleQuote : Char := '\x27'

/-- The double quotation mark. -/
def doubleQuote : Char := '\x22'

/-- The backslash. -/
def backslash : Char := '\x5c'

/-- The quotation mark that encloses a text. -/
def quoteFor (text : List Char) : Char :=
  if text.contains singleQuote && !text.contains doubleQuote then
    doubleQuote
  else singleQuote

/-- A number in lower-case hexadecimal digits, padded to a width. -/
def hexadecimal (width number : Nat) : List Char :=
  let digits := Nat.toDigits 16 number
  List.replicate (width - digits.length) '0' ++ digits

/-- The shortest escape by number that can hold a character. -/
def numberedEscape (char : Char) : List Char :=
  if char.toNat < 0x100 then backslash :: 'x' :: hexadecimal 2 char.toNat
  else if char.toNat < 0x10000 then
    backslash :: 'u' :: hexadecimal 4 char.toNat
  else backslash :: 'U' :: hexadecimal 8 char.toNat

/-- One character as it stands inside the given quotation marks. -/
def quotedChar (quote char : Char) : List Char :=
  if char = quote || char = backslash then [backslash, char]
  else if char = '\n' then [backslash, 'n']
  else if char = '\r' then [backslash, 'r']
  else if char = '\t' then [backslash, 't']
  else if isHidden char then numberedEscape char
  else [char]

/-- A text between quotation marks. -/
def quotedChars (text : List Char) : List Char :=
  let quote := quoteFor text
  quote :: (text.flatMap (quotedChar quote) ++ [quote])

/-- A text between quotation marks. -/
def quoted (text : String) : String :=
  String.ofList (quotedChars text.toList)

end Timetable.Text
