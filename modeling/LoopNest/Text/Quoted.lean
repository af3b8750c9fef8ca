import LoopNest.Text.Printable

/-! Quoted text: a string between quote marks on one printable line. -/

namespace LoopNest.Text

/-- The number in base sixteen with exactly `width` lower-case digits; higher digits are
dropped.
-/
def hexDigits (width number : Nat) : List Char :=
  (List.range width).reverse.map fun place => Nat.digitChar (number / Nat.pow 16 place % 16)

/-- The mark around a text is an apostrophe, unless the text has an apostrophe and no double
quote.
-/
def quoteMark (text : List Char) : Char :=
  if '\x27' ∈ text ∧ '\x22' ∉ text then '\x22' else '\x27'

/-- How one character stands between quote marks: the mark and the backslash behind a
backslash, tab, line feed and carriage return by their letters, other unprintable characters by
their code point in two, four or eight digits, and all else as it is.
-/
def escapeChar (mark c : Char) : List Char :=
  if c = mark ∨ c = '\x5c' then ['\x5c', c]
  else if c = '\t' then ['\x5c', 't']
  else if c = '\n' then ['\x5c', 'n']
  else if c = '\r' then ['\x5c', 'r']
  else if isPrintable c then [c]
  else if c.toNat < 0x100 then '\x5c' :: 'x' :: hexDigits 2 c.toNat
  else if c.toNat < 0x10000 then '\x5c' :: 'u' :: hexDigits 4 c.toNat
  else '\x5c' :: 'U' :: hexDigits 8 c.toNat

/-- The text between its quote marks, every character escaped as needed. -/
def quoted (text : String) : String :=
  let chars := text.toList
  let mark := quoteMark chars
  String.ofList (mark :: chars.flatMap (escapeChar mark) ++ [mark])

end LoopNest.Text
