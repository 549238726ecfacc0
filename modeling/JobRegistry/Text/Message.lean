import JobRegistry.Text.Digits
import JobRegistry.Text.Printable

/-!
# Quotation inside messages

How an error message quotes a piece of the text it complains about: between quotation marks, with
the mark itself, the backslash and the common controls behind a backslash, and every other
character that is not printable as `\u{…}` with its hexadecimal code point.
-/

namespace JobRegistry.Text

/-- A character inside a quotation that is closed by `mark`. -/
def shown (mark c : Char) : List Char :=
  if c = '\x00' then ['\\', '0']
  else if c = '\t' then ['\\', 't']
  else if c = '\r' then ['\\', 'r']
  else if c = '\n' then ['\\', 'n']
  else if c = mark ∨ c = '\\' then ['\\', c]
  else if isPrintable c then [c]
  else '\\' :: 'u' :: '\x7b' :: (Digits.hexOfNat c.toNat ++ ['\x7d'])

/-- A text in double quotation marks. -/
def quote (s : String) : String :=
  String.ofList ('"' :: (s.toList.flatMap (shown '"') ++ ['"']))

/-- A character in single quotation marks. -/
def quoteChar (c : Char) : String :=
  String.ofList ('\'' :: (shown '\'' c ++ ['\'']))

end JobRegistry.Text
