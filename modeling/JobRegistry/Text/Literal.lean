import JobRegistry.Text.Digits

/-!
# String literals

A text between double quotation marks with the mark and the backslash escaped, the controls below
the space as a short escape or as four hexadecimal digits, and every other character as it is.
`literal` writes a literal; the reader stands with the grammar it belongs to.
-/

namespace JobRegistry.Text

/-- The escape of one character. -/
def escaped (c : Char) : List Char :=
  if c = '"' then ['\\', '"']
  else if c = '\\' then ['\\', '\\']
  else if c = '\x08' then ['\\', 'b']
  else if c = '\x0c' then ['\\', 'f']
  else if c = '\n' then ['\\', 'n']
  else if c = '\r' then ['\\', 'r']
  else if c = '\t' then ['\\', 't']
  else if c.toNat < 0x20 then
    ['\\', 'u', '0', '0', Digits.hexDigit (c.toNat / 16), Digits.hexDigit c.toNat]
  else [c]

/-- The literal of a text. -/
def literal (s : String) : List Char :=
  '"' :: (s.toList.flatMap escaped ++ ['"'])

end JobRegistry.Text
