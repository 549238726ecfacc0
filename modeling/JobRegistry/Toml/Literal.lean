import JobRegistry.Text.Digits

/-!
# Text in TOML documents

The four forms in which a text is written. Between quotation marks a backslash starts an escape;
between apostrophes every character stands for itself. With one mark the text stays on its line;
with three it may go over lines, a line end right after the opening marks is dropped, and up to two
marks of its own may stand before the closing ones.

Reading: `string?` reads a text in any of the four forms. Writing: `write` chooses the first form
that suits the text (`Form.choose`), plain quotation marks if nothing has to be escaped, apostrophes
if they need no escape, and escapes only where there is no other way.
-/

namespace JobRegistry.Toml

open Text

/-! ## Reading -/

/-- A blank within a line. -/
def isBlank (c : Char) : Bool :=
  c == ' ' || c == '\t'

/-- A character that may stand for itself on a line. -/
def isVisible (c : Char) : Bool :=
  c == '\t' || (0x20 ≤ c.toNat && c.toNat ≠ 0x7F)

/-- Whether a line ends here. -/
def startsLineEnd : List Char → Bool
  | '\n' :: _ => true
  | '\r' :: '\n' :: _ => true
  | _ => false

/-- Drops one line end. -/
def dropLineEnd : List Char → List Char
  | '\n' :: rest => rest
  | '\r' :: '\n' :: rest => rest
  | cs => cs

/-- The number that hexadecimal digits spell. -/
def hexNumber? : List Char → Option Nat
  | cs => (cs.mapM Digits.hexValue?).map fun ds => ds.foldl (fun n d => 16 * n + d) 0

/-- The character with a code point in hexadecimal digits. -/
def scalar? (digits : List Char) : Option Char :=
  match hexNumber? digits with
  | some n => if n.isValidChar then some (Char.ofNat n) else none
  | none => none

/-- The character after a backslash in an escape of two characters. -/
def shortEscape? (c : Char) : Option Char :=
  if c = '"' ∨ c = '\\' then some c
  else if c = 'b' then some '\x08'
  else if c = 't' then some '\t'
  else if c = 'n' then some '\n'
  else if c = 'f' then some '\x0c'
  else if c = 'r' then some '\r'
  else none

/-- Puts a character before the text that was read. -/
def consText (c : Char) (read : List Char × List Char) : List Char × List Char :=
  (c :: read.1, read.2)

/-- The text that ends with three closing marks: up to two more marks belong to it. -/
def close (mark : Char) : List Char → List Char × List Char
  | a :: b :: rest =>
    if a = mark ∧ b = mark then ([mark, mark], rest)
    else if a = mark then ([mark], b :: rest)
    else ([], a :: b :: rest)
  | [a] => if a = mark then ([mark], []) else ([], [a])
  | [] => ([], [])

/-- Reads a text with escapes after its opening marks, over several lines or not. After a backslash
at the end of a line, white space is skipped. -/
def basicTail? (lines : Bool) : Bool → List Char → Option (List Char × List Char)
  | _, [] => none
  | _, '"' :: rest =>
    if lines then
      match rest with
      | '"' :: '"' :: rest => some (close '"' rest)
      | _ => (basicTail? lines false rest).map (consText '"')
    else some ([], rest)
  | _, '\\' :: 'u' :: a :: b :: c :: d :: rest =>
    match scalar? [a, b, c, d] with
    | some ch => (basicTail? lines false rest).map (consText ch)
    | none => none
  | _, '\\' :: 'U' :: a :: b :: c :: d :: e :: f :: g :: h :: rest =>
    match scalar? [a, b, c, d, e, f, g, h] with
    | some ch => (basicTail? lines false rest).map (consText ch)
    | none => none
  | _, '\\' :: c :: rest =>
    if lines && startsLineEnd ((c :: rest).dropWhile isBlank) then
      basicTail? lines true (c :: rest)
    else
      match shortEscape? c with
      | some e => (basicTail? lines false rest).map (consText e)
      | none => none
  | skip, '\r' :: '\n' :: rest =>
    if !lines then none
    else if skip then basicTail? lines true rest
    else (basicTail? lines false rest).map (consText '\n')
  | skip, c :: rest =>
    if skip && (isBlank c || c == '\n') then basicTail? lines true rest
    else if (c == '\n' && lines) || (isVisible c && c ≠ '\\') then
      (basicTail? lines false rest).map (consText c)
    else none

/-- Reads a text without escapes after its opening marks, over several lines or not. -/
def literalTail? (lines : Bool) : List Char → Option (List Char × List Char)
  | [] => none
  | '\'' :: rest =>
    if lines then
      match rest with
      | '\'' :: '\'' :: rest => some (close '\'' rest)
      | _ => (literalTail? lines rest).map (consText '\'')
    else some ([], rest)
  | '\r' :: '\n' :: rest =>
    if lines then (literalTail? lines rest).map (consText '\n') else none
  | c :: rest =>
    if (c == '\n' && lines) || isVisible c then (literalTail? lines rest).map (consText c)
    else none

/-- Reads a text on one line with its marks. -/
def lineString? : List Char → Option (List Char × List Char)
  | '"' :: rest => basicTail? false false rest
  | '\'' :: rest => literalTail? false rest
  | _ => none

/-- Reads a text in any form with its marks. -/
def string? : List Char → Option (List Char × List Char)
  | '"' :: '"' :: '"' :: rest => basicTail? true false (dropLineEnd rest)
  | '\'' :: '\'' :: '\'' :: rest => literalTail? true (dropLineEnd rest)
  | cs => lineString? cs

/-! ## Writing -/

/-- A control character that cannot stand for itself in any form. -/
def isControl (c : Char) : Bool :=
  c.toNat == 0x7F || (c.toNat < 0x20 && c ≠ '\t' && c ≠ '\n')

/-- The length of the longest run of a character, when the text follows a run of some length. -/
def longestRun (mark : Char) : Nat → List Char → Nat
  | run, [] => run
  | run, c :: rest =>
    if c = mark then longestRun mark (run + 1) rest else max run (longestRun mark 0 rest)

/-- A form of a text. -/
inductive Form
  | basic
  | literal
  | basicLines
  | literalLines
  deriving DecidableEq, Repr

namespace Form

/-- The form in which a text is written. -/
def choose (cs : List Char) : Form :=
  let controls := cs.any isControl
  let lines := cs.contains '\n'
  let backslash := cs.contains '\\'
  if !controls && !backslash && !lines && !cs.contains '"' then basic
  else if !controls && !lines && !cs.contains '\'' then literal
  else if !controls && !backslash && longestRun '"' 0 cs ≤ 2 then basicLines
  else if !controls && longestRun '\'' 0 cs ≤ 2 then literalLines
  else if lines then basicLines
  else basic

/-- The marks around a text. -/
def marks : Form → List Char
  | basic => ['"']
  | literal => ['\'']
  | basicLines => ['"', '"', '"']
  | literalLines => ['\'', '\'', '\'']

/-- Whether a text may go over lines. -/
def isLines : Form → Bool
  | basic => false
  | literal => false
  | basicLines => true
  | literalLines => true

end Form

/-- A code point in four upper-case hexadecimal digits. -/
def fourDigits (n : Nat) : List Char :=
  [Digits.hexDigitUpper (n / 4096), Digits.hexDigitUpper (n / 256), Digits.hexDigitUpper (n / 16),
    Digits.hexDigitUpper n]

/-- A character other than the quotation mark between quotation marks. -/
def escaped (lines : Bool) (c : Char) : List Char :=
  if c = '\x08' then ['\\', 'b']
  else if c = '\t' then ['\\', 't']
  else if c = '\n' then if lines then ['\n'] else ['\\', 'n']
  else if c = '\x0c' then ['\\', 'f']
  else if c = '\r' then ['\\', 'r']
  else if c = '\\' then ['\\', '\\']
  else if isControl c then '\\' :: 'u' :: fourDigits c.toNat
  else [c]

/-- A text between quotation marks, after a run of marks of its own. Every mark is escaped when the
text stays on its line, and every third of a run when it may go over lines. -/
def escapeFrom (lines : Bool) : Nat → List Char → List Char
  | _, [] => []
  | run, '"' :: rest =>
    if lines && run < 2 then '"' :: escapeFrom lines (run + 1) rest
    else '\\' :: '"' :: escapeFrom lines 0 rest
  | _, c :: rest => escaped lines c ++ escapeFrom lines 0 rest

/-- What stands between the marks. -/
def inside (form : Form) (cs : List Char) : List Char :=
  match form with
  | .basic => escapeFrom false 0 cs
  | .basicLines => escapeFrom true 0 cs
  | .literal => cs
  | .literalLines => cs

/-- A text in a form; one that goes over lines starts on a line of its own. -/
def writeAs (form : Form) (cs : List Char) : List Char :=
  form.marks ++ (if form.isLines && cs.contains '\n' then ['\n'] else []) ++ inside form cs ++
    form.marks

/-- A text in the form that suits it. -/
def write (s : String) : List Char :=
  writeAs (.choose s.toList) s.toList

end JobRegistry.Toml
