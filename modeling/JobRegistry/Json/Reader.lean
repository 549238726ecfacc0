import JobRegistry.Json.Numeral

/-!
# Reading JSON texts

A reader for JSON texts by descent. Every scanner takes the characters that are left and returns
what it read together with what it left. Arrays and objects may be nested at most 127 deep, and
the reader recurses on the levels that are left; the items of one array or object are read in a
loop whose fuel is the length of the text.

Blanks are the space, the tab and the two line ends. Inside a literal no control character below
the space may stand, and an escape of half a surrogate pair is an error. Only one value may stand
in a text.
-/

namespace JobRegistry.Json

open Text

/-- A blank between tokens. -/
def isBlankChar (c : Char) : Bool :=
  c == ' ' || c == '\t' || c == '\n' || c == '\r'

/-- Drops blanks. -/
def skipBlanks (cs : List Char) : List Char :=
  cs.dropWhile isBlankChar

/-- Drops a word off the front. -/
def word? : List Char → List Char → Option (List Char)
  | [], cs => some cs
  | w :: ws, c :: cs => if w = c then word? ws cs else none
  | _ :: _, [] => none

/-- The code unit that four hexadecimal digits spell. -/
def unit? (a b c d : Char) : Option Nat :=
  match Digits.hexValue? a, Digits.hexValue? b, Digits.hexValue? c, Digits.hexValue? d with
  | some a, some b, some c, some d => some (((a * 16 + b) * 16 + c) * 16 + d)
  | _, _, _, _ => none

/-- The first half of a surrogate pair. -/
def isHighHalf (unit : Nat) : Bool :=
  0xD800 ≤ unit && unit < 0xDC00

/-- The second half of a surrogate pair. -/
def isLowHalf (unit : Nat) : Bool :=
  0xDC00 ≤ unit && unit < 0xE000

/-- The character after a backslash in an escape of two characters. -/
def shortEscape? (c : Char) : Option Char :=
  if c = '"' ∨ c = '\\' ∨ c = '/' then some c
  else if c = 'b' then some '\x08'
  else if c = 'f' then some '\x0c'
  else if c = 'n' then some '\n'
  else if c = 'r' then some '\r'
  else if c = 't' then some '\t'
  else none

/-- Puts a character before the text that was read. -/
def consText (c : Char) (read : List Char × List Char) : List Char × List Char :=
  (c :: read.1, read.2)

/-- Reads a literal after its opening mark. -/
def literalTail? : List Char → Option (List Char × List Char)
  | [] => none
  | '"' :: rest => some ([], rest)
  | '\\' :: 'u' :: a :: b :: c :: d :: rest =>
    match unit? a b c d with
    | none => none
    | some unit =>
      if isHighHalf unit then
        match rest with
        | '\\' :: 'u' :: a :: b :: c :: d :: rest =>
          match unit? a b c d with
          | none => none
          | some low =>
            if isLowHalf low then
              (literalTail? rest).map
                (consText (Char.ofNat (0x10000 + (unit - 0xD800) * 0x400 + (low - 0xDC00))))
            else none
        | _ => none
      else if isLowHalf unit then none
      else (literalTail? rest).map (consText (Char.ofNat unit))
  | '\\' :: c :: rest =>
    match shortEscape? c with
    | none => none
    | some e => (literalTail? rest).map (consText e)
  | c :: rest =>
    if c.toNat < 0x20 ∨ c = '\\' then none else (literalTail? rest).map (consText c)

/-- Reads a literal with its marks. -/
def literal? : List Char → Option (String × List Char)
  | '"' :: rest => (literalTail? rest).map fun read => (String.ofList read.1, read.2)
  | _ => none

/-- Digits at the front, and what follows them. -/
def digitSpan (cs : List Char) : List Char × List Char :=
  (cs.takeWhile Digits.isDigit, cs.dropWhile Digits.isDigit)

/-- Reads the digits before the point: a lone zero, or digits that start with another. -/
def wholeDigits? (cs : List Char) : Option (List Char × List Char) :=
  let (digits, rest) := digitSpan cs
  if digits.isEmpty || (digits.head? == some '0' && 1 < digits.length) then none
  else some (digits, rest)

/-- Reads a point and the digits after it, if there is a point. -/
def fraction? : List Char → Option (Option (List Char) × List Char)
  | '.' :: cs =>
    let (digits, rest) := digitSpan cs
    if digits.isEmpty then none else some (some digits, rest)
  | cs => some (none, cs)

/-- Splits the sign of an exponent off. -/
def exponentSign : List Char → Bool × List Char
  | '-' :: cs => (true, cs)
  | '+' :: cs => (false, cs)
  | cs => (false, cs)

/-- Reads an exponent, if there is one. -/
def exponent? : List Char → Option (Option Int × List Char)
  | c :: cs =>
    if c = 'e' ∨ c = 'E' then
      let (negative, cs) := exponentSign cs
      let (digits, rest) := digitSpan cs
      if digits.isEmpty then none
      else
        let n : Int := Digits.toNat digits
        some (some (if negative then -n else n), rest)
    else some (none, c :: cs)
  | [] => some (none, [])

/-- Reads a numeral without its sign. -/
def unsigned? (negative : Bool) (cs : List Char) : Option (Json × List Char) := do
  let (digits, cs) ← wholeDigits? cs
  let (fraction, cs) ← fraction? cs
  let (exponent, cs) ← exponent? cs
  let value ← Numeral.value? ⟨negative, digits, fraction, exponent⟩
  return (value, cs)

/-- Reads a numeral. -/
def number? : List Char → Option (Json × List Char)
  | '-' :: cs => unsigned? true cs
  | cs => unsigned? false cs

/-- Reads the items of an array after its opening bracket, or after a comma. -/
def items? (item : List Char → Option (Json × List Char)) :
    Nat → List Char → Option (List Json × List Char)
  | 0, _ => none
  | fuel + 1, cs =>
    match item cs with
    | none => none
    | some (j, rest) =>
      match skipBlanks rest with
      | ',' :: rest => (items? item fuel rest).map fun read => (j :: read.1, read.2)
      | ']' :: rest => some ([j], rest)
      | _ => none

/-- Reads the members of an object after its opening brace, or after a comma. -/
def members? (item : List Char → Option (Json × List Char)) :
    Nat → List Char → Option (List (String × Json) × List Char)
  | 0, _ => none
  | fuel + 1, cs =>
    match literal? (skipBlanks cs) with
    | none => none
    | some (name, rest) =>
      match skipBlanks rest with
      | ':' :: rest =>
        match item rest with
        | none => none
        | some (j, rest) =>
          match skipBlanks rest with
          | ',' :: rest => (members? item fuel rest).map fun read => ((name, j) :: read.1, read.2)
          | '\x7d' :: rest => some ([(name, j)], rest)
          | _ => none
      | _ => none

/-- Reads an array after its opening bracket. -/
def array? (item : List Char → Option (Json × List Char)) (cs : List Char) :
    Option (Json × List Char) :=
  match skipBlanks cs with
  | ']' :: rest => some (.array [], rest)
  | _ => (items? item cs.length cs).map fun read => (.array read.1, read.2)

/-- Reads an object after its opening brace. -/
def object? (item : List Char → Option (Json × List Char)) (cs : List Char) :
    Option (Json × List Char) :=
  match skipBlanks cs with
  | '\x7d' :: rest => some (.object [], rest)
  | _ => (members? item cs.length cs).map fun read => (.object read.1, read.2)

/-- Reads a value that is neither an array nor an object. -/
def scalar? (cs : List Char) : Option (Json × List Char) :=
  match cs with
  | 'n' :: _ => (word? "null".toList cs).map fun rest => (.null, rest)
  | 't' :: _ => (word? "true".toList cs).map fun rest => (.bool true, rest)
  | 'f' :: _ => (word? "false".toList cs).map fun rest => (.bool false, rest)
  | '"' :: _ => (literal? cs).map fun read => (.text read.1, read.2)
  | _ => number? cs

/-- Reads a value with at most `depth` arrays and objects inside each other. -/
def value? : Nat → List Char → Option (Json × List Char)
  | 0, cs => scalar? (skipBlanks cs)
  | depth + 1, cs =>
    match skipBlanks cs with
    | '[' :: rest => array? (value? depth) rest
    | '\x7b' :: rest => object? (value? depth) rest
    | cs => scalar? cs

/-- How deep arrays and objects may be nested. -/
def maxDepth : Nat := 127

/-- The value at the front of a text, and what follows it. -/
def readFront? (s : String) : Option (Json × List Char) :=
  value? maxDepth s.toList

/-- The tree of a text. -/
def read? (s : String) : Option Json :=
  match readFront? s with
  | some (j, rest) => if (skipBlanks rest).isEmpty then some j else none
  | none => none

end JobRegistry.Json
