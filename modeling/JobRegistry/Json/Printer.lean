import JobRegistry.Json.Basic
import JobRegistry.Number.Numeral
import JobRegistry.Text.Literal

/-!
# JSON texts

Two ways to write a JSON tree: `compact` without any space, and `pretty` with one item or member a
line and two spaces of indentation a level. Numbers that are not finite are written as `null`.
-/

namespace JobRegistry.Json

open Number Text

/-- The text of a number. -/
def realText (x : Double) : List Char :=
  if x.isFinite then x.numeral .compact else "null".toList

/-- The text of a tree without items or members. -/
def scalarText : Json → List Char
  | .null => "null".toList
  | .bool true => "true".toList
  | .bool false => "false".toList
  | .whole n => Digits.ofInt n.1
  | .real x => realText x
  | .text s => literal s
  | .array _ => []
  | .object _ => []

mutual

/-- The text of a tree without spaces. -/
def compactChars : Json → List Char
  | .array items => '[' :: (compactItems items ++ [']'])
  | .object members => '\x7b' :: (compactMembers members ++ ['\x7d'])
  | j => j.scalarText

/-- Items with commas between them. -/
def compactItems : List Json → List Char
  | [] => []
  | [j] => j.compactChars
  | j :: rest => j.compactChars ++ ',' :: compactItems rest

/-- Members with commas between them. -/
def compactMembers : List (String × Json) → List Char
  | [] => []
  | [(name, j)] => literal name ++ ':' :: j.compactChars
  | (name, j) :: rest => literal name ++ ':' :: (j.compactChars ++ ',' :: compactMembers rest)

end

/-- The compact text of a tree. -/
def compact (j : Json) : String :=
  String.ofList j.compactChars

/-- A new line with the indentation of a level. -/
def newline (level : Nat) : List Char :=
  '\n' :: List.replicate (2 * level) ' '

mutual

/-- The text of a tree that stands at a level. -/
def prettyChars (level : Nat) : Json → List Char
  | .array [] => ['[', ']']
  | .array items => '[' :: (prettyItems (level + 1) items ++ newline level ++ [']'])
  | .object [] => ['\x7b', '\x7d']
  | .object members =>
    '\x7b' :: (prettyMembers (level + 1) members ++ newline level ++ ['\x7d'])
  | j => j.scalarText

/-- Items, each on a line of a level. -/
def prettyItems (level : Nat) : List Json → List Char
  | [] => []
  | [j] => newline level ++ j.prettyChars level
  | j :: rest => newline level ++ j.prettyChars level ++ ',' :: prettyItems level rest

/-- Members, each on a line of a level. -/
def prettyMembers (level : Nat) : List (String × Json) → List Char
  | [] => []
  | [(name, j)] => newline level ++ literal name ++ ':' :: ' ' :: j.prettyChars level
  | (name, j) :: rest =>
    newline level ++ literal name ++ ':' :: ' ' :: (j.prettyChars level ++ ',' ::
      prettyMembers level rest)

end

/-- The indented text of a tree. -/
def pretty (j : Json) : String :=
  String.ofList (j.prettyChars 0)

end JobRegistry.Json
