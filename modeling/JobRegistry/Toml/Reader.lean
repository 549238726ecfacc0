import JobRegistry.Toml.Scalar

/-!
# Reading TOML documents

A reader for TOML documents by descent, statement by statement. Every scanner takes the characters
that are left and returns what it read together with what it left. Arrays and inline tables may be
nested at most 79 deep, and a path has at most 79 keys; the items of one array or table, the keys of
one path and the statements of a document are read in loops whose fuel is the length of the text.
-/

namespace JobRegistry.Toml

/-- Drops blanks within a line. -/
def skipBlanks (cs : List Char) : List Char :=
  cs.dropWhile isBlank

/-- Drops blanks, line ends and comments; nothing is left of a comment with a character that may
not stand in it. The flag tells whether a comment has been opened. -/
def skipTrivia? : Bool → List Char → Option (List Char)
  | _, [] => some []
  | _, '\r' :: '\n' :: rest => skipTrivia? false rest
  | comment, c :: rest =>
    if c = '\n' then skipTrivia? false rest
    else if comment then if isVisible c then skipTrivia? true rest else none
    else if c = '#' then skipTrivia? true rest
    else if isBlank c then skipTrivia? false rest
    else some (c :: rest)

/-- How deep arrays and inline tables may be nested, and how many keys a path may have. -/
def maxDepth : Nat := 79

/-! ## Paths -/

/-- A character of a key without marks. -/
def isKeyChar (c : Char) : Bool :=
  c.isAlphanum || c == '_' || c == '-'

/-- Reads one key. -/
def key? (cs : List Char) : Option (String × List Char) :=
  match lineString? cs with
  | some (key, rest) => some (String.ofList key, rest)
  | none =>
    let key := cs.takeWhile isKeyChar
    if key.isEmpty then none else some (String.ofList key, cs.dropWhile isKeyChar)

/-- Reads the keys of a path, and the blanks after it. -/
def keys? : Nat → List Char → Option (List String × List Char)
  | 0, _ => none
  | fuel + 1, cs =>
    match key? (skipBlanks cs) with
    | none => none
    | some (key, rest) =>
      match skipBlanks rest with
      | '.' :: rest => (keys? fuel rest).map fun read => (key :: read.1, read.2)
      | rest => some ([key], rest)

/-- Reads a path. -/
def path? (cs : List Char) : Option (List String × List Char) :=
  match keys? cs.length cs with
  | some (path, rest) => if path.length ≤ maxDepth then some (path, rest) else none
  | none => none

/-! ## Values -/

/-- Reads a path, the equals sign and a value. -/
def pair? (value : List Char → Option (Toml × List Char)) (cs : List Char) :
    Option ((List String × Toml) × List Char) :=
  match path? cs with
  | some (path, '=' :: rest) =>
    (value (skipBlanks rest)).map fun read => ((path, read.1), skipBlanks read.2)
  | _ => none

/-- Reads the items of an array after its opening bracket, or after a comma. -/
def items? (value : List Char → Option (Toml × List Char)) :
    Nat → List Char → Option (List Toml × List Char)
  | 0, _ => none
  | fuel + 1, cs =>
    match skipTrivia? false cs with
    | none => none
    | some (']' :: rest) => some ([], rest)
    | some cs =>
      match value cs with
      | none => none
      | some (v, rest) =>
        match skipTrivia? false rest with
        | some (',' :: rest) => (items? value fuel rest).map fun read => (v :: read.1, read.2)
        | some (']' :: rest) => some ([v], rest)
        | _ => none

/-- Reads the entries of an inline table after its opening brace, or after a comma. -/
def entries? (value : List Char → Option (Toml × List Char)) :
    Nat → List Char → Option (List (List String × Toml) × List Char)
  | 0, _ => none
  | fuel + 1, cs =>
    match pair? value cs with
    | some (e, ',' :: rest) => (entries? value fuel rest).map fun read => (e :: read.1, read.2)
    | some (e, '\x7d' :: rest) => some ([e], rest)
    | _ => none

/-- Reads an inline table after its opening brace. -/
def table? (value : List Char → Option (Toml × List Char)) (cs : List Char) :
    Option (Toml × List Char) :=
  match skipBlanks cs with
  | '\x7d' :: rest => some (.table [], rest)
  | _ =>
    match entries? value cs.length cs with
    | some (entries, rest) => if isConsistent entries then some (.table entries, rest) else none
    | none => none

/-- Reads a value that is neither an array nor a table. -/
def leaf? (cs : List Char) : Option (Toml × List Char) :=
  match cs with
  | '"' :: _ => (string? cs).map fun read => (.text (String.ofList read.1), read.2)
  | '\'' :: _ => (string? cs).map fun read => (.text (String.ofList read.1), read.2)
  | _ => word? cs

/-- Reads a value with at most `depth` arrays and tables inside each other. -/
def value? : Nat → List Char → Option (Toml × List Char)
  | 0, cs => leaf? cs
  | depth + 1, cs =>
    match cs with
    | '[' :: rest => (items? (value? depth) cs.length rest).map fun read => (.array read.1, read.2)
    | '\x7b' :: rest => table? (value? depth) rest
    | cs => leaf? cs

/-! ## Statements -/

/-- Whether nothing but a comment is left of a line. -/
def endsLine (cs : List Char) : Bool :=
  match skipBlanks cs with
  | [] => true
  | '#' :: _ => true
  | cs => startsLineEnd cs

/-- Reads one statement. -/
def statement? : List Char → Option (Statement × List Char)
  | '[' :: '[' :: rest =>
    match path? rest with
    | some (path, ']' :: ']' :: rest) => some (.arrayHeader path, rest)
    | _ => none
  | '[' :: rest =>
    match path? rest with
    | some (path, ']' :: rest) => some (.header path, rest)
    | _ => none
  | cs => (pair? (value? maxDepth) cs).map fun read => (.entry read.1.1 read.1.2, read.2)

/-- Reads the statements of a document. -/
def statements? : Nat → List Char → Option (List Statement)
  | 0, _ => none
  | fuel + 1, cs =>
    match skipTrivia? false cs with
    | none => none
    | some [] => some []
    | some cs =>
      match statement? cs with
      | some (s, rest) =>
        if endsLine rest then (statements? fuel rest).map (s :: ·) else none
      | none => none

/-- Drops a byte order mark off the front. -/
def dropMark : List Char → List Char
  | '\ufeff' :: rest => rest
  | cs => cs

/-- The statements of a document. -/
def read? (s : String) : Option (List Statement) :=
  let cs := dropMark s.toList
  statements? (cs.length + 1) cs

end JobRegistry.Toml
