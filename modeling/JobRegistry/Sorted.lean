/-!
# Association lists in the order of their keys

Keys are ordered by a test `before` that tells whether one key comes before another; two keys of
which neither comes before the other are the same key. `insert` puts an entry in its place, where
an entry of the same key gives way, and `ofList` sorts entries so that the last entry of each key
is left.
-/

namespace JobRegistry.Sorted

variable {κ α : Type}

/-- Puts an entry into an ordered list. -/
def insert (before : κ → κ → Bool) (k : κ) (a : α) : List (κ × α) → List (κ × α)
  | [] => [(k, a)]
  | (key, b) :: rest =>
    if before k key then (k, a) :: (key, b) :: rest
    else if before key k then (key, b) :: insert before k a rest
    else (k, a) :: rest

/-- The entries in the order of their keys, the last of each key. -/
def ofList (before : κ → κ → Bool) (entries : List (κ × α)) : List (κ × α) :=
  entries.foldl (fun sorted entry => insert before entry.1 entry.2 sorted) []

/-- The order of texts by code points, which is the order of their UTF-8 bytes. -/
def textBefore (s t : String) : Bool :=
  decide (s < t)

end JobRegistry.Sorted
