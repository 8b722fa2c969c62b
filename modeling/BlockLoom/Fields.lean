/-!
Maps that keep the order in which keys were first written. Every object of a
component tree, of page content and of JSON data is such a map: writing a key
again changes its value and leaves it in its place, and removing a key closes
the gap.
-/

namespace BlockLoom

/-- Entries in order of first insertion. The operations below keep keys apart. -/
abbrev Fields (α : Type) := List (String × α)

namespace Fields

variable {α β : Type}

/-- The value stored under `key`. -/
def get? (fields : Fields α) (key : String) : Option α :=
  match fields with
  | [] => none
  | (name, value) :: rest => if name = key then some value else get? rest key

def has (fields : Fields α) (key : String) : Bool :=
  (get? fields key).isSome

/-- Stores `value` under `key`: in place if the key is there, at the end if not. -/
def put (fields : Fields α) (key : String) (value : α) : Fields α :=
  match fields with
  | [] => [(key, value)]
  | (name, old) :: rest =>
    if name = key then (name, value) :: rest else (name, old) :: put rest key value

/-- Removes `key`, keeping the order of all others. -/
def remove (fields : Fields α) (key : String) : Fields α :=
  fields.filter fun entry => entry.1 ≠ key

def names (fields : Fields α) : List String :=
  fields.map Prod.fst

/-- Writes the entries of `later` one after another into `fields`. -/
def merge (fields later : Fields α) : Fields α :=
  later.foldl (fun all entry => put all entry.1 entry.2) fields

/-- The map that results from writing a list of entries in order. -/
def ofEntries (entries : List (String × α)) : Fields α :=
  merge [] entries

def mapValues (convert : α → β) (fields : Fields α) : Fields β :=
  fields.map fun entry => (entry.1, convert entry.2)

/-- Whether two maps hold the same values under the same keys, in any order. -/
def agree (same : α → α → Bool) (left right : Fields α) : Bool :=
  left.length == right.length &&
    left.all fun entry =>
      match get? right entry.1 with
      | some value => same entry.2 value
      | none => false

end Fields

end BlockLoom
