import BlockLoom.Settings.Value

/-!
Layers of settings. A later layer is written over an earlier one key by key:
tables are joined, and any other value takes the place of what was there. Keys
are compared without regard to case.

A setting is named by the keys that lead to it with dots between them.
-/

namespace BlockLoom.Settings

/-- A key as it is compared. -/
def foldCase (key : String) : String :=
  key.map Char.toLower

def Value.entries : Value → Fields Value
  | .table entries => entries
  | _ => []

mutual

def overlayAt (stored : Fields Value) (key : String) : Value → Fields Value
  | .table entries =>
    match Fields.get? stored key, entries with
    | some (.table inner), entries => Fields.put stored key (.table (overlay inner entries))
    | some _, [] => stored
    | _, entries => Fields.put stored key (.table (overlay [] entries))
  | value => Fields.put stored key value

/-- Writes entries over what is stored. -/
def overlay (stored : Fields Value) : List (String × Value) → Fields Value
  | [] => stored
  | (key, value) :: entries => overlay (overlayAt stored (foldCase key) value) entries

end

/-! ## Names of settings -/

def isNameChar (c : Char) : Bool :=
  c.isAlphanum || c == ' ' || c == '_' || c == '-'

def keysOf? (present : List Char) : List Char → Option (List String)
  | [] => if present.isEmpty then none else some [String.ofList present.reverse]
  | c :: rest =>
    if c = '.' then
      if present.isEmpty then none
      else (keysOf? [] rest).map (String.ofList present.reverse :: ·)
    else if isNameChar c then keysOf? (c :: present) rest
    else none

/-- The keys that a name consists of. -/
def nameKeys? (name : String) : Option (List String) :=
  keysOf? [] name.toList

/-- Writes a value over what is stored under a path of keys. -/
def overlayPath (stored : Fields Value) : List String → Value → Fields Value
  | [], _ => stored
  | [key], value => overlayAt stored (foldCase key) value
  | key :: path, value =>
    let inner := ((Fields.get? stored (foldCase key)).map Value.entries).getD []
    Fields.put stored (foldCase key) (.table (overlayPath inner path value))

/-- Writes a layer over what is stored. The outermost keys of a layer may be names, which lead
through tables to a single value; other keys stand for themselves. -/
def applyLayer (stored : Fields Value) (layer : Fields Value) : Fields Value :=
  layer.foldl (fun stored entry =>
    overlayPath stored ((nameKeys? entry.1).getD [entry.1]) entry.2) stored

end BlockLoom.Settings
