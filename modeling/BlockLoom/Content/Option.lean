import BlockLoom.Content.Json
import BlockLoom.Failure

/-!
What the options of a component hold besides plain data: elements, as a slot of
the component, and groups of elements with fields of their own. A list with one
element in it must hold nothing but elements.
-/

namespace BlockLoom.Content

def isElement (value : Json) : Bool :=
  value.textAt? "@type" == some elementType

def readElement (path : Path) (value : Json) : Except Failure Element :=
  if isElement value then
    match Element.fromJson value with
    | .ok element => .ok element
    | .error message => .error (.malformed path (.unreadableElement message))
  else .error (.malformed path .elementExpected)

def readElements (path : Path) (index : Nat) : List Json → Except Failure (List Element)
  | [] => .ok []
  | value :: values =>
    match readElement (path.item index) value with
    | .error failure => .error failure
    | .ok element =>
      match readElements path (index + 1) values with
      | .error failure => .error failure
      | .ok elements => .ok (element :: elements)

inductive OptionValue where
  | slot (elements : List Element)
  | plain (value : Json)

/-- Tells slots from plain data. -/
def readOption (path : Path) (value : Json) : Except Failure OptionValue :=
  match value with
  | .array items =>
    if items.any isElement then
      match readElements path 0 items with
      | .ok elements => .ok (.slot elements)
      | .error failure => .error failure
    else .ok (.plain value)
  | _ => .ok (.plain value)

structure Group where
  fields : List (String × Json) := []
  blocks : List Element := []
  deriving Inhabited

namespace Group

/-- The field of a group that holds its elements. -/
def blocksKey : String := "blocks"

/-- Reads a group. -/
def read (path : Path) (value : Json) : Except Failure Group :=
  match value with
  | .object members =>
    let fields := Fields.remove members blocksKey
    match Fields.get? members blocksKey with
    | none => .ok ⟨fields, []⟩
    | some (.array items) =>
      match readElements (path.field blocksKey) 0 items with
      | .ok blocks => .ok ⟨fields, blocks⟩
      | .error failure => .error failure
    | some _ => .error (.malformed (path.field blocksKey) .listExpected)
  | _ => .error (.malformed path .objectExpected)

def readItems (path : Path) (index : Nat) : List Json → Except Failure (List Group)
  | [] => .ok []
  | value :: values =>
    match read (path.item index) value with
    | .error failure => .error failure
    | .ok group =>
      match readItems path (index + 1) values with
      | .error failure => .error failure
      | .ok groups => .ok (group :: groups)

def readList (path : Path) (value : Json) : Except Failure (List Group) :=
  match value with
  | .array items => readItems path 0 items
  | _ => .error (.malformed path .listExpected)

/-- How deeply the elements of groups are nested. -/
def depthList : List Group → Nat
  | [] => 0
  | group :: groups => max (Element.depthList group.blocks + 1) (depthList groups)

end Group

/-! ## Depth -/

theorem depth_readElement {path : Path} {value : Json} {element : Element}
    (h : readElement path value = .ok element) : element.depth ≤ value.depth := by
  rw [readElement] at h
  split at h
  · split at h
    · next hread => cases h; exact Element.depth_fromJson hread
    · cases h
  · cases h

theorem depth_readElements {path : Path} {index : Nat} {values : List Json}
    {elements : List Element} (h : readElements path index values = .ok elements) :
    Element.depthList elements ≤ Json.depthItems values := by
  induction values generalizing index elements with
  | nil => rw [readElements] at h; cases h; exact Nat.le_refl _
  | cons value values ih =>
    rw [readElements] at h
    split at h
    · cases h
    · next element helement =>
      split at h
      · cases h
      · next rest hrest =>
        cases h
        rw [Element.depthList, Json.depthItems]
        have := depth_readElement helement
        have := ih hrest
        omega

theorem depth_readOption {path : Path} {value : Json} {elements : List Element}
    (h : readOption path value = .ok (.slot elements)) :
    Element.depthList elements ≤ value.depth := by
  rw [readOption.eq_def] at h
  split at h
  · split at h
    · split at h
      · next hread => cases h; exact depth_readElements hread
      · cases h
    · cases h
  · cases h

theorem Group.depth_read {path : Path} {value : Json} {group : Group}
    (h : Group.read path value = .ok group) : Element.depthList group.blocks ≤ value.depth := by
  rw [Group.read.eq_def] at h
  split at h
  · next members =>
    dsimp only at h
    split at h
    · cases h; exact Nat.zero_le _
    · next items hitems =>
      split at h
      · next blocks hread =>
        cases h
        have nested : Json.depthItems items < Json.depthMembers members :=
          Json.depth_lt_depthMembers (Fields.mem_of_get? hitems)
        exact Nat.le_trans (depth_readElements hread) (Nat.le_of_lt nested)
      · cases h
    · cases h
  · cases h

theorem Group.depth_readItems {path : Path} {index : Nat} {values : List Json}
    {groups : List Group} (h : Group.readItems path index values = .ok groups) :
    Group.depthList groups ≤ Json.depthItems values := by
  induction values generalizing index groups with
  | nil => rw [Group.readItems] at h; cases h; exact Nat.le_refl _
  | cons value values ih =>
    rw [Group.readItems] at h
    split at h
    · cases h
    · next group hgroup =>
      split at h
      · cases h
      · next rest hrest =>
        cases h
        rw [Group.depthList, Json.depthItems]
        have := Group.depth_read hgroup
        have := ih hrest
        omega

/-- The elements of groups are no deeper than the option they are read from. -/
theorem Group.depth_readList {path : Path} {value : Json} {groups : List Group}
    (h : Group.readList path value = .ok groups) : Group.depthList groups ≤ value.depth := by
  rw [Group.readList.eq_def] at h
  split at h
  · exact Group.depth_readItems h
  · cases h

end BlockLoom.Content
