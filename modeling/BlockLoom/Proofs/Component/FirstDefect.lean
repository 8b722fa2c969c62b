import BlockLoom.Proofs.Component.Validity

/-!
Which defect the check of a component reports. A node in a tree has a place, which is told
by the branches that lead to it. Places are ordered as a reader of the tree comes upon them:
a node before the nodes in it, children before slots, and both in order. The check fails just
if some node has a defect, and then with the defect of the first such node, under the path
that spells its place. Of two defects of one node a field that is given twice counts, and of
several such fields the first.
-/

namespace BlockLoom

namespace Node

/-! ## Places -/

/-- A way from a node to one in it. A slot is told by its position too, which decides the
order of slots. -/
inductive Branch where
  | child (index : Nat)
  | slot (position : Nat) (key : String) (index : Nat)
  deriving DecidableEq, Repr

/-- The branches that lead to a node, from the outermost inwards. -/
abbrev Place := List Branch

def Branch.from? (node : Node) : Branch → Option Node
  | .child index => node.children[index]?
  | .slot position key index =>
    (node.slots[position]?.filter fun slot => slot.1 = key).bind fun slot => slot.2[index]?

/-- The node at a place. -/
def at? (node : Node) : Place → Option Node
  | [] => some node
  | branch :: place => (branch.from? node).bind fun inner => inner.at? place

def Branch.path (start : Path) : Branch → Path
  | .child index => (start.field "children").item index
  | .slot _ key index => ((start.field "slots").field key).item index

/-- The path that spells a place. -/
def Place.path (start : Path) (place : Place) : Path :=
  place.foldl Branch.path start

/-- Children come before slots, and both in order. -/
def Branch.Before : Branch → Branch → Prop
  | .child index, .child other => index < other
  | .child _, .slot _ _ _ => True
  | .slot _ _ _, .child _ => False
  | .slot position _ index, .slot later _ other =>
    position < later ∨ position = later ∧ index < other

/-- A node comes before the nodes in it, and these come in the order of the branches. -/
def Place.Before : Place → Place → Prop
  | _, [] => False
  | [], _ :: _ => True
  | branch :: place, other :: later => branch.Before other ∨ branch = other ∧ Before place later

theorem Place.not_before_nil (place : Place) : ¬place.Before [] := by
  cases place <;> exact id

variable {node inner : Node}

theorem from?_child_iff {index : Nat} :
    Branch.from? node (.child index) = some inner ↔ node.children[index]? = some inner := Iff.rfl

theorem from?_slot_iff {position index : Nat} {key : String} :
    Branch.from? node (.slot position key index) = some inner ↔
      ∃ nodes, node.slots[position]? = some (key, nodes) ∧ nodes[index]? = some inner := by
  simp only [Branch.from?, Option.bind_eq_some_iff, Option.filter_eq_some_iff, decide_eq_true_iff]
  constructor
  · rintro ⟨⟨_, nodes⟩, ⟨found, rfl⟩, inside⟩
    exact ⟨nodes, found, inside⟩
  · rintro ⟨nodes, found, inside⟩
    exact ⟨(key, nodes), ⟨found, rfl⟩, inside⟩

theorem at?_cons_iff {branch : Branch} {place : Place} :
    node.at? (branch :: place) = some inner ↔
      ∃ next, branch.from? node = some next ∧ next.at? place = some inner :=
  Option.bind_eq_some_iff

/-- The nodes that are reached from a node are those with a place in it. -/
theorem reaches_iff_at? : node.Reaches inner ↔ ∃ place, node.at? place = some inner := by
  constructor
  · intro reached
    induction reached with
    | self => exact ⟨[], rfl⟩
    | child member _ ih =>
      obtain ⟨place, found⟩ := ih
      obtain ⟨index, here⟩ := List.mem_iff_getElem?.mp member
      exact ⟨.child index :: place, at?_cons_iff.mpr ⟨_, here, found⟩⟩
    | @slot _ _ _ slot placed member _ ih =>
      obtain ⟨place, found⟩ := ih
      obtain ⟨position, there⟩ := List.mem_iff_getElem?.mp placed
      obtain ⟨index, here⟩ := List.mem_iff_getElem?.mp member
      exact ⟨.slot position slot.1 index :: place,
        at?_cons_iff.mpr ⟨_, from?_slot_iff.mpr ⟨slot.2, there, here⟩, found⟩⟩
  · rintro ⟨place, found⟩
    induction place generalizing node with
    | nil =>
      cases found
      exact .self _
    | cons branch place ih =>
      obtain ⟨next, first, rest⟩ := at?_cons_iff.mp found
      cases branch with
      | child index => exact .child (List.mem_of_getElem? first) (ih rest)
      | slot position key index =>
        obtain ⟨nodes, there, here⟩ := from?_slot_iff.mp first
        exact .slot (List.mem_of_getElem? there) (List.mem_of_getElem? here) (ih rest)

theorem Branch.before_or_eq {branch other : Branch} {first second : Node}
    (h : branch.from? node = some first) (h' : other.from? node = some second) :
    branch.Before other ∨ branch = other ∨ other.Before branch := by
  cases branch with
  | child index =>
    cases other with
    | child index' =>
      simp only [Branch.Before, Branch.child.injEq]
      omega
    | slot => exact .inl trivial
  | slot position key index =>
    cases other with
    | child => exact .inr (.inr trivial)
    | slot position' key' index' =>
      obtain ⟨nodes, there, -⟩ := from?_slot_iff.mp h
      obtain ⟨nodes', there', -⟩ := from?_slot_iff.mp h'
      -- One position holds one slot, so the name of the slot adds nothing to the order.
      have named : position = position' → key = key' := by
        rintro rfl
        cases there.symm.trans there'
        rfl
      simp only [Branch.Before, Branch.slot.injEq]
      by_cases same : position = position'
      · have key_eq := named same
        simp only [same, key_eq, true_and]
        omega
      · omega

/-- Of two places in a tree one comes before the other. -/
theorem Place.before_or_eq {place other : Place} {first second : Node}
    (h : node.at? place = some first) (h' : node.at? other = some second) :
    place.Before other ∨ place = other ∨ other.Before place := by
  induction place generalizing node other with
  | nil =>
    cases other with
    | nil => exact .inr (.inl rfl)
    | cons => exact .inl trivial
  | cons branch place ih =>
    cases other with
    | nil => exact .inr (.inr trivial)
    | cons branch' other =>
      obtain ⟨next, leads, rest⟩ := at?_cons_iff.mp h
      obtain ⟨next', leads', rest'⟩ := at?_cons_iff.mp h'
      rcases Branch.before_or_eq leads leads' with before | same | after
      · exact .inl (.inl before)
      · subst same
        cases leads.symm.trans leads'
        rcases ih rest rest' with before | same | after
        · exact .inl (.inr ⟨rfl, before⟩)
        · exact .inr (.inl (congrArg _ same))
        · exact .inr (.inr (.inr ⟨rfl, after⟩))
      · exact .inr (.inr (.inl after))

/-! ## Defects of one node -/

/-- The defect that counts for a node: the first property that is bound as well, or, if there
is none, that a loop wrapper has no collection. -/
inductive Shows (node : Node) : Defect → Prop where
  | fieldTwice {before after : Fields Json} {key : String} {value : Json}
      (split : node.properties = before ++ (key, value) :: after)
      (bound : key ∈ Fields.names node.bindings)
      (first : ∀ name ∈ Fields.names before, name ∉ Fields.names node.bindings) :
      Shows node (.fieldTwice key)
  | loopWithoutCollection (apart : node.Apart) (wrapper : node.name = Loop.wrapperName)
      (free : Loop.collectionKey ∉ Fields.names node.bindings) :
      Shows node .loopWithoutCollection

theorem defect?_eq_some_iff {defect : Defect} : node.defect? = some defect ↔ node.Shows defect := by
  constructor
  · intro h
    rw [defect?] at h
    split at h
    · next key value found =>
      cases h
      obtain ⟨bound, before, after, split, first⟩ := List.find?_eq_some_iff_append.mp found
      refine .fieldTwice split (Fields.has_iff.mp bound) fun name member => ?_
      obtain ⟨value, stored⟩ := Fields.mem_names.mp member
      have free := first _ stored
      rwa [Bool.not_eq_true', Fields.has_eq_false_iff] at free
    · next none =>
      split at h
      · next wrong =>
        cases h
        have free := Fields.has_eq_false_iff.mp (Bool.not_eq_true' _ ▸ wrong.2)
        refine .loopWithoutCollection (fun key literal bound => ?_) wrong.1 free
        obtain ⟨value, stored⟩ := Fields.mem_names.mp literal
        exact List.find?_eq_none.mp none _ stored (Fields.has_iff.mpr bound)
      · cases h
  · rintro (⟨split, bound, first⟩ | ⟨apart, wrapper, free⟩)
    · next before after key value =>
      have none : before.find? (fun entry => Fields.has node.bindings entry.1) = none := by
        rw [List.find?_eq_none]
        intro entry member there
        exact first _ (Fields.mem_names_of_mem member) (Fields.has_iff.mp there)
      have found : node.properties.find? (fun entry => Fields.has node.bindings entry.1) =
          some (key, value) := by
        rw [split, List.find?_append, none, Option.none_or]
        exact List.find?_cons_of_pos (Fields.has_iff.mpr bound)
      rw [defect?, found]
    · have none : node.properties.find? (fun entry => Fields.has node.bindings entry.1) = none := by
        rw [List.find?_eq_none]
        intro entry member there
        exact apart _ (Fields.mem_names_of_mem member) (Fields.has_iff.mp there)
      rw [defect?, none]
      dsimp only
      rw [if_pos ⟨wrapper, by simpa using Fields.has_eq_false_iff.mpr free⟩]

/-! ## The first defect of a tree -/

/-- A node without a defect of its own. -/
def IsSound (node : Node) : Prop :=
  node.Apart ∧ node.Collected

/-- No node in the nodes of a list before a position has a defect. -/
def SoundBefore (nodes : List Node) (index : Nat) : Prop :=
  ∀ earlier other, earlier < index → nodes[earlier]? = some other → other.All IsSound

/-- The failure for the first defect of a tree whose root has the given path. -/
def Reports (start : Path) (node : Node) (failure : Failure) : Prop :=
  ∃ place inner defect, node.at? place = some inner ∧ inner.Shows defect ∧
    (∀ earlier other, node.at? earlier = some other → earlier.Before place → other.IsSound) ∧
    failure = .malformed (place.path start) defect

theorem Shows.not_isSound {defect : Defect} (h : node.Shows defect) : ¬node.IsSound := by
  intro sound
  cases (defect?_eq_some_iff.mpr h).symm.trans (defect?_eq_none.mpr sound)

theorem All.at? {p : Node → Prop} {place : Place} (h : node.All p)
    (found : node.at? place = some inner) : p inner :=
  h inner (reaches_iff_at?.mpr ⟨place, found⟩)

/-- A defect of the root is the first one. -/
theorem reports_self {defect : Defect} (start : Path) (h : node.Shows defect) :
    node.Reports start (.malformed start defect) :=
  ⟨[], node, defect, rfl, h, fun earlier _ _ before => (earlier.not_before_nil before).elim, rfl⟩

/-- The first defect of a node behind a branch is the first one of the tree, if the root and
all nodes behind earlier branches have none. -/
theorem Reports.behind {branch : Branch} {next : Node} {start : Path} {failure : Failure}
    (leads : branch.from? node = some next) (sound : node.IsSound)
    (earlier : ∀ (other : Branch) (second : Node), other.from? node = some second →
      other.Before branch → second.All IsSound)
    (h : next.Reports (branch.path start) failure) : node.Reports start failure := by
  obtain ⟨place, inner, defect, found, shown, first, rfl⟩ := h
  refine ⟨branch :: place, inner, defect, at?_cons_iff.mpr ⟨next, leads, found⟩, shown, ?_, rfl⟩
  intro other second found before
  cases other with
  | nil =>
    cases found
    exact sound
  | cons branch' other =>
    obtain ⟨next', leads', rest⟩ := at?_cons_iff.mp found
    rcases before with before | ⟨rfl, before⟩
    · exact (earlier _ _ leads' before).at? rest
    · cases leads.symm.trans leads'
      exact first _ _ rest before

mutual

/-- A failed check of a tree reports its first defect. -/
theorem reports_of_check {start : Path} (node : Node) {failure : Failure}
    (h : check start node = .error failure) : node.Reports start failure := by
  match node with
  | ⟨name, properties, bindings, children, slots, scope, metadata⟩ =>
    rw [check] at h
    split at h
    · next defect found =>
      cases h
      exact reports_self start (defect?_eq_some_iff.mp found)
    · next none =>
      have sound := defect?_eq_none.mp none
      split at h
      · next failed =>
        cases h
        obtain ⟨index, child, here, reported, first⟩ := reports_of_checkList children failed
        rw [Nat.zero_add] at reported
        refine Reports.behind (from?_child_iff.mpr here) sound ?_ reported
        intro other second leads before
        cases other with
        | child earlier => exact first earlier second before leads
        | slot => cases before
      · next passed =>
        obtain ⟨position, key, nodes, index, child, there, here, reported, first, slots_first⟩ :=
          reports_of_checkSlots slots h
        refine Reports.behind (from?_slot_iff.mpr ⟨nodes, there, here⟩) sound ?_ reported
        intro other second leads before
        cases other with
        | child earlier =>
          exact (checkList_ok_iff _ _ _).mp passed second (List.mem_of_getElem? leads)
        | slot position' key' index' =>
          obtain ⟨nodes', there', here'⟩ := from?_slot_iff.mp leads
          rcases before with before | ⟨rfl, before⟩
          · exact slots_first _ _ before there' second (List.mem_of_getElem? here')
          · cases there.symm.trans there'
            exact first _ _ before here'

/-- A failed check of a list reports the first defect of the first node that has one in it. -/
theorem reports_of_checkList {start : Path} {number : Nat} (nodes : List Node) {failure : Failure}
    (h : checkList start number nodes = .error failure) :
    ∃ (index : Nat) (child : Node), nodes[index]? = some child ∧
      Reports (start.item (number + index)) child failure ∧ SoundBefore nodes index := by
  match nodes with
  | [] => cases h
  | node :: nodes =>
    rw [checkList] at h
    split at h
    · next failed =>
      cases h
      exact ⟨0, node, rfl, reports_of_check node failed, fun _ _ before => nomatch before⟩
    · next passed =>
      obtain ⟨index, child, here, reported, first⟩ := reports_of_checkList nodes h
      refine ⟨index + 1, child, here, ?_, ?_⟩
      · rwa [Nat.add_right_comm] at reported
      · intro earlier other before found
        cases earlier with
        | zero =>
          cases found
          exact (check_ok_iff _ _).mp passed
        | succ earlier => exact first earlier other (Nat.lt_of_succ_lt_succ before) found

/-- A failed check of slots reports the first defect of the first node that has one in it. -/
theorem reports_of_checkSlots {start : Path} (slots : List (String × List Node)) {failure : Failure}
    (h : checkSlots start slots = .error failure) :
    ∃ (position : Nat) (key : String) (nodes : List Node) (index : Nat) (child : Node),
      slots[position]? = some (key, nodes) ∧ nodes[index]? = some child ∧
      Reports (((start.field "slots").field key).item index) child failure ∧
      SoundBefore nodes index ∧
      ∀ (earlier : Nat) (slot : String × List Node), earlier < position →
        slots[earlier]? = some slot → ∀ other ∈ slot.2, All IsSound other := by
  match slots with
  | [] => cases h
  | (key, nodes) :: slots =>
    rw [checkSlots] at h
    split at h
    · next failed =>
      cases h
      obtain ⟨index, child, here, reported, first⟩ := reports_of_checkList nodes failed
      rw [Nat.zero_add] at reported
      exact ⟨0, key, nodes, index, child, rfl, here, reported, first,
        fun _ _ before => nomatch before⟩
    · next passed =>
      obtain ⟨position, name, others, index, child, there, here, reported, first, slots_first⟩ :=
        reports_of_checkSlots slots h
      refine ⟨position + 1, name, others, index, child, there, here, reported, first, ?_⟩
      intro earlier slot before found
      cases earlier with
      | zero =>
        cases found
        exact (checkList_ok_iff _ _ _).mp passed
      | succ earlier => exact slots_first earlier slot (Nat.lt_of_succ_lt_succ before) found

end

end Node

/-! ## The first defect of a component -/

namespace Component

open Node (Place)

variable {component : Component}

/-- The node at a place in a component, of which the first branch leads to one of its children. -/
def at? (component : Component) : Place → Option Node
  | .child index :: place => component.children[index]?.bind fun child => child.at? place
  | _ => none

/-- The path that spells a place in a component. -/
def path : Place → Path
  | .child index :: place => Place.path (Path.item "children" index) place
  | _ => ""

/-- The failure for the first defect of a component. -/
def Reports (component : Component) (failure : Failure) : Prop :=
  ∃ place node defect, component.at? place = some node ∧ node.Shows defect ∧
    (∀ earlier other, component.at? earlier = some other → earlier.Before place →
      other.Apart ∧ other.Collected) ∧
    failure = .malformed (path place) defect

theorem at?_child_iff {index : Nat} {place : Place} {node : Node} :
    component.at? (.child index :: place) = some node ↔
      ∃ child, component.children[index]? = some child ∧ child.at? place = some node :=
  Option.bind_eq_some_iff

/-- The places in a component are those in a node with the same children, but for the
place of that node itself. -/
theorem at?_of_root {place : Place} {node : Node} (h : component.at? place = some node) :
    Node.at? { name := component.name, children := component.children } place = some node := by
  match place with
  | .child _ :: _ => exact h
  | .slot _ _ _ :: _ => cases h
  | [] => cases h

/-- A component has one first defect. -/
theorem Reports.unique {failure failure' : Failure} (h : component.Reports failure)
    (h' : component.Reports failure') : failure = failure' := by
  obtain ⟨place, node, defect, found, shown, first, rfl⟩ := h
  obtain ⟨place', node', defect', found', shown', first', rfl⟩ := h'
  rcases Place.before_or_eq (at?_of_root found) (at?_of_root found') with before | rfl | after
  · exact absurd (first' _ _ found before) shown.not_isSound
  · cases found.symm.trans found'
    cases (Node.defect?_eq_some_iff.mpr shown).symm.trans (Node.defect?_eq_some_iff.mpr shown')
    rfl
  · exact absurd (first _ _ found' after) shown'.not_isSound

theorem reports_of_check {failure : Failure} (h : component.check = .error failure) :
    component.Reports failure := by
  obtain ⟨index, child, here, ⟨place, node, defect, found, shown, first, rfl⟩, before⟩ :=
    Node.reports_of_checkList component.children h
  have there := at?_child_iff.mpr ⟨child, here, found⟩
  refine ⟨.child index :: place, node, defect, there, shown, ?_, ?_⟩
  · intro earlier other there leads
    match earlier with
    | .child index' :: earlier =>
      obtain ⟨child', here', inside⟩ := at?_child_iff.mp there
      rcases leads with leads | ⟨same, leads⟩
      · exact (before index' child' leads here').at? inside
      · cases same
        cases here.symm.trans here'
        exact first _ _ inside leads
    | .slot _ _ _ :: _ => cases there
    | [] => cases there
  · rw [path, Nat.zero_add]

/-- A defect that is reported is one of a node that is reached. -/
theorem Reports.not_ok {failure : Failure} (h : component.Reports failure) :
    component.check ≠ .ok () := by
  intro passed
  obtain ⟨place, node, defect, found, shown, -⟩ := h
  match place with
  | .child index :: place =>
    obtain ⟨child, here, inside⟩ := at?_child_iff.mp found
    exact shown.not_isSound
      ((check_ok_iff.mp passed child (List.mem_of_getElem? here)).at? inside)
  | .slot _ _ _ :: _ => cases found
  | [] => cases found

/-- The check of a component passes just if every node that is reached through children and
slots keeps literal and bound fields apart and, if it is a loop wrapper, has a collection. Any
other component is malformed at the path of the first node that does not, for the defect that
counts for this node. -/
theorem check_reports_first (component : Component) :
    (component.check = .ok () ↔
      ∀ child ∈ component.children, ∀ node, child.Reaches node → node.Apart ∧ node.Collected) ∧
    ∀ failure, component.check = .error failure ↔ component.Reports failure := by
  refine ⟨check_ok_iff, fun failure => ⟨reports_of_check, fun reported => ?_⟩⟩
  cases checked : component.check with
  | ok => exact absurd checked reported.not_ok
  | error other => rw [(reports_of_check checked).unique reported]

/-- A slot of the first card has a text that gives its title twice. The loop behind the card,
which has no collection, is not reported. -/
example : check
    { name := "Page"
      children :=
        [{ name := "Card"
           slots := [("header", [.named "Icon",
             { name := "Text"
               properties := [("title", .string "Sale")]
               bindings := [("title", .expression "offer")] }])] },
          .named Loop.wrapperName] } =
    .error (.malformed "children[0].slots.header[1]" (.fieldTwice "title")) := by
  rfl

end Component

end BlockLoom
