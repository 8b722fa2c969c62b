import BlockLoom.Component.FieldValue
import BlockLoom.Proofs.Component.Validity
import Mathlib.Data.List.Induction

/-!
Nodes whose fields are written one after another, in any order and any number of times. The last
write to a field decides whether it is a property or a binding and what it holds, and a field
that is never written is not there. All writes to one field together leave every other field with
its value and in its order.
-/

namespace BlockLoom

/-! ## Writes -/

/-- What a field of a node holds: a literal, if it is a property, or a binding. -/
inductive Held where
  | literal (value : Json)
  | bound (binding : Binding)

namespace Held

def literal? : Held → Option Json
  | .literal value => some value
  | .bound _ => none

def binding? : Held → Option Binding
  | .literal _ => none
  | .bound binding => some binding

end Held

/-- What a node holds for a value that is found in page content. -/
def FieldValue.held : FieldValue → Held
  | .literal value => .literal value
  | .bound code => .bound (.expression code)

/-- A write to a field of a node: of a property, of a binding, of either of the two, whichever is
given, or of a value that is found in page content. -/
inductive Write where
  | property (key : String) (value : Json)
  | binding (key : String) (binding : Binding)
  | either (key : String) (held : Held)
  | found (key : String) (value : FieldValue)

namespace Write

def key : Write → String
  | .property key _ | .binding key _ | .either key _ | .found key _ => key

def held : Write → Held
  | .property _ value => .literal value
  | .binding _ source => .bound source
  | .either _ held => held
  | .found _ value => value.held

end Write

/-- What the last of all writes to a field gives it, if there is any. -/
def lastHeld? (writes : List Write) (key : String) : Option Held :=
  (writes.filter fun write => write.key = key).getLast?.map Write.held

theorem lastHeld?_concat (writes : List Write) (write : Write) (key : String) :
    lastHeld? (writes ++ [write]) key =
      if write.key = key then some write.held else lastHeld? writes key := by
  rw [lastHeld?, List.filter_append]
  by_cases own : write.key = key
  · simp [own]
  · simp [own, lastHeld?]

theorem lastHeld?_isSome {writes : List Write} {key : String} :
    (lastHeld? writes key).isSome ↔ ∃ write ∈ writes, write.key = key := by
  simp [lastHeld?, Option.isSome_iff_ne_none]

namespace Node

variable {node : Node} {key : String} {held : Option Held}

def setHeld (node : Node) (key : String) (held : Held) : Node :=
  match held with
  | .literal value => node.setProperty key value
  | .bound binding => node.setBinding key binding

def write (node : Node) : Write → Node
  | .property key value => node.setProperty key value
  | .binding key binding => node.setBinding key binding
  | .either key held => node.setHeld key held
  | .found key value => node.setField key value

/-- Takes writes one after another. -/
def writeAll (node : Node) (writes : List Write) : Node :=
  writes.foldl write node

def filled (name : String) (writes : List Write) : Node :=
  (named name).writeAll writes

theorem setField_eq (node : Node) (key : String) (value : FieldValue) :
    node.setField key value = node.setHeld key value.held := by
  cases value <;> rfl

/-- Every write is to one field, and makes it a property or a binding. -/
theorem write_eq (node : Node) (write : Write) :
    node.write write = node.setHeld write.key write.held := by
  cases write with
  | property key value => rfl
  | binding key binding => rfl
  | either key held => rfl
  | found key value => exact node.setField_eq key value

theorem writeAll_concat (node : Node) (writes : List Write) (write : Write) :
    node.writeAll (writes ++ [write]) = (node.writeAll writes).write write :=
  List.foldl_append

/-! ## What a field holds -/

theorem get?_properties_setHeld (node : Node) (name key : String) (held : Held) :
    Fields.get? (node.setHeld name held).properties key =
      if name = key then held.literal? else Fields.get? node.properties key := by
  cases held with
  | literal value => exact Fields.get?_put node.properties name key value
  | bound binding =>
    change Fields.get? (Fields.remove node.properties name) key = _
    rw [Fields.get?_remove]
    simp only [eq_comm, Held.literal?]

theorem get?_bindings_setHeld (node : Node) (name key : String) (held : Held) :
    Fields.get? (node.setHeld name held).bindings key =
      if name = key then held.binding? else Fields.get? node.bindings key := by
  cases held with
  | literal value =>
    change Fields.get? (Fields.remove node.bindings name) key = _
    rw [Fields.get?_remove]
    simp only [eq_comm, Held.binding?]
  | bound binding => exact Fields.get?_put node.bindings name key binding

/-- What it means for a field to hold something, or not to be there: a literal stands among the
properties alone, and a binding among the bindings alone. -/
structure Holds (node : Node) (key : String) (held : Option Held) : Prop where
  property : Fields.get? node.properties key = held.bind Held.literal?
  binding : Fields.get? node.bindings key = held.bind Held.binding?

theorem holds_named (name key : String) : (named name).Holds key none :=
  ⟨rfl, rfl⟩

/-- Writing a field changes that field and no other. -/
theorem Holds.setHeld (h : node.Holds key held) (name : String) (written : Held) :
    (node.setHeld name written).Holds key (if name = key then some written else held) := by
  constructor
  · rw [get?_properties_setHeld, h.property]
    split <;> rfl
  · rw [get?_bindings_setHeld, h.binding]
    split <;> rfl

/-- After any writes a field holds what the last write to it gave it, or else what it held. -/
theorem Holds.writeAll (h : node.Holds key held) (writes : List Write) :
    (node.writeAll writes).Holds key ((lastHeld? writes key).or held) := by
  induction writes using List.reverseRecOn with
  | nil => exact h
  | append_singleton writes write ih =>
    have last := ih.setHeld write.key write.held
    rw [writeAll_concat, write_eq, lastHeld?_concat]
    split at last
    · next own => rwa [if_pos own, Option.some_or]
    · next other => rwa [if_neg other]

theorem Holds.mem_names (h : node.Holds key held) :
    key ∈ Fields.names node.properties ∨ key ∈ Fields.names node.bindings ↔ held.isSome := by
  rw [← Fields.has_iff, ← Fields.has_iff, Fields.has, Fields.has, h.property, h.binding]
  rcases held with _ | ⟨_ | _⟩ <;> simp [Held.literal?, Held.binding?]

/-! ## Fields stand once -/

/-- Every field of a node stands once: no key is twice among the properties, none is twice among
the bindings, and none is among both. -/
structure Single (node : Node) : Prop where
  properties : Fields.Distinct node.properties
  bindings : Fields.Distinct node.bindings
  apart : node.Apart

theorem single_named (name : String) : (named name).Single :=
  ⟨Fields.distinct_nil, Fields.distinct_nil, nofun⟩

theorem Single.setHeld (h : node.Single) (key : String) (held : Held) :
    (node.setHeld key held).Single := by
  cases held with
  | literal value =>
    exact ⟨h.properties.put key value, h.bindings.remove key, h.apart.setProperty key value⟩
  | bound binding =>
    exact ⟨h.properties.remove key, h.bindings.put key binding, h.apart.setBinding key binding⟩

theorem Single.writeAll (h : node.Single) (writes : List Write) : (node.writeAll writes).Single :=
  List.foldlRecOn (motive := Single) writes _ h fun node single write _ => by
    rw [write_eq]
    exact single.setHeld write.key write.held

/-! ## All other fields -/

def without (node : Node) (key : String) : Node :=
  { node with
    properties := Fields.remove node.properties key
    bindings := Fields.remove node.bindings key }

/-- Without the field that is written nothing is changed, and without another field the same
field is written. -/
theorem without_setHeld (node : Node) (name key : String) (held : Held) :
    (node.setHeld name held).without key =
      if name = key then node.without key else (node.without key).setHeld name held := by
  cases held with
  | literal value =>
    simp only [setHeld, setProperty, without, Fields.remove_put,
      Fields.remove_remove node.bindings name]
    split <;> rfl
  | bound binding =>
    simp only [setHeld, setBinding, without, Fields.remove_put,
      Fields.remove_remove node.properties name]
    split <;> rfl

theorem without_write (node : Node) (write : Write) (key : String) :
    (node.write write).without key =
      if write.key = key then node.without key else (node.without key).write write := by
  rw [write_eq, write_eq, without_setHeld]

/-- Without a field, a node is as if no write to that field had been. -/
theorem without_writeAll (node : Node) (writes : List Write) (key : String) :
    (node.writeAll writes).without key =
      (node.without key).writeAll (writes.filter fun write => write.key ≠ key) := by
  induction writes using List.reverseRecOn with
  | nil => rfl
  | append_singleton writes write ih =>
    rw [writeAll_concat, without_write, List.filter_append]
    by_cases own : write.key = key
    · simp [own, ih]
    · simp [own, ih, ← writeAll_concat]

/-! ## New nodes -/

/-- The fields of a new node after any writes, in any order and to any keys. A field holds what
the last write to it gave it, as a property or as a binding and never as both; a key that is
never written is in neither. One more write leaves all other fields with their values and in
their order, and so do all writes to one key together. -/
theorem fields_follow_writes (name : String) (writes : List Write) :
    (∀ key, (filled name writes).Holds key (lastHeld? writes key)) ∧
      (filled name writes).Single ∧
      (∀ key, key ∈ Fields.names (filled name writes).properties ∨
        key ∈ Fields.names (filled name writes).bindings ↔ ∃ write ∈ writes, write.key = key) ∧
      (∀ write, ((filled name writes).write write).without write.key =
        (filled name writes).without write.key) ∧
      ∀ key, (filled name writes).without key =
        filled name (writes.filter fun write => write.key ≠ key) := by
  have holds (key : String) : (filled name writes).Holds key (lastHeld? writes key) := by
    have last := (holds_named name key).writeAll writes
    rwa [Option.or_none] at last
  refine ⟨holds, (single_named name).writeAll writes, fun key => ?_, fun write => ?_, fun key => ?_⟩
  · rw [(holds key).mem_names, lastHeld?_isSome]
  · rw [without_write, if_pos rfl]
  · exact without_writeAll (named name) writes key

-- A field that is bound and then literal again has lost its place to the one behind it.
example :
    filled "Button"
      [.property "label" (.string "Go"), .found "link" (.bound "state.url"), .property "id" .null,
        .binding "label" ⟨"state.text", .property, .single⟩, .either "label" (.literal .null)] =
    { name := "Button"
      properties := [("id", .null), ("label", .null)]
      bindings := [("link", .expression "state.url")] } :=
  rfl

end Node

end BlockLoom
