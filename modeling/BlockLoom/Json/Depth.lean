import BlockLoom.Json.Shape

/-!
How deeply lists and objects are nested in a value. Reading a value in some shape
never makes it deeper, so a recursion that reads parts of a value and goes on
with what it read comes to an end.
-/

namespace BlockLoom.Json

mutual

/-- The greatest number of containers around a part of a value. -/
def depth : Json → Nat
  | .array items => depthItems items
  | .object members => depthMembers members
  | _ => 0

def depthItems : List Json → Nat
  | [] => 0
  | item :: items => max (depth item + 1) (depthItems items)

def depthMembers : List (String × Json) → Nat
  | [] => 0
  | (_, value) :: members => max (depth value + 1) (depthMembers members)

end

theorem depth_lt_depthItems {item : Json} {items : List Json} (h : item ∈ items) :
    depth item < depthItems items := by
  induction items with
  | nil => cases h
  | cons head tail ih =>
    rw [depthItems]
    rcases List.mem_cons.mp h with rfl | h
    · omega
    · have := ih h; omega

theorem depthItems_le {items : List Json} {bound : Nat}
    (h : ∀ item ∈ items, depth item < bound) : depthItems items ≤ bound := by
  induction items with
  | nil => exact Nat.zero_le _
  | cons head tail ih =>
    rw [depthItems]
    have := h head List.mem_cons_self
    have := ih fun item hm => h item (List.mem_cons_of_mem _ hm)
    omega

theorem depth_lt_depthMembers {entry : String × Json} {members : List (String × Json)}
    (h : entry ∈ members) : depth entry.2 < depthMembers members := by
  induction members with
  | nil => cases h
  | cons head tail ih =>
    rw [depthMembers]
    rcases List.mem_cons.mp h with rfl | h
    · omega
    · have := ih h; omega

theorem depthMembers_le {members : List (String × Json)} {bound : Nat}
    (h : ∀ entry ∈ members, depth entry.2 < bound) : depthMembers members ≤ bound := by
  induction members with
  | nil => exact Nat.zero_le _
  | cons head tail ih =>
    rw [depthMembers]
    have := h head List.mem_cons_self
    have := ih fun entry hm => h entry (List.mem_cons_of_mem _ hm)
    omega

end Json

/-! ## Entries of maps -/

theorem Fields.mem_of_get? {α : Type} {fields : Fields α} {key : String} {value : α}
    (h : Fields.get? fields key = some value) : (key, value) ∈ fields := by
  induction fields with
  | nil => cases h
  | cons head tail ih =>
    obtain ⟨name, first⟩ := head
    rw [Fields.get?] at h
    split at h
    · next heq => cases h; exact heq ▸ List.mem_cons_self
    · exact List.mem_cons_of_mem _ (ih h)

theorem Fields.mem_put {α : Type} {fields : Fields α} {key : String} {value : α}
    {entry : String × α} (h : entry ∈ Fields.put fields key value) :
    entry = (key, value) ∨ entry ∈ fields := by
  induction fields with
  | nil => exact Or.inl (List.mem_singleton.mp h)
  | cons head tail ih =>
    obtain ⟨name, first⟩ := head
    rw [Fields.put] at h
    split at h
    · next heq =>
      rcases List.mem_cons.mp h with rfl | h
      · exact Or.inl (by rw [heq])
      · exact Or.inr (List.mem_cons_of_mem _ h)
    · rcases List.mem_cons.mp h with rfl | h
      · exact Or.inr List.mem_cons_self
      · exact (ih h).imp id (List.mem_cons_of_mem _)

theorem Fields.mem_merge {α : Type} {fields later : Fields α} {entry : String × α}
    (h : entry ∈ Fields.merge fields later) : entry ∈ fields ∨ entry ∈ later := by
  induction later generalizing fields with
  | nil => exact Or.inl h
  | cons head tail ih =>
    rcases ih (h : entry ∈ Fields.merge (Fields.put fields head.1 head.2) tail) with h | h
    · rcases Fields.mem_put h with h | h
      · exact Or.inr (h ▸ List.mem_cons_self)
      · exact Or.inl h
    · exact Or.inr (List.mem_cons_of_mem _ h)

theorem Fields.mem_ofEntries {α : Type} {entries : List (String × α)} {entry : String × α}
    (h : entry ∈ Fields.ofEntries entries) : entry ∈ entries :=
  (Fields.mem_merge h).resolve_left (by simp)

namespace Json

/-! ## Reading keeps the depth -/

theorem depth_get? {value found : Json} {key : String} (h : value.get? key = some found) :
    depth found < depth value := by
  cases value with
  | object members => exact depth_lt_depthMembers (Fields.mem_of_get? h)
  | _ => cases h

theorem depthMembers_membersAt (value : Json) (key : String) :
    depthMembers (value.membersAt key) ≤ depth value := by
  rw [membersAt]
  cases h : value.get? key with
  | none => exact Nat.zero_le _
  | some found =>
    have := depth_get? h
    cases found with
    | object members => exact Nat.le_of_lt this
    | _ => exact Nat.zero_le _

/-- The normal form of a record holds nothing but members that were read. -/
theorem Record.depth_normal {record : Record} {read : List (String × Json)} {bound : Nat}
    (h : ∀ entry ∈ read, depth entry.2 < bound) : depth (record.normal read) ≤ bound := by
  rw [Record.normal, depth]
  apply depthMembers_le
  intro entry hm
  have known : ∀ entry ∈ (record.fields.filterMap fun field =>
      (Fields.get? read field.name).map fun value => (field.name, value)),
      depth entry.2 < bound := by
    intro entry hm
    obtain ⟨field, _, hfield⟩ := List.mem_filterMap.mp hm
    cases hget : Fields.get? read field.name with
    | none => rw [hget] at hfield; cases hfield
    | some value =>
      rw [hget] at hfield
      cases hfield
      exact h _ (Fields.mem_of_get? hget)
  split at hm
  · rcases List.mem_append.mp hm with hm | hm
    · exact known entry hm
    · exact h entry (List.mem_filter.mp hm).1
  · exact known entry hm

mutual

/-- A value that is read in some shape does not become deeper. -/
theorem Shape.depth_fit (schema : Schema) (shape : Shape) (value result : Json)
    (h : shape.fit schema value = .ok result) : depth result ≤ depth value := by
  match shape, value with
  | .any, value => rw [Shape.fit] at h; cases h; exact Nat.le_refl _
  | .string, .string text => rw [Shape.fit] at h; cases h; exact Nat.le_refl _
  | .choice _ options, .string text =>
    rw [Shape.fit] at h
    split at h
    · cases h; exact Nat.le_refl _
    · cases h
  | .list item, .array items =>
    rw [Shape.fit] at h
    split at h
    · next read hread =>
      cases h
      exact depthItems_le (depth_fitItems schema item items read hread)
    · cases h
  | .map shape, .object members =>
    rw [Shape.fit] at h
    split at h
    · next read hread =>
      cases h
      exact depthMembers_le fun entry hm =>
        depth_fitMembers schema _ members read hread entry (Fields.mem_ofEntries hm)
    · cases h
  | .record name, .object members =>
    rw [Shape.fit] at h
    split at h
    · cases h
    · next read hread =>
      split at h
      · cases h
      · cases h
        exact Record.depth_normal fun entry hm =>
          depth_fitMembers schema _ members read hread entry (Fields.mem_ofEntries hm)
  | .record name, .array items =>
    rw [Shape.fit] at h
    split at h
    · cases h
    · split at h
      · cases h
      · next read hread =>
        split at h
        · cases h
        · cases h
          exact Record.depth_normal (depth_fitFields schema _ 0 _ items read hread)
  | .string, .null | .string, .bool _ | .string, .number _ | .string, .array _ | .string, .object _
  | .choice .., .null | .choice .., .bool _ | .choice .., .number _ | .choice .., .array _
  | .choice .., .object _ | .list _, .null | .list _, .bool _ | .list _, .number _
  | .list _, .string _ | .list _, .object _ | .map _, .null | .map _, .bool _ | .map _, .number _
  | .map _, .string _ | .map _, .array _ | .record _, .null | .record _, .bool _
  | .record _, .number _ | .record _, .string _ => simp [Shape.fit] at h
termination_by sizeOf value

theorem depth_fitItems (schema : Schema) (shape : Shape) (items read : List Json)
    (h : fitItems schema shape items = .ok read) :
    ∀ item ∈ read, depth item < depthItems items := by
  match items with
  | [] => rw [fitItems] at h; cases h; simp
  | item :: items =>
    rw [fitItems] at h
    split at h
    · cases h
    · next first hfirst =>
      split at h
      · cases h
      · next rest hrest =>
        cases h
        intro found hm
        rw [depthItems]
        rcases List.mem_cons.mp hm with rfl | hm
        · have := Shape.depth_fit schema shape item found hfirst; omega
        · have := depth_fitItems schema shape items rest hrest found hm; omega
termination_by sizeOf items

theorem depth_fitMembers (schema : Schema) (field : String → Option Field)
    (members read : List (String × Json)) (h : fitMembers schema field members = .ok read) :
    ∀ entry ∈ read, depth entry.2 < depthMembers members := by
  match members with
  | [] => rw [fitMembers] at h; cases h; simp
  | (key, value) :: members =>
    rw [fitMembers] at h
    intro entry hm
    rw [depthMembers]
    split at h
    · have := depth_fitMembers schema field members read h entry hm; omega
    · next found _ =>
      split at h
      · have := depth_fitMembers schema field members read h entry hm; omega
      · split at h
        · cases h
        · next first hfirst =>
          split at h
          · cases h
          · next rest hrest =>
            cases h
            rcases List.mem_cons.mp hm with rfl | hm
            · have := Shape.depth_fit schema found.shape value first hfirst; dsimp only; omega
            · have := depth_fitMembers schema field members rest hrest entry hm; omega
termination_by sizeOf members

theorem depth_fitFields (schema : Schema) (record : Record) (position : Nat)
    (fields : List Field) (items : List Json) (read : List (String × Json))
    (h : fitFields schema record position fields items = .ok read) :
    ∀ entry ∈ read, depth entry.2 < depthItems items := by
  match fields, items with
  | [], items => simp [fitFields] at h; subst h; simp
  | field :: fields, [] =>
    rw [fitFields] at h
    split at h
    · cases h
    · cases h; simp
  | field :: fields, item :: items =>
    rw [fitFields] at h
    intro entry hm
    rw [depthItems]
    split at h
    · have := depth_fitFields schema record (position + 1) fields items read h entry hm; omega
    · split at h
      · cases h
      · next first hfirst =>
        split at h
        · cases h
        · next rest hrest =>
          cases h
          rcases List.mem_cons.mp hm with rfl | hm
          · have := Shape.depth_fit schema field.shape item first hfirst; dsimp only; omega
          · have := depth_fitFields schema record (position + 1) fields items rest hrest entry hm
            omega
termination_by sizeOf items

end

end BlockLoom.Json
