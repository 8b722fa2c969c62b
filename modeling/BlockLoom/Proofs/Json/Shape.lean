import BlockLoom.Proofs.Json.Text
import Mathlib.Data.List.Forall2

/-!
Values that already have the shape they are read in. Maps are read as they are,
and so is a record whose present fields stand in the order of the record; of an
optional field only `null` is lost.
-/

namespace BlockLoom.Json

/-! ## Fields that may be absent -/

def present (entries : List (String × Option Json)) : List (String × Json) :=
  entries.flatMap fun entry => optionalMember entry.1 entry.2

theorem present_cons (key : String) (value : Option Json)
    (entries : List (String × Option Json)) :
    present ((key, value) :: entries) = optionalMember key value ++ present entries := rfl

theorem names_optionalMember (key : String) (value : Option Json) :
    Fields.names (optionalMember key value) = if value.isSome then [key] else [] := by
  cases value <;> rfl

theorem mem_names_present {entries : List (String × Option Json)} {key : String}
    (h : key ∈ Fields.names (present entries)) : key ∈ Fields.names entries := by
  induction entries with
  | nil => cases h
  | cons entry entries ih =>
    obtain ⟨name, value⟩ := entry
    rw [present_cons, Fields.names_append, List.mem_append, names_optionalMember] at h
    rcases h with h | h
    · split at h
      · exact List.mem_singleton.mp h ▸ List.mem_cons_self
      · cases h
    · exact List.mem_cons_of_mem _ (ih h)

theorem distinct_present {entries : List (String × Option Json)} (h : Fields.Distinct entries) :
    Fields.Distinct (present entries) := by
  induction entries with
  | nil => exact Fields.distinct_nil
  | cons entry entries ih =>
    obtain ⟨key, value⟩ := entry
    obtain ⟨apart, distinct⟩ := Fields.distinct_cons.mp h
    rw [present_cons, Fields.distinct_append]
    refine ⟨?_, ih distinct, ?_⟩
    · rw [Fields.Distinct, names_optionalMember]
      split <;> simp
    · intro name member others
      rw [names_optionalMember] at member
      split at member
      · cases List.mem_singleton.mp member
        exact apart (mem_names_present others)
      · cases member

theorem get?_optionalMember (key name : String) (value : Option Json) :
    Fields.get? (optionalMember key value) name = if key = name then value else none := by
  cases value with
  | none => simp [optionalMember]
  | some value => rfl

theorem get?_present {entries : List (String × Option Json)} (h : Fields.Distinct entries)
    (key : String) : Fields.get? (present entries) key = (Fields.get? entries key).join := by
  induction entries with
  | nil => rfl
  | cons entry entries ih =>
    obtain ⟨name, value⟩ := entry
    obtain ⟨apart, distinct⟩ := Fields.distinct_cons.mp h
    rw [present_cons, Fields.get?_append, get?_optionalMember, ih distinct, Fields.get?_cons]
    split
    · next heq =>
      rw [Fields.get?_eq_none_iff.mpr (heq ▸ apart)]
      simp
    · rfl

theorem haveSettled_optionalMember {key : String} {value : Option Json}
    (h : ∀ read, value = some read → read.isSettled = true) :
    haveSettled (optionalMember key value) = true := by
  cases value with
  | none => rfl
  | some read =>
    rw [optionalMember, haveSettled, h read rfl]
    rfl

theorem haveSettled_present {entries : List (String × Option Json)}
    (h : ∀ entry ∈ entries, ∀ read, entry.2 = some read → read.isSettled = true) :
    haveSettled (present entries) = true := by
  induction entries with
  | nil => rfl
  | cons entry entries ih =>
    obtain ⟨key, value⟩ := entry
    rw [present_cons, haveSettled_append,
      haveSettled_optionalMember (h (key, value) List.mem_cons_self),
      ih fun other member => h other (List.mem_cons_of_mem _ member)]
    rfl

/-! ## Records -/

/-- The field of a record under a name; an open record has one under every name. -/
def Record.fieldAt? (record : Record) (key : String) : Option Field :=
  (record.field? key).or (if record.isOpen then some ⟨key, .any, .defaulted⟩ else none)

/-- An object is read as a record by reading its members. -/
theorem Shape.fit_object (schema : Schema) (name : String) (members : List (String × Json)) :
    (Shape.record name).fit schema (.object members) =
      match fitMembers schema (schema.record name).fieldAt? members with
      | .error problem => .error problem
      | .ok read =>
        match (schema.record name).missing? (Fields.names members) with
        | some name => .error (.missingField name)
        | none => .ok ((schema.record name).normal (Fields.ofEntries read)) := by
  rw [Shape.fit]
  rfl

theorem Shape.fit_record {schema : Schema} {name : String} {members read : List (String × Json)}
    (fits : fitMembers schema (schema.record name).fieldAt? members = .ok read)
    (complete : (schema.record name).missing? (Fields.names members) = none)
    (distinct : Fields.Distinct read) :
    (Shape.record name).fit schema (.object members) = .ok ((schema.record name).normal read) := by
  rw [Shape.fit_object, fits]
  simp only [complete, Fields.ofEntries_of_distinct distinct]

theorem filterMap_eq_present (record : Record) (read : List (String × Json)) :
    record.fields.filterMap (fun field =>
      (Fields.get? read field.name).map fun value => (field.name, value)) =
      present (record.fields.map fun field => (field.name, Fields.get? read field.name)) := by
  induction record.fields with
  | nil => rfl
  | cons field fields ih =>
    rw [List.filterMap_cons, List.map_cons, present_cons, ← ih]
    cases Fields.get? read field.name <;> rfl

/-- Fields that stand in the order of their record are kept as they are. -/
theorem Record.normal_present {record : Record} {entries : List (String × Option Json)}
    (isClosed : record.isOpen = false) (order : record.fields.map Field.name = Fields.names entries)
    (distinct : Fields.Distinct entries) :
    record.normal (present entries) = .object (present entries) := by
  have values : record.fields.map (fun field =>
      (field.name, Fields.get? (present entries) field.name)) = entries := by
    have byName : record.fields.map (fun field =>
        (field.name, Fields.get? (present entries) field.name)) =
        (Fields.names entries).map fun key => (key, Fields.get? (present entries) key) := by
      rw [← order, List.map_map]
      rfl
    rw [byName, Fields.names, List.map_map]
    conv_rhs => rw [← List.map_id entries]
    apply List.map_congr_left
    intro entry member
    have found : Fields.get? entries entry.1 = some entry.2 :=
      (Fields.get?_eq_some_iff distinct).mpr member
    simp only [Function.comp_apply, get?_present distinct, found, Option.join_some, id_eq]
  rw [Record.normal, filterMap_eq_present, values, isClosed]
  rfl

/-! ## Members -/

/-- How a field of a record is read: not at all, not because it is `null`, or in
its shape. -/
inductive FitsField (schema : Schema) (field : String → Option Field) :
    String × Option Json → String × Option Json → Prop where
  | absent (key : String) : FitsField schema field (key, none) (key, none)
  | null {key : String} {found : Field} (known : field key = some found)
      (optional : found.presence = .optional) : FitsField schema field (key, some .null) (key, none)
  | given {key : String} {found : Field} {value read : Json} (known : field key = some found)
      (kept : (found.presence = .optional && value.isNull) = false)
      (fits : found.shape.fit schema value = .ok read) :
      FitsField schema field (key, some value) (key, some read)

variable {schema : Schema} {field : String → Option Field}

theorem fitMembers_cons {key : String} {value read : Json} {found : Field}
    {members others : List (String × Json)} (known : field key = some found)
    (kept : (found.presence = .optional && value.isNull) = false)
    (fits : found.shape.fit schema value = .ok read)
    (rest : fitMembers schema field members = .ok others) :
    fitMembers schema field ((key, value) :: members) = .ok ((key, read) :: others) := by
  rw [fitMembers, known]
  simp only [kept, fits, rest, Bool.false_eq_true, if_false]

theorem fitMembers_present {entries kept : List (String × Option Json)}
    (h : List.Forall₂ (FitsField schema field) entries kept) :
    fitMembers schema field (present entries) = .ok (present kept) := by
  induction h with
  | nil => rfl
  | @cons entry result entries kept first _ ih =>
    cases first with
    | absent key => exact ih
    | @null key found known optional =>
      rw [present_cons, present_cons]
      change fitMembers schema field ((key, .null) :: present entries) = .ok (present kept)
      rw [fitMembers, known]
      simp only [optional, isNull, decide_true, Bool.and_self, if_true, ih]
    | given known kept fits => exact fitMembers_cons known kept fits ih

/-- A record whose fields stand in its order is read field by field. -/
theorem Shape.fit_record_present {name : String} {entries kept : List (String × Option Json)}
    (isClosed : (schema.record name).isOpen = false)
    (fits : List.Forall₂ (FitsField schema (schema.record name).fieldAt?) entries kept)
    (complete : (schema.record name).missing? (Fields.names (present entries)) = none)
    (order : (schema.record name).fields.map Field.name = Fields.names kept)
    (apart : ((schema.record name).fields.map Field.name).Nodup) :
    (Shape.record name).fit schema (.object (present entries)) = .ok (.object (present kept)) := by
  have distinct : Fields.Distinct kept := by
    rw [Fields.Distinct, ← order]
    exact apart
  rw [Shape.fit_record (fitMembers_present fits) complete (distinct_present distinct),
    Record.normal_present isClosed order distinct]

/-- Every member that is looked at has been read in its shape. -/
theorem fits_of_fitMembers {members read : List (String × Json)}
    (h : fitMembers schema field members = .ok read) {entry : String × Json}
    (member : entry ∈ members) {found : Field} (known : field entry.1 = some found)
    (kept : (found.presence = .optional && entry.2.isNull) = false) :
    ∃ value, found.shape.fit schema entry.2 = .ok value := by
  induction members generalizing read with
  | nil => cases member
  | cons first members ih =>
    obtain ⟨key, value⟩ := first
    rw [fitMembers] at h
    rcases List.mem_cons.mp member with rfl | member
    · rw [known] at h
      simp only [kept, Bool.false_eq_true, if_false] at h
      split at h
      · cases h
      · next result fits => exact ⟨result, fits⟩
    · split at h
      · exact ih h member
      · split at h
        · exact ih h member
        · split at h
          · cases h
          · split at h
            · cases h
            · next rest => exact ih rest member

/-- Members can be read if every one that is looked at fits its shape. -/
theorem fitMembers_of_fits {members : List (String × Json)}
    (h : ∀ entry ∈ members, ∀ found, field entry.1 = some found →
      (found.presence = .optional && entry.2.isNull) = false →
      ∃ value, found.shape.fit schema entry.2 = .ok value) :
    ∃ read, fitMembers schema field members = .ok read := by
  induction members with
  | nil => exact ⟨[], rfl⟩
  | cons first members ih =>
    obtain ⟨key, value⟩ := first
    obtain ⟨read, rest⟩ := ih fun entry member => h entry (List.mem_cons_of_mem _ member)
    rw [fitMembers]
    cases known : field key with
    | none => exact ⟨read, rest⟩
    | some found =>
      cases kept : found.presence = .optional && value.isNull with
      | true => exact ⟨read, by simp only [kept, if_true, rest]⟩
      | false =>
        obtain ⟨result, fits⟩ := h (key, value) List.mem_cons_self found known kept
        exact ⟨(key, result) :: read,
          by simp only [kept, fits, rest, Bool.false_eq_true, if_false]⟩

theorem fitItems_of_fits {shape : Shape} {items : List Json}
    (h : ∀ item ∈ items, ∃ value, shape.fit schema item = .ok value) :
    ∃ read, fitItems schema shape items = .ok read := by
  induction items with
  | nil => exact ⟨[], rfl⟩
  | cons item items ih =>
    obtain ⟨first, fits⟩ := h item List.mem_cons_self
    obtain ⟨read, rest⟩ := ih fun other member => h other (List.mem_cons_of_mem _ member)
    exact ⟨first :: read, by simp only [fitItems, fits, rest]⟩

theorem fits_of_fitItems {shape : Shape} {items read : List Json}
    (h : fitItems schema shape items = .ok read) {item : Json} (member : item ∈ items) :
    ∃ value, shape.fit schema item = .ok value := by
  induction items generalizing read with
  | nil => cases member
  | cons first items ih =>
    rw [fitItems] at h
    split at h
    · cases h
    · next value fits =>
      split at h
      · cases h
      · next rest =>
        rcases List.mem_cons.mp member with rfl | member
        · exact ⟨value, fits⟩
        · exact ih rest member

/-! ## Maps and lists -/

/-- Members that fit as they are are read as they are. -/
theorem fitMembers_self {members : List (String × Json)}
    (h : ∀ entry ∈ members, ∃ found, field entry.1 = some found ∧
      (found.presence = .optional && entry.2.isNull) = false ∧
      found.shape.fit schema entry.2 = .ok entry.2) :
    fitMembers schema field members = .ok members := by
  induction members with
  | nil => rfl
  | cons entry members ih =>
    obtain ⟨found, known, kept, fits⟩ := h entry List.mem_cons_self
    exact fitMembers_cons known kept fits
      (ih fun other member => h other (List.mem_cons_of_mem _ member))

theorem fitMembers_append {members others read result : List (String × Json)}
    (first : fitMembers schema field members = .ok read)
    (second : fitMembers schema field others = .ok result) :
    fitMembers schema field (members ++ others) = .ok (read ++ result) := by
  induction members generalizing read with
  | nil =>
    rw [fitMembers] at first
    cases first
    exact second
  | cons entry members ih =>
    obtain ⟨key, value⟩ := entry
    rw [fitMembers] at first
    rw [List.cons_append, fitMembers]
    split at first
    · exact ih first
    · split at first
      · next null =>
        rw [if_pos null]
        exact ih first
      · next given =>
        rw [if_neg given]
        split at first
        · cases first
        · next fits =>
          split at first
          · cases first
          · next rest =>
            cases first
            rw [ih rest]
            rfl

theorem Shape.fit_map {shape : Shape} {members : List (String × Json)}
    (distinct : Fields.Distinct members)
    (h : ∀ entry ∈ members, shape.fit schema entry.2 = .ok entry.2) :
    (Shape.map shape).fit schema (.object members) = .ok (.object members) := by
  rw [Shape.fit, fitMembers_self fun entry member => ⟨_, rfl, rfl, h entry member⟩]
  simp only [Fields.ofEntries_of_distinct distinct]

theorem Shape.fit_any (value : Json) : Shape.any.fit schema value = .ok value := by
  rw [Shape.fit]

theorem Shape.fit_string (text : String) :
    Shape.string.fit schema (.string text) = .ok (.string text) := by
  rw [Shape.fit]

theorem Shape.fit_map_any {members : List (String × Json)} (distinct : Fields.Distinct members) :
    (Shape.map .any).fit schema (.object members) = .ok (.object members) :=
  Shape.fit_map distinct fun entry _ => Shape.fit_any entry.2

theorem Shape.fit_list {shape : Shape} {items read : List Json}
    (h : fitItems schema shape items = .ok read) :
    (Shape.list shape).fit schema (.array items) = .ok (.array read) := by
  rw [Shape.fit, h]

end BlockLoom.Json
