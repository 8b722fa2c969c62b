import BlockLoom.Proofs.Json.Settled
import BlockLoom.Proofs.Json.Shape

/-!
What is known of data that a reader returns. Of the members of a text that have one key the
last one counts, so free data are settled as soon as they have been read, and the normal form
of settled data in a shape is settled again. Every field of a record was read in its shape.
-/

namespace BlockLoom.Json

/-! ## Text -/

/-- What it means for a reader to return nothing that repeats a member. -/
def ReturnsSettled (read : List Char → Reading Json) : Prop :=
  ∀ {text value rest}, read text = .ok (value, rest) → value.isSettled = true

theorem Reading.map_eq_ok {α β : Type} {convert : α → β} {reading : Reading α} {value : β}
    {rest : List Char} (h : reading.map convert = .ok (value, rest)) :
    ∃ source, reading = .ok (source, rest) ∧ convert source = value := by
  match reading, h with
  | .ok (source, _), rfl => exact ⟨source, rfl, rfl⟩

theorem close_eq_ok {α : Type} {closing : List Char → Except Fault (List Char) × List Char}
    {outcome : Outcome α} {value : α} {rest : List Char}
    (h : close closing outcome = .ok (value, rest)) : ∃ text, outcome = .ok (value, text) := by
  match outcome with
  | .ok (found, text) =>
    rw [close] at h
    split at h
    · cases h; exact ⟨text, rfl⟩
    · cases h
  | .error (.placed _) | .error (.unplaced ..) => cases h

variable {read : List Char → Reading Json}

theorem ReturnsSettled.readItems (settles : ReturnsSettled read) {fuel : Nat} {first : Bool}
    {text rest : List Char} {items : List Json}
    (h : readItems read fuel first text = .ok (items, rest)) : areSettled items = true := by
  induction fuel generalizing first text items with
  | zero => cases h
  | succ fuel ih =>
    rw [Json.readItems] at h
    split at h
    · cases h
    · cases h; rfl
    · split at h
      · cases h
      · next value behind found =>
        split at h
        · next values _ others =>
          cases h
          rw [areSettled, settles found, ih others]
          rfl
        · cases h

theorem ReturnsSettled.readMembers (settles : ReturnsSettled read) {fuel : Nat} {first : Bool}
    {text rest : List Char} {members : List (String × Json)}
    (h : readMembers read fuel first text = .ok (members, rest)) :
    haveSettled members = true := by
  induction fuel generalizing first text members with
  | zero => cases h
  | succ fuel ih =>
    rw [Json.readMembers] at h
    split at h
    · cases h
    · cases h; rfl
    · next key behind _ =>
      split at h
      · cases h
      · next value behind found =>
        split at h
        · next others _ rest =>
          cases h
          rw [readMember] at found
          split at found
          · rw [haveSettled, settles found, ih rest]; rfl
          · cases found
        · cases h

/-- Free data repeat no member if what lies deeper repeats none. -/
theorem returnsSettled_readAny {deeper : Option (List Char → Reading Json)}
    (inside : ∀ read, deeper = some read → ReturnsSettled read) :
    ReturnsSettled (readAny deeper) := by
  intro text value rest h
  rw [readAny.eq_def] at h
  dsimp only at h
  split at h
  · cases h
  iterate 3
    · split at h
      · cases h; rfl
      · cases h
  iterate 2
    · obtain ⟨source, -, rfl⟩ := Reading.map_eq_ok h
      rfl
  · split at h
    · cases h
    · next read =>
      obtain ⟨items, closed, rfl⟩ := Reading.map_eq_ok h
      obtain ⟨_, found⟩ := close_eq_ok closed
      exact ReturnsSettled.readItems (inside read rfl) found
  · split at h
    · cases h
    · next read =>
      obtain ⟨members, closed, rfl⟩ := Reading.map_eq_ok h
      obtain ⟨_, found⟩ := close_eq_ok closed
      exact isSettled_ofEntries (ReturnsSettled.readMembers (inside read rfl) found)
  · split at h
    · obtain ⟨source, -, rfl⟩ := Reading.map_eq_ok h
      rfl
    · cases h

theorem returnsSettled_readWith_any (schema : Schema)
    {deeper : Option (Shape → List Char → Reading Json)}
    (inside : ∀ read, deeper = some read → ReturnsSettled (read .any)) :
    ReturnsSettled (Shape.readWith schema deeper .any) := by
  intro text value rest h
  rw [Shape.readWith] at h
  split at h
  · cases h
  · refine returnsSettled_readAny (fun read found => ?_) h
    obtain ⟨outer, given, rfl⟩ := Option.map_eq_some_iff.mp found
    exact inside outer given

theorem returnsSettled_read_any (schema : Schema) (limit : Nat) :
    ReturnsSettled (Shape.any.read schema limit) := by
  induction limit with
  | zero => exact returnsSettled_readWith_any schema (by rintro _ ⟨⟩)
  | succ limit ih =>
    refine returnsSettled_readWith_any schema fun read found => ?_
    cases found
    exact ih

/-- The value of a text repeats no member. -/
theorem isSettled_parse {source : String} {value : Json} (h : parse source = .ok value) :
    value.isSettled = true := by
  rw [parse, Shape.parse] at h
  split at h
  · cases h
  · next found rest read =>
    split at h
    · cases h; exact returnsSettled_read_any [] maxDepth read
    · cases h

/-! ## Shapes -/

/-- What it means for the fields of each record to have names of their own. -/
def Schema.Apart (schema : Schema) : Prop :=
  ∀ name, ((schema.record name).fields.map Field.name).Nodup

theorem Record.isSettled_normal {record : Record} {read : Fields Json}
    (apart : (record.fields.map Field.name).Nodup)
    (settled : (Json.object read).isSettled = true) : (record.normal read).isSettled = true := by
  have known : (Json.object (record.fields.filterMap fun field =>
      (Fields.get? read field.name).map fun value => (field.name, value))).isSettled = true := by
    rw [filterMap_eq_present, isSettled_object]
    have names : Fields.names (record.fields.map fun field =>
        (field.name, Fields.get? read field.name)) = record.fields.map Field.name := by
      simp [Fields.names, List.map_map, Function.comp_def]
    refine ⟨distinct_present (by rwa [Fields.Distinct, names]),
      haveSettled_present fun entry member value found => ?_⟩
    obtain ⟨field, -, rfl⟩ := List.mem_map.mp member
    exact isSettled_found settled found
  rw [normal]
  split
  · rw [isSettled_object] at known ⊢
    have others := isSettled_object.mp (isSettled_filter settled
      fun entry => (record.field? entry.1).isNone)
    refine ⟨Fields.distinct_append.mpr ⟨known.1, others.1, fun key listed among => ?_⟩,
      by rw [haveSettled_append, known.2, others.2]; rfl⟩
    -- a key of the other members is none of the fields
    obtain ⟨value, member⟩ := Fields.mem_names.mp listed
    obtain ⟨field, here, found⟩ := List.mem_filterMap.mp member
    obtain ⟨_, _, pair⟩ := Option.map_eq_some_iff.mp found
    cases pair
    obtain ⟨_, outside⟩ := Fields.mem_names.mp among
    have absent := (List.mem_filter.mp outside).2
    rw [Record.field?, Option.isNone_iff_eq_none, List.find?_eq_none] at absent
    exact absent field here (beq_self_eq_true _)
  · exact known

section fit

variable {schema : Schema}

mutual

/-- Data that repeat no member repeat none in any shape: a record keeps at most one member for each
of its fields, and an open record keeps the further ones as they are. -/
theorem Shape.isSettled_fit (apart : schema.Apart) (shape : Shape) (value : Json) {result : Json}
    (h : shape.fit schema value = .ok result) (settled : value.isSettled = true) :
    result.isSettled = true := by
  match shape, value with
  | .any, value => rw [Shape.fit] at h; cases h; exact settled
  | .string, .string text => rw [Shape.fit] at h; cases h; rfl
  | .choice _ options, .string text =>
    rw [Shape.fit] at h
    split at h
    · cases h; rfl
    · cases h
  | .list item, .array items =>
    rw [Shape.fit] at h
    split at h
    · next read found => cases h; exact areSettled_fitItems apart item items found settled
    · cases h
  | .map shape, .object members =>
    rw [Shape.fit] at h
    split at h
    · next read found =>
      cases h
      exact isSettled_ofEntries
        (haveSettled_fitMembers apart _ members found (isSettled_object.mp settled).2)
    · cases h
  | .record name, .object members =>
    rw [Shape.fit] at h
    split at h
    · cases h
    · next read found =>
      split at h
      · cases h
      · cases h
        exact Record.isSettled_normal (apart name) (isSettled_ofEntries
          (haveSettled_fitMembers apart _ members found (isSettled_object.mp settled).2))
  | .record name, .array items =>
    rw [Shape.fit] at h
    split at h
    · cases h
    · split at h
      · cases h
      · next read found =>
        split at h
        · cases h
        · cases h
          obtain ⟨names, values⟩ := settled_fitFields apart _ 0 _ items found settled
          exact Record.isSettled_normal (apart name)
            (isSettled_object.mpr ⟨names.nodup (apart name), values⟩)
  | .string, .null | .string, .bool _ | .string, .number _ | .string, .array _ | .string, .object _
  | .choice .., .null | .choice .., .bool _ | .choice .., .number _ | .choice .., .array _
  | .choice .., .object _ | .list _, .null | .list _, .bool _ | .list _, .number _
  | .list _, .string _ | .list _, .object _ | .map _, .null | .map _, .bool _ | .map _, .number _
  | .map _, .string _ | .map _, .array _ | .record _, .null | .record _, .bool _
  | .record _, .number _ | .record _, .string _ => simp [Shape.fit] at h
termination_by sizeOf value

theorem areSettled_fitItems (apart : schema.Apart) (shape : Shape) (items : List Json)
    {read : List Json} (h : fitItems schema shape items = .ok read)
    (settled : areSettled items = true) : areSettled read = true := by
  match items with
  | [] => rw [fitItems] at h; cases h; rfl
  | item :: items =>
    rw [areSettled, Bool.and_eq_true] at settled
    rw [fitItems] at h
    split at h
    · cases h
    · next first found =>
      split at h
      · cases h
      · next rest others =>
        cases h
        rw [areSettled, Shape.isSettled_fit apart shape item found settled.1,
          areSettled_fitItems apart shape items others settled.2]
        rfl
termination_by sizeOf items

theorem haveSettled_fitMembers (apart : schema.Apart) (field : String → Option Field)
    (members : List (String × Json)) {read : List (String × Json)}
    (h : fitMembers schema field members = .ok read) (settled : haveSettled members = true) :
    haveSettled read = true := by
  match members with
  | [] => rw [fitMembers] at h; cases h; rfl
  | (key, value) :: members =>
    rw [haveSettled, Bool.and_eq_true] at settled
    rw [fitMembers] at h
    split at h
    · exact haveSettled_fitMembers apart field members h settled.2
    · next found _ =>
      split at h
      · exact haveSettled_fitMembers apart field members h settled.2
      · split at h
        · cases h
        · next first fits =>
          split at h
          · cases h
          · next rest others =>
            cases h
            rw [haveSettled, Shape.isSettled_fit apart found.shape value fits settled.1,
              haveSettled_fitMembers apart field members others settled.2]
            rfl
termination_by sizeOf members

theorem settled_fitFields (apart : schema.Apart) (record : Record) (position : Nat)
    (fields : List Field) (items : List Json) {read : List (String × Json)}
    (h : fitFields schema record position fields items = .ok read)
    (settled : areSettled items = true) :
    (Fields.names read).Sublist (fields.map Field.name) ∧ haveSettled read = true := by
  match fields, items with
  | [], items => rw [fitFields] at h; cases h; exact ⟨List.Sublist.refl _, rfl⟩
  | field :: fields, [] =>
    rw [fitFields] at h
    split at h
    · cases h
    · cases h; exact ⟨List.nil_sublist _, rfl⟩
  | field :: fields, item :: items =>
    rw [areSettled, Bool.and_eq_true] at settled
    rw [fitFields] at h
    split at h
    · have rest := settled_fitFields apart record (position + 1) fields items h settled.2
      exact ⟨rest.1.cons _, rest.2⟩
    · split at h
      · cases h
      · next first fits =>
        split at h
        · cases h
        · next rest others =>
          cases h
          have rest := settled_fitFields apart record (position + 1) fields items others settled.2
          refine ⟨rest.1.cons_cons _, ?_⟩
          rw [haveSettled, Shape.isSettled_fit apart field.shape item fits settled.1, rest.2]
          rfl
termination_by sizeOf items

end

end fit

/-! ## Fields of records -/

section record

variable {schema : Schema} {record : Record} {entry : String × Json}

def Record.Reads (schema : Schema) (fields : List Field) (entry : String × Json) : Prop :=
  ∃ field ∈ fields, field.name = entry.1 ∧
    ∃ source, (field.presence = .optional && source.isNull) = false ∧
      field.shape.fit schema source = .ok entry.2

theorem reads_of_fitMembers (listed : (record.field? entry.1).isSome = true)
    {members read : List (String × Json)}
    (h : fitMembers schema record.fieldAt? members = .ok read) (member : entry ∈ read) :
    Record.Reads schema record.fields entry := by
  induction members generalizing read with
  | nil => rw [fitMembers] at h; cases h; cases member
  | cons first members ih =>
    obtain ⟨key, value⟩ := first
    rw [fitMembers] at h
    split at h
    · exact ih h member
    · next field known =>
      split at h
      · exact ih h member
      · next kept =>
        split at h
        · cases h
        · next first fits =>
          split at h
          · cases h
          · next rest others =>
            cases h
            rcases List.mem_cons.mp member with rfl | member
            · rw [Record.fieldAt?, Option.or_of_isSome listed, Record.field?] at known
              have named := List.find?_some known
              exact ⟨field, List.mem_of_find?_eq_some known, eq_of_beq named, value,
                Bool.eq_false_iff.mpr kept, fits⟩
            · exact ih others member

theorem reads_of_fitFields {position : Nat} {fields : List Field} {items : List Json}
    {read : List (String × Json)} (h : fitFields schema record position fields items = .ok read)
    (member : entry ∈ read) : Record.Reads schema fields entry := by
  induction fields generalizing position items read with
  | nil => rw [fitFields] at h; cases h; cases member
  | cons field fields ih =>
    match items with
    | [] =>
      rw [fitFields] at h
      split at h
      · cases h
      · cases h; cases member
    | item :: items =>
      rw [fitFields] at h
      split at h
      · obtain ⟨found, listed, rest⟩ := ih h member
        exact ⟨found, List.mem_cons_of_mem _ listed, rest⟩
      · next kept =>
        split at h
        · cases h
        · next first fits =>
          split at h
          · cases h
          · next rest others =>
            cases h
            rcases List.mem_cons.mp member with rfl | member
            · exact ⟨field, List.mem_cons_self, rfl, item, Bool.eq_false_iff.mpr kept, fits⟩
            · obtain ⟨found, listed, rest⟩ := ih others member
              exact ⟨found, List.mem_cons_of_mem _ listed, rest⟩

theorem Shape.exists_read {name : String} {value result : Json}
    (h : (Shape.record name).fit schema value = .ok result) :
    ∃ read : Fields Json, result = (schema.record name).normal read ∧
      ∀ entry ∈ read, ((schema.record name).field? entry.1).isSome = true →
        Record.Reads schema (schema.record name).fields entry := by
  match value with
  | .object members =>
    rw [Shape.fit_object] at h
    split at h
    · cases h
    · next read fits =>
      split at h
      · cases h
      · cases h
        exact ⟨_, rfl, fun entry member listed =>
          reads_of_fitMembers listed fits (Fields.mem_ofEntries member)⟩
  | .array items =>
    rw [Shape.fit] at h
    split at h
    · cases h
    · split at h
      · cases h
      · next read fits =>
        split at h
        · cases h
        · cases h; exact ⟨read, rfl, fun entry member _ => reads_of_fitFields fits member⟩
  | .null | .bool _ | .number _ | .string _ => simp [Shape.fit] at h

theorem Record.mem_of_get?_normal {read : Fields Json} {key : String} {found : Json}
    (h : (record.normal read).get? key = some found) : (key, found) ∈ read := by
  have known (among : (key, found) ∈ record.fields.filterMap fun field =>
      (Fields.get? read field.name).map fun value => (field.name, value)) : (key, found) ∈ read := by
    obtain ⟨field, -, given⟩ := List.mem_filterMap.mp among
    obtain ⟨value, stored, pair⟩ := Option.map_eq_some_iff.mp given
    cases pair
    exact Fields.mem_of_get? stored
  rw [normal] at h
  have member := Fields.mem_of_get? h
  split at member
  · rcases List.mem_append.mp member with among | among
    · exact known among
    · exact (List.mem_filter.mp among).1
  · exact known member

theorem Shape.reads_of_fit {name key : String} {value result found : Json}
    (listed : ((schema.record name).field? key).isSome = true)
    (h : (Shape.record name).fit schema value = .ok result) (member : result.get? key = some found) :
    Record.Reads schema (schema.record name).fields (key, found) := by
  obtain ⟨read, rfl, each⟩ := Shape.exists_read h
  exact each _ (Record.mem_of_get?_normal member) listed

theorem read_of_fitItems {shape : Shape} {sources read : List Json} {item : Json}
    (h : fitItems schema shape sources = .ok read) (member : item ∈ read) :
    ∃ source, shape.fit schema source = .ok item := by
  induction sources generalizing read with
  | nil => rw [fitItems] at h; cases h; cases member
  | cons source sources ih =>
    rw [fitItems] at h
    split at h
    · cases h
    · next first fits =>
      split at h
      · cases h
      · next rest others =>
        cases h
        rcases List.mem_cons.mp member with rfl | member
        · exact ⟨source, fits⟩
        · exact ih others member

end record

end BlockLoom.Json
