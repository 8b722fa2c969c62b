import BlockLoom.Proofs.Content.Codec
import BlockLoom.Proofs.Content.Inputs
import BlockLoom.Proofs.Content.Validity
import BlockLoom.Proofs.Json.Returned

/-!
Elements as the reader of a document returns them. Their maps hold each key once, whatever a
text repeats, and no version is `null`; and so it is with the elements that are only found
when an option is read for its slots or its groups.
-/

namespace BlockLoom

namespace Content

open BlockLoom.Json (Shape)

/-! ## Maps that hold each key once -/

theorem isSettled_members {value : Json} {key : String} {members : Fields Json}
    (settled : value.isSettled = true) (h : (value.get? key).bind Json.members? = some members) :
    (Json.object members).isSettled = true := by
  obtain ⟨found, member, inner⟩ := Option.bind_eq_some_iff.mp h
  match found, inner with
  | .object _, rfl => exact Json.isSettled_get? settled member

theorem isSettled_membersAt {value : Json} (settled : value.isSettled = true) (key : String) :
    (Json.object (value.membersAt key)).isSettled = true := by
  rw [Json.membersAt]
  cases h : (value.get? key).bind Json.members? with
  | none => rfl
  | some members => exact isSettled_members settled h

theorem distinct_textsAt {value : Json} (settled : value.isSettled = true) (key : String) :
    Fields.Distinct (textsOfMembers (value.membersAt key)) :=
  (Json.isSettled_object.mp (isSettled_membersAt settled key)).1.mapValues _

theorem settled_stylesOf {buckets : Fields Json} (settled : (Json.object buckets).isSettled = true) :
    Style.Literals.Settled (Fields.mapValues (fun bucket => bucket.members?.getD []) buckets) := by
  obtain ⟨distinct, values⟩ := Json.isSettled_object.mp settled
  refine ⟨distinct.mapValues _, fun entry member => ?_⟩
  obtain ⟨⟨key, bucket⟩, listed, rfl⟩ := List.mem_map.mp member
  have inside := Json.haveSettled_iff.mp values _ listed
  match bucket with
  | .object _ => exact inside
  | .null | .bool _ | .number _ | .string _ | .array _ => rfl

theorem Element.keyed_empty : ({} : Element).Keyed where
  version := nofun
  options := nofun
  properties := nofun
  bindings := Fields.distinct_nil
  styles := nofun
  code := ⟨Fields.distinct_nil, Fields.distinct_nil⟩
  actions := Fields.distinct_nil
  children := rfl

mutual

/-- The element that data without repeated members stand for repeats no key. -/
theorem Element.keyed_ofJson (json : Json) (settled : json.isSettled = true) :
    (Element.ofJson json).Keyed := by
  match json with
  | .object members =>
    rw [Element.ofJson]
    constructor
    case version => exact fun value found => Json.isSettled_get? settled found
    case options =>
      rintro _ given
      obtain ⟨use, found, rfl⟩ := Option.map_eq_some_iff.mp given
      exact isSettled_membersAt (Json.isSettled_get? settled found) "options"
    case properties => exact fun properties given => isSettled_members settled given
    case bindings => exact distinct_textsAt settled "bindings"
    case styles =>
      rintro _ given
      obtain ⟨buckets, found, rfl⟩ := Option.map_eq_some_iff.mp given
      exact settled_stylesOf (isSettled_members settled found)
    case code =>
      cases found : (Json.object members).get? "code" with
      | none => exact ⟨Fields.distinct_nil, Fields.distinct_nil⟩
      | some code =>
        have inside := Json.isSettled_get? settled found
        exact ⟨distinct_textsAt inside "actions", distinct_textsAt inside "bindings"⟩
    case actions => exact distinct_textsAt settled "actions"
    case children => exact Element.areSettled_childrenIn members (Json.isSettled_object.mp settled).2
  | .null | .bool _ | .number _ | .string _ | .array _ => exact Element.keyed_empty

theorem Element.areSettled_listOfJson (json : Json) (settled : json.isSettled = true) :
    Json.areSettled (Element.listToJson (Element.listOfJson json)) = true := by
  match json with
  | .array items => exact Element.areSettled_ofItems items settled
  | .null | .bool _ | .number _ | .string _ | .object _ => rfl

theorem Element.areSettled_ofItems (items : List Json) (settled : Json.areSettled items = true) :
    Json.areSettled (Element.listToJson (Element.ofItems items)) = true := by
  match items with
  | [] => rfl
  | item :: items =>
    rw [Json.areSettled, Bool.and_eq_true] at settled
    rw [Element.ofItems, Element.listToJson, Json.areSettled,
      (Element.keyed_ofJson item settled.1).isSettled_toJson,
      Element.areSettled_ofItems items settled.2]
    rfl

theorem Element.areSettled_childrenIn (members : List (String × Json))
    (settled : Json.haveSettled members = true) :
    Json.areSettled (Element.listToJson (Element.childrenIn members)) = true := by
  match members with
  | [] => rfl
  | (key, value) :: members =>
    rw [Json.haveSettled, Bool.and_eq_true] at settled
    rw [Element.childrenIn]
    split
    · exact Element.areSettled_listOfJson value settled.1
    · exact Element.areSettled_childrenIn members settled.2

end

/-! ## Versions -/

theorem apart_schema : Json.Schema.Apart schema := by
  have known : ∀ record ∈ schema, (record.fields.map Json.Field.name).Nodup := by decide
  intro name
  rw [Json.Schema.record]
  cases h : schema.find? fun record => record.name == name with
  | none => exact List.nodup_nil
  | some record => exact known record (List.mem_of_find?_eq_some h)

theorem isNull_version {value read version : Json} (h : elementShape.fit schema value = .ok read)
    (found : read.get? "@version" = some version) : version.isNull = false := by
  obtain ⟨field, listed, named, source, kept, fits⟩ := Shape.reads_of_fit rfl h found
  have only : ∀ field ∈ (Json.Schema.record schema "BuilderElement").fields,
      field.name = "@version" → field.shape = .any ∧ field.presence = .optional := by decide
  obtain ⟨shape, presence⟩ := only field listed named
  rw [shape, Shape.fit_any] at fits
  cases fits
  simpa [presence] using kept

theorem fit_children {value read found : Json} (h : elementShape.fit schema value = .ok read)
    (children : read.get? "children" = some found) :
    ∃ source, (Shape.list elementShape).fit schema source = .ok found := by
  obtain ⟨field, listed, named, source, -, fits⟩ := Shape.reads_of_fit rfl h children
  have only : ∀ field ∈ (Json.Schema.record schema "BuilderElement").fields,
      field.name = "children" → field.shape = .list elementShape := by decide
  exact ⟨source, by rwa [only field listed named] at fits⟩

theorem fit_items {inner : Shape} {value : Json} {items : List Json}
    (h : (Shape.list inner).fit schema value = .ok (.array items)) :
    ∀ item ∈ items, ∃ source, inner.fit schema source = .ok item := by
  match value with
  | .array sources =>
    rw [Shape.fit] at h
    split at h
    · next read found => cases h; exact fun item member => Json.read_of_fitItems found member
    · cases h
  | .null | .bool _ | .number _ | .string _ | .object _ => simp [Shape.fit] at h

mutual

/-- No version of an element that has been read, or of an element below it, is `null`. -/
theorem Element.isVersioned_ofJson (json : Json)
    (h : ∃ value, elementShape.fit schema value = .ok json) :
    (Element.ofJson json).isVersioned = true := by
  match json with
  | .object members =>
    obtain ⟨value, fits⟩ := h
    rw [Element.ofJson, Element.isVersioned, Bool.and_eq_true, Option.all_eq_true]
    refine ⟨fun version found => ?_, Element.areVersioned_childrenIn members fun found here =>
      fit_children fits here⟩
    rw [isNull_version fits found]
    rfl
  | .null | .bool _ | .number _ | .string _ | .array _ => rfl

theorem Element.areVersioned_listOfJson (json : Json)
    (h : ∃ value, (Shape.list elementShape).fit schema value = .ok json) :
    Element.areVersioned (Element.listOfJson json) = true := by
  match json with
  | .array items =>
    obtain ⟨value, fits⟩ := h
    exact Element.areVersioned_ofItems items (fit_items fits)
  | .null | .bool _ | .number _ | .string _ | .object _ => rfl

theorem Element.areVersioned_ofItems (items : List Json)
    (h : ∀ item ∈ items, ∃ value, elementShape.fit schema value = .ok item) :
    Element.areVersioned (Element.ofItems items) = true := by
  match items with
  | [] => rfl
  | item :: items =>
    rw [Element.ofItems, Element.areVersioned,
      Element.isVersioned_ofJson item (h item List.mem_cons_self),
      Element.areVersioned_ofItems items fun other member => h other (List.mem_cons_of_mem _ member)]
    rfl

theorem Element.areVersioned_childrenIn (members : List (String × Json))
    (h : ∀ found, Fields.get? members "children" = some found →
      ∃ value, (Shape.list elementShape).fit schema value = .ok found) :
    Element.areVersioned (Element.childrenIn members) = true := by
  match members with
  | [] => rfl
  | (key, value) :: members =>
    rw [Element.childrenIn]
    split
    · next here => exact Element.areVersioned_listOfJson value (h value (if_pos here))
    · next other =>
      refine Element.areVersioned_childrenIn members fun found here => h found ?_
      rwa [Fields.get?_cons, if_neg other]

end

/-! ## Elements in an element -/

/-- What every element is that a reader returns: one whose maps hold each key once, without
versions that are `null`. -/
structure Element.Decoded (element : Element) : Prop where
  keyed : element.Keyed
  versioned : element.isVersioned = true

theorem StandsFor.decoded {value : Json} {element : Element} (h : StandsFor value element)
    (settled : value.isSettled = true) : element.Decoded := by
  have read := h.2
  rw [Element.fromJson] at read
  split at read
  · next found fits =>
    cases read
    exact ⟨Element.keyed_ofJson found (Shape.isSettled_fit apart_schema _ value fits settled),
      Element.isVersioned_ofJson found ⟨value, fits⟩⟩
  · cases read

theorem decoded_of_standFor {items : List Json} {elements : List Element}
    (h : List.Forall₂ StandsFor items elements) (settled : Json.areSettled items = true) :
    ∀ element ∈ elements, element.Decoded := by
  intro element member
  obtain ⟨item, listed, stands⟩ :=
    (mem_iff_of_forall₂ (fun _ _ _ first second => first.unique second) h).mp member
  exact stands.decoded (Json.areSettled_iff.mp settled item listed)

theorem Group.StandsFor.decoded {value : Json} {group : Group} (h : Group.StandsFor value group)
    (settled : value.isSettled = true) : ∀ block ∈ group.blocks, block.Decoded := by
  obtain ⟨members, rfl, -, ⟨-, none⟩ | ⟨items, found, blocks⟩⟩ := h
  · rw [none]
    exact fun _ member => nomatch member
  · exact decoded_of_standFor blocks (Json.isSettled_found settled found)

namespace Element

theorem areSettled_children {children : List Element}
    (h : Json.areSettled (listToJson children) = true) : ∀ child ∈ children, child.Keyed := by
  induction children with
  | nil => exact fun _ member => nomatch member
  | cons first children ih =>
    rw [listToJson, Json.areSettled, Bool.and_eq_true] at h
    refine List.forall_mem_cons.mpr ⟨?_, ih h.2⟩
    have keyed := keyed_ofJson _ h.1
    rwa [ofJson_toJson] at keyed

theorem areVersioned_iff {elements : List Element} :
    areVersioned elements = true ↔ ∀ element ∈ elements, element.isVersioned = true := by
  induction elements with
  | nil => simp [areVersioned]
  | cons element elements ih => simp [areVersioned, ih]

theorem isVersioned_iff {element : Element} :
    element.isVersioned = true ↔ (∀ value, element.version = some value → value.isNull = false) ∧
      areVersioned element.children = true := by
  cases element
  simp [isVersioned, Option.all_eq_true]

variable {settings : ImportSettings} {element : Element}

theorem Decoded.child (h : element.Decoded) {child : Element} (member : child ∈ element.children) :
    child.Decoded :=
  ⟨areSettled_children h.keyed.children child member,
    areVersioned_iff.mp (isVersioned_iff.mp h.versioned).2 child member⟩

theorem isSettled_options (keyed : element.Keyed) :
    (Json.object element.options).isSettled = true := by
  rw [options]
  cases h : element.component with
  | none => rfl
  | some use => exact keyed.options use h

theorem Decoded.held (h : element.Decoded) {grouping : Option Grouping} {option : String × Json}
    {child : Element} (member : option ∈ element.options) (held : Holds grouping option child) :
    child.Decoded := by
  have settled := Json.haveSettled_iff.mp
    (Json.isSettled_object.mp (isSettled_options h.keyed)).2 option member
  cases held with
  | slot _ _ item stands => exact stands.decoded (Json.areSettled_iff.mp settled _ item)
  | block _ item stands inside => exact stands.decoded (Json.areSettled_iff.mp settled _ item) _ inside

end Element

/-! ## Documents -/

/-- What a reader returns was read from data of the shape of a document, and repeats no member. -/
theorem exists_fit_of_read {source : String} {content : Content} (h : read source = .ok content) :
    ∃ value json, shape.fit schema value = .ok json ∧ json.isSettled = true ∧
      content = ofJson json := by
  unfold read at h
  split at h
  · cases h
  · next value parsed =>
    split at h
    · next json fits =>
      cases h
      have settled := Json.isSettled_parse parsed
      exact ⟨value, json, fits, Shape.isSettled_fit apart_schema _ _ fits settled, rfl⟩
    · cases h

def dataOf (json : Json) : Json :=
  (json.get? "data").getD (.object [])

theorem isSettled_dataOf {json : Json} (settled : json.isSettled = true) :
    (dataOf json).isSettled = true := by
  rw [dataOf]
  cases found : json.get? "data" with
  | none => rfl
  | some data => exact Json.isSettled_get? settled found

theorem areSettled_itemsAt {value : Json} (settled : value.isSettled = true) (key : String) :
    Json.areSettled (value.itemsAt key) = true := by
  rw [Json.itemsAt]
  cases found : value.get? key with
  | none => rfl
  | some inner =>
    have inside := Json.isSettled_get? settled found
    cases inner <;> first | exact inside | rfl

/-- The items of a list in a document were read in the shape of the items. -/
theorem fit_itemsAt {value json : Json} (h : shape.fit schema value = .ok json) (key : String)
    {inner : Shape}
    (listed : ((Json.Schema.record schema "BuilderData").field? key).isSome = true)
    (only : ∀ field ∈ (Json.Schema.record schema "BuilderData").fields,
      field.name = key → field.shape = .list inner) :
    ∀ item ∈ (dataOf json).itemsAt key, ∃ source, inner.fit schema source = .ok item := by
  rw [dataOf]
  cases stored : json.get? "data" with
  | none => exact List.forall_mem_nil _
  | some data =>
    obtain ⟨field, among, named, source, -, fits⟩ := Shape.reads_of_fit rfl h stored
    have record : ∀ field ∈ (Json.Schema.record schema "BuilderContent").fields,
        field.name = "data" → field.shape = .record "BuilderData" := by decide
    rw [record field among named] at fits
    rw [Option.getD_some, Json.itemsAt]
    cases found : data.get? key with
    | none => exact List.forall_mem_nil _
    | some list =>
      obtain ⟨field, among, named, source, -, fits⟩ := Shape.reads_of_fit listed fits found
      rw [only field among named] at fits
      cases list with
      | array items => exact fit_items fits
      | _ => exact List.forall_mem_nil _

theorem decoded_of_read {source : String} {content : Content} (h : read source = .ok content) :
    ∀ block ∈ content.blocks, block.Decoded := by
  obtain ⟨value, json, fits, settled, rfl⟩ := exists_fit_of_read h
  have keyed := Element.areSettled_ofItems _
    (areSettled_itemsAt (isSettled_dataOf settled) "blocks")
  have versioned := Element.areVersioned_ofItems _ (fit_itemsAt fits "blocks" rfl (by decide))
  exact fun block member =>
    ⟨Element.areSettled_children keyed block member,
      Element.areVersioned_iff.mp versioned block member⟩

/-- The inputs of a document that has been read repeat no member, and none has `null` as its
default value. -/
theorem inputs_of_read {source : String} {content : Content} (h : read source = .ok content) :
    ∀ input ∈ content.inputs, (Json.object input.metadata).isSettled = true ∧
      input.defaultValue.all Json.isSettled = true ∧ input.defaultValue ≠ some .null := by
  obtain ⟨value, json, fits, settled, rfl⟩ := exists_fit_of_read h
  intro input member
  obtain ⟨item, listed, rfl⟩ := List.mem_map.mp member
  have inside := Json.areSettled_iff.mp
    (areSettled_itemsAt (isSettled_dataOf settled) "inputs") item listed
  refine ⟨?_, ?_, ?_⟩
  · refine Json.isSettled_filter ?_ fun entry => decide (entry.1 ≠ "name" ∧ entry.1 ≠ "defaultValue")
    cases item <;> first | exact inside | rfl
  · rw [Option.all_eq_true]
    exact fun default found => Json.isSettled_get? inside found
  · intro null
    obtain ⟨source, read⟩ := @fit_itemsAt _ _ fits "inputs" inputShape rfl (by decide) item listed
    obtain ⟨field, among, named, source, kept, fits⟩ := Shape.reads_of_fit rfl read null
    have only : ∀ field ∈ (Json.Schema.record schema "BuilderInput").fields,
        field.name = "defaultValue" → field.shape = .any ∧ field.presence = .optional := by decide
    obtain ⟨shape, presence⟩ := only field among named
    rw [shape, Shape.fit_any] at fits
    cases fits
    simp [presence, Json.isNull] at kept

end Content

end BlockLoom
