import BlockLoom.Proofs.Json.Shape

/-!
Text read in a shape. A value that has the shape in full (no member left out of
its record or beside it, no optional field that is `null`) is read from its text as
it is. Records are read field by field from the text and not through a value that
was read before, so they have lemmas of their own here.
-/

namespace BlockLoom.Json

/-- Data that are read from their text as they are: the numbers are integers, no member
is repeated, and no more than `limit` containers stand around one another. -/
structure Readable (limit : Nat) (value : Json) : Prop where
  integral : value.isIntegral = true
  settled : value.isSettled = true
  deep : value.nesting ≤ limit

/-- The text of a value, at any depth of either layout, is read as the value where
the shape is asked for and `limit` containers may still be opened. -/
structure Shape.Keeps (schema : Schema) (limit : Nat) (shape : Shape) (value : Json) : Prop where
  integral : value.isIntegral = true
  takes : ∀ layout at', Takes (shape.read schema limit) layout at' value value

theorem Readable.items {limit : Nat} {items : List Json} (h : Readable limit (.array items)) :
    ∃ inner, limit = inner + 1 ∧ ∀ item ∈ items, Readable inner item := by
  obtain ⟨inner, rfl⟩ : ∃ inner, limit = inner + 1 :=
    ⟨limit - 1, by have := h.deep; simp only [nesting] at this; omega⟩
  refine ⟨inner, rfl, fun item member => ⟨areIntegral_iff.mp h.integral item member,
    areSettled_iff.mp h.settled item member, ?_⟩⟩
  exact Nat.le_trans (nesting_le_of_mem member) (Nat.le_of_succ_le_succ h.deep)

theorem Readable.members {limit : Nat} {members : List (String × Json)}
    (h : Readable limit (.object members)) :
    ∃ inner, limit = inner + 1 ∧ ∀ member ∈ members, Readable inner member.2 := by
  obtain ⟨inner, rfl⟩ : ∃ inner, limit = inner + 1 :=
    ⟨limit - 1, by have := h.deep; simp only [nesting] at this; omega⟩
  refine ⟨inner, rfl, fun member stored => ⟨haveIntegral_iff.mp h.integral member stored,
    haveSettled_iff.mp (isSettled_object.mp h.settled).2 member stored, ?_⟩⟩
  exact Nat.le_trans (nesting_le_of_member stored) (Nat.le_of_succ_le_succ h.deep)

theorem Readable.distinct {limit : Nat} {members : List (String × Json)}
    (h : Readable limit (.object members)) : Fields.Distinct members :=
  (isSettled_object.mp h.settled).1

theorem mem_present {entries : List (String × Option Json)} {key : String} {value : Json}
    (h : (key, some value) ∈ entries) : (key, value) ∈ present entries :=
  List.mem_flatMap.mpr ⟨(key, some value), h, List.mem_singleton_self _⟩

theorem Readable.fields {limit : Nat} {entries : List (String × Option Json)}
    (h : Readable limit (.object (present entries))) :
    ∃ inner, limit = inner + 1 ∧
      ∀ key value, (key, some value) ∈ entries → Readable inner value := by
  obtain ⟨inner, rfl, readable⟩ := h.members
  exact ⟨inner, rfl, fun key value among => readable (key, value) (mem_present among)⟩

variable {schema : Schema} {limit : Nat}

/-! ## Scalars and free data -/

theorem Shape.keeps_any {value : Json} (h : Readable limit value) :
    Shape.any.Keeps schema limit value := by
  refine ⟨h.integral, fun layout at' => ?_⟩
  have taken : Takes (Shape.any.read schema limit) layout at' value value.settled :=
    read_render layout at' value h.integral h.deep
  rwa [settled_of_isSettled value h.settled] at taken

/-- White space in front of a text makes no difference. -/
private theorem read_blank (limit : Nat) (shape : Shape) {text other : List Char}
    (h : skipBlank text = skipBlank other) :
    shape.read schema limit text = shape.read schema limit other := by
  cases limit <;> rw [Shape.read, Shape.readWith, Shape.readWith, h]

/-- A shape takes a string if it does so behind the opening quote. -/
private theorem takes_quoted {shape : Shape} {text : String}
    (h : ∀ rest, shape.read schema limit
      ('"' :: (text.toList.flatMap escapeChar ++ '"' :: rest)) = .ok (.string text, rest)) :
    shape.Keeps schema limit (.string text) := by
  refine ⟨rfl, fun layout at' source rest place _ => ?_⟩
  rw [render, toList_quote_append] at place
  rw [read_blank limit shape (place.trans (skipBlank_cons (by decide) _).symm), h]

theorem Shape.keeps_string (limit : Nat) (text : String) :
    Shape.string.Keeps schema limit (.string text) := by
  refine takes_quoted fun rest => ?_
  have read : Shape.string.read schema limit
      ('"' :: (text.toList.flatMap escapeChar ++ '"' :: rest)) =
      (readString (text.toList.flatMap escapeChar ++ '"' :: rest)).map .string := by
    cases limit <;> rfl
  rw [read, readString_quote]
  rfl

theorem Shape.keeps_choice (limit : Nat) (name : String) {options : List String} {text : String}
    (h : text ∈ options) : (Shape.choice name options).Keeps schema limit (.string text) := by
  refine takes_quoted fun rest => ?_
  have read : (Shape.choice name options).read schema limit
      ('"' :: (text.toList.flatMap escapeChar ++ '"' :: rest)) =
      (readOption options (text.toList.flatMap escapeChar ++ '"' :: rest)).map .string := by
    cases limit <;> rfl
  rw [read, readOption, readString_quote]
  simp only [List.contains_eq_mem, h, decide_true, if_true]
  rfl

/-! ## Lists and maps -/

theorem Shape.keeps_list {shape : Shape} {items : List Json}
    (keeps : ∀ item ∈ items, shape.Keeps schema limit item) :
    (Shape.list shape).Keeps schema (limit + 1) (.array items) := by
  have integral := areIntegral_iff.mpr fun item member => (keeps item member).integral
  refine ⟨integral, fun layout at' text rest place _ => ?_⟩
  obtain ⟨inner, opened⟩ := render_array_opens layout at' items rest
  have behind := @readItems_array _ id layout at' items _ _ integral
    (fun item member => (keeps item member).takes layout (at' + 1)) opened
  rw [Shape.read, Shape.readWith, place, opened]
  dsimp only
  rw [if_pos rfl, behind, List.map_id]
  rfl

theorem Shape.keeps_map {shape : Shape} {members : List (String × Json)}
    (distinct : Fields.Distinct members)
    (keeps : ∀ member ∈ members, shape.Keeps schema limit member.2) :
    (Shape.map shape).Keeps schema (limit + 1) (.object members) := by
  have integral := haveIntegral_iff.mpr fun member stored => (keeps member stored).integral
  refine ⟨integral, fun layout at' text rest place _ => ?_⟩
  obtain ⟨inner, opened⟩ := render_object_opens layout at' members rest
  have behind := @readMembers_object _ id layout at' members _ _ integral
    (fun member stored => (keeps member stored).takes layout (at' + 1)) opened
  have same : Fields.mapValues id members = members := List.map_id members
  rw [Shape.read, Shape.readWith, place, opened]
  dsimp only
  rw [if_pos rfl, behind, same, Reading.map, Fields.ofEntries_of_distinct distinct]

/-! ## Records -/

/-- Only `null` starts with the letter that tells it from other values. -/
theorem isNull_of_render (layout : Layout) (at' : Nat) {value : Json}
    (integral : value.isIntegral = true) {rest tail : List Char}
    (h : (render layout at' value).toList ++ rest = 'n' :: tail) : value.isNull = true := by
  cases value with
  | null => rfl
  | bool value => cases value <;> simp [render] at h
  | string text =>
    rw [render, toList_quote_append] at h
    cases (List.cons.inj h).1
  | number value =>
    cases value with
    | binary bits => cases (of_decide_eq_true integral : False)
    | integer value =>
      rw [render, Number.text] at h
      cases value with
      | ofNat whole =>
        rw [Int.ofNat_eq_natCast, toList_ofNat] at h
        cases digits : Nat.toDigits 10 whole with
        | nil => exact absurd digits Nat.toDigits_ne_nil
        | cons c others =>
          rw [digits] at h
          have digit : c.isDigit = true := isDigit_toDigits (digits ▸ List.mem_cons_self)
          rw [(List.cons.inj h).1] at digit
          cases digit
      | negSucc whole =>
        rw [toList_negSucc] at h
        cases (List.cons.inj h).1
  | array items =>
    obtain ⟨inner, opened⟩ := render_array_opens layout at' items rest
    cases (List.cons.inj (opened.symm.trans h)).1
  | object members =>
    obtain ⟨inner, opened⟩ := render_object_opens layout at' members rest
    cases (List.cons.inj (opened.symm.trans h)).1

theorem Record.missing?_eq_none {record : Record} {seen : List String} :
    record.missing? seen = none ↔
      ∀ field ∈ record.fields, field.presence = .required → field.name ∈ seen := by
  simp [Record.missing?]

theorem readField_takes {read : Shape → List Char → Reading Json} {field : Field} {layout : Layout}
    {at' : Nat} {value : Json} (integral : value.isIntegral = true)
    (given : field.presence = .optional → value.isNull = false)
    (takes : Takes (read field.shape) layout at' value value) {text rest : List Char}
    (place : skipBlank text = (render layout at' value).toList ++ rest) (ends : EndsNumber rest) :
    readField read field text = .ok (some value, rest) := by
  have found := takes text rest place ends
  rw [readField]
  split
  · next tail null =>
    have null := isNull_of_render layout at' integral (place.symm.trans null)
    have needed : field.presence ≠ .optional := fun optional => by
      rw [given optional] at null
      cases null
    simp only [if_neg needed, found]
  · simp only [found]

private theorem readFields_cons {read : Shape → List Char → Reading Json} {record : Record}
    {fuel : Nat} {first : Bool} {seen : List String} {text behind item after closing : List Char}
    {key : String} {field : Field} {value : Json} {members : List (String × Json)}
    (next : nextKey first text = .ok (some (key, behind))) (known : record.field? key = some field)
    (unseen : key ∉ seen) (colon : readColon behind = .ok item)
    (here : readField read field item = .ok (some value, after))
    (others : readFields read record fuel false (key :: seen) after = .ok (members, closing)) :
    readFields read record (fuel + 1) first seen text = .ok ((key, value) :: members, closing) := by
  rw [readFields, next]
  simp only [known, List.contains_eq_mem, unseen, decide_false, colon, here, others,
    Bool.false_eq_true, if_false]
  rfl

structure TakesField (read : Shape → List Char → Reading Json) (record : Record) (layout : Layout)
    (at' : Nat) (member : String × Json) (field : Field) : Prop where
  known : record.field? member.1 = some field
  given : field.presence = .optional → member.2.isNull = false
  takes : Takes (read field.shape) layout at' member.2 member.2

variable {read : Shape → List Char → Reading Json} {record : Record}

/-- Fields that a reader takes one by one are read up to the closing brace, in whatever order they
stand, if no required field is missing. -/
theorem readFields_render (layout : Layout) (at' : Nat) (members : List (String × Json))
    {fuel : Nat} {seen : List String} {closing : List Char} (integral : haveIntegral members = true)
    (takes : ∀ member ∈ members, ∃ field, TakesField read record layout at' member field)
    (distinct : Fields.Distinct members) (fresh : ∀ member ∈ members, member.1 ∉ seen)
    (complete : record.missing? ((Fields.names members).reverse ++ seen) = none)
    (enough : members.length < fuel) (closes : nextKey false closing = .ok none)
    (ends : EndsNumber closing) :
    readFields read record fuel false seen ((renderMembers layout at' members).toList ++ closing) =
      .ok (members, closing) := by
  induction members generalizing fuel seen with
  | nil =>
    obtain ⟨fuel, rfl⟩ : ∃ less, fuel = less + 1 := ⟨fuel - 1, by omega⟩
    have complete : record.missing? seen = none := complete
    simp only [renderMembers, String.reduceToList, List.nil_append]
    rw [readFields, closes]
    simp only [complete]
  | cons member members ih =>
    obtain ⟨fuel, rfl⟩ : ∃ less, fuel = less + 1 := ⟨fuel - 1, by omega⟩
    obtain ⟨key, value⟩ := member
    rw [haveIntegral, Bool.and_eq_true] at integral
    obtain ⟨⟨field, first⟩, others⟩ := List.forall_mem_cons.mp takes
    obtain ⟨apart, distinct⟩ := Fields.distinct_cons.mp distinct
    obtain ⟨unseen, fresh⟩ := List.forall_mem_cons.mp fresh
    have still : ∀ member ∈ members, member.1 ∉ key :: seen := by
      intro member stored among
      have listed := Fields.mem_names_of_mem stored
      rcases List.mem_cons.mp among with rfl | among
      · exact apart listed
      · exact fresh member stored among
    have complete : record.missing? ((Fields.names members).reverse ++ key :: seen) = none := by
      simpa [Fields.names_cons] using complete
    obtain ⟨after, colon, stands⟩ := readColon_colon layout (render_opens layout at'
      integral.1 ((renderMembers layout at' members).toList ++ closing))
    simp only [renderMembers, String.toList_append, List.append_assoc, String.reduceToList,
      List.cons_append, List.nil_append]
    exact readFields_cons (nextKey_next layout at' key _) first.known unseen colon
      (readField_takes integral.1 first.given first.takes stands
        (endsNumber_members layout at' members ends))
      (ih integral.2 others distinct still complete (Nat.lt_of_succ_lt_succ enough))

/-- What stands behind the opening brace of a record is read as its fields. -/
theorem readFields_object (layout : Layout) (at' : Nat) (members : List (String × Json))
    {inner rest : List Char} (integral : haveIntegral members = true)
    (takes : ∀ member ∈ members, ∃ field, TakesField read record layout (at' + 1) member field)
    (distinct : Fields.Distinct members) (complete : record.missing? (Fields.names members) = none)
    (place : (render layout at' (.object members)).toList ++ rest = '\x7b' :: inner) :
    close closeObject (readFields read record inner.length.succ true [] inner) =
      .ok (members, rest) := by
  match members with
  | [] =>
    have complete : record.missing? [] = none := complete
    simp only [render, String.reduceToList, List.cons_append, List.nil_append, List.cons.injEq,
      true_and] at place
    subst place
    have closes : nextKey true ('\x7d' :: rest) = .ok none := rfl
    rw [readFields, closes]
    simp only [complete]
    rfl
  | (key, value) :: members =>
    rw [haveIntegral, Bool.and_eq_true] at integral
    obtain ⟨⟨field, first⟩, others⟩ := List.forall_mem_cons.mp takes
    obtain ⟨apart, distinct⟩ := Fields.distinct_cons.mp distinct
    have fresh : ∀ member ∈ members, member.1 ∉ [key] := by
      intro member stored same
      have listed := Fields.mem_names_of_mem stored
      exact apart (List.mem_singleton.mp same ▸ listed)
    have complete : record.missing? ((Fields.names members).reverse ++ [key]) = none := by
      rw [Record.missing?_eq_none] at complete ⊢
      intro field member required
      simpa [Fields.names_cons, or_comm] using complete field member required
    simp only [render, String.toList_append, List.append_assoc, String.reduceToList,
      List.cons_append, List.nil_append, List.cons.injEq, true_and] at place
    obtain ⟨after, colon, stands⟩ := readColon_colon layout (render_opens layout (at' + 1)
      integral.1 ((renderMembers layout (at' + 1) members).toList ++
        ((layout.newline at').toList ++ '\x7d' :: rest)))
    have ends := endsNumber_brace layout at' rest
    have short := length_renderMembers layout (at' + 1) members
    have enough : members.length < inner.length := by
      simp only [← place, List.length_append, List.length_cons]
      omega
    have behind := readFields_render layout (at' + 1) members integral.2 others distinct fresh
      complete enough (nextKey_closing layout at' false rest) ends
    rw [readFields_cons (place ▸ nextKey_first layout _ key _) first.known List.not_mem_nil colon
      (readField_takes integral.1 first.given first.takes stands
        (endsNumber_members layout _ members ends)) behind, close]
    simp only [closeObject_closing]

/-- How a field of a record is kept: by being absent or by being kept in its shape. -/
inductive Field.Keeps (schema : Schema) (limit : Nat) : Field → String × Option Json → Prop where
  | absent {field : Field} (free : field.presence ≠ .required) :
      Field.Keeps schema limit field (field.name, none)
  | given {field : Field} {value : Json} (kept : field.presence = .optional → value.isNull = false)
      (keeps : field.shape.Keeps schema limit value) :
      Field.Keeps schema limit field (field.name, some value)

theorem Field.keeps_of_mem {fields : List Field} {entries : List (String × Option Json)}
    (keeps : List.Forall₂ (Field.Keeps schema limit) fields entries) {member : String × Json}
    (h : member ∈ present entries) :
    ∃ field ∈ fields, field.name = member.1 ∧
      (field.presence = .optional → member.2.isNull = false) ∧
      field.shape.Keeps schema limit member.2 := by
  induction keeps with
  | nil => cases h
  | cons first _ ih =>
    rw [present_cons, List.mem_append] at h
    rcases h with h | h
    · cases first with
      | absent => cases h
      | given kept keeps =>
        cases List.mem_singleton.mp h
        exact ⟨_, List.mem_cons_self, rfl, kept, keeps⟩
    · obtain ⟨field, among, found⟩ := ih h
      exact ⟨field, List.mem_cons_of_mem _ among, found⟩

theorem Field.names_of_keeps {fields : List Field} {entries : List (String × Option Json)}
    (keeps : List.Forall₂ (Field.Keeps schema limit) fields entries) :
    fields.map Field.name = Fields.names entries := by
  induction keeps with
  | nil => rfl
  | cons first _ ih =>
    rw [List.map_cons, ih, Fields.names_cons]
    cases first <;> rfl

theorem Field.present_of_keeps {fields : List Field} {entries : List (String × Option Json)}
    (keeps : List.Forall₂ (Field.Keeps schema limit) fields entries) {field : Field}
    (h : field ∈ fields) (required : field.presence = .required) :
    field.name ∈ Fields.names (present entries) := by
  induction keeps with
  | nil => cases h
  | cons first _ ih =>
    rw [present_cons, Fields.names_append, List.mem_append]
    rcases List.mem_cons.mp h with rfl | h
    · cases first with
      | absent free => exact absurd required free
      | given => exact .inl List.mem_cons_self
    · exact .inr (ih h)

/-- Among fields with different names each is found under its own. -/
theorem Record.field?_of_mem {record : Record} (apart : (record.fields.map Field.name).Nodup)
    {field : Field} (h : field ∈ record.fields) : record.field? field.name = some field := by
  rw [Record.field?]
  generalize record.fields = fields at apart h ⊢
  induction fields with
  | nil => cases h
  | cons first fields ih =>
    obtain ⟨fresh, apart⟩ := List.nodup_cons.mp apart
    rw [List.find?_cons]
    split
    · next same =>
      rcases List.mem_cons.mp h with rfl | h
      · rfl
      · exact absurd (List.mem_map_of_mem h) (beq_iff_eq.mp same ▸ fresh)
    · next other =>
      rcases List.mem_cons.mp h with rfl | h
      · simp at other
      · exact ih apart h

/-- A record whose fields are kept is read from its text as it is. -/
theorem Shape.keeps_record {name : String} {entries : List (String × Option Json)}
    (isClosed : (schema.record name).isOpen = false)
    (apart : ((schema.record name).fields.map Field.name).Nodup)
    (keeps : List.Forall₂ (Field.Keeps schema limit) (schema.record name).fields entries) :
    (Shape.record name).Keeps schema (limit + 1) (.object (present entries)) := by
  have order := Field.names_of_keeps keeps
  have distinct : Fields.Distinct entries := by
    rw [Fields.Distinct, ← order]
    exact apart
  have stored := distinct_present distinct
  have complete : (schema.record name).missing? (Fields.names (present entries)) = none :=
    Record.missing?_eq_none.mpr fun field => Field.present_of_keeps keeps
  have integral : haveIntegral (present entries) = true := haveIntegral_iff.mpr fun member here => by
    obtain ⟨_, _, _, _, kept⟩ := Field.keeps_of_mem keeps here
    exact kept.integral
  refine ⟨integral, fun layout at' text rest place _ => ?_⟩
  have takes : ∀ member ∈ present entries, ∃ field,
      TakesField (Shape.read schema limit) (schema.record name) layout (at' + 1) member field := by
    intro member here
    obtain ⟨field, known, same, given, kept⟩ := Field.keeps_of_mem keeps here
    exact ⟨field, same ▸ Record.field?_of_mem apart known, given, kept.takes layout (at' + 1)⟩
  obtain ⟨inner, opened⟩ := render_object_opens layout at' (present entries) rest
  have behind := readFields_object layout at' _ integral takes stored complete opened
  rw [Shape.read, Shape.readWith, place, opened]
  dsimp only
  rw [if_pos rfl, behind, Reading.map, Fields.ofEntries_of_distinct stored,
    Record.normal_present isClosed order distinct]

end BlockLoom.Json
