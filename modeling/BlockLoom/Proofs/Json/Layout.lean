import BlockLoom.Proofs.Json.Spelling

/-!
The layout of a text has no influence on what is read from it. Every value, whatever its
numbers and however deep it is, has one reading: it is found in each layout of its text, or
in none if the value is nested too deep or a number in it cannot be read.
-/

namespace BlockLoom.Json

/-! ## Readings -/

mutual

/-- A value as it is read from its own text with at most so many containers open at once. -/
def reread : Nat → Json → Option Json
  | _, .number value => value.readBack
  | limit + 1, .array items => (rereadItems limit items).map .array
  | limit + 1, .object members =>
    (rereadMembers limit members).map fun read => .object (Fields.ofEntries read)
  | 0, .array _ => none
  | 0, .object _ => none
  | _, .null => some .null
  | _, .bool value => some (.bool value)
  | _, .string value => some (.string value)

def rereadItems (limit : Nat) : List Json → Option (List Json)
  | [] => some []
  | item :: items =>
    (reread limit item).bind fun item => (rereadItems limit items).map fun items => item :: items

def rereadMembers (limit : Nat) : List (String × Json) → Option (List (String × Json))
  | [] => some []
  | (key, value) :: members =>
    (reread limit value).bind fun value =>
      (rereadMembers limit members).map fun members => (key, value) :: members

end

theorem rereadItems_eq (limit : Nat) (items : List Json) :
    rereadItems limit items = items.mapM (reread limit) := by
  induction items with
  | nil => rfl
  | cons item items ih =>
    rw [rereadItems, ih, List.mapM_cons]
    cases reread limit item with
    | none => rfl
    | some item => cases items.mapM (reread limit) <;> rfl

theorem rereadMembers_eq (limit : Nat) (members : List (String × Json)) :
    rereadMembers limit members = readingOfMembers (reread limit) members := by
  induction members with
  | nil => rfl
  | cons member members ih =>
    rw [rereadMembers, ih, readingOfMembers_cons]

/-- The text of every value starts with a character that is no white space and closes nothing. -/
theorem opens_render (layout : Layout) (at' : Nat) (value : Json) (rest : List Char) :
    Opens ((render layout at' value).toList ++ rest) := by
  match value with
  | .number value =>
    obtain ⟨c, text, whole, starts⟩ := number_starts value
    rw [render, whole, List.cons_append]
    rcases starts with rfl | digit
    · exact ⟨'-', _, rfl, rfl, by decide⟩
    · exact opens_of_digit _ digit
  | .string value => exact render_opens layout at' rfl rest
  | .null | .bool true | .bool false | .array [] | .object [] =>
    exact render_opens layout at' rfl rest
  | .array (item :: items) =>
    obtain ⟨inner, opened⟩ := render_array_opens layout at' (item :: items) rest
    rw [opened]
    exact ⟨'[', inner, rfl, rfl, by decide⟩
  | .object (member :: members) =>
    obtain ⟨inner, opened⟩ := render_object_opens layout at' (member :: members) rest
    rw [opened]
    exact ⟨'\x7b', inner, rfl, rfl, by decide⟩

/-! ## Values -/

variable {schema : Schema}

/-- The text of a value is read as the reading of the value, in every layout and at every
depth. -/
theorem read_finds (layout : Layout) (at' : Nat) (value : Json) (limit : Nat) :
    Finds (Shape.read schema limit .any) layout at' value (reread limit value) := by
  match value, limit with
  | .null, limit | .bool true, limit | .bool false, limit | .string _, limit =>
    intro text rest place ends
    rw [read_render layout at' _ rfl (Nat.zero_le limit) text rest place ends, reread]
    rfl
  | .number value, limit =>
    intro text rest place ends
    obtain ⟨c, tail, opened, -, -⟩ := opens_render layout at' (.number value) rest
    rw [read_any limit (place.trans opened), ← opened, render, reread]
    exact readAny_number _ value ends
  | .array items, 0 =>
    intro text rest place ends
    obtain ⟨inner, opened⟩ := render_array_opens layout at' items rest
    rw [read_any _ (place.trans opened), reread]
    rfl
  | .object members, 0 =>
    intro text rest place ends
    obtain ⟨inner, opened⟩ := render_object_opens layout at' members rest
    rw [read_any _ (place.trans opened), reread]
    rfl
  | .array items, limit + 1 =>
    intro text rest place ends
    obtain ⟨inner, opened⟩ := render_array_opens layout at' items rest
    have finds : ∀ item ∈ items,
        Finds (Shape.read schema limit .any) layout (at' + 1) item (reread limit item) := by
      intro item member
      have smaller := List.sizeOf_lt_of_mem member
      exact read_finds layout (at' + 1) item limit
    rw [read_any _ (place.trans opened), reread]
    change ((close closeList (readItems _ inner.length.succ true inner)).map
      Json.array).toOption = _
    rw [toOption_map, readItems_array_finds layout at' items (fun item _ => opens_render layout _ item)
      finds opened, ← rereadItems_eq, Option.map_map,
      Option.map_map]
    rfl
  | .object members, limit + 1 =>
    intro text rest place ends
    obtain ⟨inner, opened⟩ := render_object_opens layout at' members rest
    have finds : ∀ member ∈ members,
        Finds (Shape.read schema limit .any) layout (at' + 1) member.2 (reread limit member.2) := by
      intro member stored
      have smaller := sizeOf_member stored
      exact read_finds layout (at' + 1) member.2 limit
    rw [read_any _ (place.trans opened), reread]
    change ((close closeObject (readMembers _ inner.length.succ true inner)).map
      fun read => Json.object (Fields.ofEntries read)).toOption = _
    rw [toOption_map, readMembers_object_finds layout at' members
      (fun member _ => opens_render layout _ member.2) finds opened, ← rereadMembers_eq, Option.map_map,
      Option.map_map]
    rfl
termination_by sizeOf value

/-- A text is parsed as the reading of the value it was written for, in every layout. -/
theorem parse_toOption (layout : Layout) (value : Json) :
    (parse (render layout 0 value)).toOption = reread maxDepth value := by
  have opens := opens_render layout 0 value []
  rw [List.append_nil] at opens
  have read := @read_finds [] layout 0 value maxDepth _ []
    (by rw [opens.skipBlank, List.append_nil]) endsNumber_nil
  rw [parse, Shape.parse]
  cases found : reread maxDepth value with
  | none =>
    rw [found] at read
    cases result : Shape.read [] maxDepth .any (render layout 0 value).toList with
    | error fault => rfl
    | ok given =>
      rw [result] at read
      cases read
  | some expected =>
    rw [found] at read
    cases result : Shape.read [] maxDepth .any (render layout 0 value).toList with
    | error fault =>
      rw [result] at read
      cases read
    | ok given =>
      rw [result] at read
      cases read
      rfl

end BlockLoom.Json
