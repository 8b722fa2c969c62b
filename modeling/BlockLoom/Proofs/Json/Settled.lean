import BlockLoom.Proofs.Fields

/-!
Repeated members. An object in a text may repeat a member, and then the last value
counts: reading settles a value. Values that were filled by writing have no
repeated members and are settled already.
-/

namespace BlockLoom.Json

/-! ## Settling -/

mutual

/-- The value with every object written member by member, so that of repeated
members the last one counts. -/
def settled : Json → Json
  | .array items => .array (settledItems items)
  | .object members => .object (Fields.ofEntries (settledMembers members))
  | value => value

def settledItems : List Json → List Json
  | [] => []
  | item :: items => settled item :: settledItems items

def settledMembers : List (String × Json) → List (String × Json)
  | [] => []
  | (key, value) :: members => (key, settled value) :: settledMembers members

end

theorem settledItems_eq (items : List Json) : settledItems items = items.map settled := by
  induction items with
  | nil => rfl
  | cons item items ih => exact congrArg (_ :: ·) ih

theorem settledMembers_eq (members : List (String × Json)) :
    settledMembers members = Fields.mapValues settled members := by
  induction members with
  | nil => rfl
  | cons member members ih => exact congrArg (_ :: ·) ih

mutual

/-- Whether no object of a value repeats a member. -/
def isSettled : Json → Bool
  | .array items => areSettled items
  | .object members => decide (Fields.Distinct members) && haveSettled members
  | _ => true

def areSettled : List Json → Bool
  | [] => true
  | item :: items => isSettled item && areSettled items

def haveSettled : List (String × Json) → Bool
  | [] => true
  | (_, value) :: members => isSettled value && haveSettled members

end

mutual

/-- Settling changes nothing where no member is repeated. -/
theorem settled_of_isSettled (value : Json) (h : value.isSettled = true) : value.settled = value := by
  match value with
  | .null | .bool _ | .number _ | .string _ => rfl
  | .array items =>
    rw [settled, settledItems_of_areSettled items h]
  | .object members =>
    rw [isSettled, Bool.and_eq_true] at h
    rw [settled, settledMembers_of_haveSettled members h.2,
      Fields.ofEntries_of_distinct (of_decide_eq_true h.1)]

theorem settledItems_of_areSettled (items : List Json) (h : areSettled items = true) :
    settledItems items = items := by
  match items with
  | [] => rfl
  | item :: items =>
    rw [areSettled, Bool.and_eq_true] at h
    rw [settledItems, settled_of_isSettled item h.1, settledItems_of_areSettled items h.2]

theorem settledMembers_of_haveSettled (members : List (String × Json))
    (h : haveSettled members = true) : settledMembers members = members := by
  match members with
  | [] => rfl
  | (key, value) :: members =>
    rw [haveSettled, Bool.and_eq_true] at h
    rw [settledMembers, settled_of_isSettled value h.1, settledMembers_of_haveSettled members h.2]

end

theorem isSettled_object {members : List (String × Json)} :
    (Json.object members).isSettled = true ↔ Fields.Distinct members ∧ haveSettled members = true := by
  rw [isSettled, Bool.and_eq_true, decide_eq_true_iff]

theorem haveSettled_iff {members : List (String × Json)} :
    haveSettled members = true ↔ ∀ entry ∈ members, entry.2.isSettled = true := by
  induction members with
  | nil => simp [haveSettled]
  | cons entry members ih => simp [haveSettled, ih]

theorem areSettled_iff {items : List Json} :
    areSettled items = true ↔ ∀ item ∈ items, item.isSettled = true := by
  induction items with
  | nil => simp [areSettled]
  | cons item items ih => simp [areSettled, ih]

theorem haveSettled_append {members others : List (String × Json)} :
    haveSettled (members ++ others) = (haveSettled members && haveSettled others) := by
  induction members with
  | nil => simp [haveSettled]
  | cons entry members ih => simp [haveSettled, ih, Bool.and_assoc]

/-! ## Settled maps -/

theorem isSettled_put {members : Fields Json} (h : (Json.object members).isSettled = true)
    (key : String) {value : Json} (hv : value.isSettled = true) :
    (Json.object (Fields.put members key value)).isSettled = true := by
  rw [isSettled_object, haveSettled_iff] at h ⊢
  refine ⟨h.1.put key value, fun entry member => ?_⟩
  rcases Fields.mem_put member with rfl | member
  · exact hv
  · exact h.2 entry member

theorem isSettled_merge {members later : Fields Json}
    (h : (Json.object members).isSettled = true) (hl : haveSettled later = true) :
    (Json.object (Fields.merge members later)).isSettled = true := by
  rw [haveSettled_iff] at hl
  rw [isSettled_object, haveSettled_iff] at h ⊢
  refine ⟨h.1.merge later, fun entry member => ?_⟩
  rcases Fields.mem_merge member with member | member
  · exact h.2 entry member
  · exact hl entry member

theorem isSettled_ofEntries {entries : List (String × Json)} (h : haveSettled entries = true) :
    (Json.object (Fields.ofEntries entries)).isSettled = true :=
  isSettled_merge rfl h

theorem isSettled_filter {members : Fields Json} (h : (Json.object members).isSettled = true)
    (keep : String × Json → Bool) : (Json.object (members.filter keep)).isSettled = true := by
  rw [isSettled_object, haveSettled_iff] at h ⊢
  exact ⟨h.1.filter keep, fun entry member => h.2 entry (List.mem_filter.mp member).1⟩

theorem isSettled_found {members : Fields Json} (h : (Json.object members).isSettled = true)
    {key : String} {value : Json} (found : Fields.get? members key = some value) :
    value.isSettled = true :=
  haveSettled_iff.mp (isSettled_object.mp h).2 (key, value) (Fields.mem_of_get? found)

theorem isSettled_get? {value found : Json} (h : value.isSettled = true) {key : String}
    (member : value.get? key = some found) : found.isSettled = true := by
  cases value with
  | object members => exact isSettled_found h member
  | _ => cases member

end BlockLoom.Json
