import BlockLoom.Proofs.Json.Shape
import BlockLoom.Proofs.Json.Settled

/-!
The order of members. Two values are the same data if they are equal once the
members of every object are sorted by their keys, at every depth.
-/

namespace BlockLoom

/-! ## Sorted maps -/

namespace Fields

variable {α : Type}

def sorted (fields : Fields α) : Fields α :=
  fields.mergeSort fun left right => decide (left.1 ≤ right.1)

theorem sorted_perm (fields : Fields α) : (sorted fields).Perm fields :=
  List.mergeSort_perm _ _

/-- The order in which the entries of a map were written does not count. -/
theorem sorted_eq_of_perm {fields others : Fields α} (h : Distinct fields)
    (hp : fields.Perm others) : sorted fields = sorted others := by
  have ordered (map : Fields α) : (sorted map).Pairwise fun left right =>
      decide (left.1 ≤ right.1) = true := by
    apply List.pairwise_mergeSort
    · intro a b c first second
      exact decide_eq_true (String.le_trans (of_decide_eq_true first) (of_decide_eq_true second))
    · intro a b
      simpa only [Bool.or_eq_true, decide_eq_true_eq] using String.le_total a.1 b.1
  apply List.Perm.eq_of_pairwise _ (ordered fields) (ordered others)
  · exact (sorted_perm fields).trans (hp.trans (sorted_perm others).symm)
  · rintro ⟨key, value⟩ ⟨other, found⟩ member stored first second
    have same : key = other :=
      String.le_antisymm (of_decide_eq_true first) (of_decide_eq_true second)
    subst same
    have left : get? fields key = some value :=
      (get?_eq_some_iff h).mpr ((sorted_perm fields).mem_iff.mp member)
    have right : get? fields key = some found :=
      (get?_eq_some_iff h).mpr (hp.mem_iff.mpr ((sorted_perm others).mem_iff.mp stored))
    cases left.symm.trans right
    rfl

end Fields

namespace Json

/-! ## Sorted values -/

mutual

def sorted : Json → Json
  | .array items => .array (sortedItems items)
  | .object members => .object (Fields.sorted (sortedMembers members))
  | value => value

def sortedItems : List Json → List Json
  | [] => []
  | item :: items => sorted item :: sortedItems items

def sortedMembers : List (String × Json) → List (String × Json)
  | [] => []
  | (key, value) :: members => (key, sorted value) :: sortedMembers members

end

/-- Whether two values are the same data up to the order of members. -/
def Similar (left right : Json) : Prop :=
  left.sorted = right.sorted

theorem Similar.refl (value : Json) : Similar value value := rfl

theorem sortedItems_eq (items : List Json) : sortedItems items = items.map sorted := by
  induction items with
  | nil => rfl
  | cons item items ih => exact congrArg (_ :: ·) ih

theorem sortedMembers_eq (members : List (String × Json)) :
    sortedMembers members = Fields.mapValues sorted members := by
  induction members with
  | nil => rfl
  | cons entry members ih => exact congrArg (_ :: ·) ih

theorem similar_items_iff {items others : List Json} :
    List.Forall₂ Similar items others ↔ items.map sorted = others.map sorted := by
  rw [← List.forall₂_eq_eq_eq, List.forall₂_map_left_iff, List.forall₂_map_right_iff]
  rfl

/-- Arrays are the same data if their items are. -/
theorem similar_array {items others : List Json} (h : List.Forall₂ Similar items others) :
    Similar (.array items) (.array others) := by
  rw [Similar, sorted, sorted, sortedItems_eq, sortedItems_eq]
  congr 1
  induction h with
  | nil => rfl
  | cons first _ ih => rw [List.map_cons, List.map_cons, first, ih]

/-- Objects are the same data if they hold the same data under the same keys. -/
theorem similar_object {members others : Fields Json} (h : Fields.Distinct members)
    (h' : Fields.Distinct others)
    (same : ∀ key, (Fields.get? members key).map sorted = (Fields.get? others key).map sorted) :
    Similar (.object members) (.object others) := by
  rw [Similar, sorted, sorted, sortedMembers_eq, sortedMembers_eq]
  congr 1
  apply Fields.sorted_eq_of_perm (h.mapValues _)
  apply Fields.perm_of_get? (h.mapValues _) (h'.mapValues _)
  intro key
  rw [Fields.get?_mapValues, Fields.get?_mapValues, same]

/-- Objects that hold the same entries in another order are the same data. -/
theorem similar_of_perm {members others : Fields Json} (h : Fields.Distinct members)
    (hp : members.Perm others) : Similar (.object members) (.object others) :=
  similar_object h (h.perm hp) fun key => by rw [Fields.get?_perm h hp]

/-- Records are the same data if their fields are, one by one. -/
theorem similar_present {entries others : List (String × Option Json)}
    (h : List.Forall₂ (fun left right => left.1 = right.1 ∧
      left.2.map sorted = right.2.map sorted) entries others) :
    Similar (.object (present entries)) (.object (present others)) := by
  have members : sortedMembers (present entries) = sortedMembers (present others) := by
    rw [sortedMembers_eq, sortedMembers_eq]
    induction h with
    | nil => rfl
    | @cons left right entries others first _ ih =>
      obtain ⟨key, value⟩ := left
      obtain ⟨name, found⟩ := right
      obtain ⟨rfl, same⟩ : key = name ∧ value.map sorted = found.map sorted := first
      rw [present_cons, present_cons, Fields.mapValues, Fields.mapValues, List.map_append,
        List.map_append]
      congr 1
      cases value with
      | none =>
        cases found with
        | none => rfl
        | some read => cases same
      | some read =>
        cases found with
        | none => cases same
        | some other => exact congrArg (fun value => [(key, value)]) (Option.some.inj same)
  rw [Similar, sorted, sorted, members]

end Json

end BlockLoom
