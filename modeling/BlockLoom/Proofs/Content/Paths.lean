import BlockLoom.Content.Event
import BlockLoom.Content.Namespace
import BlockLoom.Proofs.Fields

/-!
The paths of bound expressions and the names of event handlers, both taken apart
and put together again. Expressions are sorted by namespace one path at a time,
so what a namespace holds depends on the paths in it alone.
-/

namespace BlockLoom.Content

/-! ## Paths -/

namespace Namespace

theorem key?_eq_some_iff {space : Namespace} {path key : String} :
    space.key? path = some key ↔ path = space.path key ∧ key ≠ "" := by
  have texts : path = space.path key ↔ path.toList = space.beginning.toList ++ key.toList := by
    rw [Namespace.path, ← String.toList_inj, String.toList_append]
  rw [key?, texts]
  simp only [Text.after?, Option.map_eq_some_iff, Option.filter_eq_some_iff]
  constructor
  · rintro ⟨rest, ⟨found, filled⟩, rfl⟩
    split at found
    · next begins =>
      cases found
      obtain ⟨rest, whole⟩ := List.isPrefixOf_iff_prefix.mp begins
      rw [← whole, List.drop_left] at filled ⊢
      rw [String.toList_ofList]
      exact ⟨rfl, by rintro empty; simp [String.ofList_eq_empty_iff.mp empty] at filled⟩
    · cases found
  · rintro ⟨whole, filled⟩
    refine ⟨key.toList, ⟨?_, ?_⟩, String.ofList_toList⟩
    · rw [whole, if_pos (List.isPrefixOf_iff_prefix.mpr ⟨_, rfl⟩), List.drop_left]
    · simpa using filled

/-- The beginnings differ in their first characters, so a path has one namespace. -/
theorem eq_of_path_eq {space other : Namespace} {key name : String}
    (h : space.path key = other.path name) : space = other := by
  have heads := congrArg (fun path => path.toList.head?) h
  cases space <;> cases other <;>
    first
      | rfl
      | simp [Namespace.path, beginning] at heads

theorem path_inj {space : Namespace} {key name : String} :
    space.path key = space.path name ↔ key = name := by
  rw [Namespace.path, Namespace.path, String.append_right_inj]

theorem key?_path (space : Namespace) {key : String} (h : key ≠ "") :
    space.key? (space.path key) = some key :=
  key?_eq_some_iff.mpr ⟨rfl, h⟩

theorem key?_path_of_ne {space other : Namespace} (h : space ≠ other) (key : String) :
    space.key? (other.path key) = none := by
  apply Option.eq_none_iff_forall_not_mem.mpr
  intro name found
  exact h (eq_of_path_eq (key?_eq_some_iff.mp found).1.symm)

theorem split?_eq_some_iff {path key : String} {space : Namespace} :
    split? path = some (space, key) ↔ space.key? path = some key := by
  rw [split?]
  constructor
  · intro h
    obtain ⟨found, -, read⟩ := List.exists_of_findSome?_eq_some h
    obtain ⟨name, key_eq, pair⟩ := Option.map_eq_some_iff.mp read
    cases pair
    exact key_eq
  · intro h
    cases found : all.findSome? fun space => (space.key? path).map fun key => (space, key) with
    | none =>
      have absent := List.findSome?_eq_none_iff.mp found space (by cases space <;> simp [all])
      rw [h] at absent
      cases absent
    | some pair =>
      obtain ⟨other, -, read⟩ := List.exists_of_findSome?_eq_some found
      obtain ⟨name, there, rfl⟩ := Option.map_eq_some_iff.mp read
      have whole := (key?_eq_some_iff.mp h).1.symm.trans (key?_eq_some_iff.mp there).1
      cases eq_of_path_eq whole
      cases h.symm.trans there
      rfl

theorem path_of_split? {path key : String} {space : Namespace}
    (h : split? path = some (space, key)) : path = space.path key ∧ key ≠ "" :=
  key?_eq_some_iff.mp (split?_eq_some_iff.mp h)

theorem split?_path (space : Namespace) {key : String} (h : key ≠ "") :
    split? (space.path key) = some (space, key) :=
  split?_eq_some_iff.mpr (key?_path space h)

end Namespace

/-! ## Sorting expressions -/

/-- The expressions in one namespace, by key. -/
def within (space : Namespace) (bindings : Fields String) : Fields String :=
  bindings.filterMap fun entry => (space.key? entry.1).map fun key => (key, entry.2)

theorem within_cons (space : Namespace) (entry : String × String) (bindings : Fields String) :
    within space (entry :: bindings) =
      ((space.key? entry.1).map fun key => (key, entry.2)).toList ++ within space bindings := by
  rw [within, within, List.filterMap_cons]
  cases space.key? entry.1 <;> rfl

theorem within_append (space : Namespace) (bindings others : Fields String) :
    within space (bindings ++ others) = within space bindings ++ within space others :=
  List.filterMap_append

theorem mem_names_within {space : Namespace} {bindings : Fields String} {key : String} :
    key ∈ Fields.names (within space bindings) ↔
      key ≠ "" ∧ space.path key ∈ Fields.names bindings := by
  simp only [Fields.mem_names, within, List.mem_filterMap, Option.map_eq_some_iff, Prod.mk.injEq,
    Namespace.key?_eq_some_iff]
  constructor
  · rintro ⟨code, ⟨path, _⟩, member, name, ⟨whole, filled⟩, rfl, rfl⟩
    dsimp only at whole
    subst whole
    exact ⟨filled, _, member⟩
  · rintro ⟨filled, code, member⟩
    exact ⟨code, (space.path key, code), member, key, ⟨rfl, filled⟩, rfl, rfl⟩

def paths (space : Namespace) (fields : Fields String) : Fields String :=
  fields.map fun entry => (space.path entry.1, entry.2)

theorem mem_names_paths {space : Namespace} {fields : Fields String} {path : String} :
    path ∈ Fields.names (paths space fields) ↔ ∃ key ∈ Fields.names fields, path = space.path key := by
  simp only [Fields.names, paths, List.map_map, List.mem_map, Function.comp_apply]
  constructor
  · rintro ⟨entry, member, rfl⟩
    exact ⟨_, ⟨entry, member, rfl⟩, rfl⟩
  · rintro ⟨_, ⟨entry, member, rfl⟩, rfl⟩
    exact ⟨entry, member, rfl⟩

theorem distinct_paths {fields : Fields String} (h : Fields.Distinct fields) (space : Namespace) :
    Fields.Distinct (paths space fields) := by
  have names : Fields.names (paths space fields) = (Fields.names fields).map space.path := by
    simp [Fields.names, paths, Function.comp_def]
  rw [Fields.Distinct, names]
  exact List.Nodup.map (fun _ _ same => Namespace.path_inj.mp same) h

/-- Paths of different namespaces are different. -/
theorem distinct_paths_append {space other : Namespace} (apart : space ≠ other)
    {fields others : Fields String} (h : Fields.Distinct fields) (h' : Fields.Distinct others) :
    Fields.Distinct (paths space fields ++ paths other others) := by
  refine Fields.distinct_append.mpr ⟨distinct_paths h space, distinct_paths h' other, ?_⟩
  intro path here there
  obtain ⟨key, _, rfl⟩ := mem_names_paths.mp here
  obtain ⟨name, _, same⟩ := mem_names_paths.mp there
  exact apart (Namespace.eq_of_path_eq same)

namespace Bound

/-- The expressions of one namespace, those for styles aside. -/
def fieldsIn (bound : Bound) : Namespace → Fields String
  | .style | .responsiveStyles => []
  | .options => bound.options
  | .properties => bound.properties
  | .actions => bound.actions

theorem fieldsIn_add (bound : Bound) (path code : String) {space : Namespace}
    (style : space ≠ .style) (responsive : space ≠ .responsiveStyles) :
    (bound.add path code).fieldsIn space =
      Fields.merge (bound.fieldsIn space) (within space [(path, code)]) := by
  cases here : space.key? path with
  | none =>
    have elsewhere : within space [(path, code)] = [] := by
      rw [within_cons, here]
      rfl
    rw [elsewhere, Fields.merge_nil, add]
    split
    · rfl
    all_goals
      next found =>
      have there := Namespace.split?_eq_some_iff.mp found
      cases space <;> first
        | (rw [there] at here; cases here)
        | (simp only [fieldsIn] <;> split <;> rfl)
  | some key =>
    have written : within space [(path, code)] = [(key, code)] := by
      rw [within_cons, here]
      rfl
    rw [written, add, Namespace.split?_eq_some_iff.mpr here]
    cases space with
    | style => exact absurd rfl style
    | responsiveStyles => exact absurd rfl responsive
    | options | properties | actions => rfl

/-- The expressions for styles only depend on the paths of styles. -/
theorem styles_add (bound : Bound) {path key : String} {space : Namespace}
    (here : space.key? path = some key) (style : space ≠ .style)
    (responsive : space ≠ .responsiveStyles) (code : String) :
    (bound.add path code).styles = bound.styles := by
  rw [add, Namespace.split?_eq_some_iff.mpr here]
  cases space with
  | style => exact absurd rfl style
  | responsiveStyles => exact absurd rfl responsive
  | options | properties | actions => rfl

/-- Sorting expressions puts each one under the key of its path, later ones in place of
earlier ones. -/
theorem fieldsIn_of_eq_ofEntries (bindings : Fields String) {space : Namespace}
    (style : space ≠ .style) (responsive : space ≠ .responsiveStyles) :
    (Bound.of bindings []).fieldsIn space = Fields.ofEntries (within space bindings) := by
  have step (bound : Bound) (entries : Fields String) :
      (entries.foldl (fun bound entry => bound.add entry.1 entry.2) bound).fieldsIn space =
        Fields.merge (bound.fieldsIn space) (within space entries) := by
    induction entries generalizing bound with
    | nil => rfl
    | cons entry entries ih =>
      have whole : within space (entry :: entries) =
          within space [(entry.1, entry.2)] ++ within space entries :=
        within_append space [entry] entries
      rw [List.foldl_cons, ih, fieldsIn_add bound entry.1 entry.2 style responsive, whole,
        Fields.merge_append]
  have empty : (({} : Bound)).fieldsIn space = [] := by cases space <;> rfl
  rw [Bound.of, prefer, Fields.merge_nil, step, empty]
  rfl

/-- Sorting a map of expressions puts each one under the key of its path. -/
theorem fieldsIn_of {bindings : Fields String} {space : Namespace}
    (h : Fields.Distinct (within space bindings)) (style : space ≠ .style)
    (responsive : space ≠ .responsiveStyles) :
    (Bound.of bindings []).fieldsIn space = within space bindings := by
  rw [fieldsIn_of_eq_ofEntries bindings style responsive]
  exact Fields.ofEntries_of_distinct h

theorem mem_names_fieldsIn_of {bindings : Fields String} {space : Namespace}
    (style : space ≠ .style) (responsive : space ≠ .responsiveStyles) {key : String} :
    key ∈ Fields.names ((Bound.of bindings []).fieldsIn space) ↔
      key ≠ "" ∧ space.path key ∈ Fields.names bindings := by
  rw [fieldsIn_of_eq_ofEntries bindings style responsive, Fields.mem_names_ofEntries,
    mem_names_within]

/-- Expressions for options and properties leave the styles empty. -/
theorem styles_of {bindings : Fields String}
    (h : ∀ entry ∈ bindings, ∃ space key, Namespace.key? space entry.1 = some key ∧
      space ≠ .style ∧ space ≠ .responsiveStyles) :
    (Bound.of bindings []).styles = {} := by
  rw [Bound.of, prefer, Fields.merge_nil]
  refine List.foldlRecOn (motive := fun bound : Bound => bound.styles = {}) bindings _ rfl ?_
  intro bound empty entry member
  obtain ⟨space, key, here, style, responsive⟩ := h entry member
  rw [styles_add bound here style responsive, empty]

end Bound

/-! ## Events -/

namespace Event

/-- What is checked of 26 letters in a row, one by one, holds of each of them. -/
private theorem forall_letters {p : Char → Prop} {start : Nat}
    (h : ∀ n : Fin 26, p (Char.ofNat (start + n))) {c : Char} (low : start ≤ c.toNat)
    (high : c.toNat < start + 26) : p c := by
  have letter := h ⟨c.toNat - start, by omega⟩
  rwa [Nat.add_sub_cancel' low, Char.ofNat_toNat] at letter

private theorem small_letters {c : Char} (h : c.isLower = true) :
    Text.upperCase c = [c.toUpper] ∧ c.toUpper.isUpper = true ∧ c.toUpper.toLower = c := by
  obtain ⟨low, high⟩ : decide (c.val ≥ 97) = true ∧ decide (c.val ≤ 122) = true :=
    Bool.and_eq_true_iff.mp h
  have first : 97 ≤ c.toNat := of_decide_eq_true low
  have last : c.toNat ≤ 122 := of_decide_eq_true high
  exact forall_letters
    (p := fun c => Text.upperCase c = [c.toUpper] ∧ c.toUpper.isUpper = true ∧
      c.toUpper.toLower = c) (by decide) first (by omega)

/-- Whether an event starts with a small ASCII letter. -/
def startsSmall (event : String) : Bool :=
  event.toList.head?.any Char.isLower

theorem ofHandler?_handlerName {event : String} (h : startsSmall event = true) :
    ofHandler? (handlerName event) = some event := by
  rw [startsSmall] at h
  rw [handlerName]
  split
  · next empty => simp [empty] at h
  · next c rest whole =>
    rw [whole] at h
    obtain ⟨upper, capital, lower⟩ := small_letters h
    rw [upper, ofHandler?, String.toList_ofList]
    simp only [List.cons_append, List.nil_append, capital, if_true, lower, ← whole,
      String.ofList_toList]

private theorem capital_letters {c : Char} (h : c.isUpper = true) :
    Text.upperCase c.toLower = [c] ∧ c.toLower.isLower = true := by
  obtain ⟨low, high⟩ : c.val ≥ 65 ∧ c.val ≤ 90 := of_decide_eq_true h
  have first : 65 ≤ c.toNat := low
  have last : c.toNat ≤ 90 := high
  exact forall_letters (p := fun c => Text.upperCase c.toLower = [c] ∧ c.toLower.isLower = true)
    (by decide) first (by omega)

/-- A field that handles an event is named like the handler of that event. -/
theorem handlerName_of_ofHandler? {field event : String} (h : ofHandler? field = some event) :
    handlerName event = field := by
  rw [ofHandler?] at h
  split at h
  · next c rest whole =>
    split at h
    · next capital =>
      cases h
      rw [handlerName, String.toList_ofList]
      dsimp only
      rw [(capital_letters capital).1, ← String.ofList_toList (s := field), whole]
      rfl
    · cases h
  · cases h

/-- Only the handler of an event that starts with a small letter is told from other fields. -/
theorem startsSmall_of_ofHandler? {field event : String} (h : ofHandler? field = some event) :
    startsSmall event = true := by
  rw [ofHandler?] at h
  split at h
  · split at h
    · next capital =>
      cases h
      rw [startsSmall, String.toList_ofList]
      exact (capital_letters capital).2
    · cases h
  · cases h

end Event

end BlockLoom.Content
