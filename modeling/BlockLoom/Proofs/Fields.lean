import BlockLoom.Json.Depth
import Mathlib.Data.List.Nodup
import Mathlib.Data.List.Perm.Basic

/-!
Laws of ordered maps. A look-up sees the last value written under a key, and
writing entries whose keys are new appends them in order. Maps whose keys are
apart are determined by their look-ups up to the order of their entries.
-/

namespace BlockLoom.Fields

variable {α β : Type}

/-- Every key stands at most once, as in any map that was filled by writing. -/
def Distinct (fields : Fields α) : Prop :=
  (names fields).Nodup

instance (fields : Fields α) : Decidable (Distinct fields) :=
  inferInstanceAs (Decidable (names fields).Nodup)

/-! ## Keys -/

@[simp] theorem names_nil : names ([] : Fields α) = [] := rfl

@[simp] theorem names_cons (entry : String × α) (fields : Fields α) :
    names (entry :: fields) = entry.1 :: names fields := rfl

@[simp] theorem names_append (fields others : Fields α) :
    names (fields ++ others) = names fields ++ names others :=
  List.map_append

@[simp] theorem names_mapValues (convert : α → β) (fields : Fields α) :
    names (mapValues convert fields) = names fields := by
  simp [names, mapValues, Function.comp_def]

theorem mem_names {fields : Fields α} {key : String} :
    key ∈ names fields ↔ ∃ value, (key, value) ∈ fields := by
  simp [names]

theorem mem_names_of_mem {fields : Fields α} {entry : String × α} (h : entry ∈ fields) :
    entry.1 ∈ names fields :=
  List.mem_map_of_mem h

theorem distinct_nil : Distinct ([] : Fields α) := List.nodup_nil

theorem distinct_cons {entry : String × α} {fields : Fields α} :
    Distinct (entry :: fields) ↔ entry.1 ∉ names fields ∧ Distinct fields :=
  List.nodup_cons

theorem distinct_append {fields others : Fields α} :
    Distinct (fields ++ others) ↔
      Distinct fields ∧ Distinct others ∧ ∀ key ∈ names fields, key ∉ names others := by
  unfold Distinct
  rw [names_append, List.nodup_append]
  constructor
  · rintro ⟨first, second, apart⟩
    exact ⟨first, second, fun key left right => apart key left key right rfl⟩
  · rintro ⟨first, second, apart⟩
    refine ⟨first, second, ?_⟩
    rintro key left other right rfl
    exact apart key left right

theorem Distinct.perm {fields others : Fields α} (h : Distinct fields) (hp : fields.Perm others) :
    Distinct others :=
  (hp.map Prod.fst).nodup_iff.mp h

theorem Distinct.sublist {fields others : Fields α} (h : Distinct others)
    (hs : fields.Sublist others) : Distinct fields :=
  List.Nodup.sublist (hs.map Prod.fst) h

theorem Distinct.filter {fields : Fields α} (h : Distinct fields) (keep : String × α → Bool) :
    Distinct (fields.filter keep) :=
  h.sublist List.filter_sublist

theorem Distinct.mapValues {fields : Fields α} (h : Distinct fields) (convert : α → β) :
    Distinct (mapValues convert fields) := by
  unfold Distinct
  rw [names_mapValues]
  exact h

/-! ## Look-up -/

@[simp] theorem get?_nil (key : String) : get? ([] : Fields α) key = none := rfl

theorem get?_cons (entry : String × α) (fields : Fields α) (key : String) :
    get? (entry :: fields) key = if entry.1 = key then some entry.2 else get? fields key := rfl

@[simp] theorem get?_cons_self (key : String) (value : α) (fields : Fields α) :
    get? ((key, value) :: fields) key = some value := by
  simp [get?_cons]

theorem get?_append (fields others : Fields α) (key : String) :
    get? (fields ++ others) key = (get? fields key).or (get? others key) := by
  induction fields with
  | nil => simp
  | cons entry rest ih =>
    rw [List.cons_append, get?_cons, get?_cons, ih]
    split <;> simp

theorem get?_eq_none_iff {fields : Fields α} {key : String} :
    get? fields key = none ↔ key ∉ names fields := by
  induction fields with
  | nil => simp
  | cons entry rest ih =>
    rw [get?_cons, names_cons, List.mem_cons]
    split
    · next heq => simp [heq]
    · next hne =>
      rw [ih]
      constructor
      · rintro absent (rfl | present)
        · exact hne rfl
        · exact absent present
      · exact fun absent present => absent (Or.inr present)

theorem get?_eq_some_iff {fields : Fields α} (h : Distinct fields) {key : String} {value : α} :
    get? fields key = some value ↔ (key, value) ∈ fields := by
  constructor
  · exact mem_of_get?
  · intro member
    induction fields with
    | nil => cases member
    | cons entry rest ih =>
      obtain ⟨apart, distinct⟩ := distinct_cons.mp h
      rw [get?_cons]
      rcases List.mem_cons.mp member with rfl | member
      · exact if_pos rfl
      · rw [if_neg, ih distinct member]
        rintro rfl
        exact apart (mem_names.mpr ⟨value, member⟩)

theorem has_iff {fields : Fields α} {key : String} :
    has fields key = true ↔ key ∈ names fields := by
  rw [has, Option.isSome_iff_ne_none, Ne, get?_eq_none_iff, not_not]

theorem has_eq_false_iff {fields : Fields α} {key : String} :
    has fields key = false ↔ key ∉ names fields := by
  rw [← has_iff, Bool.not_eq_true]

theorem get?_mapValues (convert : α → β) (fields : Fields α) (key : String) :
    get? (mapValues convert fields) key = (get? fields key).map convert := by
  induction fields with
  | nil => rfl
  | cons entry rest ih =>
    simp only [mapValues, List.map_cons, get?_cons] at ih ⊢
    split
    · rfl
    · exact ih

theorem get?_perm {fields others : Fields α} (h : Distinct fields) (hp : fields.Perm others)
    (key : String) : get? fields key = get? others key := by
  apply Option.ext
  intro value
  rw [get?_eq_some_iff h, get?_eq_some_iff (h.perm hp)]
  exact hp.mem_iff

/-- Maps with the same look-ups hold the same entries. -/
theorem perm_of_get? {fields others : Fields α} (h : Distinct fields) (h' : Distinct others)
    (same : ∀ key, get? fields key = get? others key) : fields.Perm others := by
  have nodup {map : Fields α} (distinct : Distinct map) : map.Nodup := List.Nodup.of_map _ distinct
  rw [List.perm_ext_iff_of_nodup (nodup h) (nodup h')]
  rintro ⟨key, value⟩
  rw [← get?_eq_some_iff h, ← get?_eq_some_iff h', same]

/-! ## Writing -/

theorem get?_put (fields : Fields α) (key other : String) (value : α) :
    get? (put fields key value) other =
      if key = other then some value else get? fields other := by
  induction fields with
  | nil => rw [put, get?_cons]
  | cons entry rest ih =>
    obtain ⟨name, old⟩ := entry
    rw [put]
    split
    · next heq =>
      subst heq
      rw [get?_cons, get?_cons]
      split <;> rfl
    · next hne =>
      rw [get?_cons, get?_cons, ih]
      by_cases hname : name = other
      · subst hname
        simp [Ne.symm hne]
      · simp [hname]

/-- Writing passes over entries with other keys. -/
theorem put_append {fields : Fields α} {key : String} (h : key ∉ names fields)
    (others : Fields α) (value : α) :
    put (fields ++ others) key value = fields ++ put others key value := by
  induction fields with
  | nil => rfl
  | cons entry rest ih =>
    rw [names_cons, List.mem_cons, not_or] at h
    rw [List.cons_append, put, if_neg (Ne.symm h.1), ih h.2]
    rfl

/-- Writing a new key appends it. -/
theorem put_of_not_mem {fields : Fields α} {key : String} (h : key ∉ names fields) (value : α) :
    put fields key value = fields ++ [(key, value)] := by
  have appended := put_append h [] value
  rwa [List.append_nil] at appended

theorem names_put (fields : Fields α) (key : String) (value : α) :
    names (put fields key value) =
      if key ∈ names fields then names fields else names fields ++ [key] := by
  induction fields with
  | nil => rfl
  | cons entry rest ih =>
    obtain ⟨name, old⟩ := entry
    rw [put]
    split
    · next heq => simp [heq]
    · next hne =>
      rw [names_cons, ih]
      by_cases hm : key ∈ names rest
      · simp [hm]
      · simp [hm, Ne.symm hne]

theorem mem_names_put {fields : Fields α} {key other : String} {value : α} :
    other ∈ names (put fields key value) ↔ other = key ∨ other ∈ names fields := by
  rw [names_put]
  split
  · next h => exact ⟨Or.inr, fun h' => h'.elim (fun heq => heq ▸ h) id⟩
  · simp [or_comm]

theorem Distinct.put {fields : Fields α} (h : Distinct fields) (key : String) (value : α) :
    Distinct (put fields key value) := by
  unfold Distinct
  rw [names_put]
  split
  · exact h
  · next hm =>
    rw [List.nodup_append]
    refine ⟨h, List.nodup_singleton _, ?_⟩
    rintro name hn other ho rfl
    exact hm (List.mem_singleton.mp ho ▸ hn)

@[simp] theorem merge_nil (fields : Fields α) : merge fields [] = fields := rfl

theorem merge_cons (fields : Fields α) (entry : String × α) (later : Fields α) :
    merge fields (entry :: later) = merge (put fields entry.1 entry.2) later := rfl

theorem merge_append (fields later last : Fields α) :
    merge fields (later ++ last) = merge (merge fields later) last :=
  List.foldl_append

theorem Distinct.merge {fields : Fields α} (h : Distinct fields) (later : Fields α) :
    Distinct (merge fields later) := by
  induction later generalizing fields with
  | nil => exact h
  | cons entry rest ih => exact ih (h.put _ _)

theorem get?_merge {fields later : Fields α} (h : Distinct later) (key : String) :
    get? (merge fields later) key = (get? later key).or (get? fields key) := by
  induction later generalizing fields with
  | nil => simp
  | cons entry rest ih =>
    obtain ⟨apart, distinct⟩ := distinct_cons.mp h
    rw [merge_cons, ih distinct, get?_put, get?_cons]
    split
    · next heq =>
      subst heq
      rw [get?_eq_none_iff.mpr apart]
      rfl
    · rfl

/-- What is written last under a key counts. -/
theorem get?_merge_ofEntries (fields later : Fields α) (key : String) :
    get? (merge fields later) key = (get? (ofEntries later) key).or (get? fields key) := by
  induction later generalizing fields with
  | nil => rfl
  | cons entry rest ih =>
    rw [ofEntries, merge_cons, merge_cons, ih (put fields entry.1 entry.2), ih (put [] entry.1 entry.2),
      Option.or_assoc]
    congr 1
    rw [get?_put, get?_put]
    split <;> rfl

theorem get?_ofEntries_cons (entry : String × α) (later : Fields α) (key : String) :
    get? (ofEntries (entry :: later)) key =
      (get? (ofEntries later) key).or (if entry.1 = key then some entry.2 else none) := by
  rw [ofEntries, merge_cons, get?_merge_ofEntries, get?_put]
  rfl

theorem get?_ofEntries_append (fields later : Fields α) (key : String) :
    get? (ofEntries (fields ++ later)) key =
      (get? (ofEntries later) key).or (get? (ofEntries fields) key) := by
  rw [ofEntries, merge_append, get?_merge_ofEntries]
  rfl

/-- Writing entries with new keys appends them. -/
theorem merge_of_distinct {fields later : Fields α} (h : Distinct (fields ++ later)) :
    merge fields later = fields ++ later := by
  induction later generalizing fields with
  | nil => simp
  | cons entry rest ih =>
    have fresh : entry.1 ∉ names fields := fun member =>
      (distinct_append.mp h).2.2 _ member (by simp)
    have regroup : fields ++ entry :: rest = fields ++ [(entry.1, entry.2)] ++ rest := by simp
    rw [merge_cons, put_of_not_mem fresh, ih (regroup ▸ h), ← regroup]

theorem ofEntries_of_distinct {fields : Fields α} (h : Distinct fields) :
    ofEntries fields = fields :=
  merge_of_distinct (by simpa using h)

theorem distinct_ofEntries (entries : List (String × α)) : Distinct (ofEntries entries) :=
  distinct_nil.merge _

theorem mem_names_merge {fields later : Fields α} {key : String} :
    key ∈ names (merge fields later) ↔ key ∈ names fields ∨ key ∈ names later := by
  induction later generalizing fields with
  | nil => simp
  | cons entry rest ih =>
    rw [merge_cons, ih, mem_names_put, names_cons, List.mem_cons]
    tauto

theorem mem_names_ofEntries {entries : Fields α} {key : String} :
    key ∈ names (ofEntries entries) ↔ key ∈ names entries := by
  rw [ofEntries, mem_names_merge]
  simp

/-- An entry counts if no other value is written under its key. -/
theorem get?_ofEntries_of_mem {entries : Fields α} {key : String} {value : α}
    (member : (key, value) ∈ entries)
    (only : ∀ entry ∈ entries, entry.1 = key → entry.2 = value) :
    get? (ofEntries entries) key = some value := by
  induction entries with
  | nil => cases member
  | cons entry entries ih =>
    obtain ⟨here, others⟩ := List.forall_mem_cons.mp only
    rw [get?_ofEntries_cons]
    cases found : get? (ofEntries entries) key with
    | some last =>
      have among := mem_names_ofEntries.mp (mem_names_of_mem (mem_of_get? found))
      obtain ⟨given, stored⟩ := mem_names.mp among
      have same := others (key, given) stored rfl
      rw [← found, ih (same ▸ stored) others]
      rfl
    | none =>
      have absent : key ∉ names entries := fun among =>
        get?_eq_none_iff.mp found (mem_names_ofEntries.mpr among)
      rcases List.mem_cons.mp member with rfl | rest
      · simp
      · exact absurd (mem_names_of_mem rest) absent

/-! ## Removing and selecting -/

theorem names_filter (keep : String → Bool) (fields : Fields α) :
    names (fields.filter fun entry => keep entry.1) = (names fields).filter keep := by
  rw [names, names, List.filter_map]
  rfl

theorem get?_filter (keep : String → Bool) (fields : Fields α) (key : String) :
    get? (fields.filter fun entry => keep entry.1) key =
      if keep key then get? fields key else none := by
  induction fields with
  | nil => simp
  | cons entry rest ih =>
    rw [List.filter_cons]
    split
    · next hkeep =>
      rw [get?_cons, get?_cons, ih]
      split
      · next heq => simp [heq ▸ hkeep]
      · rfl
    · next hkeep =>
      rw [ih, get?_cons]
      split
      · next hkey =>
        split
        · next heq => exact absurd hkey (heq ▸ hkeep)
        · rfl
      · rfl

theorem remove_eq_filter (fields : Fields α) (key : String) :
    remove fields key = fields.filter fun entry => decide (entry.1 ≠ key) := rfl

theorem get?_remove (fields : Fields α) (key other : String) :
    get? (remove fields key) other = if other = key then none else get? fields other := by
  rw [remove_eq_filter, get?_filter fun name => decide (name ≠ key)]
  by_cases h : other = key <;> simp [h]

theorem mem_names_remove {fields : Fields α} {key other : String} :
    other ∈ names (remove fields key) ↔ other ∈ names fields ∧ other ≠ key := by
  rw [remove_eq_filter, names_filter fun name => decide (name ≠ key), List.mem_filter,
    decide_eq_true_iff]

theorem remove_of_not_mem {fields : Fields α} {key : String} (h : key ∉ names fields) :
    remove fields key = fields := by
  rw [remove_eq_filter, List.filter_eq_self]
  intro entry member
  exact decide_eq_true fun heq => h (heq ▸ mem_names_of_mem member)

theorem remove_remove (fields : Fields α) (key other : String) :
    remove (remove fields key) other =
      if key = other then remove fields other else remove (remove fields other) key := by
  split
  · next same =>
    rw [same]
    exact remove_of_not_mem fun member => (mem_names_remove.mp member).2 rfl
  · exact List.filter_comm _ _ _

theorem Distinct.remove {fields : Fields α} (h : Distinct fields) (key : String) :
    Distinct (remove fields key) :=
  h.filter _

/-- An entry can be moved to the end. -/
theorem remove_concat_perm {fields : Fields α} (h : Distinct fields) {key : String} {value : α}
    (stored : get? fields key = some value) :
    (remove fields key ++ [(key, value)]).Perm fields := by
  refine perm_of_get? (distinct_append.mpr ⟨h.remove key, by simp [Distinct], ?_⟩) h fun other => ?_
  · intro other member
    simpa using (mem_names_remove.mp member).2
  · rw [get?_append, get?_remove, get?_cons, get?_nil]
    by_cases same : other = key
    · simp [same, stored]
    · simp [same, Ne.symm same]

/-- Writing a map into another leaves the entries that are not written over, and those written. -/
theorem merge_perm {fields later : Fields α} (h : Distinct fields) (h' : Distinct later) :
    (merge fields later).Perm ((fields.filter fun entry => !has later entry.1) ++ later) := by
  have kept : Distinct ((fields.filter fun entry => !has later entry.1) ++ later) := by
    rw [distinct_append]
    refine ⟨h.filter _, h', fun key member => ?_⟩
    rw [names_filter fun key => !has later key, List.mem_filter, Bool.not_eq_true'] at member
    exact has_eq_false_iff.mp member.2
  refine perm_of_get? (h.merge later) kept fun key => ?_
  rw [get?_merge h', get?_append, get?_filter fun key => !has later key]
  cases found : get? later key with
  | none => simp [has, found]
  | some value => simp [has, found]

/-- Writing a map into another leaves all keys in place and appends the new ones. -/
theorem names_merge {fields later : Fields α} (h : Distinct later) :
    names (merge fields later) =
      names fields ++ (names later).filter fun key => decide (key ∉ names fields) := by
  induction later generalizing fields with
  | nil => simp
  | cons entry later ih =>
    obtain ⟨fresh, distinct⟩ := distinct_cons.mp h
    rw [merge_cons, ih distinct, names_put, names_cons, List.filter_cons]
    split
    · next there => simp [there]
    · next absent =>
      rw [if_pos (decide_eq_true absent), List.append_assoc, List.singleton_append]
      congr 2
      apply List.filter_congr
      intro key member
      have other : key ≠ entry.1 := fun same => fresh (same ▸ member)
      simp [other]

/-- Maps with the same keys in the same order and the same look-ups are the same. -/
theorem eq_of_get? {fields others : Fields α} (h : Distinct fields)
    (order : names fields = names others) (same : ∀ key, get? fields key = get? others key) :
    fields = others := by
  induction fields generalizing others with
  | nil => exact (List.map_eq_nil_iff.mp order.symm).symm
  | cons entry fields ih =>
    cases others with
    | nil => cases order
    | cons other others =>
      obtain ⟨first, rest⟩ : entry.1 = other.1 ∧ names fields = names others :=
        List.cons.inj order
      obtain ⟨fresh, distinct⟩ := distinct_cons.mp h
      have value : entry.2 = other.2 := by
        have here := same entry.1
        rw [get?_cons, get?_cons, if_pos rfl, if_pos first.symm] at here
        exact Option.some.inj here
      have equal : entry = other := Prod.ext first value
      have tail : fields = others := by
        apply ih distinct rest
        intro key
        have there := same key
        rw [get?_cons, get?_cons, ← equal] at there
        split at there
        · next own =>
          subst own
          rw [get?_eq_none_iff.mpr fresh, get?_eq_none_iff.mpr (rest ▸ fresh)]
        · exact there
      rw [equal, tail]

theorem merge_put {fields later : Fields α} (h : Distinct fields) (h' : Distinct later)
    (key : String) (value : α) :
    merge fields (put later key value) = put (merge fields later) key value := by
  refine eq_of_get? (h.merge _) ?_ fun other => ?_
  · rw [names_merge (h'.put key value), names_put, names_put, names_merge h']
    by_cases own : key ∈ names later <;> by_cases here : key ∈ names fields <;> simp [own, here]
  · rw [get?_merge (h'.put key value), get?_put, get?_put, get?_merge h']
    split <;> rfl

/-- Of several maps, the first two or the last two can be written into one another first. -/
theorem merge_assoc {fields later : Fields α} (h : Distinct fields) (h' : Distinct later)
    (last : Fields α) : merge (merge fields later) last = merge fields (merge later last) := by
  induction last generalizing later with
  | nil => rfl
  | cons entry last ih =>
    rw [merge_cons, merge_cons, ← merge_put h h', ih (h'.put _ _)]

/-! ## Filtering -/

theorem filter_put (keep : String → Bool) (fields : Fields α) (key : String) (value : α) :
    ((put fields key value).filter fun entry => keep entry.1) =
      if keep key then put (fields.filter fun entry => keep entry.1) key value
      else fields.filter fun entry => keep entry.1 := by
  induction fields with
  | nil => cases kept : keep key <;> simp [put, kept]
  | cons entry fields ih =>
    obtain ⟨name, old⟩ := entry
    rw [put]
    by_cases same : name = key
    · subst same
      cases kept : keep name <;> simp [kept, put]
    · rw [if_neg same, List.filter_cons, List.filter_cons, ih]
      cases keep name <;> cases keep key <;> simp [put, same]

theorem filter_merge (keep : String → Bool) (fields later : Fields α) :
    ((merge fields later).filter fun entry => keep entry.1) =
      merge (fields.filter fun entry => keep entry.1) (later.filter fun entry => keep entry.1) := by
  induction later generalizing fields with
  | nil => rfl
  | cons entry later ih =>
    rw [merge_cons, ih, filter_put, List.filter_cons]
    split <;> rfl

theorem remove_put (fields : Fields α) (key other : String) (value : α) :
    remove (put fields key value) other =
      if key = other then remove fields other else put (remove fields other) key value := by
  rw [remove_eq_filter, remove_eq_filter, filter_put fun name => decide (name ≠ other)]
  by_cases same : key = other
  · rw [if_pos same, if_neg (by simpa using same)]
  · rw [if_neg same, if_pos (by simpa using same)]

/-- The entries with values of a kind, as what these values are read as. -/
def select (read : α → Option β) (fields : Fields α) : Fields β :=
  fields.filterMap fun entry => (read entry.2).map fun value => (entry.1, value)

theorem mem_names_select {read : α → Option β} {fields : Fields α} {key : String} :
    key ∈ names (select read fields) ↔ ∃ value, (key, value) ∈ fields ∧ (read value).isSome := by
  simp only [mem_names, select, List.mem_filterMap, Option.map_eq_some_iff, Prod.mk.injEq,
    Option.isSome_iff_exists]
  constructor
  · rintro ⟨found, ⟨name, value⟩, member, _, reads, rfl, rfl⟩
    exact ⟨value, member, _, reads⟩
  · rintro ⟨value, member, found, reads⟩
    exact ⟨found, (key, value), member, found, reads, rfl, rfl⟩

theorem get?_ofEntries_select_cons (read : α → Option β) (entry : String × α) (fields : Fields α)
    (key : String) :
    get? (ofEntries (select read (entry :: fields))) key =
      (get? (ofEntries (select read fields)) key).or
        (if entry.1 = key then read entry.2 else none) := by
  rw [select, select, List.filterMap_cons]
  cases read entry.2 with
  | none => simp
  | some found => exact get?_ofEntries_cons (entry.1, found) _ key

/-- What counts among all entries counts among those that are selected. -/
theorem get?_ofEntries_select {read : α → Option β} {fields : Fields α} {key : String} {value : α}
    {found : β} (h : get? (ofEntries fields) key = some value) (reads : read value = some found) :
    get? (ofEntries (select read fields)) key = some found := by
  induction fields with
  | nil => cases h
  | cons entry fields ih =>
    rw [get?_ofEntries_cons] at h
    rw [get?_ofEntries_select_cons]
    cases later : get? (ofEntries fields) key with
    | some last =>
      rw [later, Option.some_or] at h
      rw [ih (later.trans h)]
      rfl
    | none =>
      rw [later, Option.none_or] at h
      split at h
      · next same =>
        cases h
        have absent : key ∉ names (ofEntries (select read fields)) := by
          rw [mem_names_ofEntries, mem_names_select]
          rintro ⟨other, member, -⟩
          exact get?_eq_none_iff.mp later (mem_names_ofEntries.mpr (mem_names_of_mem member))
        rw [get?_eq_none_iff.mpr absent, if_pos same, reads]
        rfl
      · cases h

/-! ## Converting -/

section convert

variable {convert : String → α → Option β} {fields : Fields α}

theorem distinct_convert (h : Distinct fields) :
    Distinct (fields.filterMap fun entry =>
      (convert entry.1 entry.2).map fun value => (entry.1, value)) := by
  induction fields with
  | nil => exact distinct_nil
  | cons entry fields ih =>
    obtain ⟨fresh, distinct⟩ := distinct_cons.mp h
    rw [List.filterMap_cons]
    cases convert entry.1 entry.2 with
    | none => exact ih distinct
    | some value =>
      refine distinct_cons.mpr ⟨fun member => ?_, ih distinct⟩
      obtain ⟨found, converted⟩ := mem_names.mp member
      obtain ⟨other, stored, made⟩ := List.mem_filterMap.mp converted
      obtain ⟨_, _, same⟩ := Option.map_eq_some_iff.mp made
      have name : other.1 = entry.1 := (Prod.mk.inj same).1
      exact fresh (name ▸ mem_names_of_mem stored)

/-- A look-up among converted entries sees the converted value, if there is one. -/
theorem get?_convert (h : Distinct fields) (key : String) :
    get? (fields.filterMap fun entry =>
      (convert entry.1 entry.2).map fun value => (entry.1, value)) key =
      (get? fields key).bind (convert key) := by
  apply Option.ext
  intro value
  rw [get?_eq_some_iff (distinct_convert h), List.mem_filterMap, Option.bind_eq_some_iff]
  constructor
  · rintro ⟨entry, stored, made⟩
    obtain ⟨found, converted, same⟩ := Option.map_eq_some_iff.mp made
    cases same
    exact ⟨entry.2, (get?_eq_some_iff h).mpr stored, converted⟩
  · rintro ⟨source, found, converted⟩
    refine ⟨(key, source), mem_of_get? found, ?_⟩
    rw [converted]
    rfl

end convert

end BlockLoom.Fields
