import BlockLoom.Proofs.Content.Ignored
import Mathlib.Data.List.Induction

/-!
Where the expressions of an element end up. Sorting fills one map for the styles of every
width, one for the styles of each named width, and one for each other namespace. A path with
a meaning has one place among them, every other path has none, and each map lists its keys
in the order of the paths that lead to it. What is sorted can be put together again from the
maps.
-/

namespace BlockLoom.Content

/-! ## Places -/

/-- The maps among which expressions are sorted. -/
inductive Shelf where
  | base
  | width (bucket : String)
  | options
  | properties
  | actions
  deriving DecidableEq, Repr

namespace Shelf

def path : Shelf → String → String
  | .base, key => Namespace.style.path key
  | .width bucket, key => Namespace.responsiveStyles.path (bucket ++ "." ++ key)
  | .options, key => Namespace.options.path key
  | .properties, key => Namespace.properties.path key
  | .actions, key => Namespace.actions.path key

/-- Whether paths lead to a map. The name of a width ends at the first dot. -/
def Reached : Shelf → Prop
  | .width bucket => '.' ∉ bucket.toList
  | _ => True

instance : DecidablePred Reached
  | .width bucket => inferInstanceAs (Decidable ('.' ∉ bucket.toList))
  | .base | .options | .properties | .actions => isTrue trivial

/-- The name of the width whose styles a map holds. -/
def bucket? : Shelf → Option String
  | .width bucket => some bucket
  | .base | .options | .properties | .actions => none

def kept? : Shelf → String → Option String
  | .base, code | .width _, code => Text.trimmed? code
  | .options, code | .properties, code | .actions, code => some code

/-- Where a path leads. -/
def place? (path : String) : Option (Shelf × String) :=
  match Namespace.split? path with
  | none => none
  | some (.style, key) => some (.base, key)
  | some (.responsiveStyles, key) =>
    match Text.splitFirst? '.' key.toList with
    | some (bucket, c :: rest) => some (.width (String.ofList bucket), String.ofList (c :: rest))
    | _ => none
  | some (.options, key) => some (.options, key)
  | some (.properties, key) => some (.properties, key)
  | some (.actions, key) => some (.actions, key)

theorem splitFirst?_width {bucket : String} (h : '.' ∉ bucket.toList) (key : String) :
    Text.splitFirst? '.' (bucket ++ "." ++ key).toList = some (bucket.toList, key.toList) := by
  rw [String.toList_append, String.toList_append, List.append_assoc]
  exact splitFirst?_append h key.toList

theorem not_mem_of_splitFirst? {separator : Char} {text before after : List Char}
    (h : Text.splitFirst? separator text = some (before, after)) : separator ∉ before := by
  induction text generalizing before with
  | nil => cases h
  | cons c rest ih =>
    rw [Text.splitFirst?] at h
    split at h
    · cases h
      exact List.not_mem_nil
    · next other =>
      obtain ⟨parts, found, pair⟩ := Option.map_eq_some_iff.mp h
      cases pair
      intro member
      rcases List.mem_cons.mp member with same | later
      · exact other same.symm
      · exact ih found later

/-- The paths with a place are those of a key that is not empty. -/
theorem place?_eq_some_iff {path key : String} {shelf : Shelf} :
    place? path = some (shelf, key) ↔ shelf.Reached ∧ key ≠ "" ∧ path = shelf.path key := by
  constructor
  · intro h
    rw [place?] at h
    split at h
    · cases h
    · next name found =>
      obtain ⟨whole, filled⟩ := Namespace.path_of_split? found
      cases h
      exact ⟨trivial, filled, whole⟩
    · next name found =>
      obtain ⟨whole, -⟩ := Namespace.path_of_split? found
      split at h
      · next bucket c rest cut =>
        cases h
        have joined : name = String.ofList bucket ++ "." ++ String.ofList (c :: rest) := by
          rw [← String.toList_inj, splitFirst?_eq_some cut]
          simp
        refine ⟨?_, ?_, ?_⟩
        · simpa [Reached] using not_mem_of_splitFirst? cut
        · intro empty
          exact List.cons_ne_nil c rest (String.ofList_eq_empty_iff.mp empty)
        · rw [whole, joined]
          rfl
      · cases h
    all_goals
      next name found =>
      obtain ⟨whole, filled⟩ := Namespace.path_of_split? found
      cases h
      exact ⟨trivial, filled, whole⟩
  · rintro ⟨reached, filled, rfl⟩
    cases shelf with
    | width bucket =>
      have dotted : bucket ++ "." ++ key ≠ "" := by simp
      rw [place?, path, Namespace.split?_path _ dotted]
      dsimp only
      rw [splitFirst?_width reached]
      cases letters : key.toList with
      | nil => exact absurd (String.toList_eq_nil_iff.mp letters) filled
      | cons c rest =>
        dsimp only
        rw [← letters, String.ofList_toList, String.ofList_toList]
    | base | options | properties | actions => rw [place?, path, Namespace.split?_path _ filled]

/-- A path leads to one place at most. -/
theorem path_inj {shelf other : Shelf} {key name : String} (h : shelf.Reached)
    (h' : other.Reached) (filled : key ≠ "") (filled' : name ≠ "")
    (same : shelf.path key = other.path name) : shelf = other ∧ key = name := by
  have here := place?_eq_some_iff.mpr ⟨h, filled, rfl⟩
  have there := place?_eq_some_iff.mpr ⟨h', filled', same⟩
  exact Prod.mk.inj (Option.some.inj (here.symm.trans there))

theorem place?_eq_none_iff {path : String} :
    place? path = none ↔
      ∀ (shelf : Shelf) (key : String), shelf.Reached → key ≠ "" → path ≠ shelf.path key := by
  constructor
  · intro nowhere shelf key reached filled whole
    cases nowhere.symm.trans (place?_eq_some_iff.mpr ⟨reached, filled, whole⟩)
  · intro apart
    apply Option.eq_none_iff_forall_ne_some.mpr
    rintro ⟨shelf, key⟩ found
    obtain ⟨reached, filled, whole⟩ := place?_eq_some_iff.mp found
    exact apart shelf key reached filled whole

end Shelf

/-! ## One expression -/

structure Placement where
  shelf : Shelf
  key : String
  code : String
  deriving DecidableEq, Repr

namespace Placement

def of? (entry : String × String) : Option Placement :=
  (Shelf.place? entry.1).bind fun place =>
    (place.1.kept? entry.2).map fun code => { shelf := place.1, key := place.2, code }

def entry (placement : Placement) : String × String :=
  (placement.shelf.path placement.key, placement.code)

theorem of?_eq_some_iff {entry : String × String} {placement : Placement} :
    of? entry = some placement ↔
      (placement.shelf.Reached ∧ placement.key ≠ "" ∧
        entry.1 = placement.shelf.path placement.key) ∧
      placement.shelf.kept? entry.2 = some placement.code := by
  obtain ⟨shelf, key, code⟩ := placement
  rw [← Shelf.place?_eq_some_iff, of?]
  cases Shelf.place? entry.1 with
  | none => simp
  | some place =>
    obtain ⟨found, name⟩ := place
    simp only [Option.bind_some, Option.map_eq_some_iff, Placement.mk.injEq, Option.some.injEq,
      Prod.mk.injEq]
    constructor
    · rintro ⟨_, kept, rfl, rfl, rfl⟩
      exact ⟨⟨rfl, rfl⟩, kept⟩
    · rintro ⟨⟨rfl, rfl⟩, kept⟩
      exact ⟨code, kept, rfl, rfl, rfl⟩

end Placement

namespace Bound

def entries (bound : Bound) : Shelf → Fields String
  | .base => bound.styles.base
  | .width bucket => (Fields.get? bound.styles.responsive bucket).getD []
  | .options => bound.options
  | .properties => bound.properties
  | .actions => bound.actions

def place (bound : Bound) (placement : Placement) : Bound :=
  let filled := Fields.put (bound.entries placement.shelf) placement.key placement.code
  match placement.shelf with
  | .base => { bound with styles := { bound.styles with base := filled } }
  | .width bucket =>
    { bound with
      styles :=
        { bound.styles with responsive := Fields.put bound.styles.responsive bucket filled } }
  | .options => { bound with options := filled }
  | .properties => { bound with properties := filled }
  | .actions => { bound with actions := filled }

/-- Adding an expression stores it in its place, if it has one. -/
theorem add_eq_place (bound : Bound) (path code : String) :
    bound.add path code = ((Placement.of? (path, code)).map bound.place).getD bound := by
  rw [add, Placement.of?, Shelf.place?]
  dsimp only
  cases Namespace.split? path with
  | none => rfl
  | some found =>
    obtain ⟨space, key⟩ := found
    cases space with
    | style =>
      dsimp only [Style.Expressions.insertBase, Option.bind_some, Shelf.kept?]
      cases Text.trimmed? code <;> rfl
    | responsiveStyles =>
      dsimp only [Style.Expressions.insertResponsive]
      rcases Text.splitFirst? '.' key.toList with _ | ⟨bucket, _ | ⟨c, rest⟩⟩
      · rfl
      · rfl
      · dsimp only [Option.bind_some, Shelf.kept?]
        cases Text.trimmed? code <;> rfl
    | options | properties | actions => rfl

/-- A stored expression is in its map and leaves all others as they are. -/
theorem entries_place (bound : Bound) (placement : Placement) (shelf : Shelf) :
    (bound.place placement).entries shelf =
      if placement.shelf = shelf then
        Fields.put (bound.entries shelf) placement.key placement.code
      else bound.entries shelf := by
  obtain ⟨own, key, code⟩ := placement
  split
  · next same =>
    cases same
    cases own with
    | width bucket =>
      dsimp only [place, entries]
      rw [Fields.get?_put, if_pos rfl]
      rfl
    | base | options | properties | actions => rfl
  · next other =>
    cases own with
    | width bucket =>
      cases shelf with
      | width name =>
        have apart : bucket ≠ name := fun same => other (congrArg Shelf.width same)
        dsimp only [place, entries]
        rw [Fields.get?_put, if_neg apart]
      | base | options | properties | actions => rfl
    | base | options | properties | actions =>
      cases shelf <;> first | rfl | exact absurd rfl other

/-- A width is listed once an expression for it is stored. -/
theorem names_responsive_place (bound : Bound) (placement : Placement) :
    Fields.names (bound.place placement).styles.responsive =
      Fields.names bound.styles.responsive ++
        placement.shelf.bucket?.toList.filter fun bucket =>
          decide (bucket ∉ Fields.names bound.styles.responsive) := by
  obtain ⟨shelf, key, code⟩ := placement
  cases shelf with
  | width bucket =>
    refine (Fields.names_put _ _ _).trans ?_
    by_cases known : bucket ∈ Fields.names bound.styles.responsive
    · simp [Shelf.bucket?, known]
    · simp [Shelf.bucket?, known]
  | base | options | properties | actions => exact (List.append_nil _).symm

/-! ## All expressions -/

/-- The expressions that end up somewhere, in order. -/
def placed (entries : Fields String) : List Placement :=
  entries.filterMap Placement.of?

/-- The expressions that end up in one of the maps, by key and in order. -/
def shelved (shelf : Shelf) (placements : List Placement) : Fields String :=
  placements.filterMap fun placement =>
    if placement.shelf = shelf then some (placement.key, placement.code) else none

def widths (placements : List Placement) : List String :=
  placements.filterMap fun placement => placement.shelf.bucket?

/-- Sorting stores one expression after another. -/
theorem of_eq_place (plain preferred : Fields String) :
    Bound.of plain preferred = (placed (prefer plain preferred)).foldl place {} := by
  rw [of, placed, List.foldl_filterMap]
  congr 1
  funext bound entry
  rw [add_eq_place]
  cases Placement.of? entry <;> rfl

theorem shelved_cons (shelf : Shelf) (placement : Placement) (placements : List Placement) :
    shelved shelf (placement :: placements) =
      (if placement.shelf = shelf then [(placement.key, placement.code)] else []) ++
        shelved shelf placements := by
  rw [shelved, shelved, List.filterMap_cons]
  by_cases own : placement.shelf = shelf
  · rw [if_pos own, if_pos own]
    rfl
  · rw [if_neg own, if_neg own]
    rfl

theorem mem_shelved {shelf : Shelf} {placements : List Placement} {key code : String} :
    (key, code) ∈ shelved shelf placements ↔ { shelf, key, code : Placement } ∈ placements := by
  simp only [shelved, List.mem_filterMap, Option.ite_none_right_eq_some, Option.some.injEq,
    Prod.mk.injEq]
  constructor
  · rintro ⟨placement, member, rfl, rfl, rfl⟩
    exact member
  · intro member
    exact ⟨_, member, rfl, rfl, rfl⟩

/-- What a map holds after some expressions have been stored. -/
theorem entries_foldl_place (bound : Bound) (placements : List Placement) (shelf : Shelf) :
    (placements.foldl place bound).entries shelf =
      Fields.merge (bound.entries shelf) (shelved shelf placements) := by
  induction placements generalizing bound with
  | nil => rfl
  | cons placement placements ih =>
    rw [List.foldl_cons, ih, entries_place, shelved_cons]
    by_cases own : placement.shelf = shelf
    · rw [if_pos own, if_pos own]
      rfl
    · rw [if_neg own, if_neg own]
      rfl

theorem widths_append (placements others : List Placement) :
    widths (placements ++ others) = widths placements ++ widths others :=
  List.filterMap_append

/-- The widths that are listed after some expressions have been stored: each where it first
occurs. -/
theorem names_responsive_foldl_place (placements : List Placement) :
    Fields.names (placements.foldl place {}).styles.responsive = (widths placements).eraseDups := by
  induction placements using List.reverseRecOn with
  | nil => rfl
  | append_singleton placements placement ih =>
    have last : widths [placement] = placement.shelf.bucket?.toList := by
      rw [widths, List.filterMap_cons]
      cases placement.shelf.bucket? <;> rfl
    rw [List.foldl_append, List.foldl_cons, List.foldl_nil, names_responsive_place, ih,
      widths_append, List.eraseDups_append, last]
    congr 1
    cases placement.shelf.bucket? with
    | none => rfl
    | some bucket =>
      by_cases known : bucket ∈ widths placements
      · simp [known, List.removeAll]
      · simp [known, List.removeAll, List.eraseDups_cons]

theorem distinct_responsive_of (plain preferred : Fields String) :
    Fields.Distinct (Bound.of plain preferred).styles.responsive := by
  rw [of_eq_place]
  refine List.foldlRecOn (motive := fun bound : Bound => Fields.Distinct bound.styles.responsive)
    _ _ Fields.distinct_nil ?_
  intro bound distinct placement _
  obtain ⟨shelf, key, code⟩ := placement
  cases shelf with
  | width bucket => exact distinct.put _ _
  | base | options | properties | actions => exact distinct

/-- The keys of a map stand in the order of the paths that lead to them. -/
theorem sublist_shelved (shelf : Shelf) (entries : Fields String) :
    ((Fields.names (shelved shelf (placed entries))).map shelf.path).Sublist
      (Fields.names entries) := by
  induction entries with
  | nil => exact List.Sublist.slnil
  | cons entry entries ih =>
    rw [placed, List.filterMap_cons, ← placed]
    cases found : Placement.of? entry with
    | none => exact ih.cons _
    | some placement =>
      dsimp only
      rw [shelved_cons]
      split
      · next own =>
        obtain ⟨⟨-, -, whole⟩, -⟩ := Placement.of?_eq_some_iff.mp found
        have head : shelf.path placement.key = entry.1 := by rw [whole, own]
        rw [List.singleton_append, Fields.names_cons, List.map_cons, Fields.names_cons, head]
        exact ih.cons_cons _
      · exact ih.cons _

section

variable {entries : Fields String}

theorem distinct_shelved (h : Fields.Distinct entries) (shelf : Shelf) :
    Fields.Distinct (shelved shelf (placed entries)) :=
  List.Nodup.of_map _ (List.Nodup.sublist (sublist_shelved shelf entries) h)

/-- What a map holds of a value under a key: what is stored for the expression under the path
that leads there. -/
theorem get?_shelved (h : Fields.Distinct entries) {shelf : Shelf} {key code : String} :
    Fields.get? (shelved shelf (placed entries)) key = some code ↔
      (shelf.Reached ∧ key ≠ "") ∧
        ∃ source, Fields.get? entries (shelf.path key) = some source ∧
          shelf.kept? source = some code := by
  rw [Fields.get?_eq_some_iff (distinct_shelved h shelf), mem_shelved, placed, List.mem_filterMap]
  constructor
  · rintro ⟨⟨path, source⟩, member, found⟩
    obtain ⟨⟨reached, filled, rfl⟩, kept⟩ := Placement.of?_eq_some_iff.mp found
    exact ⟨⟨reached, filled⟩, source, (Fields.get?_eq_some_iff h).mpr member, kept⟩
  · rintro ⟨⟨reached, filled⟩, source, stored, kept⟩
    refine ⟨_, Fields.mem_of_get? stored, ?_⟩
    exact Placement.of?_eq_some_iff.mpr ⟨⟨reached, filled, rfl⟩, kept⟩

end

/-- The maps that hold expressions, and perhaps further ones that hold none. -/
def shelves (bound : Bound) : List Shelf :=
  .base :: (Fields.names bound.styles.responsive).map .width ++ [.options, .properties, .actions]

/-- All expressions that have been sorted, under the paths that lead to them. -/
def rebuilt (bound : Bound) : Fields String :=
  bound.shelves.flatMap fun shelf =>
    (bound.entries shelf).map fun entry => (shelf.path entry.1, entry.2)

theorem nodup_shelves {bound : Bound} (h : Fields.Distinct bound.styles.responsive) :
    bound.shelves.Nodup := by
  have widths : ((Fields.names bound.styles.responsive).map Shelf.width).Nodup :=
    List.Nodup.map (fun _ _ same => Shelf.width.inj same) h
  simp [shelves, List.nodup_append, widths]

/-- Choosing one of several maps chooses once. -/
theorem flatMap_single {shelves : List Shelf} (h : shelves.Nodup) {own : Shelf}
    (member : own ∈ shelves) (entry : String × String) :
    (shelves.flatMap fun shelf => if own = shelf then [entry] else []) = [entry] := by
  induction shelves with
  | nil => cases member
  | cons shelf shelves ih =>
    obtain ⟨fresh, rest⟩ := List.nodup_cons.mp h
    rw [List.flatMap_cons]
    by_cases same : own = shelf
    · have none : (shelves.flatMap fun shelf => if own = shelf then [entry] else []) = [] := by
        rw [List.flatMap_eq_nil_iff]
        intro other there
        rw [if_neg]
        rintro rfl
        exact fresh (same ▸ there)
      rw [if_pos same, none, List.append_nil]
    · rw [if_neg same, List.nil_append]
      exact ih rest ((List.mem_cons.mp member).resolve_left same)

/-- Expressions that are sorted among different maps are all there, each once. -/
theorem perm_flatMap_shelved {shelves : List Shelf} (h : shelves.Nodup)
    {placements : List Placement} (known : ∀ placement ∈ placements, placement.shelf ∈ shelves) :
    (shelves.flatMap fun shelf =>
      (shelved shelf placements).map fun entry => (shelf.path entry.1, entry.2)).Perm
      (placements.map Placement.entry) := by
  induction placements with
  | nil =>
    have none : (shelves.flatMap fun _ => ([] : Fields String)) = [] := by simp
    exact List.Perm.of_eq none
  | cons placement placements ih =>
    obtain ⟨here, later⟩ := List.forall_mem_cons.mp known
    have step (shelf : Shelf) :
        ((shelved shelf (placement :: placements)).map fun entry =>
          (shelf.path entry.1, entry.2)) =
        (if placement.shelf = shelf then [placement.entry] else []) ++
          (shelved shelf placements).map fun entry => (shelf.path entry.1, entry.2) := by
      rw [shelved_cons, List.map_append]
      split
      · next own =>
        cases own
        rfl
      · rfl
    simp only [step]
    refine (List.flatMap_append_perm shelves _ _).symm.trans ?_
    rw [flatMap_single h here]
    exact (ih later).cons _

/-- Expressions without a place have no effect. -/
theorem of_filter_place (plain preferred : Fields String) :
    Bound.of (plain.filter fun entry => (Shelf.place? entry.1).isSome)
      (preferred.filter fun entry => (Shelf.place? entry.1).isSome) = Bound.of plain preferred := by
  have same (entries : Fields String) :
      placed (entries.filter fun entry => (Shelf.place? entry.1).isSome) = placed entries := by
    rw [placed, placed, List.filterMap_filter]
    apply List.filterMap_congr
    intro entry _
    rw [Placement.of?]
    cases Shelf.place? entry.1 <;> rfl
  rw [of_eq_place, of_eq_place, prefer, prefer,
    ← Fields.filter_merge fun path => (Shelf.place? path).isSome, same]

/-- What a map holds once expressions have been sorted. -/
theorem entries_of {plain preferred : Fields String}
    (distinct : Fields.Distinct (prefer plain preferred)) (shelf : Shelf) :
    (Bound.of plain preferred).entries shelf =
      shelved shelf (placed (prefer plain preferred)) := by
  have empty : (({} : Bound)).entries shelf = [] := by cases shelf <;> rfl
  have written := entries_foldl_place {} (placed (prefer plain preferred)) shelf
  rw [empty, ← of_eq_place] at written
  exact written.trans (Fields.ofEntries_of_distinct (distinct_shelved distinct shelf))

/-- What it means for expressions to be sorted without a loss: every entry of the maps comes from an
expression, and every expression with a place is in just the map that its path leads to. -/
structure Lossless (plain preferred : Fields String) (bound : Bound) : Prop where
  /-- Of two expressions for a path, the preferred one is sorted. -/
  wins : ∀ path, Fields.get? (prefer plain preferred) path =
    (Fields.get? preferred path).or (Fields.get? plain path)
  /-- It takes the place of the other one in the order of paths. -/
  inPlace : Fields.names (prefer plain preferred) =
    Fields.names plain ++
      (Fields.names preferred).filter fun path => decide (path ∉ Fields.names plain)
  /-- A map holds an expression under a key if and only if there is one for the path that leads
  there. -/
  stored : ∀ shelf key code, Fields.get? (bound.entries shelf) key = some code ↔
    (shelf.Reached ∧ key ≠ "") ∧
      ∃ source, Fields.get? (prefer plain preferred) (shelf.path key) = some source ∧
        shelf.kept? source = some code
  /-- No path leads to two places. -/
  single : ∀ (shelf other : Shelf) (key name : String), shelf.Reached → other.Reached → key ≠ "" →
    name ≠ "" → shelf.path key = other.path name → shelf = other ∧ key = name
  /-- The paths that lead nowhere are those that no map has for a key. -/
  nowhere : ∀ path, Shelf.place? path = none ↔
    ∀ (shelf : Shelf) (key : String), shelf.Reached → key ≠ "" → path ≠ shelf.path key
  /-- Expressions under paths that lead nowhere have no effect. -/
  ignored : Bound.of (plain.filter fun entry => (Shelf.place? entry.1).isSome)
    (preferred.filter fun entry => (Shelf.place? entry.1).isSome) = bound
  /-- Keys stand in the order of their paths. -/
  ordered : ∀ shelf, Fields.Distinct (bound.entries shelf) ∧
    ((Fields.names (bound.entries shelf)).map shelf.path).Sublist
      (Fields.names (prefer plain preferred))
  /-- Widths stand in the order of their first styles, and none is without a style. -/
  listed : Fields.Distinct bound.styles.responsive ∧
    Fields.names bound.styles.responsive = (widths (placed (prefer plain preferred))).eraseDups
  /-- The maps hold all that was sorted. -/
  whole : bound.rebuilt.Perm ((placed (prefer plain preferred)).map Placement.entry)

/-- Sorting the expressions of an element loses none that has a place, and stores nothing else. Each
is in the map that its path leads to, in the order of the paths, and of two for one path the
preferred one counts. -/
theorem lossless_of {plain preferred : Fields String} (h : Fields.Distinct plain)
    (h' : Fields.Distinct preferred) : Lossless plain preferred (Bound.of plain preferred) := by
  have distinct : Fields.Distinct (prefer plain preferred) := h.merge preferred
  have held := entries_of distinct
  have listed : Fields.names (Bound.of plain preferred).styles.responsive =
      (widths (placed (prefer plain preferred))).eraseDups := by
    rw [← names_responsive_foldl_place, ← of_eq_place]
  have known : ∀ placement ∈ placed (prefer plain preferred),
      placement.shelf ∈ (Bound.of plain preferred).shelves := by
    rintro ⟨shelf, key, code⟩ member
    cases shelf with
    | width bucket =>
      have own : bucket ∈ Fields.names (Bound.of plain preferred).styles.responsive := by
        rw [listed, List.mem_eraseDups]
        exact List.mem_filterMap.mpr ⟨_, member, rfl⟩
      simp [shelves, own]
    | base | options | properties | actions => simp [shelves]
  constructor
  case wins => exact Fields.get?_merge h'
  case inPlace => exact Fields.names_merge h'
  case stored =>
    intro shelf key code
    rw [held]
    exact get?_shelved distinct
  case single =>
    intro shelf other key name reached reached' filled filled' same
    exact Shelf.path_inj reached reached' filled filled' same
  case nowhere => exact fun path => Shelf.place?_eq_none_iff
  case ignored => exact of_filter_place plain preferred
  case ordered =>
    intro shelf
    rw [held]
    exact ⟨distinct_shelved distinct shelf, sublist_shelved shelf _⟩
  case listed => exact ⟨distinct_responsive_of plain preferred, listed⟩
  case whole =>
    rw [rebuilt]
    simp only [held]
    exact perm_flatMap_shelved (nodup_shelves (distinct_responsive_of plain preferred)) known

/-- Expressions of all kinds: one that is overridden, blank and untrimmed styles, keys that
look like paths, and paths that lead nowhere. -/
theorem lossless_of_mixed :
    let plain : Fields String :=
      [("style.color", " tint "), ("responsiveStyles.small.a.b", "x"), ("show", "y"),
        ("component.options.properties.a", "old"), ("style.width", " "), ("properties.", "z")]
    let preferred : Fields String :=
      [("actions.click", "go()"), ("component.options.properties.a", "new")]
    Fields.Distinct plain ∧ Fields.Distinct preferred ∧
      (Bound.of plain preferred).rebuilt.Perm
        [("style.color", "tint"), ("responsiveStyles.small.a.b", "x"),
          ("component.options.properties.a", "new"), ("actions.click", "go()")] := by
  intro plain preferred
  have distinct : Fields.Distinct plain := by decide
  have distinct' : Fields.Distinct preferred := by decide
  exact ⟨distinct, distinct', (lossless_of distinct distinct').whole⟩

end Bound

end BlockLoom.Content
