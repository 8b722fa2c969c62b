import BlockLoom.Proofs.Fields
import BlockLoom.Proofs.Script.Path
import BlockLoom.Style.Merge
import BlockLoom.Style.Split

/-!
Merging styles and taking them apart. The merged expression is read back as the list
of its members, and with the record of the literals that were merged it falls apart into
these literals and the expressions for single styles. What is asked of an expression is
that it is read back verbatim as the value of a property among properties, and does not start
like an object.
-/

namespace BlockLoom.Style

open Script

/-! ## What is merged -/

/-- The literals for a width that no expression replaces. -/
def kept (literals : Literals) (bound : Expressions) : Breakpoint → Fields Json
  | .small => surviving (literals.forWidth .small) (bound.forWidth .small)
  | .large => surviving (literals.forWidth .large) bound.base

/-- The styles that are merged for every width. -/
def outer (literals : Literals) (bound : Expressions) : Fields String :=
  literalCode (kept literals bound .large) ++ bound.base

/-- The styles that are merged for one width. -/
def inner (literals : Literals) (bound : Expressions) : Breakpoint → Fields String
  | .small => literalCode (kept literals bound .small) ++ bound.forWidth .small
  | .large => bound.forWidth .large

/-- The nested object for a width as a member of the outer one, if it has any styles. -/
def nested (width : Breakpoint) (styles : Fields String) : Fields String :=
  if styles.isEmpty then [] else [(width.query, renderObject styles)]

def members (literals : Literals) (bound : Expressions) : Fields String :=
  outer literals bound ++ nested .small (inner literals bound .small) ++
    nested .large (inner literals bound .large)

theorem nested_eq_nil {width : Breakpoint} {styles : Fields String} :
    nested width styles = [] ↔ styles = [] := by
  cases styles <;> simp [nested]

theorem members_eq_nil {literals : Literals} {bound : Expressions} :
    members literals bound = [] ↔ outer literals bound = [] ∧
      inner literals bound .small = [] ∧ inner literals bound .large = [] := by
  simp [members, nested_eq_nil]

theorem merge_eq (literals : Literals) (bound : Expressions) :
    merge literals bound =
      if members literals bound = [] then none
      else some
        { code := object ((members literals bound).map fun entry => renderMember entry.1 entry.2)
          small := kept literals bound .small
          large := kept literals bound .large } := by
  have part (width : Breakpoint) (styles : Fields String) : queryMember width styles =
      (nested width styles).map fun entry => renderMember entry.1 entry.2 := by
    rw [queryMember, nested]
    split <;> rfl
  have empty : ((outer literals bound).isEmpty && (inner literals bound .small).isEmpty &&
      (inner literals bound .large).isEmpty) = true ↔ members literals bound = [] := by
    rw [members_eq_nil, Bool.and_eq_true, Bool.and_eq_true, and_assoc]
    simp only [List.isEmpty_iff]
  unfold merge
  change (if ((outer literals bound).isEmpty && (inner literals bound .small).isEmpty &&
    (inner literals bound .large).isEmpty) = true then none else some (Merged.mk (object
      ((outer literals bound).map (fun entry => renderMember entry.1 entry.2) ++
        queryMember .small (inner literals bound .small) ++
        queryMember .large (inner literals bound .large))) _ _)) = _
  rw [part, part, ← List.map_append, ← List.map_append, if_congr empty rfl rfl]
  rfl

/-- Nothing is merged only if there is nothing to merge. -/
theorem merge_eq_none_iff (literals : Literals) (bound : Expressions) :
    merge literals bound = none ↔
      literals.forWidth .small = [] ∧ literals.forWidth .large = [] ∧ bound.base = [] ∧
        bound.forWidth .small = [] ∧ bound.forWidth .large = [] := by
  have all (entries : Fields Json) : surviving entries [] = entries :=
    List.filter_eq_self.mpr fun _ _ => rfl
  have code (entries : Fields Json) : literalCode entries = [] ↔ entries = [] := List.map_eq_nil_iff
  rw [merge_eq, ite_eq_left_iff, imp_iff_not (by simp), not_not, members_eq_nil]
  simp only [outer, inner, kept, List.append_eq_nil_iff, code]
  constructor
  · rintro ⟨⟨large, base⟩, ⟨small, bound⟩, other⟩
    rw [base, all] at large
    rw [bound, all] at small
    exact ⟨small, large, base, bound, other⟩
  · rintro ⟨small, large, base, bound, other⟩
    rw [small, large]
    exact ⟨⟨rfl, base⟩, ⟨rfl, bound⟩, other⟩

/-! ## The merged object read back -/

variable {member : String × Entry} {others : List (String × Entry)}

/-- The text of the merged object: every member has a comma behind it, the last one too. -/
private theorem toList_object (member : String × Entry) (others : List (String × Entry)) :
    (object ((member :: others).map Prod.fst)).toList = objectText member others [','] := by
  have commas (member : String) (members : List String) :
      ((member :: members).flatMap fun member => ' ' :: member.toList ++ [',']) =
        ' ' :: member.toList ++ ((members.flatMap fun member => ',' :: ' ' :: member.toList) ++
          [',']) := by
    induction members generalizing member with
    | nil => simp
    | cons other members ih => rw [List.flatMap_cons, ih]; simp
  have behind (member : String) :
      (" " ++ member ++ ",").toList = ' ' :: member.toList ++ [','] := by
    simp
  rw [object, String.toList_append, String.toList_append, String.toList_join, List.flatMap_map]
  simp only [behind, List.map_cons, commas]
  simp [objectText, memberText, List.flatMap_map]

/-- An object of properties that are each read back is read back as their entries. -/
theorem readObject?_properties_object
    (each : ∀ other ∈ member :: others, ReadsProperty other) :
    readObject? (object ((member :: others).map Prod.fst)) =
      some ((member :: others).map Prod.snd) :=
  readObject?_properties (.inl rfl) (toList_object member others) each

theorem readObject?_object {entries : Fields String} (filled : entries ≠ [])
    (values : ∀ entry ∈ entries, ReadsValue entry.2) :
    readObject? (object (entries.map fun entry => renderMember entry.1 entry.2)) =
      some (properties entries) := by
  obtain ⟨entry, entries, rfl⟩ := List.exists_cons_of_ne_nil filled
  have texts : (entry :: entries).map (fun entry => renderMember entry.1 entry.2) =
      (propertyMembers (entry :: entries)).map Prod.fst := by
    rw [propertyMembers, List.map_map]
    rfl
  rw [texts, ← snd_propertyMembers]
  exact readObject?_properties_object (readsProperty_propertyMembers values)

/-- What is asked of styles that are merged: each style is there once, no literal is an
object, no style for every width is called like a nested object, and every expression is
read back verbatim among properties and does not start like an object. -/
structure Separable (literals : Literals) (bound : Expressions) : Prop where
  base : Fields.Distinct bound.base
  widths (width : Breakpoint) :
    Fields.Distinct (literals.forWidth width) ∧ Fields.Distinct (bound.forWidth width)
  plain (width : Breakpoint) : ∀ entry ∈ literals.forWidth width, ∀ members,
    entry.2 ≠ Json.object members
  unqueried (width : Breakpoint) : width.query ∉ Fields.names (literals.forWidth .large) ∧
    width.query ∉ Fields.names bound.base
  verbatim : ∀ entry ∈ bound.base ++ bound.forWidth .small ++ bound.forWidth .large,
    ReadsValue entry.2 ∧ startsObject entry.2 = false

theorem readsValue_literalCode (entries : Fields Json) :
    ∀ entry ∈ literalCode entries, ReadsValue entry.2 := by
  intro entry mem
  obtain ⟨literal, -, rfl⟩ := List.mem_map.mp mem
  exact (readsVerbatim_compact literal.2).value

variable {literals : Literals} {bound : Expressions}

/-- Every expression is read back verbatim among properties. -/
def Expressions.Verbatim (bound : Expressions) : Prop :=
  ∀ entry ∈ bound.base ++ bound.forWidth .small ++ bound.forWidth .large, ReadsValue entry.2

theorem Separable.expressions (h : Separable literals bound) : bound.Verbatim :=
  fun entry mem => (h.verbatim entry mem).1

namespace Expressions.Verbatim

theorem outer (h : bound.Verbatim) : ∀ entry ∈ outer literals bound, ReadsValue entry.2 :=
  List.forall_mem_append.mpr ⟨readsValue_literalCode _, fun entry mem =>
    h entry (List.mem_append_left _ (List.mem_append_left _ mem))⟩

theorem inner (h : bound.Verbatim) (width : Breakpoint) :
    ∀ entry ∈ inner literals bound width, ReadsValue entry.2 := by
  cases width with
  | small =>
    exact List.forall_mem_append.mpr ⟨readsValue_literalCode _, fun entry mem =>
      h entry (List.mem_append_left _ (List.mem_append_right _ mem))⟩
  | large => exact fun entry mem => h entry (List.mem_append_right _ mem)

theorem nested (h : bound.Verbatim) (width : Breakpoint) :
    ∀ entry ∈ nested width (Style.inner literals bound width), ReadsValue entry.2 := by
  have styles := @inner literals bound h width
  generalize Style.inner literals bound width = entries at styles ⊢
  cases entries with
  | nil => exact nofun
  | cons entry entries =>
    exact List.forall_mem_singleton.mpr (readsVerbatim_renderObject styles).value

end Expressions.Verbatim

/-- The merged expression is read back as the list of its members. -/
theorem readObject?_merged (h : bound.Verbatim) {merged : Merged}
    (found : merge literals bound = some merged) :
    readObject? merged.code = some (properties (members literals bound)) := by
  rw [merge_eq] at found
  split at found
  · cases found
  · next filled =>
    cases found
    exact readObject?_object filled (List.forall_mem_append.mpr ⟨List.forall_mem_append.mpr
      ⟨h.outer, h.nested .small⟩, h.nested .large⟩)

/-! ## The record of literals -/

/-- The record of the literals that are merged. -/
def record (literals : Literals) (bound : Expressions) : Json :=
  Merged.recorded ⟨"", kept literals bound .small, kept literals bound .large⟩

theorem get?_record (literals : Literals) (bound : Expressions) (width : Breakpoint)
    (key : String) :
    (((record literals bound).get? width.bucket).bind fun bucket => bucket.get? key) =
      Fields.get? (kept literals bound width) key := by
  rw [record]
  cases width with
  | small =>
    generalize kept literals bound .small = small
    cases small with
    | nil => cases kept literals bound .large <;> rfl
    | cons => rfl
  | large =>
    generalize kept literals bound .large = large
    cases kept literals bound .small <;> cases large <;> rfl

/-- A recorded literal is found again under its compact text. -/
theorem literal?_recorded {width : Breakpoint} {key : String} {value : Json}
    (recorded : Fields.get? (kept literals bound width) key = some value) :
    literal? (some (record literals bound)) width key value.compact = some value := by
  rw [literal?, get?_record, recorded, Option.filter_some, trim_compact, beq_self_eq_true]
  rfl

theorem literal?_kept {width : Breakpoint} {entry : String × Json}
    (distinct : Fields.Distinct (kept literals bound width))
    (mem : entry ∈ kept literals bound width) :
    literal? (some (record literals bound)) width entry.1 entry.2.compact = some entry.2 :=
  literal?_recorded ((Fields.get?_eq_some_iff distinct).mpr mem)

/-- Nothing else is a literal. -/
theorem literal?_bound {width : Breakpoint} {key : String}
    (absent : key ∉ Fields.names (kept literals bound width)) (code : String) :
    literal? (some (record literals bound)) width key code = none := by
  rw [literal?, get?_record, Fields.get?_eq_none_iff.mpr absent, Option.filter_none]

theorem not_mem_names_surviving {entries : Fields Json} {bound : Fields String}
    {entry : String × String} (mem : entry ∈ bound) :
    entry.1 ∉ Fields.names (surviving entries bound) := by
  intro among
  obtain ⟨literal, listed, same⟩ := List.mem_map.mp among
  have free := (List.mem_filter.mp listed).2
  rw [same, Fields.has_iff.mpr (Fields.mem_names_of_mem mem)] at free
  cases free

theorem startsObject_compact {value : Json} (plain : ∀ members, value ≠ .object members) :
    startsObject value.compact = false := by
  unfold startsObject Json.compact
  match value with
  | .null | .bool true | .bool false | .array [] =>
    rw [Json.render]
    decide
  | .number number =>
    rw [Json.render, beq_eq_false_iff_ne]
    intro first
    rcases chars_number number _ (List.mem_of_head? first) with digit | mark
    · exact absurd digit (by decide)
    · exact absurd mark (by decide)
  | .string text => rw [Json.render, Json.toList_quote]; rfl
  | .array (item :: items) => rw [Script.toList_array]; rfl
  | .object members => exact absurd rfl (plain members)

/-! ## Styles one after another -/

def widthLiterals (width : Breakpoint) (entries : Fields Json) : Literals :=
  if entries.isEmpty then [] else [(width.bucket, entries)]

def bindingsAt (path : String → String) (entries : Fields String) : Fields String :=
  entries.map fun entry => (path entry.1, entry.2)

variable {step : Parts → Entry → Parts} {width : Breakpoint}

private theorem insert_last {others : Literals} (fresh : width.bucket ∉ Fields.names others)
    {before : Fields Json} {key : String} (absent : key ∉ Fields.names before) (value : Json) :
    Literals.insert (others ++ [(width.bucket, before)]) width key value =
      others ++ [(width.bucket, before ++ [(key, value)])] := by
  have forWidth : Literals.forWidth (others ++ [(width.bucket, before)]) width = before := by
    rw [Literals.forWidth, Fields.get?_append, Fields.get?_eq_none_iff.mpr fresh, Option.none_or,
      Fields.get?_cons_self]
    rfl
  rw [Literals.insert, forWidth, Fields.put_append fresh, Fields.put_of_not_mem absent, Fields.put,
    if_pos rfl]

private theorem foldl_insert_last {others : Literals} (fresh : width.bucket ∉ Fields.names others)
    {before entries : Fields Json} (distinct : Fields.Distinct (before ++ entries)) :
    entries.foldl (fun all entry => Literals.insert all width entry.1 entry.2)
        (others ++ [(width.bucket, before)]) =
      others ++ [(width.bucket, before ++ entries)] := by
  induction entries generalizing before with
  | nil => rw [List.append_nil]; rfl
  | cons entry entries ih =>
    have absent : entry.1 ∉ Fields.names before := fun mem =>
      (Fields.distinct_append.mp distinct).2.2 _ mem List.mem_cons_self
    have rest : Fields.Distinct ((before ++ [entry]) ++ entries) := by
      rwa [List.append_assoc]
    rw [List.foldl_cons, insert_last fresh absent, ih rest, List.append_assoc]
    rfl

theorem foldl_insert {others : Literals} (fresh : width.bucket ∉ Fields.names others)
    {entries : Fields Json} (distinct : Fields.Distinct entries) :
    entries.foldl (fun all entry => Literals.insert all width entry.1 entry.2) others =
      others ++ widthLiterals width entries := by
  cases entries with
  | nil => exact (List.append_nil _).symm
  | cons entry entries =>
    have first : Literals.insert others width entry.1 entry.2 =
        others ++ [(width.bucket, [entry])] := by
      rw [Literals.insert, Literals.forWidth, Fields.get?_eq_none_iff.mpr fresh,
        Fields.put_of_not_mem fresh]
      rfl
    rw [List.foldl_cons, first, foldl_insert_last fresh distinct]
    rfl

theorem foldl_literals {entries : Fields Json} {parts : Parts}
    (h : ∀ parts, ∀ entry ∈ entries, step parts (.property entry.1 entry.2.compact) =
      parts.addLiteral width entry.1 entry.2)
    (distinct : Fields.Distinct entries)
    (fresh : width.bucket ∉ Fields.names parts.literals) :
    (properties (literalCode entries)).foldl step parts =
      { parts with literals := parts.literals ++ widthLiterals width entries } := by
  rw [← foldl_insert fresh distinct]
  clear fresh distinct
  induction entries generalizing parts with
  | nil => rfl
  | cons entry entries ih =>
    change (properties (literalCode entries)).foldl step
      (step parts (.property entry.1 entry.2.compact)) = _
    rw [h parts entry List.mem_cons_self,
      ih fun parts other mem => h parts other (List.mem_cons_of_mem _ mem)]
    rfl

/-- Bindings that a step adds one by one are all written in their order. -/
theorem foldl_bindings {path : String → String} {entries : Fields String} (parts : Parts)
    (h : ∀ parts, ∀ entry ∈ entries, step parts (.property entry.1 entry.2) =
      parts.addBinding (path entry.1) entry.2) :
    (properties entries).foldl step parts =
      { parts with bindings := Fields.merge parts.bindings (bindingsAt path entries) } := by
  induction entries generalizing parts with
  | nil => rfl
  | cons entry entries ih =>
    change (properties entries).foldl step (step parts (.property entry.1 entry.2)) = _
    rw [h parts entry List.mem_cons_self,
      ih _ fun parts other mem => h parts other (List.mem_cons_of_mem _ mem)]
    rfl

/-! ## Taking the merged object apart -/

theorem ofQuery?_query (width : Breakpoint) : Breakpoint.ofQuery? width.query = some width := by
  cases width <;> decide

theorem ofQuery?_of_ne {key : String} (h : ∀ width : Breakpoint, width.query ≠ key) :
    Breakpoint.ofQuery? key = none :=
  List.find?_eq_none.mpr fun width _ => Bool.not_eq_true _ ▸ decide_eq_false (h width)

theorem Separable.kept (h : Separable literals bound) (width : Breakpoint) :
    Fields.Distinct (kept literals bound width) ∧
      ∀ entry ∈ kept literals bound width, startsObject entry.2.compact = false := by
  have among : (Style.kept literals bound width).Sublist (literals.forWidth width) := by
    cases width <;> exact List.filter_sublist
  exact ⟨(h.widths width).1.sublist among, fun entry mem =>
    startsObject_compact (h.plain width entry (among.subset mem))⟩

/-- A literal for every width is taken from the outer object. -/
theorem add_kept (h : Separable literals bound) (parts : Parts) :
    ∀ entry ∈ kept literals bound .large,
      Parts.add (some (record literals bound)) parts (.property entry.1 entry.2.compact) =
        parts.addLiteral .large entry.1 entry.2 := by
  intro entry mem
  obtain ⟨distinct, plain⟩ := h.kept .large
  have unqueried : Breakpoint.ofQuery? entry.1 = none := ofQuery?_of_ne fun width same =>
    (h.unqueried width).1 (same ▸ Fields.mem_names_of_mem (List.mem_of_mem_filter mem))
  rw [Parts.add, unqueried]
  dsimp only
  rw [plain entry mem, if_neg Bool.false_ne_true, literal?_kept distinct mem]

/-- An expression for every width is taken from the outer object. -/
theorem add_base (h : Separable literals bound) (parts : Parts) :
    ∀ entry ∈ bound.base,
      Parts.add (some (record literals bound)) parts (.property entry.1 entry.2) =
        parts.addBinding (basePath entry.1) entry.2 := by
  intro entry mem
  have plain := (h.verbatim entry (List.mem_append_left _ (List.mem_append_left _ mem))).2
  have unqueried : Breakpoint.ofQuery? entry.1 = none := ofQuery?_of_ne fun width same =>
    (h.unqueried width).2 (same ▸ Fields.mem_names_of_mem mem)
  rw [Parts.add, unqueried]
  dsimp only
  rw [plain, if_neg Bool.false_ne_true, literal?_bound (not_mem_names_surviving mem)]

/-- A literal for the small width is taken from its nested object. -/
theorem addResponsive_kept (h : Separable literals bound) (parts : Parts) :
    ∀ entry ∈ kept literals bound .small,
      Parts.addResponsive (some (record literals bound)) .small parts
        (.property entry.1 entry.2.compact) = parts.addLiteral .small entry.1 entry.2 := by
  intro entry mem
  obtain ⟨distinct, plain⟩ := h.kept .small
  rw [Parts.addResponsive, plain entry mem, if_neg Bool.false_ne_true]
  dsimp only
  rw [literal?_kept distinct mem]

/-- An expression for one width is taken from its nested object. -/
theorem addResponsive_bound (h : Separable literals bound) (width : Breakpoint) (parts : Parts) :
    ∀ entry ∈ bound.forWidth width,
      Parts.addResponsive (some (record literals bound)) width parts
        (.property entry.1 entry.2) =
          parts.addBinding (responsivePath width entry.1) entry.2 := by
  intro entry mem
  cases width with
  | small =>
    have plain := (h.verbatim entry (List.mem_append_left _ (List.mem_append_right _ mem))).2
    rw [Parts.addResponsive, plain, if_neg Bool.false_ne_true]
    dsimp only
    rw [literal?_bound (not_mem_names_surviving mem)]
  | large =>
    have plain := (h.verbatim entry (List.mem_append_right _ mem)).2
    rw [Parts.addResponsive, plain, if_neg Bool.false_ne_true]

/-- The nested object for a width is taken apart style by style. -/
theorem foldl_nested (h : Separable literals bound) (width : Breakpoint) (parts : Parts) :
    (properties (nested width (inner literals bound width))).foldl
        (Parts.add (some (record literals bound))) parts =
      (properties (inner literals bound width)).foldl
        (Parts.addResponsive (some (record literals bound)) width) parts := by
  have verbatim := @Expressions.Verbatim.inner literals bound h.expressions width
  generalize inner literals bound width = entries at verbatim ⊢
  cases entries with
  | nil => rfl
  | cons entry entries =>
    change Parts.add _ parts (.property width.query (renderObject (entry :: entries))) = _
    rw [Parts.add, ofQuery?_query]
    dsimp only
    rw [readObject?_renderObject verbatim]
    rfl

def boundPaths (bound : Expressions) : Fields String :=
  bindingsAt basePath bound.base ++ bindingsAt (responsivePath .small) (bound.forWidth .small) ++
    bindingsAt (responsivePath .large) (bound.forWidth .large)

private theorem distinct_bindingsAt {path : String → String} {entries : Fields String}
    (injective : ∀ key other, path key = path other → key = other)
    (distinct : Fields.Distinct entries) : Fields.Distinct (bindingsAt path entries) := by
  have names : Fields.names (bindingsAt path entries) = (Fields.names entries).map path := by
    rw [Fields.names, Fields.names, bindingsAt, List.map_map, List.map_map]
    rfl
  rw [Fields.Distinct, names]
  exact distinct.map injective

private theorem mem_names_bindingsAt {path : String → String} {entries : Fields String}
    {name : String} (h : name ∈ Fields.names (bindingsAt path entries)) :
    ∃ key, path key = name := by
  obtain ⟨binding, mem, rfl⟩ := List.mem_map.mp h
  obtain ⟨entry, -, rfl⟩ := List.mem_map.mp mem
  exact ⟨entry.1, rfl⟩

theorem basePath_injective {key other : String} (h : basePath key = basePath other) :
    key = other :=
  (String.append_right_inj _).mp h

theorem responsivePath_injective {width : Breakpoint} {key other : String}
    (h : responsivePath width key = responsivePath width other) : key = other :=
  (String.append_right_inj _).mp h

theorem basePath_ne_responsivePath (key : String) (width : Breakpoint) (other : String) :
    basePath key ≠ responsivePath width other := by
  unfold basePath responsivePath
  intro same
  have first := congrArg (fun path => path.toList.head?) same
  simp at first

theorem responsivePath_small_ne_large (key other : String) :
    responsivePath .small key ≠ responsivePath .large other := by
  unfold responsivePath Breakpoint.bucket
  intro same
  simp only [String.append_assoc, String.append_right_inj] at same
  have first := congrArg (fun path => path.toList.head?) same
  simp at first

/-- No two styles have the same binding. -/
theorem distinct_boundPaths (h : Separable literals bound) :
    Fields.Distinct (boundPaths bound) := by
  have base : Fields.Distinct (bindingsAt basePath bound.base) :=
    distinct_bindingsAt (fun _ _ => basePath_injective) h.base
  have responsive (width : Breakpoint) :
      Fields.Distinct (bindingsAt (responsivePath width) (bound.forWidth width)) :=
    distinct_bindingsAt (fun _ _ => responsivePath_injective) (h.widths width).2
  rw [boundPaths]
  refine Fields.distinct_append.mpr
    ⟨Fields.distinct_append.mpr ⟨base, responsive .small, ?_⟩, responsive .large, ?_⟩
  · intro name mem among
    obtain ⟨key, same⟩ := mem_names_bindingsAt mem
    obtain ⟨other, same'⟩ := mem_names_bindingsAt among
    exact basePath_ne_responsivePath key .small other (same.trans same'.symm)
  · intro name mem among
    obtain ⟨other, same'⟩ := mem_names_bindingsAt among
    rw [Fields.names_append, List.mem_append] at mem
    rcases mem with mem | mem
    · obtain ⟨key, same⟩ := mem_names_bindingsAt mem
      exact basePath_ne_responsivePath key .large other (same.trans same'.symm)
    · obtain ⟨key, same⟩ := mem_names_bindingsAt mem
      exact responsivePath_small_ne_large key other (same.trans same'.symm)

/-- The members of the merged object are taken apart, for every width and for each. -/
theorem foldl_members (h : Separable literals bound) :
    (properties (members literals bound)).foldl (Parts.add (some (record literals bound))) {} =
      { literals := widthLiterals .large (kept literals bound .large) ++
          widthLiterals .small (kept literals bound .small)
        bindings := boundPaths bound } := by
  have parted (entries others : Fields String) :
      properties (entries ++ others) = properties entries ++ properties others := List.map_append
  have other : Breakpoint.small.bucket ≠ Breakpoint.large.bucket := by decide
  have fresh : Breakpoint.small.bucket ∉
      Fields.names (widthLiterals .large (kept literals bound .large)) := by
    rw [widthLiterals]
    split
    · exact List.not_mem_nil
    · exact fun mem => other (List.mem_singleton.mp mem)
  have merged : Fields.merge (Fields.merge (Fields.merge [] (bindingsAt basePath bound.base))
      (bindingsAt (responsivePath .small) (bound.forWidth .small)))
      (bindingsAt (responsivePath .large) (bound.forWidth .large)) = boundPaths bound := by
    rw [← Fields.ofEntries_of_distinct (distinct_boundPaths h), boundPaths, Fields.ofEntries,
      Fields.merge_append, Fields.merge_append]
  rw [members, parted, parted, List.foldl_append, List.foldl_append, foldl_nested h,
    foldl_nested h, outer, parted, List.foldl_append,
    foldl_literals (add_kept h) (h.kept .large).1 List.not_mem_nil, foldl_bindings _ (add_base h),
    inner, inner, parted, List.foldl_append,
    foldl_literals (addResponsive_kept h) (h.kept .small).1 fresh,
    foldl_bindings _ (addResponsive_bound h .small),
    foldl_bindings _ (addResponsive_bound h .large)]
  rw [← merged]
  rfl

/-- Merging and taking apart are inverse to each other. Styles are merged into nothing only
if there are none. Else the expression lists the literals for the large width that no
expression replaces, the expressions for every width, and the nested objects of the widths;
and taken apart with the record of the literals, it gives these literals and a binding for
every expression. -/
theorem split_merge (h : Separable literals bound) :
    (merge literals bound = none ↔
      literals.forWidth .small = [] ∧ literals.forWidth .large = [] ∧ bound.base = [] ∧
        bound.forWidth .small = [] ∧ bound.forWidth .large = []) ∧
      ∀ merged, merge literals bound = some merged →
        readObject? merged.code =
            some (properties (outer literals bound ++ nested .small (inner literals bound .small) ++
              nested .large (inner literals bound .large))) ∧
          (∀ width, inner literals bound width ≠ [] →
            readObject? (renderObject (inner literals bound width)) =
              some (properties (inner literals bound width))) ∧
          split merged.code (some merged.recorded) =
            { literals := widthLiterals .large (kept literals bound .large) ++
                widthLiterals .small (kept literals bound .small)
              bindings := boundPaths bound } := by
  refine ⟨merge_eq_none_iff literals bound, fun merged found => ?_⟩
  have read := readObject?_merged h.expressions found
  refine ⟨read, fun width filled => ?_, ?_⟩
  · have verbatim := @Expressions.Verbatim.inner literals bound h.expressions width
    obtain ⟨entry, entries, styles⟩ := List.exists_cons_of_ne_nil filled
    rw [styles] at verbatim ⊢
    exact readObject?_renderObject verbatim
  · have recorded : merged.recorded = record literals bound := by
      rw [merge_eq] at found
      split at found
      · cases found
      · cases found
        rfl
    rw [split, read, recorded]
    exact foldl_members h

def cardLiterals : Literals :=
  [("large", [("color", .string "red"), ("line-height", .ofInt 2)]),
    ("small", [("width", .string "10px")])]

def cardExpressions : Expressions :=
  { base := [("color", "state.color")]
    responsive := [("small", [("display", "props.view.mode")]), ("large", [("margin", "gap")])] }

theorem separable_card : Separable cardLiterals cardExpressions where
  base := by decide
  widths width := by cases width <;> decide
  plain width := by
    cases width with
    | small => exact List.forall_mem_singleton.mpr fun _ => nofun
    | large =>
      exact List.forall_mem_cons.mpr ⟨fun _ => nofun, List.forall_mem_singleton.mpr fun _ => nofun⟩
  unqueried width := by cases width <;> decide
  verbatim := by
    have color : ReadsValue (".".intercalate ["state", "color"]) :=
      (readsVerbatim_properties (by decide) (by decide) (by decide)).value
    have mode : ReadsValue (".".intercalate ["props", "view", "mode"]) :=
      (readsVerbatim_properties (by decide) (by decide) (by decide)).value
    have gap : ReadsValue (".".intercalate ["gap"]) :=
      (readsVerbatim_properties (by decide) (by decide) (by decide)).value
    exact List.forall_mem_cons.mpr ⟨⟨color, by decide⟩, List.forall_mem_cons.mpr
      ⟨⟨mode, by decide⟩, List.forall_mem_singleton.mpr ⟨gap, by decide⟩⟩⟩

theorem card_taken_apart :
    Separable cardLiterals cardExpressions ∧
      ∃ merged, merge cardLiterals cardExpressions = some merged ∧
        split merged.code (some merged.recorded) =
          { literals :=
              [("large", [("line-height", .ofInt 2)]), ("small", [("width", .string "10px")])]
            bindings :=
              [("style.color", "state.color"),
                ("responsiveStyles.small.display", "props.view.mode"),
                ("responsiveStyles.large.margin", "gap")] } := by
  obtain ⟨nothing, taken⟩ := split_merge separable_card
  cases found : merge cardLiterals cardExpressions with
  | none => exact absurd (nothing.mp found).1 (by decide)
  | some merged => exact ⟨separable_card, merged, rfl, (taken merged found).2.2⟩

end BlockLoom.Style
