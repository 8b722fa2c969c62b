import BlockLoom.Proofs.Content.Partition
import BlockLoom.Proofs.Content.Steady

/-!
The styles of an element after its export. The merged expression is taken apart into the
literals that no expression replaced and one binding for every expression, in their order; and
these are merged into the same expression again.
-/

namespace BlockLoom

namespace Style

variable {literals others : Literals} {bound other : Expressions}

/-! ## Merging what was taken apart -/

/-- What is merged depends on the literals that no expression replaces, and on the expressions
for every width and for each known one. -/
theorem merge_congr (same : ∀ width, kept others other width = kept literals bound width)
    (base : other.base = bound.base) (widths : ∀ width, other.forWidth width = bound.forWidth width) :
    merge others other = merge literals bound := by
  have outers : outer others other = outer literals bound := by rw [outer, outer, same, base]
  have inners (width : Breakpoint) : inner others other width = inner literals bound width := by
    cases width with
    | small => rw [inner, inner, same, widths]
    | large => rw [inner, inner, widths]
  have all : members others other = members literals bound := by
    rw [members, members, outers, inners, inners]
  rw [merge_eq, merge_eq, all, same, same]

/-- What merged styles are taken apart into: the literals that no expression replaces, and a
binding for every expression. -/
def partsOf (literals : Literals) (bound : Expressions) : Parts :=
  { literals := widthLiterals .large (kept literals bound .large) ++
      widthLiterals .small (kept literals bound .small)
    bindings := boundPaths bound }

theorem split_merged (h : Separable literals bound) {merged : Merged}
    (found : merge literals bound = some merged) :
    split merged.code (some merged.recorded) = partsOf literals bound := by
  have recorded : merged.recorded = record literals bound := by
    rw [merge_eq] at found
    split at found
    · cases found
    · cases found; rfl
  rw [split, readObject?_merged h.expressions found, recorded]
  exact foldl_members h

/-- Where nothing is merged there is nothing to take apart. -/
theorem partsOf_of_none (h : merge literals bound = none) : partsOf literals bound = {} := by
  obtain ⟨small, large, base, boundSmall, boundLarge⟩ := (merge_eq_none_iff literals bound).mp h
  rw [partsOf, kept, kept, boundPaths, small, large, base, boundSmall, boundLarge]
  rfl

theorem forWidth_partsOf (width : Breakpoint) :
    Literals.forWidth (partsOf literals bound).literals width = kept literals bound width := by
  have found (first last : Breakpoint) (apart : first ≠ last) (entries rest : Fields Json) :
      Literals.forWidth (widthLiterals first entries ++ widthLiterals last rest) first = entries ∧
        Literals.forWidth (widthLiterals first entries ++ widthLiterals last rest) last = rest := by
    have buckets : first.bucket ≠ last.bucket ∧ last.bucket ≠ first.bucket := by
      cases first <;> cases last <;> first | contradiction | decide
    cases entries <;> cases rest <;>
      simp [Literals.forWidth, widthLiterals, Fields.get?, buckets.1, buckets.2]
  cases width with
  | large => exact (found .large .small (by decide) _ _).1
  | small => exact (found .large .small (by decide) _ _).2

/-- A literal that no expression replaces is replaced by none of the same expressions. -/
theorem kept_partsOf (base : other.base = bound.base)
    (widths : ∀ width, other.forWidth width = bound.forWidth width) (width : Breakpoint) :
    kept (partsOf literals bound).literals other width = kept literals bound width := by
  have surviving_surviving (entries : Fields Json) (bound : Fields String) :
      surviving (surviving entries bound) bound = surviving entries bound := by
    rw [surviving, surviving, List.filter_filter]
    simp
  cases width with
  | large => rw [kept, forWidth_partsOf, base]; exact surviving_surviving _ _
  | small => rw [kept, forWidth_partsOf, widths]; exact surviving_surviving _ _

theorem merge_partsOf (base : other.base = bound.base)
    (widths : ∀ width, other.forWidth width = bound.forWidth width) :
    merge (partsOf literals bound).literals other = merge literals bound :=
  merge_congr (kept_partsOf base widths) base widths

end Style

namespace Content

namespace Bound

/-! ## Sorting the bindings of styles -/

theorem placed_append (entries others : Fields String) :
    placed (entries ++ others) = placed entries ++ placed others :=
  List.filterMap_append

theorem shelved_append (shelf : Shelf) (placements others : List Placement) :
    shelved shelf (placements ++ others) = shelved shelf placements ++ shelved shelf others :=
  List.filterMap_append

/-- Expressions under the paths of one map are sorted into it as they are. -/
theorem shelved_bindingsAt (shelf own : Shelf) {path : String → String} {entries : Fields String}
    (paths : ∀ key, path key = own.path key) (reached : own.Reached)
    (valid : ∀ entry ∈ entries, entry.1 ≠ "" ∧ own.kept? entry.2 = some entry.2) :
    shelved shelf (placed (Style.bindingsAt path entries)) =
      if own = shelf then entries else [] := by
  have each {entry : String × String} (member : entry ∈ entries) :
      Placement.of? (path entry.1, entry.2) = some ⟨own, entry.1, entry.2⟩ := by
    obtain ⟨filled, kept⟩ := valid entry member
    exact Placement.of?_eq_some_iff.mpr ⟨⟨reached, filled, paths _⟩, kept⟩
  have placements : placed (Style.bindingsAt path entries) =
      entries.map fun entry => ⟨own, entry.1, entry.2⟩ := by
    rw [placed, Style.bindingsAt, List.filterMap_map, ← List.filterMap_eq_map]
    exact List.filterMap_congr fun entry member => each member
  rw [placements, shelved, List.filterMap_map]
  split
  · next same => simp [same]
  · next other => simp [other]

/-- A stored expression has a key, and is stored as it is when it is sorted again. -/
theorem valid_of_entries {plain preferred : Fields String}
    (distinct : Fields.Distinct (prefer plain preferred)) (shelf : Shelf) :
    ∀ entry ∈ (Bound.of plain preferred).entries shelf,
      entry.1 ≠ "" ∧ shelf.kept? entry.2 = some entry.2 := by
  rw [entries_of distinct]
  rintro ⟨key, code⟩ member
  obtain ⟨⟨path, source⟩, -, placement⟩ := List.mem_filterMap.mp (mem_shelved.mp member)
  obtain ⟨⟨-, filled, -⟩, kept⟩ := Placement.of?_eq_some_iff.mp placement
  refine ⟨filled, ?_⟩
  cases shelf with
  | base | width bucket =>
    rw [Shelf.kept?] at kept ⊢
    exact Text.trimmed?_of_trimmed? kept
  | options | properties | actions => rfl

def leadsTo (shelf : Shelf) (path : String) : Bool :=
  (Shelf.place? path).any fun place => decide (place.1 = shelf)

/-- Only paths that lead to a map matter for what it holds. -/
theorem shelved_filter (shelf : Shelf) (entries : Fields String) :
    shelved shelf (placed (entries.filter fun entry => leadsTo shelf entry.1)) =
      shelved shelf (placed entries) := by
  induction entries with
  | nil => rfl
  | cons entry entries ih =>
    have one (entries : Fields String) : shelved shelf (placed (entry :: entries)) =
        shelved shelf (placed [entry]) ++ shelved shelf (placed entries) := by
      rw [← shelved_append, ← placed_append, List.singleton_append]
    rw [List.filter_cons]
    split
    · rw [one, ih, ← one]
    · next elsewhere =>
      rw [ih, one]
      have nothing : shelved shelf (placed [entry]) = [] := by
        rw [List.eq_nil_iff_forall_not_mem]
        rintro ⟨key, code⟩ member
        obtain ⟨_, single, placement⟩ := List.mem_filterMap.mp (mem_shelved.mp member)
        cases List.mem_singleton.mp single
        obtain ⟨place, -⟩ := Placement.of?_eq_some_iff.mp placement
        rw [leadsTo, Shelf.place?_eq_some_iff.mpr place] at elsewhere
        simp at elsewhere
      rw [nothing, List.nil_append]

/-- The bindings of styles are sorted into the styles that they are bindings of. -/
theorem shelved_boundPaths {plain preferred : Fields String}
    (distinct : Fields.Distinct (prefer plain preferred)) :
    shelved .base (placed (Style.boundPaths (Bound.of plain preferred).styles)) =
        (Bound.of plain preferred).styles.base ∧
      ∀ width : Style.Breakpoint,
        shelved (.width width.bucket) (placed (Style.boundPaths (Bound.of plain preferred).styles)) =
          (Bound.of plain preferred).styles.forWidth width := by
  have sorted (shelf : Shelf) :
      shelved shelf (placed (Style.boundPaths (Bound.of plain preferred).styles)) =
        (if Shelf.base = shelf then (Bound.of plain preferred).entries .base else []) ++
          (if Shelf.width "small" = shelf then (Bound.of plain preferred).entries (.width "small")
            else []) ++
          (if Shelf.width "large" = shelf then (Bound.of plain preferred).entries (.width "large")
            else []) := by
    rw [Style.boundPaths, placed_append, placed_append, shelved_append, shelved_append,
      ← shelved_bindingsAt shelf .base (show ∀ key, Style.basePath key = Shelf.base.path key from
        fun _ => rfl) trivial (valid_of_entries distinct .base),
      ← shelved_bindingsAt shelf (.width "small") (path_responsive .small) (by decide)
        (valid_of_entries distinct (.width "small")),
      ← shelved_bindingsAt shelf (.width "large") (path_responsive .large) (by decide)
        (valid_of_entries distinct (.width "large"))]
    rfl
  refine ⟨?_, fun width => ?_⟩
  · rw [sorted]
    simp [Bound.entries]
  · rw [sorted]
    cases width <;> simp [Bound.entries, Style.Breakpoint.bucket, Style.Expressions.forWidth]

end Bound

/-! ## Styles of the exported element -/

variable {settings : ImportSettings} {element : Element} {parts : OptionParts}
  {children : List Node}

def Element.partsOf (element : Element) : Style.Parts :=
  Style.partsOf (element.styles.getD []) element.bound.styles

theorem styleParts?_eq (h : element.Stays settings parts children) :
    element.styleParts? = element.merged?.map fun _ => element.partsOf := by
  rw [Element.styleParts?, Element.merged?]
  cases merges : Style.merge (element.styles.getD []) element.bound.styles with
  | none => rfl
  | some merged => exact congrArg some (Style.split_merged h.steady.styles merges)

theorem partsOf_of_unmerged (h : element.merged? = none) : element.partsOf = {} :=
  Style.partsOf_of_none h

/-- The literal styles of the exported element are those that no expression replaces. -/
theorem styles_exported_getD (h : element.Stays settings parts children) :
    (exportNode (element.body settings parts children)).styles.getD [] =
      element.partsOf.literals := by
  rw [styles_exported h.loop, styleParts?_eq h]
  cases merged : element.merged? with
  | none => rw [partsOf_of_unmerged merged]; rfl
  | some merged =>
    change (if element.partsOf.literals.isEmpty then none
      else some element.partsOf.literals : Option Style.Literals).getD [] = _
    cases element.partsOf.literals <;> rfl

def Shelf.Styled (shelf : Shelf) : Prop :=
  ∀ key, Style.IsPath (shelf.path key)

theorem not_leadsTo {shelf : Shelf} (styled : shelf.Styled) {space : Namespace}
    (known : space = .options ∨ space = .properties) (key : String) :
    Bound.leadsTo shelf (space.path key) = false := by
  rw [Bool.eq_false_iff]
  intro leads
  rw [Bound.leadsTo, Option.any_eq_true] at leads
  obtain ⟨⟨own, name⟩, found, same⟩ := leads
  cases of_decide_eq_true same
  have path : space.path key = own.path name := (Shelf.place?_eq_some_iff.mp found).2.2
  have isPath := styled name
  rw [← path] at isPath
  exact not_isPath_field known key isPath

/-- Of what the bindings of a node are written as, only the binding for all styles is written as
styles. -/
theorem filter_writtenPaths {node : Node} {shelf : Shelf} (styled : shelf.Styled)
    {bindings : Fields Binding} (distinct : Fields.Distinct bindings) :
    ((writtenPaths node bindings).filter fun entry => Bound.leadsTo shelf entry.1) =
      match Fields.get? bindings styleKey with
      | some binding => (stylesOf node (styleKey, binding)).bindings.filter fun entry =>
          Bound.leadsTo shelf entry.1
      | none => [] := by
  induction bindings with
  | nil => rfl
  | cons entry bindings ih =>
    obtain ⟨key, binding⟩ := entry
    obtain ⟨fresh, rest⟩ := Fields.distinct_cons.mp distinct
    have field : ((pathOf node (key, binding)).filter fun entry =>
        Bound.leadsTo shelf entry.1) = [] := by
      rw [pathOf]
      split
      · rfl
      · split
        · rw [List.filter_cons, not_leadsTo styled (fieldSpace_known node _)]
          rfl
        · rfl
    have first : writtenPaths node ((key, binding) :: bindings) =
        (stylesOf node (key, binding)).bindings ++ pathOf node (key, binding) ++
          writtenPaths node bindings := rfl
    rw [first, List.filter_append, List.filter_append, field, ih rest, List.append_nil, Fields.get?]
    by_cases style : key = styleKey
    · subst style
      rw [if_pos rfl, Fields.get?_eq_none_iff.mpr fresh, List.append_nil]
    · rw [if_neg style, stylesOf, if_neg style]
      rfl

/-- No kept setting called `style` is a style. -/
theorem filter_restoreBound {shelf : Shelf} (styled : shelf.Styled) (property option : Option FieldValue) :
    ((restoreBound .properties property (restoreBound .options option [])).filter fun entry =>
      Bound.leadsTo shelf entry.1) = [] := by
  rw [List.filter_eq_nil_iff]
  rintro ⟨path, code⟩ member
  rw [Bool.not_eq_true]
  rcases mem_names_restoreBound (Fields.mem_names_of_mem member) with rfl | inner
  · exact not_leadsTo styled (.inr rfl) styleKey
  · rcases mem_names_restoreBound inner with rfl | empty
    · exact not_leadsTo styled (.inl rfl) styleKey
    · cases empty

/-- The expressions for styles on the exported element are those of the element, in order. -/
theorem shelved_exported (h : element.Stays settings parts children) {shelf : Shelf}
    (styled : shelf.Styled) :
    Bound.shelved shelf
        (Bound.placed (exportNode (element.body settings parts children)).expressions) =
      Bound.shelved shelf (Bound.placed element.partsOf.bindings) := by
  have distinct : Fields.Distinct (element.body settings parts children).bindings := h.body.bindings
  have field := (element.hasField_style settings parts children).binding
  have written := @filter_writtenPaths (element.body settings parts children) shelf styled _ distinct
  have whole : ((writtenPaths (element.body settings parts children)
      (element.body settings parts children).bindings).filter fun entry =>
        Bound.leadsTo shelf entry.1) =
      element.partsOf.bindings.filter fun entry => Bound.leadsTo shelf entry.1 := by
    rw [written, field]
    cases merges : Style.merge (element.styles.getD []) element.bound.styles with
    | none => rw [partsOf_of_unmerged merges]; rfl
    | some merged =>
      change (stylesOf (element.body settings parts children)
        (styleKey, .expression merged.code)).bindings.filter _ = _
      rw [stylesOf_body merges, Style.split_merged h.steady.styles merges]
      rfl
  have apart : Fields.Distinct element.partsOf.bindings :=
    Style.distinct_boundPaths h.steady.styles
  rw [← Bound.shelved_filter, expressions_exportNode h.loop, Fields.filter_merge,
    filter_restoreBound styled, whole]
  change Bound.shelved shelf (Bound.placed (Fields.ofEntries _)) = _
  rw [Fields.ofEntries_of_distinct (apart.filter _), Bound.shelved_filter]

theorem bound_styles_exported (h : element.Stays settings parts children) :
    (exportNode (element.body settings parts children)).bound.styles.base =
        element.bound.styles.base ∧
      ∀ width, (exportNode (element.body settings parts children)).bound.styles.forWidth width =
        element.bound.styles.forWidth width := by
  have keyed := keyed_exported h
  have entries {shelf : Shelf} (styled : shelf.Styled) :
      (exportNode (element.body settings parts children)).bound.entries shelf =
        Bound.shelved shelf (Bound.placed element.partsOf.bindings) :=
    (Bound.entries_of (Element.distinct_expressions keyed) shelf).trans (shelved_exported h styled)
  obtain ⟨base, widths⟩ := Bound.shelved_boundPaths (Element.distinct_expressions h.keyed)
  exact ⟨(entries fun key => ⟨key, .inl rfl⟩).trans base,
    fun width => (entries fun key => ⟨_, .inr rfl⟩).trans (widths width)⟩

/-- The styles of the exported element are merged into the same expression. -/
theorem merged?_exported (h : element.Stays settings parts children) :
    (exportNode (element.body settings parts children)).merged? = element.merged? := by
  obtain ⟨base, widths⟩ := bound_styles_exported h
  rw [Element.merged?, styles_exported_getD h]
  exact Style.merge_partsOf base widths

end Content

end BlockLoom
