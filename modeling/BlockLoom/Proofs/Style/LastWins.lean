import BlockLoom.Proofs.Content.Ignored
import BlockLoom.Proofs.Json.Text
import BlockLoom.Proofs.Style.Literal

/-!
Of styles with the same key the last one counts. An object of styles falls apart into
literals and expressions, and merging puts the expressions first: what is merged gives every
style as the object did if a key that is given by an expression at all is given by one last,
and if a nested object leaves out none of the keys of an earlier one for the same width.
-/

namespace BlockLoom.Style

open Script

/-! ## What an object gives -/

def propertiesOf (entries : List Entry) : Fields String :=
  entries.filterMap fun
    | .property key code => some (key, code)
    | _ => none

def propertiesIn (code : String) : Fields String :=
  propertiesOf ((readObject? code).getD [])

def objectsAt (entries : List Entry) : Option Breakpoint → List (Fields String)
  | none => [(propertiesOf entries).filter fun entry => Breakpoint.ofQuery? entry.1 = none]
  | some width =>
    ((propertiesOf entries).filter fun entry => Breakpoint.ofQuery? entry.1 = some width).map
      fun entry => propertiesIn entry.2

/-- The object that counts: a nested one takes the place of all before it. -/
def lastAt (entries : List Entry) (width : Option Breakpoint) : Fields String :=
  (objectsAt entries width).getLast?.getD []

/-- The source of a style as it counts: the last one under its key in the object that counts. -/
def effective (entries : List Entry) (width : Option Breakpoint) (key : String) : Option String :=
  Fields.get? (Fields.ofEntries (lastAt entries width)) key

/-- The literal that a source stands for. Among the styles for the large width none is told. -/
def literalAt : Option Breakpoint → String → Option Json
  | some .large, _ => none
  | _, code => (literalValue? code).filter fun value => value.isString || value.isNumber

/-- How the source of a style is written when it is merged again. -/
def restyled (width : Option Breakpoint) (code : String) : String :=
  ((literalAt width code).map Json.compact).getD code

/-- The styles that are merged for every width, or for one. -/
def assigned (literals : Literals) (bound : Expressions) : Option Breakpoint → Fields String
  | none => outer literals bound
  | some width => inner literals bound width

/-- One style among all that an object gives. -/
structure Given where
  width : Option Breakpoint
  key : String
  code : String
  deriving DecidableEq

/-- The styles that a member gives: itself, or those of the nested object that it is. -/
def givenBy : Entry → List Given
  | .property key code =>
    match Breakpoint.ofQuery? key with
    | some width => (propertiesIn code).map fun style => ⟨some width, style.1, style.2⟩
    | none => [⟨none, key, code⟩]
  | _ => []

/-- All styles that an object gives, in order. -/
def given (entries : List Entry) : List Given :=
  entries.flatMap givenBy

def Given.IsBound (style : Given) : Prop :=
  literalAt style.width style.code = none

instance : DecidablePred Given.IsBound :=
  fun style => inferInstanceAs (Decidable (literalAt style.width style.code = none))

/-- What is asked of an object for its styles to count after merging as they did before. Merging
writes a literal only where there is no expression, and one nested object for each width. -/
structure Restorable (entries : List Entry) : Prop where
  /-- No value starts like an object, nested ones for a width aside. -/
  plain : ∀ style ∈ given entries, startsObject style.code = false
  /-- The key and the source of an expression are texts that a binding keeps. -/
  solid : ∀ style ∈ given entries, style.IsBound →
    style.key ≠ "" ∧ Text.trimmed? style.code = some style.code
  /-- A key that is given by an expression is given by an expression last. -/
  boundLast : ∀ style ∈ given entries, style.IsBound →
    ∀ code ∈ effective entries style.width style.key, literalAt style.width code = none
  /-- A nested object leaves out no key of an earlier one for the same width. -/
  repeated : ∀ width, ∀ styles ∈ objectsAt entries width, ∀ key ∈ Fields.names styles,
    key ∈ Fields.names (lastAt entries width)

def stylesAt (width : Option Breakpoint) (styles : List Given) : Fields String :=
  styles.filterMap fun style => if style.width = width then some (style.key, style.code) else none

/-- A source that stands for no literal. -/
def expression? (width : Option Breakpoint) (code : String) : Option String :=
  if (literalAt width code).isNone then some code else none

def expressionsIn (width : Option Breakpoint) (styles : Fields String) : Fields String :=
  Fields.select (expression? width) styles

def literalsIn (width : Option Breakpoint) (styles : Fields String) : Fields Json :=
  Fields.select (literalAt width) styles

variable {width : Option Breakpoint} {key : String}

theorem stylesAt_append (width : Option Breakpoint) (styles others : List Given) :
    stylesAt width (styles ++ others) = stylesAt width styles ++ stylesAt width others :=
  List.filterMap_append

theorem stylesAt_given (width : Option Breakpoint) (entries : List Entry) :
    stylesAt width (given entries) = (objectsAt entries width).flatten := by
  have nested (other : Breakpoint) (fields : Fields String) :
      stylesAt width (fields.map fun style => ⟨some other, style.1, style.2⟩) =
        if width = some other then fields else [] := by
    induction fields with
    | nil => split <;> rfl
    | cons entry fields ih =>
      rw [stylesAt] at ih
      rw [List.map_cons, stylesAt, List.filterMap_cons, ih]
      by_cases same : width = some other
      · subst same
        simp
      · simp [same, Ne.symm same]
  induction entries with
  | nil => cases width <;> rfl
  | cons entry entries ih =>
    rw [given, List.flatMap_cons, stylesAt_append]
    change _ ++ stylesAt width (given entries) = _
    rw [ih]
    cases entry with
    | property key code =>
      rw [givenBy]
      cases queried : Breakpoint.ofQuery? key with
      | none =>
        cases width with
        | none => simp [stylesAt, objectsAt, propertiesOf, queried]
        | some width => simp [stylesAt, objectsAt, propertiesOf, queried]
      | some other =>
        dsimp only
        rw [nested]
        cases width with
        | none => simp [objectsAt, propertiesOf, queried]
        | some width =>
          by_cases same : other = width
          · simp [objectsAt, propertiesOf, queried, same]
          · simp [objectsAt, propertiesOf, queried, same, Ne.symm same]
    | _ => cases width <;> rfl

/-- If the last object leaves out no key, the styles of all objects count as its own do. -/
theorem get?_stylesAt {entries : List Entry} (h : Restorable entries)
    (width : Option Breakpoint) (key : String) :
    Fields.get? (Fields.ofEntries (stylesAt width (given entries))) key =
      effective entries width key := by
  have repeated := h.repeated width
  rw [stylesAt_given, effective]
  unfold lastAt at repeated ⊢
  rcases List.eq_nil_or_concat (objectsAt entries width) with empty | ⟨before, last, objects⟩
  · rw [empty]
    rfl
  · rw [objects] at repeated ⊢
    rw [List.concat_eq_append, List.getLast?_concat, Option.getD_some] at repeated ⊢
    rw [List.flatten_append, List.flatten_singleton,
      Fields.get?_ofEntries_append]
    cases found : Fields.get? (Fields.ofEntries last) key with
    | some code => rfl
    | none =>
      rw [Option.none_or, Fields.get?_eq_none_iff, Fields.mem_names_ofEntries]
      intro among
      obtain ⟨code, mem⟩ := Fields.mem_names.mp among
      obtain ⟨styles, listed, mem⟩ := List.mem_flatten.mp mem
      have kept := repeated styles (by simp [listed]) key (Fields.mem_names_of_mem mem)
      exact Fields.get?_eq_none_iff.mp found (Fields.mem_names_ofEntries.mpr kept)

/-! ## Taking an object apart -/

def pathAt : Option Breakpoint → String → String
  | none => basePath
  | some width => responsivePath width

theorem pathAt_inj {width other : Option Breakpoint} {key name : String} :
    pathAt width key = pathAt other name ↔ width = other ∧ key = name := by
  constructor
  · intro same
    match width, other, same with
    | none, none, same => exact ⟨rfl, basePath_injective same⟩
    | none, some other, same => exact absurd same (basePath_ne_responsivePath _ _ _)
    | some width, none, same => exact absurd same.symm (basePath_ne_responsivePath _ _ _)
    | some .small, some .small, same => exact ⟨rfl, responsivePath_injective same⟩
    | some .large, some .large, same => exact ⟨rfl, responsivePath_injective same⟩
    | some .small, some .large, same => exact absurd same (responsivePath_small_ne_large _ _)
    | some .large, some .small, same =>
      exact absurd same.symm (responsivePath_small_ne_large _ _)
  · rintro ⟨rfl, rfl⟩
    rfl

def Parts.place (parts : Parts) (style : Given) : Parts :=
  match literalAt style.width style.code with
  | some value => parts.addLiteral (style.width.getD .large) style.key value
  | none => parts.addBinding (pathAt style.width style.key) style.code

theorem foldl_addResponsive (width : Breakpoint) (entries : List Entry) (parts : Parts)
    (plain : ∀ entry ∈ propertiesOf entries, startsObject entry.2 = false) :
    entries.foldl (Parts.addResponsive none width) parts =
      ((propertiesOf entries).map fun style => ⟨some width, style.1, style.2⟩).foldl Parts.place
        parts := by
  induction entries generalizing parts with
  | nil => rfl
  | cons entry entries ih =>
    cases entry with
    | property key code =>
      obtain ⟨first, rest⟩ := List.forall_mem_cons.mp plain
      have step : Parts.addResponsive none width parts (.property key code) =
          parts.place ⟨some width, key, code⟩ := by
        unfold Parts.addResponsive
        dsimp only at first ⊢
        rw [first, if_neg Bool.false_ne_true]
        cases width <;> rfl
      rw [List.foldl_cons, step, ih _ rest]
      rfl
    | _ => exact ih parts plain

/-- Taking an object apart places its styles one by one. -/
theorem foldl_add (entries : List Entry) (parts : Parts)
    (plain : ∀ style ∈ given entries, startsObject style.code = false) :
    entries.foldl (Parts.add none) parts = (given entries).foldl Parts.place parts := by
  induction entries generalizing parts with
  | nil => rfl
  | cons entry entries ih =>
    rw [given, List.flatMap_cons] at plain
    obtain ⟨first, rest⟩ := List.forall_mem_append.mp plain
    have step : Parts.add none parts entry = (givenBy entry).foldl Parts.place parts := by
      cases entry with
      | property key code =>
        unfold givenBy at first ⊢
        unfold Parts.add
        dsimp only at first ⊢
        cases queried : Breakpoint.ofQuery? key with
        | some width =>
          rw [queried] at first
          exact foldl_addResponsive width _ parts fun entry mem =>
            first ⟨some width, entry.1, entry.2⟩ (List.mem_map.mpr ⟨entry, mem, rfl⟩)
        | none =>
          rw [queried] at first
          dsimp only at first ⊢
          rw [first _ List.mem_cons_self, if_neg Bool.false_ne_true]
          rfl
      | _ => rfl
    rw [List.foldl_cons, step, ih _ rest, ← List.foldl_append]
    rfl

/-- A style counts among those of its level unless a later one has its key. -/
theorem get?_select_cons {α : Type} (read : String → Option α) (width : Option Breakpoint)
    (style : Given) (styles : List Given) (key : String) :
    Fields.get? (Fields.ofEntries (Fields.select read (stylesAt width (style :: styles)))) key =
      (Fields.get? (Fields.ofEntries (Fields.select read (stylesAt width styles))) key).or
        (if style.width = width ∧ style.key = key then read style.code else none) := by
  rw [stylesAt, stylesAt, List.filterMap_cons]
  by_cases same : style.width = width
  · rw [if_pos same]
    dsimp only
    rw [Fields.get?_ofEntries_select_cons]
    simp only [same, true_and]
  · rw [if_neg same, if_neg fun h => same h.1, Option.or_none]

/-- The level whose literals are kept for a width. -/
def home : Breakpoint → Option Breakpoint
  | .small => some .small
  | .large => none

theorem get?_forWidth_place (parts : Parts) (style : Given) (width : Breakpoint) (key : String) :
    Fields.get? ((parts.place style).literals.forWidth width) key =
      (if style.width = home width ∧ style.key = key then literalAt (home width) style.code
        else none).or (Fields.get? (parts.literals.forWidth width) key) := by
  rw [Parts.place]
  cases literal : literalAt style.width style.code with
  | none =>
    have none : (if style.width = home width ∧ style.key = key
        then literalAt (home width) style.code else none) = none := by
      split
      · next same => rw [← same.1, literal]
      · rfl
    rw [none]
    rfl
  | some value =>
    have homes : style.width.getD .large = width ↔ style.width = home width := by
      match given : style.width, width with
      | none, .small | none, .large | some .small, .small | some .small, .large => decide
      | some .large, _ =>
        rw [given] at literal
        cases literal
    dsimp only
    rw [Parts.addLiteral, get?_forWidth_insert]
    simp only [homes]
    split
    · next same => rw [← same.1, literal]; rfl
    · rfl

/-- The last literal under a key is kept. -/
theorem get?_forWidth_foldl (styles : List Given) (parts : Parts) (width : Breakpoint)
    (key : String) :
    Fields.get? ((styles.foldl Parts.place parts).literals.forWidth width) key =
      (Fields.get? (Fields.ofEntries (literalsIn (home width) (stylesAt (home width) styles)))
        key).or (Fields.get? (parts.literals.forWidth width) key) := by
  induction styles generalizing parts with
  | nil => rfl
  | cons style styles ih =>
    rw [List.foldl_cons, ih, get?_forWidth_place, literalsIn, literalsIn, get?_select_cons,
      Option.or_assoc]

theorem get?_bindings_place (parts : Parts) (style : Given) (width : Option Breakpoint)
    (key : String) :
    Fields.get? (parts.place style).bindings (pathAt width key) =
      (if style.width = width ∧ style.key = key then expression? width style.code else none).or
        (Fields.get? parts.bindings (pathAt width key)) := by
  rw [Parts.place]
  cases literal : literalAt style.width style.code with
  | some value =>
    have none : (if style.width = width ∧ style.key = key
        then expression? width style.code else none) = none := by
      split
      · next same => rw [← same.1, expression?, literal]; rfl
      · rfl
    rw [none]
    rfl
  | none =>
    dsimp only
    rw [Parts.addBinding, Fields.get?_put]
    simp only [pathAt_inj]
    split
    · next same => rw [← same.1, expression?, literal]; rfl
    · rfl

/-- The last expression under a key is bound. -/
theorem get?_bindings_foldl (styles : List Given) (parts : Parts) (width : Option Breakpoint)
    (key : String) :
    Fields.get? (styles.foldl Parts.place parts).bindings (pathAt width key) =
      (Fields.get? (Fields.ofEntries (expressionsIn width (stylesAt width styles))) key).or
        (Fields.get? parts.bindings (pathAt width key)) := by
  induction styles generalizing parts with
  | nil => rfl
  | cons style styles ih =>
    rw [List.foldl_cons, ih, get?_bindings_place, expressionsIn, expressionsIn, get?_select_cons,
      Option.or_assoc]

/-- The literals of a width stand under different keys. -/
theorem distinct_forWidth_foldl (styles : List Given) (width : Breakpoint) :
    Fields.Distinct ((styles.foldl Parts.place {}).literals.forWidth width) := by
  refine List.foldlRecOn (motive := fun parts : Parts =>
    ∀ width, Fields.Distinct (parts.literals.forWidth width)) styles _ ?_ ?_ width
  · intro width
    exact Fields.distinct_nil
  · intro parts distinct style _ width
    rw [Parts.place]
    split
    · rw [Parts.addLiteral, Literals.insert, Literals.forWidth, Fields.get?_put]
      split
      · exact (distinct _).put _ _
      · exact distinct width
    · exact distinct width

/-! ## The bindings of styles -/

def Expressions.forLevel (styles : Expressions) : Option Breakpoint → Fields String
  | none => styles.base
  | some width => styles.forWidth width

/-- A binding that is the expression of a style. -/
def IsStyle (binding : String × String) : Prop :=
  ∃ width key, binding.1 = pathAt width key ∧ key ≠ "" ∧ Text.trimmed? binding.2 = some binding.2

open Content in
/-- The binding of a style adds its expression to its level and to no other. -/
theorem forLevel_add (bound : Bound) {key code : String} (filled : key ≠ "")
    (solid : Text.trimmed? code = some code) (width other : Option Breakpoint) :
    (bound.add (pathAt width key) code).styles.forLevel other =
      if width = other then Fields.put (bound.styles.forLevel other) key code
      else bound.styles.forLevel other := by
  cases width with
  | none =>
    have split : Namespace.split? (basePath key) = some (.style, key) :=
      Namespace.split?_path .style filled
    rw [pathAt, Bound.add, split]
    dsimp only
    rw [Expressions.insertBase, solid]
    cases other <;> rfl
  | some width =>
    have split : Namespace.split? (responsivePath width key) =
        some (.responsiveStyles, width.bucket ++ "." ++ key) := by
      rw [path_responsive]
      exact Namespace.split?_path _ (by cases width <;> simp [Breakpoint.bucket])
    obtain ⟨c, rest, letters⟩ : ∃ c rest, key.toList = c :: rest :=
      List.exists_cons_of_ne_nil (by simpa using filled)
    have bare : '.' ∉ width.bucket.toList := by cases width <;> decide
    have parted : Text.splitFirst? '.' (width.bucket ++ "." ++ key).toList =
        some (width.bucket.toList, c :: rest) := by
      rw [String.toList_append, String.toList_append, List.append_assoc, ← letters]
      exact splitFirst?_append bare key.toList
    have buckets (other : Breakpoint) : width.bucket = other.bucket ↔ width = other := by
      cases width <;> cases other <;> decide
    rw [pathAt, Bound.add, split]
    dsimp only
    rw [parted]
    dsimp only
    rw [String.ofList_toList, ← letters, String.ofList_toList]
    cases other with
    | none =>
      rw [if_neg (Option.some_ne_none _)]
      exact Bound.base_insertResponsive _ _ _ _
    | some other =>
      rw [Expressions.forLevel, Bound.forWidth_insertResponsive, solid]
      simp only [buckets, Option.some_inj]
      rfl

open Content in
/-- Sorting the bindings of styles gives each level its expressions. -/
theorem forLevel_foldl {bindings : Fields String} (h : ∀ binding ∈ bindings, IsStyle binding)
    (bound : Bound) (width : Option Breakpoint) (key : String) :
    Fields.get? ((bindings.foldl (fun bound entry => bound.add entry.1 entry.2)
        bound).styles.forLevel width) key =
      (Fields.get? (Fields.ofEntries bindings) (pathAt width key)).or
        (Fields.get? (bound.styles.forLevel width) key) := by
  induction bindings generalizing bound with
  | nil => rfl
  | cons binding bindings ih =>
    obtain ⟨first, rest⟩ := List.forall_mem_cons.mp h
    obtain ⟨path, code⟩ := binding
    obtain ⟨other, name, rfl, filled, solid⟩ := first
    rw [List.foldl_cons, ih rest, Fields.get?_ofEntries_cons, Option.or_assoc]
    refine congrArg (Option.or _) ?_
    dsimp only at solid ⊢
    rw [forLevel_add bound filled solid]
    simp only [pathAt_inj]
    by_cases same : other = width
    · rw [if_pos same, Fields.get?_put]
      simp only [same, true_and]
      split <;> rfl
    · rw [if_neg same, if_neg fun h => same h.1]
      rfl

open Content in
theorem distinct_forLevel {bindings : Fields String} (h : ∀ binding ∈ bindings, IsStyle binding)
    (width : Option Breakpoint) :
    Fields.Distinct ((Bound.of bindings []).styles.forLevel width) := by
  rw [Bound.of, prefer, Fields.merge_nil]
  refine List.foldlRecOn (motive := fun bound : Bound =>
    Fields.Distinct (bound.styles.forLevel width)) bindings _ ?_ ?_
  · cases width <;> exact Fields.distinct_nil
  · intro bound distinct binding mem
    obtain ⟨path, code⟩ := binding
    obtain ⟨other, key, rfl, filled, solid⟩ := h _ mem
    rw [forLevel_add bound filled solid]
    split
    · exact distinct.put _ _
    · exact distinct

/-! ## Taken apart and merged again -/

section restored

variable {code : String}

/-- The entries of a text that is an object; any other text has none. -/
def entriesOf (code : String) : List Entry :=
  (readObject? code).getD []

theorem Restorable.split (h : Restorable (entriesOf code)) :
    split code none = (given (entriesOf code)).foldl Parts.place {} :=
  foldl_add _ _ h.plain

theorem Restorable.get?_literals (h : Restorable (entriesOf code)) (width : Breakpoint)
    (key : String) :
    Fields.get? ((Style.split code none).literals.forWidth width) key =
      Fields.get? (Fields.ofEntries (literalsIn (home width)
        (stylesAt (home width) (given (entriesOf code))))) key := by
  rw [h.split, get?_forWidth_foldl]
  exact Option.or_none

theorem Restorable.isStyle (h : Restorable (entriesOf code)) :
    Fields.Distinct (Style.split code none).bindings ∧
      ∀ binding ∈ (Style.split code none).bindings, IsStyle binding := by
  rw [h.split]
  refine List.foldlRecOn (motive := fun parts : Parts => Fields.Distinct parts.bindings ∧
    ∀ binding ∈ parts.bindings, IsStyle binding) _ _ ⟨Fields.distinct_nil, nofun⟩ ?_
  intro parts ⟨distinct, styles⟩ style mem
  rw [Parts.place]
  split
  · exact ⟨distinct, styles⟩
  · next bound =>
    obtain ⟨filled, solid⟩ := h.solid style mem bound
    refine ⟨distinct.put _ _, fun binding among => ?_⟩
    rcases Fields.mem_put among with rfl | there
    · exact ⟨style.width, style.key, rfl, filled, solid⟩
    · exact styles binding there

/-- The style bindings of a text that has been taken apart, sorted by level. -/
def boundOf (code : String) : Expressions :=
  (Content.Bound.of (Style.split code none).bindings []).styles

theorem Restorable.get?_bound (h : Restorable (entriesOf code)) (width : Option Breakpoint)
    (key : String) :
    Fields.get? ((boundOf code).forLevel width) key =
      Fields.get? (Fields.ofEntries (expressionsIn width
        (stylesAt width (given (entriesOf code))))) key := by
  obtain ⟨distinct, styles⟩ := h.isStyle
  rw [boundOf, Content.Bound.of, Content.prefer, Fields.merge_nil, forLevel_foldl styles,
    Fields.ofEntries_of_distinct distinct, h.split, get?_bindings_foldl]
  cases width <;> simp [Expressions.forLevel, Expressions.forWidth]

/-- Literals give way to expressions, whatever their order was. -/
theorem get?_literalCode_append {literals : Fields Json} {bound : Fields String}
    (h : Fields.Distinct bound) (h' : Fields.Distinct literals) (key : String) :
    Fields.get? (Fields.ofEntries (literalCode (surviving literals bound) ++ bound)) key =
      (Fields.get? bound key).or ((Fields.get? literals key).map Json.compact) := by
  have distinct : Fields.Distinct (literalCode (surviving literals bound)) :=
    (h'.filter _).mapValues _
  rw [Fields.get?_ofEntries_append, Fields.ofEntries_of_distinct h,
    Fields.ofEntries_of_distinct distinct, literalCode, Fields.get?_mapValues, surviving,
    Fields.get?_filter fun name => !Fields.has bound name, Fields.has]
  cases Fields.get? bound key <;> rfl

theorem get?_assigned (h : Restorable (entriesOf code)) (width : Option Breakpoint)
    (key : String) :
    Fields.get? (Fields.ofEntries
        (assigned (Style.split code none).literals (boundOf code) width)) key =
      (Fields.get? (Fields.ofEntries (expressionsIn width
          (stylesAt width (given (entriesOf code))))) key).or
        ((Fields.get? (Fields.ofEntries (literalsIn width
          (stylesAt width (given (entriesOf code))))) key).map Json.compact) := by
  have distinct (width : Option Breakpoint) : Fields.Distinct ((boundOf code).forLevel width) :=
    distinct_forLevel h.isStyle.2 width
  have literals (width : Breakpoint) :
      Fields.Distinct ((Style.split code none).literals.forWidth width) := by
    rw [h.split]
    exact distinct_forWidth_foldl _ width
  rw [← h.get?_bound width key]
  match width with
  | none =>
    have merged := get?_literalCode_append (distinct none) (literals .large) key
    rw [h.get?_literals] at merged
    exact merged
  | some .small =>
    have merged := get?_literalCode_append (distinct (some .small)) (literals .small) key
    rw [h.get?_literals] at merged
    exact merged
  | some .large =>
    have nothing : literalsIn (some .large) (stylesAt (some .large) (given (entriesOf code))) =
        [] := List.filterMap_eq_nil_iff.mpr fun _ _ => rfl
    change Fields.get? (Fields.ofEntries ((boundOf code).forLevel (some .large))) key = _
    rw [Fields.ofEntries_of_distinct (distinct (some .large)), nothing]
    exact Option.or_none.symm

/-- Every level is merged from the styles that count in the object. -/
theorem get?_assigned_eq_effective (h : Restorable (entriesOf code)) (width : Option Breakpoint)
    (key : String) :
    Fields.get? (Fields.ofEntries
        (assigned (Style.split code none).literals (boundOf code) width)) key =
      (effective (entriesOf code) width key).map (restyled width) := by
  have last := get?_stylesAt h width key
  rw [get?_assigned h]
  cases counted : effective (entriesOf code) width key with
  | none =>
    rw [counted, Fields.get?_eq_none_iff, Fields.mem_names_ofEntries] at last
    have absent {α : Type} (read : String → Option α) :
        Fields.get? (Fields.ofEntries (Fields.select read
          (stylesAt width (given (entriesOf code))))) key = none := by
      rw [Fields.get?_eq_none_iff, Fields.mem_names_ofEntries, Fields.mem_names_select]
      rintro ⟨value, mem, -⟩
      exact last (Fields.mem_names_of_mem mem)
    rw [expressionsIn, literalsIn, absent, absent]
    rfl
  | some source =>
    rw [counted] at last
    cases literal : literalAt width source with
    | none =>
      have bound : expression? width source = some source := by
        rw [expression?, literal]
        rfl
      rw [expressionsIn, Fields.get?_ofEntries_select last bound, Option.map_some, restyled,
        literal]
      rfl
    | some value =>
      -- No expression is given for the key, or one would have been given last.
      have unbound : Fields.get? (Fields.ofEntries (expressionsIn width
          (stylesAt width (given (entriesOf code))))) key = none := by
        rw [Fields.get?_eq_none_iff, Fields.mem_names_ofEntries, expressionsIn,
          Fields.mem_names_select]
        rintro ⟨other, mem, bound⟩
        obtain ⟨style, listed, same⟩ := List.mem_filterMap.mp mem
        split at same
        · next here =>
          cases same
          subst here
          have isBound : style.IsBound := by
            rw [expression?] at bound
            split at bound
            · next free => exact Option.isNone_iff_eq_none.mp free
            · cases bound
          have later := h.boundLast style listed isBound source counted
          exact absurd (later.symm.trans literal) nofun
        · cases same
      rw [unbound, literalsIn, Fields.get?_ofEntries_select last literal, Option.map_some,
        Option.map_some, restyled, literal]
      rfl

/-! ## The merged object read again -/

theorem propertiesOf_properties (fields : Fields String) :
    propertiesOf (properties fields) = fields := by
  rw [propertiesOf, properties, List.filterMap_map]
  exact List.filterMap_some

/-- The merged object, read again, gives every level what was merged for it: the literals and the
expressions of a key under that key, the last one of each in its place. -/
theorem effective_members {literals : Literals} {bound : Expressions} (verbatim : bound.Verbatim)
    (unqueried : ∀ key ∈ Fields.names (outer literals bound), Breakpoint.ofQuery? key = none)
    (width : Option Breakpoint) (key : String) :
    effective (properties (members literals bound)) width key =
      Fields.get? (Fields.ofEntries (assigned literals bound width)) key := by
  have queries (other : Breakpoint) (styles : Fields String) (keep : Option Breakpoint → Bool) :
      (nested other styles).filter (fun entry => keep (Breakpoint.ofQuery? entry.1)) =
        if keep (some other) then nested other styles else [] := by
    unfold nested
    split
    · rw [List.filter_nil, ite_self]
    · rw [List.filter_cons, ofQuery?_query, List.filter_nil]
  have bare (keep : Option Breakpoint → Bool) :
      (outer literals bound).filter (fun entry => keep (Breakpoint.ofQuery? entry.1)) =
        if keep none then outer literals bound else [] := by
    have same : ∀ entry ∈ outer literals bound,
        keep (Breakpoint.ofQuery? entry.1) = keep none := fun entry mem => by
      rw [unqueried _ (Fields.mem_names_of_mem mem)]
    rw [List.filter_congr same]
    cases keep none <;> simp
  have objects (width : Breakpoint) : (nested width (inner literals bound width)).map
      (fun entry => propertiesIn entry.2) =
        if (inner literals bound width).isEmpty then [] else [inner literals bound width] := by
    have styles := @Expressions.Verbatim.inner literals bound verbatim width
    generalize inner literals bound width = entries at styles ⊢
    cases entries with
    | nil => rfl
    | cons entry entries =>
      change [propertiesIn (renderObject (entry :: entries))] = [entry :: entries]
      rw [propertiesIn, readObject?_renderObject styles, Option.getD_some, propertiesOf_properties]
  have last (fields : Fields String) :
      (if fields.isEmpty then [] else [fields]).getLast?.getD [] = fields := by
    cases fields <;> rfl
  rw [effective, lastAt]
  refine congrArg (fun fields => Fields.get? (Fields.ofEntries fields) key) ?_
  match width with
  | none =>
    rw [objectsAt, propertiesOf_properties, members, List.filter_append, List.filter_append]
    have first := bare fun width => decide (width = none)
    have small := queries .small (inner literals bound .small) fun width => decide (width = none)
    have large := queries .large (inner literals bound .large) fun width => decide (width = none)
    rw [first, small, large]
    simp [assigned]
  | some width =>
    rw [objectsAt, propertiesOf_properties, members, List.filter_append, List.filter_append]
    have first := bare fun other => decide (other = some width)
    have small := queries .small (inner literals bound .small) fun other =>
      decide (other = some width)
    have large := queries .large (inner literals bound .large) fun other =>
      decide (other = some width)
    rw [first, small, large]
    cases width with
    | small => simpa [assigned] using (congrArg (·.getLast?.getD []) (objects .small)).trans (last _)
    | large => simpa [assigned] using (congrArg (·.getLast?.getD []) (objects .large)).trans (last _)

/-- The bound expressions are sources of the object. -/
theorem Restorable.verbatim (h : Restorable (entriesOf code))
    (verbatim : ∀ style ∈ given (entriesOf code), style.IsBound → ReadsValue style.code) :
    (boundOf code).Verbatim := by
  have level (width : Option Breakpoint) :
      ∀ entry ∈ (boundOf code).forLevel width, ReadsValue entry.2 := by
    intro entry mem
    have found := (Fields.get?_eq_some_iff (distinct_forLevel h.isStyle.2 width)).mpr mem
    rw [← boundOf, h.get?_bound] at found
    obtain ⟨read, listed, bound⟩ := List.mem_filterMap.mp
      (Fields.mem_ofEntries (Fields.mem_of_get? found))
    obtain ⟨style, among, same⟩ := List.mem_filterMap.mp listed
    split at same
    · next here =>
      cases same
      subst here
      rw [expression?] at bound
      split at bound
      · next free =>
        have source : style.code = entry.2 := congrArg Prod.snd (Option.some.inj bound)
        exact source ▸ verbatim style among (Option.isNone_iff_eq_none.mp free)
      · cases bound
    · cases same
  exact List.forall_mem_append.mpr ⟨List.forall_mem_append.mpr ⟨level none, level (some .small)⟩,
    level (some .large)⟩

/-- No style for every width is called like a nested object. -/
theorem Restorable.unqueried (h : Restorable (entriesOf code)) :
    ∀ key ∈ Fields.names (outer (Style.split code none).literals (boundOf code)),
      Breakpoint.ofQuery? key = none := by
  intro key mem
  obtain ⟨source, found⟩ := Option.ne_none_iff_exists'.mp
    (mt Fields.get?_eq_none_iff.mp (not_not.mpr (Fields.mem_names_ofEntries.mpr mem)))
  have counted := (get?_assigned_eq_effective h none key).symm.trans found
  obtain ⟨code, effective, -⟩ := Option.map_eq_some_iff.mp counted
  exact of_decide_eq_true
    (List.mem_filter.mp (Fields.mem_ofEntries (Fields.mem_of_get? effective))).2

/-- A constant that is read exactly is the same constant when it is written. -/
theorem literalValue?_restyled {width : Option Breakpoint} {source : String} {value : Json}
    (literal : literalValue? source = some value) (integral : value.isIntegral = true) :
    literalValue? (restyled width source) = some value := by
  rw [restyled]
  cases told : literalAt width source with
  | none => exact literal
  | some other =>
    have scalar : other = value ∧ (value.isString || value.isNumber) = true := by
      match width, told with
      | none, told | some .small, told =>
        rw [literalAt, literal] at told
        · obtain ⟨same, scalar⟩ := Option.filter_eq_some_iff.mp told
          cases same
          exact ⟨rfl, scalar⟩
        · exact nofun
    obtain ⟨rfl, scalar⟩ := scalar
    rw [Option.map_some, Option.getD_some]
    match other, integral with
    | .string _, integral | .number _, integral => exact literalValue?_compact integral

/-- An object of styles means the same after it was taken apart and merged again. For every
width and for each one, a key is given the source of the last style under that key in the last
object, or the text of the literal that it stands for, and no other key is given any; nothing is
merged only if the object gives no style. If the expressions are read back verbatim, the merged
object itself means that. -/
theorem merge_split (h : Restorable (entriesOf code)) :
    (∀ width key, Fields.get? (Fields.ofEntries
        (assigned (Style.split code none).literals (boundOf code) width)) key =
      (effective (entriesOf code) width key).map (restyled width)) ∧
    (∀ width source value, literalValue? source = some value → value.isIntegral = true →
      literalValue? (restyled width source) = some value) ∧
    (merge (Style.split code none).literals (boundOf code) = none ↔
      ∀ width key, effective (entriesOf code) width key = none) ∧
    ((∀ style ∈ given (entriesOf code), style.IsBound → ReadsValue style.code) →
      ∀ merged, merge (Style.split code none).literals (boundOf code) = some merged →
        ∀ width key, effective (entriesOf merged.code) width key =
          (effective (entriesOf code) width key).map (restyled width)) := by
  have levels := get?_assigned_eq_effective h
  refine ⟨levels, fun _ _ _ => literalValue?_restyled, ?_, fun verbatim merged found width key => ?_⟩
  · rw [merge_eq, ite_eq_left_iff, imp_iff_not (by simp), not_not, members_eq_nil]
    have empty (width : Option Breakpoint) :
        assigned (Style.split code none).literals (boundOf code) width = [] ↔
          ∀ key, effective (entriesOf code) width key = none := by
      constructor
      · intro nothing key
        have level := levels width key
        rw [nothing] at level
        exact Option.map_eq_none_iff.mp level.symm
      · intro nothing
        refine List.eq_nil_iff_forall_not_mem.mpr fun entry mem => ?_
        have level := levels width entry.1
        rw [nothing, Option.map_none, Fields.get?_eq_none_iff, Fields.mem_names_ofEntries] at level
        exact level (Fields.mem_names_of_mem mem)
    constructor
    · rintro ⟨base, small, large⟩ (_ | _ | _)
      · exact (empty none).mp base
      · exact (empty (some .small)).mp small
      · exact (empty (some .large)).mp large
    · exact fun nothing => ⟨(empty none).mpr (nothing none),
        (empty (some .small)).mpr (nothing (some .small)),
        (empty (some .large)).mpr (nothing (some .large))⟩
  · have bound := h.verbatim verbatim
    rw [entriesOf, readObject?_merged bound found, Option.getD_some,
      effective_members bound h.unqueried, levels]

end restored

def bannerCode : String :=
  "\x7b width: 1, width: w, \"@media (max-width: 640px)\": \x7b top: 2 \x7d \x7d"

private theorem entriesOf_bannerCode :
    entriesOf bannerCode = [.property "width" "1", .property "width" "w",
      .property "@media (max-width: 640px)" "\x7b top: 2 \x7d"] := by
  decide +kernel

theorem restorable_bannerCode : Restorable (entriesOf bannerCode) := by
  rw [entriesOf_bannerCode]
  exact ⟨by decide +kernel, by decide +kernel, by decide +kernel,
    by rintro (_ | _ | _) <;> decide +kernel⟩

theorem banner_restored :
    Restorable (entriesOf bannerCode) ∧
      ∀ width key, Fields.get? (Fields.ofEntries
          (assigned (split bannerCode none).literals (boundOf bannerCode) width)) key =
        (effective (entriesOf bannerCode) width key).map (restyled width) :=
  ⟨restorable_bannerCode, (merge_split restorable_bannerCode).1⟩

/-- A literal behind an expression for the same key is the last style, and is not merged. -/
theorem color_not_restored :
    effective (entriesOf "\x7b color: c, color: \"red\" \x7d") none "color" = some "\"red\"" ∧
      (merge (split "\x7b color: c, color: \"red\" \x7d" none).literals
          (boundOf "\x7b color: c, color: \"red\" \x7d")).map Merged.code =
        some "\x7b color: c, \x7d" := by
  decide +kernel

end BlockLoom.Style
