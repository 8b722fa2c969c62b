import BlockLoom.Proofs.Style.RoundTrip

/-!
Literal styles beside expressions of every kind. The source of an expression is written
between the literals and read again together with them. A literal that no expression
replaces is found again whatever the expressions are, objects and functions included, as
long as each of them is one member of an object behind its key. The condition is needed:
the text is read as a whole, and one expression that is no member leaves nothing of it.
-/

namespace BlockLoom.Style

open Script

variable {literals : Literals} {bound : Expressions} {width : Breakpoint} {key : String}
  {value : Json}

/-- The expressions that take the place of literals for a width. -/
def replacing (bound : Expressions) : Breakpoint → Fields String
  | .small => bound.forWidth .small
  | .large => bound.base

/-- Every expression makes one member of an object behind its key, of whatever kind. -/
def Expressions.WellFormed (bound : Expressions) : Prop :=
  ∀ entry ∈ bound.base ++ bound.forWidth .small ++ bound.forWidth .large,
    ∃ member, ReadsProperty (renderMember entry.1 entry.2, member)

theorem get?_kept (h : Fields.get? (literals.forWidth width) key = some value)
    (unbound : key ∉ Fields.names (replacing bound width)) :
    Fields.get? (kept literals bound width) key = some value := by
  have survives (entries : Fields Json) (others : Fields String)
      (found : Fields.get? entries key = some value) (free : key ∉ Fields.names others) :
      Fields.get? (surviving entries others) key = some value := by
    rw [surviving, Fields.get?_filter fun name => !Fields.has others name,
      Fields.has_eq_false_iff.mpr free]
    exact found
  cases width <;> exact survives _ _ h unbound

/-! ## Members that are read one by one -/

private theorem exists_members {entries : Fields String} {entry : String × String} {member : Entry}
    (each : ∀ other ∈ entries, ∃ member, ReadsProperty (renderMember other.1 other.2, member))
    (mem : entry ∈ entries) (known : ReadsProperty (renderMember entry.1 entry.2, member)) :
    ∃ read : List (String × Entry),
      read.map Prod.fst = entries.map (fun other => renderMember other.1 other.2) ∧
        (∀ other ∈ read, ReadsProperty other) ∧ member ∈ read.map Prod.snd := by
  have choose (others : Fields String)
      (each : ∀ other ∈ others, ∃ member, ReadsProperty (renderMember other.1 other.2, member)) :
      ∃ read : List (String × Entry),
        read.map Prod.fst = others.map (fun other => renderMember other.1 other.2) ∧
          ∀ other ∈ read, ReadsProperty other := by
    induction others with
    | nil => exact ⟨[], rfl, nofun⟩
    | cons other others ih =>
      obtain ⟨first, reads⟩ := each other List.mem_cons_self
      obtain ⟨rest, texts, all⟩ := ih fun later mem => each later (List.mem_cons_of_mem _ mem)
      refine ⟨(renderMember other.1 other.2, first) :: rest, ?_,
        List.forall_mem_cons.mpr ⟨reads, all⟩⟩
      rw [List.map_cons, List.map_cons, texts]
  obtain ⟨before, after, rfl⟩ := List.append_of_mem mem
  obtain ⟨first, firstTexts, firstRead⟩ := choose before fun other mem =>
    each other (List.mem_append_left _ mem)
  obtain ⟨last, lastTexts, lastRead⟩ := choose after fun other mem =>
    each other (List.mem_append_right _ (List.mem_cons_of_mem _ mem))
  refine ⟨first ++ (renderMember entry.1 entry.2, member) :: last, ?_, ?_, ?_⟩
  · rw [List.map_append, List.map_cons, firstTexts, lastTexts, List.map_append, List.map_cons]
  · exact List.forall_mem_append.mpr ⟨firstRead, List.forall_mem_cons.mpr ⟨known, lastRead⟩⟩
  · rw [List.map_append, List.map_cons]
    exact List.mem_append_right _ List.mem_cons_self

variable {entries : Fields String} {entry : String × String} {member : Entry}

/-- The merged object is read, and each of its members with it, as soon as every expression makes
one member of whatever kind. -/
theorem exists_readObject?_object
    (each : ∀ other ∈ entries, ∃ member, ReadsProperty (renderMember other.1 other.2, member))
    (mem : entry ∈ entries) (known : ReadsProperty (renderMember entry.1 entry.2, member)) :
    ∃ found, readObject? (object (entries.map fun other => renderMember other.1 other.2)) =
      some found ∧ member ∈ found := by
  obtain ⟨read, texts, all, among⟩ := exists_members each mem known
  cases read with
  | nil => cases among
  | cons first rest => exact ⟨_, texts ▸ readObject?_properties_object all, among⟩

/-- So is the nested object for a width. -/
theorem exists_readObject?_renderObject
    (each : ∀ other ∈ entries, ∃ member, ReadsProperty (renderMember other.1 other.2, member))
    (mem : entry ∈ entries) (known : ReadsProperty (renderMember entry.1 entry.2, member)) :
    ∃ found, readObject? (renderObject entries) = some found ∧ member ∈ found := by
  obtain ⟨read, texts, all, among⟩ := exists_members each mem known
  cases read with
  | nil => cases among
  | cons first rest =>
    refine ⟨_, ?_, among⟩
    rw [renderObject, ← texts]
    exact readObject?_bracedProperties all

/-- The nested object is a member of the outer one, whatever its own members are. -/
theorem readsProperty_nested
    (each : ∀ other ∈ entries, ∃ member, ReadsProperty (renderMember other.1 other.2, member)) :
    ∀ other ∈ nested width entries, ReadsProperty
      (renderMember other.1 other.2, .property width.query (renderObject entries)) := by
  cases entries with
  | nil => exact nofun
  | cons entry entries =>
    obtain ⟨member, known⟩ := each entry List.mem_cons_self
    obtain ⟨read, texts, all, among⟩ := exists_members each List.mem_cons_self known
    have verbatim : ReadsVerbatim (renderObject (entry :: entries)) := by
      rw [renderObject, ← texts]
      cases read with
      | nil => cases among
      | cons first rest => exact readsVerbatim_braced all
    exact List.forall_mem_singleton.mpr (verbatim.value.property _)

theorem readsProperty_literalCode (entries : Fields Json) :
    ∀ entry ∈ literalCode entries, ReadsProperty
      (renderMember entry.1 entry.2, .property entry.1 entry.2) :=
  fun entry mem => (readsValue_literalCode entries entry mem).property entry.1

namespace Expressions.WellFormed

theorem outer (h : bound.WellFormed) : ∀ entry ∈ outer literals bound,
    ∃ member, ReadsProperty (renderMember entry.1 entry.2, member) :=
  List.forall_mem_append.mpr ⟨fun entry mem => ⟨_, readsProperty_literalCode _ entry mem⟩,
    fun entry mem => h entry (List.mem_append_left _ (List.mem_append_left _ mem))⟩

theorem inner (h : bound.WellFormed) (width : Breakpoint) : ∀ entry ∈ inner literals bound width,
    ∃ member, ReadsProperty (renderMember entry.1 entry.2, member) := by
  cases width with
  | small =>
    exact List.forall_mem_append.mpr ⟨fun entry mem => ⟨_, readsProperty_literalCode _ entry mem⟩,
      fun entry mem => h entry (List.mem_append_left _ (List.mem_append_right _ mem))⟩
  | large => exact fun entry mem => h entry (List.mem_append_right _ mem)

theorem members (h : bound.WellFormed) : ∀ entry ∈ members literals bound,
    ∃ member, ReadsProperty (renderMember entry.1 entry.2, member) := by
  have nested (width : Breakpoint) : ∀ entry ∈ nested width (Style.inner literals bound width),
      ∃ member, ReadsProperty (renderMember entry.1 entry.2, member) :=
    fun entry mem => ⟨_, readsProperty_nested (h.inner width) entry mem⟩
  exact List.forall_mem_append.mpr ⟨List.forall_mem_append.mpr ⟨h.outer, nested .small⟩,
    nested .large⟩

end Expressions.WellFormed

/-! ## A literal once found -/

/-- The literal for a style has been found. -/
def Parts.Holds (width : Breakpoint) (key : String) (value : Json) (parts : Parts) : Prop :=
  Fields.get? (parts.literals.forWidth width) key = some value

theorem get?_forWidth_insert (literals : Literals) (breakpoint : Breakpoint) (other : String)
    (literal : Json) :
    Fields.get? ((literals.insert breakpoint other literal).forWidth width) key =
      if breakpoint = width ∧ other = key then some literal
      else Fields.get? (literals.forWidth width) key := by
  have buckets : breakpoint.bucket = width.bucket ↔ breakpoint = width := by
    cases breakpoint <;> cases width <;> decide
  rw [Literals.insert, Literals.forWidth, Fields.get?_put]
  by_cases same : breakpoint = width
  · subst same
    rw [if_pos rfl, Option.getD_some, Fields.get?_put]
    simp only [true_and]
  · rw [if_neg fun h => same (buckets.mp h), if_neg fun h => same h.1]
    rfl

/-- A literal that is found is one that was recorded. -/
theorem get?_kept_of_literal? {code : String}
    (h : literal? (some (record literals bound)) width key code = some value) :
    Fields.get? (kept literals bound width) key = some value := by
  rw [literal?, get?_record] at h
  exact (Option.filter_eq_some_iff.mp h).1

variable {parts : Parts}

/-- No other literal takes the place of a recorded one. -/
theorem Parts.Holds.addLiteral (h : parts.Holds width key value)
    (recorded : Fields.get? (kept literals bound width) key = some value) {other : Breakpoint}
    {name code : String} {literal : Json}
    (found : literal? (some (record literals bound)) other name code = some literal) :
    (parts.addLiteral other name literal).Holds width key value := by
  rw [Parts.Holds, Parts.addLiteral, get?_forWidth_insert]
  split
  · next same =>
    obtain ⟨rfl, rfl⟩ := same
    exact (get?_kept_of_literal? found).symm.trans recorded
  · exact h

theorem Parts.Holds.addResponsive (h : parts.Holds width key value)
    (recorded : Fields.get? (kept literals bound width) key = some value) (other : Breakpoint)
    (entry : Entry) :
    (Parts.addResponsive (some (record literals bound)) other parts entry).Holds width key
      value := by
  cases entry with
  | property name code =>
    unfold Parts.addResponsive
    dsimp only
    split
    · exact h
    · cases other with
      | large => exact h
      | small =>
        dsimp only
        split
        · next found => exact h.addLiteral recorded found
        · exact h
  | _ => exact h

theorem Parts.Holds.foldl {step : Parts → Entry → Parts} (h : parts.Holds width key value)
    (keeps : ∀ parts entry, parts.Holds width key value →
      (step parts entry).Holds width key value) (entries : List Entry) :
    (entries.foldl step parts).Holds width key value := by
  induction entries generalizing parts with
  | nil => exact h
  | cons entry entries ih => exact ih (keeps parts entry h)

theorem Parts.Holds.add (h : parts.Holds width key value)
    (recorded : Fields.get? (kept literals bound width) key = some value) (entry : Entry) :
    (Parts.add (some (record literals bound)) parts entry).Holds width key value := by
  cases entry with
  | property name code =>
    unfold Parts.add
    dsimp only
    split
    · next other _ => exact h.foldl (fun _ entry h => h.addResponsive recorded other entry) _
    · split
      · exact h
      · split
        · next found => exact h.addLiteral recorded found
        · exact h
  | _ => exact h

/-- What one member sets holds at the end, if every member keeps it. -/
theorem Parts.holds_foldl {step : Parts → Entry → Parts} {entries : List Entry} {entry : Entry}
    (mem : entry ∈ entries) (sets : ∀ parts, (step parts entry).Holds width key value)
    (keeps : ∀ parts entry, parts.Holds width key value →
      (step parts entry).Holds width key value) (parts : Parts) :
    (entries.foldl step parts).Holds width key value := by
  obtain ⟨before, after, rfl⟩ := List.append_of_mem mem
  rw [List.foldl_append, List.foldl_cons]
  exact (sets _).foldl keeps after

/-! ## The literal of a width -/

theorem Parts.holds_addLiteral (parts : Parts) (width : Breakpoint) (key : String) (value : Json) :
    (parts.addLiteral width key value).Holds width key value := by
  rw [Parts.Holds, Parts.addLiteral, get?_forWidth_insert, if_pos ⟨rfl, rfl⟩]

/-- The member for a literal, as it is written. -/
theorem mem_literalCode {fields : Fields Json} (h : Fields.get? fields key = some value) :
    (key, value.compact) ∈ literalCode fields :=
  List.mem_map.mpr ⟨(key, value), Fields.mem_of_get? h, rfl⟩

/-- The nested object for the small width sets its literals. -/
theorem holds_add_small (wellFormed : bound.WellFormed)
    (recorded : Fields.get? (kept literals bound .small) key = some value)
    (plain : ∀ members, value ≠ .object members) (parts : Parts) :
    (Parts.add (some (record literals bound)) parts
      (.property Breakpoint.small.query (renderObject (inner literals bound .small)))).Holds .small
        key value := by
  have written : (key, value.compact) ∈ inner literals bound .small :=
    List.mem_append_left _ (mem_literalCode recorded)
  obtain ⟨found, read, among⟩ := exists_readObject?_renderObject (wellFormed.inner .small) written
    ((readsVerbatim_compact value).value.property key)
  have sets (parts : Parts) : (Parts.addResponsive (some (record literals bound)) .small parts
      (.property key value.compact)).Holds .small key value := by
    rw [Parts.addResponsive, startsObject_compact plain, if_neg Bool.false_ne_true]
    dsimp only
    rw [literal?_recorded recorded]
    exact Parts.holds_addLiteral parts .small key value
  rw [Parts.add, ofQuery?_query]
  dsimp only
  rw [read, Option.getD_some]
  exact Parts.holds_foldl among sets (fun _ entry h => h.addResponsive recorded .small entry) parts

/-- Literal styles are independent of well-formed expressions. A literal that is no object
and that no expression replaces, for every width under a key that is no media query, is
found again under its key when the merged expression is taken apart. -/
theorem literal_split_merge (wellFormed : bound.WellFormed)
    (literal : Fields.get? (literals.forWidth width) key = some value)
    (plain : ∀ members, value ≠ .object members)
    (unqueried : width = .large → ∀ other : Breakpoint, other.query ≠ key)
    (unbound : key ∉ Fields.names (replacing bound width)) :
    ∃ merged, merge literals bound = some merged ∧
      Fields.get? ((split merged.code (some merged.recorded)).literals.forWidth width) key =
        some value := by
  have recorded := get?_kept literal unbound
  have keeps (parts : Parts) (entry : Entry) (h : parts.Holds width key value) :
      (Parts.add (some (record literals bound)) parts entry).Holds width key value :=
    h.add recorded entry
  -- The member of the outer object that sets the literal is its own or the nested object.
  obtain ⟨entry, mem, reads, sets⟩ : ∃ entry ∈ members literals bound,
      ReadsProperty (renderMember entry.1 entry.2, .property entry.1 entry.2) ∧
        ∀ parts, (Parts.add (some (record literals bound)) parts
          (.property entry.1 entry.2)).Holds width key value := by
    cases width with
    | small =>
      have written : (key, value.compact) ∈ inner literals bound .small :=
        List.mem_append_left _ (mem_literalCode recorded)
      have filled : nested .small (inner literals bound .small) =
          [(Breakpoint.small.query, renderObject (inner literals bound .small))] := by
        rw [nested, if_neg fun empty => List.ne_nil_of_mem written (List.isEmpty_iff.mp empty)]
      have mem : (Breakpoint.small.query, renderObject (inner literals bound .small)) ∈
          nested .small (inner literals bound .small) := filled ▸ List.mem_cons_self
      exact ⟨_, List.mem_append_left _ (List.mem_append_right _ mem),
        readsProperty_nested (wellFormed.inner .small) _ mem,
        holds_add_small wellFormed recorded plain⟩
    | large =>
      refine ⟨(key, value.compact), List.mem_append_left _ (List.mem_append_left _
        (List.mem_append_left _ (mem_literalCode recorded))),
        (readsVerbatim_compact value).value.property key, fun parts => ?_⟩
      rw [Parts.add, ofQuery?_of_ne (unqueried rfl)]
      dsimp only
      rw [startsObject_compact plain, if_neg Bool.false_ne_true, literal?_recorded recorded]
      exact Parts.holds_addLiteral parts .large key value
  obtain ⟨found, read, among⟩ := exists_readObject?_object wellFormed.members mem reads
  rw [merge_eq, if_neg (List.ne_nil_of_mem mem)]
  refine ⟨_, rfl, ?_⟩
  rw [split, read, Option.getD_some]
  exact Parts.holds_foldl among sets keeps {}

def delayedExpressions : Expressions :=
  { base := [("transition", renderObject [("delay", "props.delay")]), ("color", "state.color")]
    responsive := [("small", [("display", "mode")])] }

theorem wellFormed_delayedExpressions : delayedExpressions.WellFormed := by
  have delay : ReadsVerbatim (".".intercalate ["props", "delay"]) :=
    readsVerbatim_properties (by decide) (by decide) (by decide)
  have color : ReadsVerbatim (".".intercalate ["state", "color"]) :=
    readsVerbatim_properties (by decide) (by decide) (by decide)
  have mode : ReadsVerbatim (".".intercalate ["mode"]) :=
    readsVerbatim_properties (by decide) (by decide) (by decide)
  have transition : ReadsVerbatim (renderObject [("delay", "props.delay")]) :=
    readsVerbatim_renderObject (List.forall_mem_singleton.mpr delay.value)
  exact List.forall_mem_cons.mpr ⟨⟨_, transition.value.property _⟩, List.forall_mem_cons.mpr
    ⟨⟨_, color.value.property _⟩, List.forall_mem_singleton.mpr ⟨_, mode.value.property _⟩⟩⟩

theorem delayed_lineHeight :
    delayedExpressions.WellFormed ∧
      Fields.get? (cardLiterals.forWidth .large) "line-height" = some (.ofInt 2) ∧
      "line-height" ∉ Fields.names (replacing delayedExpressions .large) ∧
      ∃ merged, merge cardLiterals delayedExpressions = some merged ∧
        Fields.get? ((split merged.code (some merged.recorded)).literals.forWidth .large)
          "line-height" = some (.ofInt 2) :=
  have literal : Fields.get? (cardLiterals.forWidth .large) "line-height" = some (.ofInt 2) := rfl
  have unbound : "line-height" ∉ Fields.names (replacing delayedExpressions .large) := by decide
  ⟨wellFormed_delayedExpressions, literal, unbound,
    literal_split_merge wellFormed_delayedExpressions literal (fun _ => nofun)
      (fun _ other => by cases other <;> decide) unbound⟩

/-- An expression that is no member of an object leaves nothing of the literals beside it. -/
theorem color_lost :
    ∃ (literals : Literals) (bound : Expressions) (merged : Merged),
      Fields.get? (literals.forWidth .large) "color" = some (.string "red") ∧
        "color" ∉ Fields.names bound.base ∧ merge literals bound = some merged ∧
        Fields.get? ((split merged.code (some merged.recorded)).literals.forWidth .large) "color" =
          none := by
  have unread : readObject? "\x7b color: \"red\", width: a b, \x7d" = none := by decide +kernel
  refine ⟨[("large", [("color", .string "red")])], { base := [("width", "a b")] },
    { code := "\x7b color: \"red\", width: a b, \x7d", small := [],
      large := [("color", .string "red")] }, rfl, by decide, ?_, ?_⟩
  · rw [merge_eq]
    rfl
  · rw [split, unread]
    rfl

end BlockLoom.Style
