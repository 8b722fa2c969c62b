import BlockLoom.Proofs.Content.Reached
import BlockLoom.Proofs.Content.Validity

/-!
What can be wrong with a document, and where. Only the options of elements can be
malformed: a list with an element in it must hold elements only, and where groups are
expected there must be a list of objects around such lists. Offences are listed in the
order in which they are come upon. The options of an element precede its children, and
each option is read as a whole before the elements in it are entered.

A place is told by the steps that lead to it. Data that stand for an element are entered
as the element, since its record may be written without the names of its fields.
-/

namespace BlockLoom

/-! ## Places -/

inductive Step where
  | field (name : String)
  | item (index : Nat)
  deriving DecidableEq, Repr

namespace Path

def after (path : Path) : Step → Path
  | .field name => path.field name
  | .item index => path.item index

/-- The place that some steps lead to. -/
def along (path : Path) (steps : List Step) : Path :=
  steps.foldl after path

/-- The steps from the outermost record as a path, in which the first field has no dot. -/
def of : List Step → Path
  | .field name :: steps => along name steps
  | steps => along "" steps

theorem along_append (path : Path) (steps others : List Step) :
    path.along (steps ++ others) = (path.along steps).along others :=
  List.foldl_append

end Path

namespace Content

inductive Site where
  | document (content : Content)
  | elements (elements : List Element)
  | element (element : Element)
  | use (use : Use)
  | data (value : Json)

namespace Site

inductive Inside : Site → Step → Site → Prop where
  | blocks (content : Content) :
      Inside (.document content) (.field "blocks") (.elements content.blocks)
  | element {elements : List Element} {index : Nat} {element : Element}
      (found : elements[index]? = some element) :
      Inside (.elements elements) (.item index) (.element element)
  | children (element : Element) :
      Inside (.element element) (.field "children") (.elements element.children)
  | component {element : Element} {use : Use} (found : element.component = some use) :
      Inside (.element element) (.field "component") (.use use)
  | options (use : Use) : Inside (.use use) (.field "options") (.data (.object use.options))
  | member {members : List (String × Json)} {key : String} {value : Json}
      (found : (key, value) ∈ members) :
      Inside (.data (.object members)) (.field key) (.data value)
  | item {items : List Json} {index : Nat} {value : Json} (found : items[index]? = some value) :
      Inside (.data (.array items)) (.item index) (.data value)

/-- The parts that some steps lead to. -/
inductive Leads : Site → List Step → Site → Prop where
  | here (site : Site) : Leads site [] site
  | step {site next last : Site} {step : Step} {steps : List Step} (inside : Inside site step next)
      (rest : Leads next steps last) : Leads site (step :: steps) last
  | read {value : Json} {element : Element} {last : Site} {steps : List Step}
      (stands : StandsFor value element) (rest : Leads (.element element) steps last) :
      Leads (.data value) steps last

theorem Leads.trans {first next last : Site} {steps others : List Step}
    (h : first.Leads steps next) (h' : next.Leads others last) :
    first.Leads (steps ++ others) last := by
  induction h with
  | here => exact h'
  | step inside _ ih => exact .step inside (ih h')
  | read stands _ ih => exact .read stands (ih h')

theorem Inside.leads {site next : Site} {step : Step} (h : site.Inside step next) :
    site.Leads [step] next :=
  .step h (.here next)

end Site

/-! ## What is found in an option -/

/-- What is wrong with a value by itself. -/
inductive Offends : Json → Defect → Prop where
  | unmarked {value : Json} (h : isElement value = false) : Offends value .elementExpected
  | unreadable {value : Json} {message : String} (h : isElement value = true)
      (h' : Element.fromJson value = .error message) : Offends value (.unreadableElement message)
  | noList {value : Json} (h : value.items? = none) : Offends value .listExpected
  | noObject {value : Json} (h : value.members? = none) : Offends value .objectExpected

structure Offence where
  steps : List Step
  value : Json
  defect : Defect

/-- What is come upon at a place: an offence, or an element to be entered. -/
inductive Finding where
  | fault (offence : Offence)
  | part (steps : List Step) (element : Element)

def Offence.behind (steps : List Step) (offence : Offence) : Offence :=
  { offence with steps := steps ++ offence.steps }

def Finding.behind (steps : List Step) : Finding → Finding
  | .fault offence => .fault (offence.behind steps)
  | .part others element => .part (steps ++ others) element

/-- What is found in the items of a list, of which the first is at `index`. -/
def numbered {α : Type} (findings : α → List Finding) (index : Nat) (items : List α) :
    List Finding :=
  (items.zipIdx index).flatMap fun entry =>
    (findings entry.1).map (Finding.behind [.item entry.2])

/-- What is wrong with an item of a list of elements. -/
def itemFaults (value : Json) : List Finding :=
  if isElement value then
    match Element.fromJson value with
    | .ok _ => []
    | .error message => [.fault ⟨[], value, .unreadableElement message⟩]
  else [.fault ⟨[], value, .elementExpected⟩]

def itemParts (value : Json) : List Finding :=
  match Element.fromJson value with
  | .ok element => if isElement value then [.part [] element] else []
  | .error _ => []

def groupFaults : Json → List Finding
  | .object members =>
    match Fields.get? members Group.blocksKey with
    | none => []
    | some (.array items) =>
      (numbered itemFaults 0 items).map (Finding.behind [.field Group.blocksKey])
    | some value => [.fault ⟨[.field Group.blocksKey], value, .listExpected⟩]
  | value => [.fault ⟨[], value, .objectExpected⟩]

def groupParts (value : Json) : List Finding :=
  match value.get? Group.blocksKey with
  | some (.array items) =>
    (numbered itemParts 0 items).map (Finding.behind [.field Group.blocksKey])
  | _ => []

def slotFindings : Json → List Finding
  | .array items =>
    if items.any isElement then numbered itemFaults 0 items ++ numbered itemParts 0 items else []
  | _ => []

def groupFindings : Json → List Finding
  | .array items => numbered groupFaults 0 items ++ numbered groupParts 0 items
  | value => [.fault ⟨[], value, .listExpected⟩]

/-- What is found in an option: first all its offences, then all elements it holds. -/
def optionFindings (grouping : Option Grouping) (option : String × Json) : List Finding :=
  (if Grouping.claims grouping option.1 then groupFindings option.2
    else slotFindings option.2).map (Finding.behind [.field option.1])

def childFindings (children : List Element) : List Finding :=
  numbered (fun child => [.part [] child]) 0 children

/-- What is found in an element, in order. -/
def Element.findings (settings : ImportSettings) (element : Element) : List Finding :=
  (element.options.flatMap (optionFindings (Grouping.of? (element.nodeName settings)))).map
      (Finding.behind [.field "component", .field "options"]) ++
    (childFindings element.children).map (Finding.behind [.field "children"])

/-! ## Where it is found -/

/-- What is found at a place: an offence, where its steps lead to what offends, or an
element that is an item of a list in that place. -/
def Finding.At (site : Site) : Finding → Prop
  | .fault offence =>
    site.Leads offence.steps (.data offence.value) ∧ Offends offence.value offence.defect
  | .part steps element => site.Leads steps (.element element) ∧ ∃ index, .item index ∈ steps

theorem Finding.At.behind {site next : Site} {steps : List Step} {finding : Finding}
    (h : finding.At next) (leads : site.Leads steps next) : (finding.behind steps).At site := by
  cases finding with
  | fault offence => exact ⟨leads.trans h.1, h.2⟩
  | part others element =>
    obtain ⟨index, member⟩ := h.2
    exact ⟨leads.trans h.1, index, List.mem_append_right _ member⟩

theorem Offends.at {value : Json} {defect : Defect} (h : Offends value defect) :
    (Finding.fault ⟨[], value, defect⟩).At (.data value) :=
  ⟨.here _, h⟩

theorem mem_behind {findings : List Finding} {steps : List Step} {site next : Site}
    (leads : site.Leads steps next) (h : ∀ finding ∈ findings, finding.At next) :
    ∀ finding ∈ findings.map (Finding.behind steps), finding.At site :=
  List.forall_mem_map.mpr fun finding member => (h finding member).behind leads

/-- What holds of everything that is found in the items of a list. -/
theorem forall_numbered {α : Type} {p : Finding → Prop} {findings : α → List Finding}
    {items : List α}
    (h : ∀ index item, items[index]? = some item →
      ∀ finding ∈ findings item, p (finding.behind [.item index])) :
    ∀ finding ∈ numbered findings 0 items, p finding := by
  intro finding found
  obtain ⟨⟨item, index⟩, member, inside⟩ := List.mem_flatMap.mp found
  obtain ⟨inner, member', rfl⟩ := List.mem_map.mp inside
  exact h index item (List.mk_mem_zipIdx_iff_getElem?.mp member) inner member'

theorem itemFaults_at {value : Json} :
    ∀ finding ∈ itemFaults value, finding.At (.data value) := by
  intro finding found
  rw [itemFaults] at found
  split at found
  · next marked =>
    split at found
    · cases found
    · next message unread =>
      cases List.mem_singleton.mp found
      exact (Offends.unreadable marked unread).at
  · next unmarked =>
    cases List.mem_singleton.mp found
    exact (Offends.unmarked (Bool.not_eq_true _ ▸ unmarked)).at

theorem mem_itemParts {value : Json} {finding : Finding} :
    finding ∈ itemParts value ↔
      ∃ element, StandsFor value element ∧ finding = .part [] element := by
  rw [itemParts]
  constructor
  · intro found
    split at found
    · next element read =>
      split at found
      · next marked => exact ⟨element, ⟨marked, read⟩, List.mem_singleton.mp found⟩
      · cases found
    · cases found
  · rintro ⟨element, ⟨marked, read⟩, rfl⟩
    simp only [read, marked, if_true, List.mem_singleton]

theorem itemsFaults_at (items : List Json) :
    ∀ finding ∈ numbered itemFaults 0 items, finding.At (.data (.array items)) :=
  forall_numbered fun _ _ found finding member =>
    (itemFaults_at finding member).behind (Site.Inside.item found).leads

theorem itemsParts_at (items : List Json) :
    ∀ finding ∈ numbered itemParts 0 items, finding.At (.data (.array items)) := by
  apply forall_numbered
  intro index item found finding member
  obtain ⟨element, stands, rfl⟩ := mem_itemParts.mp member
  exact ⟨.step (.item found) (.read stands (.here _)), index, List.mem_singleton_self _⟩

theorem groupFaults_at (value : Json) :
    ∀ finding ∈ groupFaults value, finding.At (.data value) := by
  intro finding member
  rw [groupFaults.eq_def] at member
  split at member
  · next members =>
    split at member
    · cases member
    · next items found =>
      exact mem_behind (Site.Inside.member (Fields.mem_of_get? found)).leads (itemsFaults_at items)
        finding member
    · next blocks noList found =>
      cases List.mem_singleton.mp member
      have inside := Site.Inside.member (Fields.mem_of_get? found)
      refine (Offends.noList ?_).at.behind inside.leads
      cases blocks with
      | array items => exact absurd rfl (noList items)
      | _ => rfl
  · next noObject =>
    cases List.mem_singleton.mp member
    refine (Offends.noObject ?_).at
    cases value with
    | object members => exact absurd rfl (noObject members)
    | _ => rfl

theorem groupParts_at (value : Json) :
    ∀ finding ∈ groupParts value, finding.At (.data value) := by
  intro finding member
  rw [groupParts] at member
  split at member
  · next items found =>
    cases value with
    | object members =>
      exact mem_behind (Site.Inside.member (Fields.mem_of_get? found)).leads (itemsParts_at items)
        finding member
    | _ => cases found
  · cases member

theorem slotFindings_at (value : Json) :
    ∀ finding ∈ slotFindings value, finding.At (.data value) := by
  intro finding member
  rw [slotFindings.eq_def] at member
  split at member
  · next items =>
    split at member
    · rcases List.mem_append.mp member with fault | part
      · exact itemsFaults_at items finding fault
      · exact itemsParts_at items finding part
    · cases member
  · cases member

theorem groupFindings_at (value : Json) :
    ∀ finding ∈ groupFindings value, finding.At (.data value) := by
  intro finding member
  rw [groupFindings.eq_def] at member
  have entered {findings : Json → List Finding}
      (each : ∀ value, ∀ finding ∈ findings value, finding.At (.data value)) (items : List Json) :
      ∀ finding ∈ numbered findings 0 items, finding.At (.data (.array items)) :=
    forall_numbered fun _ item found finding member =>
      (each item finding member).behind (Site.Inside.item found).leads
  split at member
  · next items =>
    rcases List.mem_append.mp member with fault | part
    · exact entered groupFaults_at items finding fault
    · exact entered groupParts_at items finding part
  · next noList =>
    cases List.mem_singleton.mp member
    refine (Offends.noList ?_).at
    cases value with
    | array items => exact absurd rfl (noList items)
    | _ => rfl

theorem childFindings_at (children : List Element) :
    ∀ finding ∈ childFindings children, finding.At (.elements children) := by
  apply forall_numbered
  intro index child found finding member
  cases List.mem_singleton.mp member
  exact ⟨(Site.Inside.element found).leads, index, List.mem_singleton_self _⟩

/-- The step for one element: whatever is found in it lies where its steps lead. -/
theorem Element.findings_at (settings : ImportSettings) (element : Element) :
    ∀ finding ∈ element.findings settings, finding.At (.element element) := by
  intro finding member
  rcases List.mem_append.mp member with option | child
  · obtain ⟨inner, held, rfl⟩ := List.mem_map.mp option
    obtain ⟨⟨key, value⟩, stored, inner_mem⟩ := List.mem_flatMap.mp held
    have used : ∃ use, element.component = some use ∧ (key, value) ∈ use.options := by
      rw [options] at stored
      cases component : element.component with
      | none => simp [component] at stored
      | some use => exact ⟨use, rfl, by simpa [component] using stored⟩
    obtain ⟨use, component, stored⟩ := used
    have leads : (Site.element element).Leads [.field "component", .field "options"]
        (.data (.object use.options)) :=
      .step (.component component) (Site.Inside.options use).leads
    refine Finding.At.behind ?_ leads
    rw [optionFindings] at inner_mem
    have inside := Site.Inside.member stored
    split at inner_mem
    · exact mem_behind inside.leads (groupFindings_at value) inner inner_mem
    · exact mem_behind inside.leads (slotFindings_at value) inner inner_mem
  · exact mem_behind (Site.Inside.children element).leads (childFindings_at element.children)
      finding child

/-! ## Depth -/

/-- How deeply elements and data are nested from here on. -/
def Site.depth : Site → Nat
  | .document page => Element.depthList page.blocks
  | .elements list => Element.depthList list
  | .element single => single.depth
  | .use reference => Json.depthMembers reference.options
  | .data value => value.depth

theorem Site.Inside.depth_lt {site next : Site} {index : Nat}
    (h : site.Inside (.item index) next) : next.depth < site.depth := by
  cases h with
  | element found => exact Element.depth_lt_depthList (List.mem_of_getElem? found)
  | item found => exact Json.depth_lt_depthItems (List.mem_of_getElem? found)

theorem Site.Inside.depth_le {site next : Site} {step : Step} (h : site.Inside step next) :
    next.depth ≤ site.depth := by
  cases h with
  | blocks => exact Nat.le_refl _
  | element found => exact Nat.le_of_lt (Inside.element found).depth_lt
  | children element => exact element.depthList_children
  | @component element use found =>
    have bound := element.depthMembers_options
    rw [Element.options, found] at bound
    exact bound
  | options => exact Nat.le_refl _
  | member found => exact Nat.le_of_lt (Json.depth_lt_depthMembers found)
  | item found => exact Nat.le_of_lt (Inside.item found).depth_lt

theorem Site.Leads.depth_le {site next : Site} {steps : List Step} (h : site.Leads steps next) :
    next.depth ≤ site.depth := by
  induction h with
  | here => exact Nat.le_refl _
  | step inside _ ih => exact Nat.le_trans ih inside.depth_le
  | read stands _ ih => exact Nat.le_trans ih (Element.depth_fromJson stands.2)

theorem Site.Leads.depth_lt {site next : Site} {steps : List Step} (h : site.Leads steps next)
    {index : Nat} (entered : .item index ∈ steps) : next.depth < site.depth := by
  induction h with
  | here => cases entered
  | step inside rest ih =>
    rcases List.mem_cons.mp entered with rfl | entered
    · exact Nat.lt_of_le_of_lt rest.depth_le inside.depth_lt
    · exact Nat.lt_of_lt_of_le (ih entered) inside.depth_le
  | read stands _ ih => exact Nat.lt_of_lt_of_le (ih entered) (Element.depth_fromJson stands.2)

def Finding.depthList : List Finding → Nat
  | [] => 0
  | .fault _ :: findings => depthList findings
  | .part _ element :: findings => max (element.depth + 1) (depthList findings)

theorem Finding.depthList_le {site : Site} {findings : List Finding}
    (h : ∀ finding ∈ findings, finding.At site) : depthList findings ≤ site.depth := by
  induction findings with
  | nil => exact Nat.zero_le _
  | cons finding findings ih =>
    obtain ⟨first, others⟩ := List.forall_mem_cons.mp h
    cases finding with
    | fault => exact ih others
    | part steps element =>
      obtain ⟨index, entered⟩ := first.2
      exact Nat.max_le.mpr ⟨first.1.depth_lt entered, ih others⟩

/-! ## The offences of a document -/

mutual

def Element.offences (settings : ImportSettings) (element : Element) : List Offence :=
  offencesIn settings (element.findings settings)
termination_by (element.depth, 1, 0)
decreasing_by
  exact before_of_le (Finding.depthList_le (element.findings_at settings)) (by omega)

/-- The offences among findings, and those in the elements that are found. -/
def offencesIn (settings : ImportSettings) (findings : List Finding) : List Offence :=
  match findings with
  | [] => []
  | .fault offence :: findings => offence :: offencesIn settings findings
  | .part steps element :: findings =>
    (element.offences settings).map (Offence.behind steps) ++ offencesIn settings findings
termination_by (Finding.depthList findings, 0, findings.length)
decreasing_by
  · exact before_of_le (Nat.le_refl _) (.inr ⟨rfl, Nat.lt_succ_self _⟩)
  · exact Prod.Lex.left _ _ (Nat.le_max_left _ _)
  · exact before_of_le (Nat.le_max_right _ _) (.inr ⟨rfl, Nat.lt_succ_self _⟩)

end

mutual

/-- Every offence in an element stands where its steps lead. -/
theorem Element.offences_at (settings : ImportSettings) (element : Element) :
    ∀ offence ∈ element.offences settings, (Finding.fault offence).At (.element element) := by
  rw [Element.offences]
  exact offencesIn_at settings (element.findings settings) (element.findings_at settings)
termination_by (element.depth, 1, 0)
decreasing_by
  exact before_of_le (Finding.depthList_le (element.findings_at settings)) (by omega)

theorem offencesIn_at (settings : ImportSettings) {site : Site} (findings : List Finding)
    (h : ∀ finding ∈ findings, finding.At site) :
    ∀ offence ∈ offencesIn settings findings, (Finding.fault offence).At site := by
  match findings with
  | [] => rw [offencesIn]; exact nofun
  | .fault offence :: findings =>
    obtain ⟨first, others⟩ := List.forall_mem_cons.mp h
    rw [offencesIn]
    exact List.forall_mem_cons.mpr ⟨first, offencesIn_at settings findings others⟩
  | .part steps element :: findings =>
    obtain ⟨first, others⟩ := List.forall_mem_cons.mp h
    rw [offencesIn]
    intro offence member
    rcases List.mem_append.mp member with inside | later
    · obtain ⟨inner, held, rfl⟩ := List.mem_map.mp inside
      exact (element.offences_at settings inner held).behind first.1
    · exact offencesIn_at settings findings others offence later
termination_by (Finding.depthList findings, 0, findings.length)
decreasing_by
  all_goals first
    | exact before_of_le (Nat.le_refl _) (.inr ⟨rfl, Nat.lt_succ_self _⟩)
    | exact Prod.Lex.left _ _ (Nat.le_max_left _ _)
    | exact before_of_le (Nat.le_max_right _ _) (.inr ⟨rfl, Nat.lt_succ_self _⟩)

end

end Content

/-- The offences of a document, in the order in which they are come upon. -/
def Content.offences (settings : Content.ImportSettings) (content : Content) :
    List Content.Offence :=
  Content.offencesIn settings
    ((Content.childFindings content.blocks).map (Content.Finding.behind [.field "blocks"]))

/-- Every offence of a document stands where its steps lead. -/
theorem Content.offences_at (settings : Content.ImportSettings) (content : Content) :
    ∀ offence ∈ content.offences settings,
      (Content.Finding.fault offence).At (.document content) :=
  Content.offencesIn_at settings _
    (Content.mem_behind (Content.Site.Inside.blocks content).leads
      (Content.childFindings_at content.blocks))

end BlockLoom
