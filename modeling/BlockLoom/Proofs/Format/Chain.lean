import BlockLoom.Format.Registry
import BlockLoom.Proofs.Component.Validity

/-!
Chains of plugins. A component is handed from plugin to plugin as long as each one changes it
to one that passes the check, and the first plugin that does not ends the run with its failure.
So a longer chain is run by running its parts one after another, every plugin but the first is
handed a component that passes the check, and plugins behind the failing one do not count.
-/

namespace BlockLoom

namespace Plugin

variable {plugin : Plugin} {plugins : List Plugin} {component changed : Component}
  {failure : Failure}

/-! ## One plugin -/

/-- A plugin hands a changed component on: it does not refuse, and the result passes the check. -/
def Passes (plugin : Plugin) (component changed : Component) : Prop :=
  plugin.before component = .ok changed ∧ changed.check = .ok ()

/-- A plugin ends a run: it refuses the component, or changes it to one that fails the check. -/
inductive Stops (plugin : Plugin) (component : Component) : Failure → Prop where
  | refused {failure : Failure} (h : plugin.before component = .error failure) :
      Stops plugin component failure
  | invalid {changed : Component} {failure : Failure} (h : plugin.before component = .ok changed)
      (wrong : changed.check = .error failure) : Stops plugin component failure

theorem applyBefore_of_passes (h : plugin.Passes component changed) (plugins : List Plugin) :
    applyBefore (plugin :: plugins) component = applyBefore plugins changed := by
  rw [applyBefore, h.1]
  dsimp only
  rw [h.2]

theorem applyBefore_of_stops (h : plugin.Stops component failure) (plugins : List Plugin) :
    applyBefore (plugin :: plugins) component = .error failure := by
  rw [applyBefore]
  cases h with
  | refused refused => rw [refused]
  | invalid made wrong =>
    rw [made]
    dsimp only
    rw [wrong]

/-- A plugin hands on or ends the run. -/
theorem passes_or_stops (plugin : Plugin) (component : Component) :
    (∃ changed, plugin.Passes component changed) ∨ ∃ failure, plugin.Stops component failure := by
  cases made : plugin.before component with
  | error failure => exact .inr ⟨failure, .refused made⟩
  | ok changed =>
    cases checked : changed.check with
    | error failure => exact .inr ⟨failure, .invalid made checked⟩
    | ok => exact .inl ⟨changed, made, checked⟩

/-! ## Chains -/

/-- A component is handed through a chain of plugins. -/
inductive Hands : List Plugin → Component → Component → Prop where
  | nil (component : Component) : Hands [] component component
  | cons {plugin : Plugin} {plugins : List Plugin} {component changed last : Component}
      (first : plugin.Passes component changed) (rest : Hands plugins changed last) :
      Hands (plugin :: plugins) component last

/-- A chain gives the component that is handed through all of it. -/
theorem applyBefore_ok_iff : applyBefore plugins component = .ok changed ↔
    Hands plugins component changed := by
  constructor
  · intro h
    induction plugins generalizing component with
    | nil =>
      cases h
      exact .nil _
    | cons plugin plugins ih =>
      rcases plugin.passes_or_stops component with ⟨next, passes⟩ | ⟨failure, stops⟩
      · rw [applyBefore_of_passes passes] at h
        exact .cons passes (ih h)
      · rw [applyBefore_of_stops stops] at h
        cases h
  · intro h
    induction h with
    | nil => rfl
    | cons first _ ih => rw [applyBefore_of_passes first, ih]

/-- What is handed through at least one plugin passes the check. -/
theorem Hands.check (h : Hands plugins component changed) (filled : plugins ≠ []) :
    changed.check = .ok () := by
  induction h with
  | nil => exact absurd rfl filled
  | cons first rest ih =>
    cases rest with
    | nil => exact first.2
    | cons => exact ih (List.cons_ne_nil _ _)

/-- A component that was handed through the first plugins is changed by the others alone. -/
theorem Hands.applyBefore_append (h : Hands plugins component changed) (later : List Plugin) :
    applyBefore (plugins ++ later) component = applyBefore later changed := by
  induction h with
  | nil => rfl
  | cons first _ ih => rw [List.cons_append, applyBefore_of_passes first, ih]

/-- A chain fails with the failure of the first plugin that ends its run. -/
theorem applyBefore_error_iff : applyBefore plugins component = .error failure ↔
    ∃ earlier plugin later received, plugins = earlier ++ plugin :: later ∧
      Hands earlier component received ∧ plugin.Stops received failure := by
  constructor
  · intro h
    induction plugins generalizing component with
    | nil => cases h
    | cons plugin plugins ih =>
      rcases plugin.passes_or_stops component with ⟨next, passes⟩ | ⟨other, stops⟩
      · rw [applyBefore_of_passes passes] at h
        obtain ⟨earlier, last, later, received, rfl, handed, stops⟩ := ih h
        exact ⟨plugin :: earlier, last, later, received, rfl, .cons passes handed, stops⟩
      · rw [applyBefore_of_stops stops] at h
        cases h
        exact ⟨[], plugin, plugins, component, rfl, .nil _, stops⟩
  · rintro ⟨earlier, plugin, later, received, rfl, handed, stops⟩
    rw [handed.applyBefore_append, applyBefore_of_stops stops]

/-- A failing chain fails in the same way however it goes on. -/
theorem applyBefore_append_of_error (h : applyBefore plugins component = .error failure)
    (later : List Plugin) : applyBefore (plugins ++ later) component = .error failure := by
  obtain ⟨earlier, plugin, others, received, rfl, handed, stops⟩ := applyBefore_error_iff.mp h
  rw [List.append_assoc, List.cons_append, handed.applyBefore_append, applyBefore_of_stops stops]

theorem applyBefore_append (first second : List Plugin) (component : Component) :
    applyBefore (first ++ second) component =
      (applyBefore first component).bind (applyBefore second) := by
  cases made : applyBefore first component with
  | error failure => exact applyBefore_append_of_error made second
  | ok changed => exact (applyBefore_ok_iff.mp made).applyBefore_append second

theorem applyAfter_append (first second : List Plugin) (output : String) :
    applyAfter (first ++ second) output = (applyAfter first output).bind (applyAfter second) := by
  induction first generalizing output with
  | nil => rfl
  | cons plugin plugins ih =>
    rw [List.cons_append, applyAfter, applyAfter]
    cases plugin.after output with
    | error failure => rfl
    | ok changed => exact ih changed

theorem applyAfter_single (plugin : Plugin) (output : String) :
    applyAfter [plugin] output = plugin.after output := by
  rw [applyAfter]
  cases plugin.after output <;> rfl

/-- A chain fails on a text with the failure of the first plugin that refuses what it is given. -/
theorem applyAfter_error_iff {output : String} : applyAfter plugins output = .error failure ↔
    ∃ earlier plugin later received, plugins = earlier ++ plugin :: later ∧
      applyAfter earlier output = .ok received ∧ plugin.after received = .error failure := by
  constructor
  · intro h
    induction plugins generalizing output with
    | nil => cases h
    | cons plugin plugins ih =>
      rw [applyAfter] at h
      cases made : plugin.after output with
      | error other =>
        rw [made] at h
        cases h
        exact ⟨[], plugin, plugins, output, rfl, rfl, made⟩
      | ok changed =>
        rw [made] at h
        obtain ⟨earlier, last, later, received, rfl, handed, refused⟩ := ih h
        refine ⟨plugin :: earlier, last, later, received, rfl, ?_, refused⟩
        rw [applyAfter, made]
        exact handed
  · rintro ⟨earlier, plugin, later, received, rfl, handed, refused⟩
    rw [applyAfter_append, handed]
    change applyAfter (plugin :: later) received = _
    rw [applyAfter, refused]

/-- Chains run in order. A chain of two parts runs the first part and, unless it fails, the
second one, before a component is written and after. Each plugin but the first is handed a
component that passes the check, and so is what a chain with any plugins gives. A chain fails
just if a plugin that its predecessors hand a component refuses it or changes it to one that
fails the check, and what follows this plugin has no effect. On a text a chain runs each plugin
on what those before it give, and fails just if one of them refuses that. Writing with plugins
runs the chain, writes what it gives, and runs the chain on the text, up to the first failure. -/
theorem chain_in_order :
    (∀ (first second : List Plugin) (component : Component),
      applyBefore (first ++ second) component =
        (applyBefore first component).bind (applyBefore second)) ∧
    (∀ (first second : List Plugin) (output : String),
      applyAfter (first ++ second) output =
        (applyAfter first output).bind (applyAfter second)) ∧
    (∀ (earlier : List Plugin) (plugin : Plugin) (later : List Plugin)
        (component received : Component), Hands earlier component received →
      applyBefore (earlier ++ plugin :: later) component =
          applyBefore (plugin :: later) received ∧
        (earlier ≠ [] → received.check = .ok ())) ∧
    (∀ (chain : List Plugin) (component changed : Component),
      applyBefore chain component = .ok changed ↔ Hands chain component changed) ∧
    (∀ (chain : List Plugin) (component changed : Component), chain ≠ [] →
      applyBefore chain component = .ok changed → changed.check = .ok ()) ∧
    (∀ (chain : List Plugin) (component : Component) (failure : Failure),
      applyBefore chain component = .error failure ↔
        ∃ earlier plugin later received, chain = earlier ++ plugin :: later ∧
          Hands earlier component received ∧ plugin.Stops received failure) ∧
    (∀ (chain later : List Plugin) (component : Component) (failure : Failure),
      applyBefore chain component = .error failure →
        applyBefore (chain ++ later) component = .error failure) ∧
    (∀ (registry : Registry) (format : String) (options : Options) (chain : List Plugin)
        (component : Component),
      registry.writeWithPlugins format options chain component =
        ((applyBefore chain component).bind (registry.write format options)).bind
          (applyAfter chain)) ∧
    (∀ (plugin : Plugin) (output : String), applyAfter [plugin] output = plugin.after output) ∧
    ∀ (chain : List Plugin) (output : String) (failure : Failure),
      applyAfter chain output = .error failure ↔
        ∃ earlier plugin later received, chain = earlier ++ plugin :: later ∧
          applyAfter earlier output = .ok received ∧ plugin.after received = .error failure := by
  refine ⟨applyBefore_append, applyAfter_append, ?_, ?_, ?_, ?_, ?_, ?_, applyAfter_single,
    fun _ _ _ => applyAfter_error_iff⟩
  · intro earlier plugin later component received handed
    exact ⟨handed.applyBefore_append _, handed.check⟩
  · exact fun _ _ _ => applyBefore_ok_iff
  · exact fun _ _ _ filled made => (applyBefore_ok_iff.mp made).check filled
  · exact fun _ _ _ => applyBefore_error_iff
  · exact fun _ later _ _ failed => applyBefore_append_of_error failed later
  · intro registry format options chain component
    rw [Registry.writeWithPlugins]
    cases applyBefore chain component with
    | error failure => rfl
    | ok changed =>
      change _ = (registry.write format options changed).bind (applyAfter chain)
      dsimp only
      cases registry.write format options changed <;> rfl

def naming : Plugin :=
  { name := "naming", before := fun component => .ok { component with name := "Shop" } }

def looping : Plugin :=
  { name := "looping"
    before := fun component =>
      .ok { component with children := component.children ++ [.named Loop.wrapperName] } }

def refusing : Plugin :=
  { name := "refusing", before := fun _ => .error (.refused "refusing" "no") }

/-- The plugin that leaves a defect behind is the one that decides, though the next one would
have refused. -/
theorem looping_stops_chain :
    applyBefore [naming, looping, refusing] { name := "Card" } =
      .error (.malformed "children[0]" .loopWithoutCollection) := by
  have named : naming.Passes { name := "Card" } { name := "Shop" } := ⟨rfl, rfl⟩
  have looped : looping.Stops { name := "Shop" }
      (.malformed "children[0]" .loopWithoutCollection) := .invalid rfl rfl
  obtain ⟨_, _, _, _, _, fails_iff, _⟩ := chain_in_order
  rw [fails_iff]
  exact ⟨[naming], looping, [refusing], { name := "Shop" }, rfl, .cons named (.nil _), looped⟩

end Plugin

end BlockLoom
