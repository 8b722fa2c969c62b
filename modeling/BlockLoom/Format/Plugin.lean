import BlockLoom.Component.Validity

/-!
Plugins: changes to a component before it is written, and to the text after it
was written. They run in the order in which they were added, and a component is
checked each time a plugin has changed it.
-/

namespace BlockLoom

structure Plugin where
  name : String
  before : Component → Except Failure Component := .ok
  after : String → Except Failure String := .ok

namespace Plugin

/-- Changes a component by one plugin after another. Each result is checked before the next plugin
is handed it. -/
def applyBefore : List Plugin → Component → Except Failure Component
  | [], component => .ok component
  | plugin :: plugins, component =>
    match plugin.before component with
    | .error failure => .error failure
    | .ok changed =>
      match changed.check with
      | .error failure => .error failure
      | .ok () => applyBefore plugins changed

/-- Changes a text by one plugin after another. -/
def applyAfter : List Plugin → String → Except Failure String
  | [], output => .ok output
  | plugin :: plugins, output =>
    match plugin.after output with
    | .error failure => .error failure
    | .ok changed => applyAfter plugins changed

end Plugin

end BlockLoom
