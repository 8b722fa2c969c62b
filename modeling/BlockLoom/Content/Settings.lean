/-!
What can be chosen when page content is read and written.
-/

namespace BlockLoom.Content

def defaultComponentName : String := "MyComponent"

structure ImportSettings where
  /-- The name of the component if the content has none. -/
  componentName : String := defaultComponentName
  /-- The name of nodes for elements that have neither component nor tag. -/
  placeholderTag : String := "div"
  deriving DecidableEq, Repr, Inhabited

structure ExportSettings where
  /-- Whether missing code is written as empty text. -/
  emitEmptyCode : Bool := true
  /-- Whether the text is indented. -/
  pretty : Bool := true
  deriving DecidableEq, Repr, Inhabited

end BlockLoom.Content
