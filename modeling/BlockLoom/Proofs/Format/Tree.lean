import BlockLoom.Format.Standard
import BlockLoom.Proofs.Component.Wire

/-!
The format that holds the component tree itself loses nothing: what it writes, in
either layout, it reads back as the same component, with the entries of every map
in their order. Floating-point numbers are left out, since their arithmetic is not
reasoned about.
-/

namespace BlockLoom.Format

/-- The layout of a written tree is one of the two, whatever the options say. -/
theorem exists_layout_of_writeWith {pretty : Bool} {options : Options} {component : Component}
    {text : String} (h : (tree pretty).writeWith options component = .ok text) :
    ∃ indented, text = component.write indented := by
  change (do
    checkOptionKeys "mitosis-json" ["pretty"] options
    return component.write (← booleanOption options "pretty" pretty) : Except Failure String) =
      .ok text at h
  cases known : checkOptionKeys "mitosis-json" ["pretty"] options with
  | error failure =>
    rw [known] at h
    cases h
  | ok checked =>
    cases chosen : booleanOption options "pretty" pretty with
    | error failure =>
      rw [known, chosen] at h
      cases h
    | ok indented =>
      rw [known, chosen] at h
      exact ⟨indented, (Except.ok.inj h).symm⟩

/-- A valid component is written as a tree, and whatever text is written for it, with any options,
is read back as the same component: with the entries of its maps in their order, and without the
parts that it does not have. -/
theorem parse_written_tree {component : Component} (valid : component.check = .ok ())
    (keyed : component.isKeyed = true) (integral : component.toJson.isIntegral = true)
    (deep : component.toJson.nesting ≤ Json.maxDepth)
    (given : ∀ input ∈ component.inputs, input.defaultValue ≠ some .null) (pretty other : Bool) :
    (∃ text, (tree pretty).write component = .ok text ∧ (tree other).parse text = .ok component) ∧
      ∀ options text, (tree pretty).writeWith options component = .ok text →
        (tree other).parse text = .ok component := by
  have parsed (indented : Bool) : (tree other).parse (component.write indented) = .ok component := by
    have read := component.read_render keyed integral deep given (.ofPretty indented)
    change parseTree (component.write indented) = .ok component
    rw [parseTree, Component.write, read]
    simp only [valid]
  refine ⟨⟨component.write pretty, rfl, parsed pretty⟩, fun options text written => ?_⟩
  obtain ⟨indented, rfl⟩ := exists_layout_of_writeWith written
  exact parsed indented

def productList : Component :=
  { name := "Products"
    state := [("\"max-count\"", ⟨"3", .property⟩), ("load", ⟨"load() \x7b\x7d", .method⟩)]
    inputs := [{ name := "title", defaultValue := some (.string "Über \"uns\"\n"),
                 metadata := [("size", .ofInt (-7)), ("free", .array [.null, .bool true])] }]
    onMount := some "load();"
    children :=
      [{ name := "For"
         bindings := [("each", ⟨"state.products", .property, .single⟩)]
         scope := { itemName := some "product" }
         children :=
           [{ name := "Card"
              properties := [("", .object [("z", .ofInt 18446744073709551615), ("a", .null)])]
              bindings := [("rest", ⟨"product", .expression, .spread⟩)]
              slots := [("header", [{ name := "h1" }]), ("footer", [])] }] }]
    metadata := [("cssCode", .string ".a \x7b\x7d")] }

theorem productList_read_back :
    productList.check = .ok () ∧ productList.isKeyed = true ∧
      productList.toJson.isIntegral = true ∧ productList.toJson.nesting ≤ Json.maxDepth ∧
      (∀ input ∈ productList.inputs, input.defaultValue ≠ some .null) ∧
      ∃ text, (tree true).write productList = .ok text ∧
        (tree false).parse text = .ok productList := by
  have valid : productList.check = .ok () := rfl
  have keyed : productList.isKeyed = true := by decide
  have integral : productList.toJson.isIntegral = true := by decide
  have deep : productList.toJson.nesting ≤ Json.maxDepth := by decide
  have given : ∀ input ∈ productList.inputs, input.defaultValue ≠ some .null := by
    intro input member
    cases List.mem_singleton.mp member
    simp
  exact ⟨valid, keyed, integral, deep, given,
    (parse_written_tree valid keyed integral deep given true false).1⟩

end BlockLoom.Format
