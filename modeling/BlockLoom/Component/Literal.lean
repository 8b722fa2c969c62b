import BlockLoom.Component.Node
import BlockLoom.Script.Constant

/-!
The fields of a node as plain data: its literal properties, and its bindings as
far as their expressions are constant.
-/

namespace BlockLoom

def Node.literalFields (node : Node) : Fields Json :=
  node.bindings.foldl (fun fields entry =>
    match Script.literalValue? entry.2.code with
    | some value => Fields.put fields entry.1 value
    | none => fields) (Fields.ofEntries node.properties)

end BlockLoom
