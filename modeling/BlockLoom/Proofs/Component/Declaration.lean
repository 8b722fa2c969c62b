import BlockLoom.Proofs.Component.State
import BlockLoom.Proofs.Script.Slice

/-!
Which call of a script declares the state. The calls that do are described by what they look
like; the one that is taken is the first of them in the order of the document, in which a call
comes before the calls in its callee and its arguments.
-/

namespace BlockLoom.State

open Script

/-! ## The calls that declare state -/

/-- The calls that declare state, with the argument in the place of the object. A hook need
not have one; an assignment that has none, or another target, declares nothing. -/
inductive Declares : Tree → Option Tree → Prop
  | hook {start : Nat} {text : List Char} {callee given : Tree}
      (named : callee.source ∈ hookNames) :
      Declares ⟨.call, start, text, [callee, given]⟩ given.children.head?
  | assignment {start : Nat} {text : List Char} {callee given object name target argument : Tree}
      {others : List Tree} (other : callee.source ∉ hookNames) (access : callee.kind = .property)
      (parts : callee.children = [object, name]) (onObject : object.source = "Object")
      (named : name.source = "assign") (arguments : given.children = target :: argument :: others)
      (toState : target.source = "state") :
      Declares ⟨.call, start, text, [callee, given]⟩ (some argument)

def declarationAt (node : Option Tree × Tree) : Option Declaration :=
  declaration? (node.1.filter fun tree => tree.kind == .expressionStatement) node.2

mutual

/-- The search goes through the nodes in the order of the document. -/
theorem findDeclaration?_eq_findSome? (parent : Option Tree) (tree : Tree) :
    findDeclaration? (parent.filter fun tree => tree.kind == .expressionStatement) tree =
      (tree.nodes parent).findSome? declarationAt := by
  obtain ⟨kind, start, text, children⟩ := tree
  have statement : (some ⟨kind, start, text, children⟩ : Option Tree).filter
      (fun tree => tree.kind == .expressionStatement) =
        if kind == .expressionStatement then some ⟨kind, start, text, children⟩ else none := rfl
  rw [findDeclaration?, Tree.nodes, List.findSome?_cons,
    ← statement, findDeclarationAmong?_eq_findSome? ⟨kind, start, text, children⟩ children]
  change (declarationAt (parent, _)).or _ = _
  cases declarationAt (parent, ⟨kind, start, text, children⟩) <;> rfl

theorem findDeclarationAmong?_eq_findSome? (parent : Tree) (children : List Tree) :
    findDeclarationAmong? ((some parent).filter fun tree => tree.kind == .expressionStatement)
        children = (Tree.nodesAmong parent children).findSome? declarationAt := by
  cases children with
  | nil => rfl
  | cons first others =>
    rw [findDeclarationAmong?, Tree.nodesAmong, List.findSome?_append,
      findDeclaration?_eq_findSome? (some parent) first,
      findDeclarationAmong?_eq_findSome? parent others]

end

/-- The argument that declares state is a part of the call. -/
theorem Declares.isBroken {call argument : Tree} (h : Declares call (some argument))
    (fits : call.isBroken = false) : argument.isBroken = false := by
  obtain ⟨callee, given, parts, member⟩ : ∃ callee given, call.children = [callee, given] ∧
      argument ∈ given.children := by
    generalize value : some argument = declared at h
    cases h with
    | hook => exact ⟨_, _, rfl, List.mem_of_mem_head? value.symm⟩
    | assignment other access parts onObject named arguments toState =>
      obtain rfl := Option.some.inj value
      exact ⟨_, _, rfl, by rw [arguments]; exact List.mem_cons_of_mem _ List.mem_cons_self⟩
  have given : given.isBroken = false := Tree.isBroken_child (by rw [parts]; simp) fits
  exact Tree.isBroken_child member given

/-- What is left of a text around a node that is cut out. -/
def around (text : List Char) (cut : Tree) : String :=
  String.ofList (Text.trimList (text.take cut.start) ++
    '\n' :: Text.trimList (text.drop cut.stop))

end BlockLoom.State
