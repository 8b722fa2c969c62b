import BlockLoom.Proofs.Script.Likeness.Statement

/-!
Where the nodes of a tree stand. In a script that is read as a whole every node is the part
of the text between its start and its end, and none is broken.
-/

namespace BlockLoom.Script

open Scan

namespace Tree

mutual

/-- The nodes of a tree in the order of the document, each with the node that it is a part of. -/
def nodes (parent : Option Tree) : Tree → List (Option Tree × Tree)
  | ⟨kind, start, text, children⟩ =>
    (parent, ⟨kind, start, text, children⟩) :: nodesAmong ⟨kind, start, text, children⟩ children

def nodesAmong (parent : Tree) : List Tree → List (Option Tree × Tree)
  | [] => []
  | tree :: trees => nodes (some parent) tree ++ nodesAmong parent trees

end

/-- The nodes of a tree are the same ones whatever the tree is a part of. -/
theorem mem_nodes {parent : Option Tree} {tree : Tree} {node : Option Tree × Tree}
    (other : Option Tree) (member : node ∈ tree.nodes parent) :
    ∃ owner, (owner, node.2) ∈ tree.nodes other := by
  obtain ⟨kind, start, text, children⟩ := tree
  rw [nodes] at member ⊢
  rcases List.mem_cons.mp member with rfl | member
  · exact ⟨other, List.mem_cons_self⟩
  · exact ⟨node.1, List.mem_cons_of_mem _ member⟩

theorem mem_nodesAmong {parent : Tree} {children : List Tree} {node : Option Tree × Tree}
    (member : node ∈ nodesAmong parent children) :
    ∃ child ∈ children, ∃ owner, (owner, node.2) ∈ child.nodes none := by
  induction children with
  | nil => cases member
  | cons child children ih =>
    rw [nodesAmong] at member
    rcases List.mem_append.mp member with member | member
    · exact ⟨child, List.mem_cons_self, mem_nodes none member⟩
    · obtain ⟨other, among, found⟩ := ih member
      exact ⟨other, List.mem_cons_of_mem _ among, found⟩

mutual

/-- What a node is a part of is a node itself, unless it is the whole tree. -/
theorem owner_mem_nodes {parent : Option Tree} {tree : Tree} {node : Option Tree × Tree}
    (member : node ∈ nodes parent tree) :
    node.1 = parent ∨ ∃ other ∈ nodes parent tree, node.1 = some other.2 := by
  obtain ⟨kind, start, text, children⟩ := tree
  rw [nodes] at member ⊢
  rcases List.mem_cons.mp member with rfl | member
  · exact .inl rfl
  · rcases owner_mem_nodesAmong member with whole | ⟨other, found, same⟩
    · exact .inr ⟨_, List.mem_cons_self, whole⟩
    · exact .inr ⟨other, List.mem_cons_of_mem _ found, same⟩

theorem owner_mem_nodesAmong {parent : Tree} {children : List Tree} {node : Option Tree × Tree}
    (member : node ∈ nodesAmong parent children) :
    node.1 = some parent ∨ ∃ other ∈ nodesAmong parent children, node.1 = some other.2 := by
  cases children with
  | nil => cases member
  | cons first others =>
    rw [nodesAmong] at member ⊢
    rcases List.mem_append.mp member with member | member
    · rcases owner_mem_nodes member with whole | ⟨other, found, same⟩
      · exact .inl whole
      · exact .inr ⟨other, List.mem_append_left _ found, same⟩
    · rcases owner_mem_nodesAmong member with whole | ⟨other, found, same⟩
      · exact .inl whole
      · exact .inr ⟨other, List.mem_append_right _ found, same⟩

end

theorem anyBroken_eq_false {children : List Tree} :
    anyBroken children = false ↔ ∀ child ∈ children, child.isBroken = false := by
  induction children with
  | nil => simp [anyBroken]
  | cons child children ih => simp [anyBroken, ih]

/-- The parts of a tree without broken parts have none either. -/
theorem isBroken_child {tree child : Tree} (member : child ∈ tree.children)
    (fits : tree.isBroken = false) : child.isBroken = false := by
  obtain ⟨kind, start, text, children⟩ := tree
  simp only [isBroken, Bool.or_eq_false_iff] at fits
  exact anyBroken_eq_false.mp fits.2 child member

mutual

/-- The nodes of a tree without broken parts have none either. -/
theorem isBroken_node {parent : Option Tree} {tree : Tree} {node : Option Tree × Tree}
    (member : node ∈ nodes parent tree) (fits : tree.isBroken = false) :
    node.2.isBroken = false := by
  obtain ⟨kind, start, text, children⟩ := tree
  rw [nodes] at member
  rcases List.mem_cons.mp member with rfl | member
  · exact fits
  · simp only [isBroken, Bool.or_eq_false_iff] at fits
    exact isBroken_nodeAmong member fits.2

theorem isBroken_nodeAmong {parent : Tree} {children : List Tree} {node : Option Tree × Tree}
    (member : node ∈ nodesAmong parent children) (fits : anyBroken children = false) :
    node.2.isBroken = false := by
  cases children with
  | nil => cases member
  | cons first others =>
    simp only [anyBroken, Bool.or_eq_false_iff] at fits
    rw [nodesAmong] at member
    rcases List.mem_append.mp member with member | member
    · exact isBroken_node member fits.1
    · exact isBroken_nodeAmong member fits.2

end

/-- A tree with parts of a text: each node is the text between its start and its end. -/
structure IsIn (text : List Char) (tree : Tree) : Prop where
  fits : tree.isBroken = false
  slices : ∀ node ∈ tree.nodes none,
    text = text.take node.2.start ++ (node.2.text ++ text.drop node.2.stop)

end Tree

/-- Dropping what can be taken is dropping as much. -/
theorem drop_length_take (text : List Char) (count : Nat) :
    text.drop (text.take count).length = text.drop count := by
  by_cases fewer : count ≤ text.length
  · rw [List.length_take_of_le fewer]
  · rw [List.take_of_length_le (by omega), List.drop_length, List.drop_eq_nil_of_le (by omega)]

private theorem slice_eq (text : List Char) (start count : Nat) :
    text = text.take start ++ ((text.drop start).take count ++
      text.drop (start + ((text.drop start).take count).length)) := by
  have inner : (text.drop start).take count ++
      (text.drop start).drop ((text.drop start).take count).length = text.drop start := by
    rw [drop_length_take, List.take_append_drop]
  rw [← List.drop_drop, inner, List.take_append_drop]

/-- Places in a text, and the trees with parts of it. -/
def inText (text : List Char) : Likeness where
  place here here' := here = here' ∧ here.rest = text.drop here.offset
  tree tree tree' := tree = tree' ∧ tree.IsIn text
  rest := by
    rintro here _ ⟨rfl, -⟩
    rfl
  advance := by
    rintro here _ count ⟨rfl, rest⟩
    refine ⟨rfl, ?_⟩
    simp only [Cursor.advance, rest, List.drop_drop]
  kind := by
    rintro tree _ ⟨rfl, -⟩
    rfl
  node := by
    rintro kind start _ stop _ children children' unbroken ⟨rfl, rest⟩ ⟨rfl, -⟩ all
    obtain ⟨rfl, inside⟩ : children = children' ∧ ∀ child ∈ children, child.IsIn text := by
      induction all with
      | nil => exact ⟨rfl, List.forall_mem_nil _⟩
      | cons first _ ih =>
        obtain ⟨rfl, isIn⟩ := first
        obtain ⟨rfl, others⟩ := ih
        exact ⟨rfl, List.forall_mem_cons.mpr ⟨isIn, others⟩⟩
    refine ⟨rfl, ?_, ?_⟩
    · have fits := Tree.anyBroken_eq_false.mpr fun child member => (inside child member).fits
      simp [Tree.isBroken, unbroken, fits]
    · intro node member
      rw [Tree.nodes] at member
      rcases List.mem_cons.mp member with rfl | member
      · rw [rest]
        exact slice_eq text _ _
      · obtain ⟨child, among, owner, found⟩ := Tree.mem_nodesAmong member
        exact (inside child among).slices (owner, node.2) found

/-- A script that is read as a whole has no broken parts, and its nodes are parts of it. -/
theorem readProgram?_isIn {text : List Char} {program : Tree}
    (h : readProgram? text = some program) : program.IsIn text := by
  have enough : 3 * (text.length + 1) ≤ 4 * text.length + 8 := by omega
  have alike := program_alike (grammars_alike (L := inText text) (text.length + 1) enough enough)
  unfold readProgram? at h
  dsimp only at h
  split at h
  · cases h
  · obtain ⟨⟨tree, there⟩, read, rfl⟩ := Option.map_eq_some_iff.mp h
    rcases alike ⟨0, text⟩ ⟨0, text⟩ ⟨rfl, rfl⟩ (Nat.lt_succ_self _) with
      ⟨stuck, -⟩ | ⟨_, _, _, _, found, -, ⟨-, isIn⟩, -⟩
    · cases read.symm.trans stuck
    · cases read.symm.trans found
      exact isIn

private theorem spanned_kind {kind : Kind} {scan : Scan (List Tree)} {here there : Cursor}
    {tree : Tree} (h : (spanned kind scan).run here = some (tree, there)) : tree.kind = kind := by
  unfold spanned at h
  rw [run_then (run_trivia here), run_then (run_get _)] at h
  obtain ⟨children, stop, -, made⟩ := exists_of_run_bind h
  cases made
  rfl

/-- A script has no broken parts just if it can be read as a whole. -/
theorem isBroken_readProgram {text : List Char} :
    (readProgram text).isBroken = false ↔ readProgram? text = some (readProgram text) := by
  constructor
  · intro fits
    unfold readProgram at fits ⊢
    split at fits
    · next program whole => rw [whole]
    · dsimp only at fits
      split at fits
      · next program stop salvaged =>
        obtain ⟨kind, start, source, children⟩ := program
        obtain rfl : kind = .broken := spanned_kind salvaged
        cases fits
      · cases fits
  · exact fun whole => (readProgram?_isIn whole).fits

end BlockLoom.Script
