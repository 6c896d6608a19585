import PhpCheck.Typing.Infer
import Mathlib.Tactic.Lemma

/-!
# The parts of a node

`Node.nodes` lists a node with all its parts. What is found out about an expression stems from its
parts: every faulty operator stands on the line of one of them.
-/

namespace PhpCheck

/-- A node and all its parts, at any depth. -/
def Node.nodes (node : Node) : List Node :=
  node :: node.children.attach.flatMap fun child => child.val.nodes
termination_by sizeOf node
decreasing_by exact Node.sizeOf_children_mem child.property

namespace Node

lemma nodes_eq (node : Node) : node.nodes = node :: node.children.flatMap nodes := by
  rw [nodes]
  simp [List.flatMap_subtype]

lemma self_mem_nodes (node : Node) : node ∈ node.nodes := by
  rw [nodes]
  exact List.mem_cons_self ..

lemma mem_nodes_iff {node part : Node} :
    part ∈ node.nodes ↔ part = node ∨ ∃ child ∈ node.children, part ∈ child.nodes := by
  rw [nodes]
  simp [List.mem_flatMap]

lemma mem_nodes_of_child {node child part : Node} (hchild : child ∈ node.children)
    (h : part ∈ child.nodes) : part ∈ node.nodes :=
  mem_nodes_iff.mpr (.inr ⟨child, hchild, h⟩)

lemma mem_nodes_trans {node part piece : Node} (hpart : part ∈ node.nodes)
    (hpiece : piece ∈ part.nodes) : piece ∈ node.nodes := by
  induction node using Node.induction_on_children with
  | step node ih =>
    rcases mem_nodes_iff.mp hpart with rfl | ⟨child, hchild, hpart⟩
    · exact hpiece
    · exact mem_nodes_of_child hchild (ih child hchild hpart)

end Node

/-- The line is that of a part of the node. -/
def Node.HasLine (node : Node) (line : Line) : Prop := ∃ part ∈ node.nodes, part.line = line

lemma Node.HasLine.of_child {node child : Node} (hchild : child ∈ node.children) {line : Line}
    (h : child.HasLine line) : node.HasLine line := by
  obtain ⟨part, hpart, hline⟩ := h
  exact ⟨part, Node.mem_nodes_of_child hchild hpart, hline⟩

lemma Node.hasLine_self (node : Node) : node.HasLine node.line := ⟨node, node.self_mem_nodes, rfl⟩

/-- The operators that are found faulty in an expression are parts of it. -/
lemma hasLine_of_mem_faults (s : SymbolTable) (context : Context) (node : Node) :
    ∀ fault ∈ (infer s context node).faults, node.HasLine fault.line := by
  apply infer.induct s context
    (fun node => ∀ fault ∈ (infer s context node).faults, node.HasLine fault.line)
    (fun items => ∀ fault ∈ (inferItems s context items).faults,
      ∃ item ∈ items, item.value.HasLine fault.line)
  case case3 =>
    intro line items ih fault hfault
    rw [infer] at hfault
    obtain ⟨item, hitem, hline⟩ := ih fault hfault
    apply hline.of_child
    have hvalue : item.value ∈ item.parts := by simp [ArrayItem.parts]
    exact List.mem_flatMap.mpr ⟨item, hitem, hvalue⟩
  case case4 | case17 | case22 | case23 =>
    intros
    rename_i ih fault hfault
    rw [infer] at hfault
    exact (ih fault hfault).of_child (by simp [Node.children, Kind.children])
  case case16 =>
    intro line operator left right hleft hright fault hfault
    rw [infer] at hfault
    simp only [List.mem_append] at hfault
    rcases hfault with (hfault | hfault) | hfault
    · exact (hleft fault hfault).of_child (by simp [Node.children, Kind.children])
    · exact (hright fault hfault).of_child (by simp [Node.children, Kind.children])
    · obtain ⟨side, -, rfl⟩ := List.mem_map.mp hfault
      exact Node.hasLine_self _
  case case19 | case20 =>
    intros
    rename_i hfirst hsecond fault hfault
    rw [infer] at hfault
    simp only [List.mem_append] at hfault
    rcases hfault with hfault | hfault
    · exact (hfirst fault hfault).of_child (by simp [Node.children, Kind.children])
    · exact (hsecond fault hfault).of_child (by simp [Node.children, Kind.children])
  case case27 =>
    intro key value rest hvalue hrest fault hfault
    rw [inferItems] at hfault
    rcases List.mem_append.mp hfault with hfault | hfault
    · exact ⟨⟨key, value⟩, List.mem_cons_self .., hvalue fault hfault⟩
    · obtain ⟨item, hitem, hline⟩ := hrest fault hfault
      exact ⟨item, List.mem_cons_of_mem _ hitem, hline⟩
  -- the other expressions are not searched for faults
  all_goals
    intros
    rename_i hfault
    simp [infer, inferItems, *] at hfault

end PhpCheck
