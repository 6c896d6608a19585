import PhpCheck.Proofs.Collection
import PhpCheck.Proofs.SymbolEdits

/-!
# Where bodies come from

Every body that the collection of declarations files is a node of a unit for the file that the callable
is declared in. Since a run never changes the body or the place of a callable, a walk never leaves the
nodes of the units.
-/

namespace PhpCheck

/-- The node is part of a unit for that file. -/
def InUnits (units : List SourceUnit) (file : String) (node : Node) : Prop :=
  ∃ unit ∈ units, unit.path = file ∧ node ∈ unit.root.nodes

/-- Every body that is filed has its origin in the file of its callable. -/
def SymbolTable.BodiesIn (origin : String → Node → Prop) (s : SymbolTable) : Prop :=
  ∀ key c body, s.callable? key = some c → c.body = some body → origin c.site.file body

lemma Visit.node_mem_nodes_of_mem_visits {start visit : Visit} (h : visit ∈ start.visits) :
    visit.node ∈ start.node.nodes := by
  obtain ⟨owner, node⟩ := start
  induction node using Node.induction_on_children generalizing owner with
  | step node ih =>
    rcases mem_visits_iff.mp h with rfl | ⟨⟨inner, child⟩, hnext, h⟩
    · exact Node.self_mem_nodes _
    · have hchild := node_mem_children_of_mem_next hnext
      exact Node.mem_nodes_of_child hchild (ih child hchild inner h)

/-- A walk does not leave the units. -/
lemma InUnits.of_mem_visits {units : List SourceUnit} {file : String} {start visit : Visit}
    (h : InUnits units file start.node) (hvisit : visit ∈ start.visits) :
    InUnits units file visit.node := by
  obtain ⟨unit, hunit, hpath, hroot⟩ := h
  have hpart := Node.mem_nodes_trans hroot (Visit.node_mem_nodes_of_mem_visits hvisit)
  exact ⟨unit, hunit, hpath, hpart⟩

lemma inUnits_iff {units : List SourceUnit} {file : String} {node : Node} :
    InUnits units file node ↔ (file, node) ∈ units.flatMap SourceUnit.nodes := by
  simp only [InUnits, SourceUnit.nodes, List.mem_flatMap, List.mem_map, Prod.mk.injEq]
  constructor
  · rintro ⟨unit, hunit, hpath, hnode⟩
    exact ⟨unit, hunit, node, hnode, hpath, rfl⟩
  · rintro ⟨unit, hunit, part, hpart, hpath, rfl⟩
    exact ⟨unit, hunit, hpath, hpart⟩

/-- A callable of a program belongs to the language, or a node of the units declares it. -/
lemma exists_declaredBy_of_collectUnits {units : List SourceUnit} {symbols : SymbolTable}
    (h : SymbolTable.builtin.collectUnits units = .ok symbols) {key : CallableKey} {c : Callable}
    (hc : symbols.callable? key = some c) :
    c ∈ SymbolTable.builtinFunctions ∨ ∃ file node, InUnits units file node ∧ DeclaredBy file node c := by
  obtain ⟨declared, hcallables, hnodes, hdeclared⟩ := collectUnits_declares h
  have hmem := hcallables.subset (symbols.mem_callables_of_callable? hc)
  rcases List.mem_append.mp hmem with hmem | hmem
  · right
    obtain ⟨⟨⟨file, node⟩, d⟩, hd, rfl⟩ := List.mem_map.mp hmem
    refine ⟨file, node, ?_, hdeclared _ hd⟩
    exact inUnits_iff.mpr (hnodes.subset (List.mem_map_of_mem hd))
  · left
    exact mem_builtinFunctions_of_mem_callables hmem

lemma SymbolTable.BodiesIn.of_sameCores {origin : String → Node → Prop} {s t : SymbolTable}
    (h : s.BodiesIn origin) (hcores : s.SameCores t) : t.BodiesIn origin := by
  intro key d body hd hbody
  obtain ⟨c, hc, hcd⟩ := hcores.symm.exists_callable hd
  have hsite : c.core.site = d.core.site := by rw [hcd]
  have hsame : c.core.body = d.core.body := by rw [hcd]
  have horigin : origin c.site.file body := h key c body hc (hsame.trans hbody)
  rwa [show c.site = d.site from hsite] at horigin

/-- A function of the language has no body. -/
lemma body_of_mem_builtinFunctions {c : Callable} (h : c ∈ SymbolTable.builtinFunctions) :
    c.body = none := by
  have hnone : ∀ f ∈ SymbolTable.builtinFunctions, f.body = none := by
    simp [SymbolTable.builtinFunctions, Callable.internal]
  exact hnone c h

/-- What is collected from units stems from them. -/
lemma bodiesIn_of_collectUnits {units : List SourceUnit} {symbols : SymbolTable}
    (h : SymbolTable.builtin.collectUnits units = .ok symbols) : symbols.BodiesIn (InUnits units) := by
  intro key c body hc hbody
  rcases exists_declaredBy_of_collectUnits h hc with hbuiltin | ⟨file, node, hnode, hdeclared⟩
  · rw [body_of_mem_builtinFunctions hbuiltin] at hbody
    cases hbody
  · have hchild : body ∈ node.children := by
      rw [← hdeclared.body, hbody]
      exact List.mem_singleton_self body
    rw [hdeclared.file]
    obtain ⟨unit, hunit, hpath, hpart⟩ := hnode
    have hbody := Node.mem_nodes_of_child hchild body.self_mem_nodes
    exact ⟨unit, hunit, hpath, Node.mem_nodes_trans hpart hbody⟩

end PhpCheck
