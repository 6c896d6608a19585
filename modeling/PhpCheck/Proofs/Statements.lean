import PhpCheck.Proofs.Runs
import Mathlib.Data.List.Flatten

/-!
# How often a statement is on a route

A statement of a program is on the route of one unit or of one collected body, if at all: the routes of
all units and of all bodies of callables together come to no more statements than are written.
-/

namespace PhpCheck

lemma countP_flatMap_le {α β γ : Type} {p : α → Bool} {q : β → Bool} {f : γ → List α} {g : γ → List β}
    {l : List γ} (h : ∀ x ∈ l, (f x).countP p ≤ (g x).countP q) :
    (l.flatMap f).countP p ≤ (l.flatMap g).countP q := by
  induction l with
  | nil => exact Nat.le_refl _
  | cons x l ih =>
    rw [List.flatMap_cons, List.flatMap_cons, List.countP_append, List.countP_append]
    exact Nat.add_le_add (h x (List.mem_cons_self ..)) (ih fun y hy => h y (List.mem_cons_of_mem _ hy))

lemma countP_flatMap_le_of_subperm {α β : Type} {l k : List α} (h : l.Subperm k) (f : α → List β)
    (p : β → Bool) : (l.flatMap f).countP p ≤ (k.flatMap f).countP p := by
  obtain ⟨r, hperm, hsub⟩ := h
  rw [← (hperm.flatMap_right f).countP_eq]
  exact (hsub.flatMap f).countP_le

/-- The statements of a statement list. -/
def Node.statements (node : Node) : List Node :=
  if node.isStatementList then node.children else []

/-- The statements among the parts of a node, each with the file. -/
def Node.statementsWithin (file : String) (node : Node) : List (String × Node) :=
  node.nodes.flatMap fun part => part.statements.map fun statement => (file, statement)

/-- The statements of a unit, each with the file. -/
def SourceUnit.statements (unit : SourceUnit) : List (String × Node) :=
  unit.root.statementsWithin unit.path

/-- The diagnostic of a stop where an expression stands as a statement. -/
def Stop.noOp? (stop : Stop) : Option Diagnostic :=
  if stop.node.isIdle && stop.parent.any Node.isStatementList then
    some ((Finding.noOp stop.node.describe).diagnosticAt stop.file stop.node.line)
  else none

/-- Whether the diagnostic would be that of a statement of the file. -/
def Diagnostic.fits (d : Diagnostic) (statement : String × Node) : Bool :=
  (Finding.noOp statement.2.describe).diagnosticAt statement.1 statement.2.line == d

/-- Whether the diagnostic is that of the stop. -/
def Diagnostic.hits (d : Diagnostic) (stop : Stop) : Bool := stop.noOp? == some d

/-- The stops on the way through the body of a callable. -/
def Callable.stops (c : Callable) : List Stop := c.body.toList.flatMap fun body => (c.stop body).route

/-- The stops on the way through the body that a node of the file declares. -/
def Node.bodyStops (file : String) (node : Node) : List Stop :=
  if node.isCallable then node.children.flatMap fun body => Stop.route ⟨file, none, none, body⟩ else []

section Hits

variable (d : Diagnostic)

lemma Diagnostic.hits_of_parent_none (file : String) (owner : Option String) (node : Node) :
    d.hits ⟨file, owner, none, node⟩ = false := by
  simp [hits, Stop.noOp?]

lemma Diagnostic.fits_of_hits {stop : Stop} (h : d.hits stop = true) :
    d.fits (stop.file, stop.node) = true ∧ stop.parent.any Node.isStatementList = true := by
  unfold hits Stop.noOp? at h
  split at h
  · rename_i hstop
    simp only [Bool.and_eq_true] at hstop
    exact ⟨by simpa [fits] using h, hstop.2⟩
  · simp at h

/-- The class around a node does not matter. -/
lemma countP_hits_route_le (file : String) (parent : Option Node) (node : Node)
    (owner other : Option String) :
    (Stop.route ⟨file, owner, parent, node⟩).countP d.hits ≤
      (Stop.route ⟨file, other, parent, node⟩).countP d.hits := by
  induction node using Node.induction_on_children generalizing parent owner other with
  | step node ih =>
    have hself : d.hits ⟨file, owner, parent, node⟩ = d.hits ⟨file, other, parent, node⟩ := rfl
    cases hcallable : node.isCallable with
    | true =>
      rw [Stop.route_of_isCallable hcallable, Stop.route_of_isCallable hcallable]
      simp [hself]
    | false =>
      obtain ⟨inner, hnext⟩ := Visit.exists_next_eq_map hcallable owner
      obtain ⟨inner', hnext'⟩ := Visit.exists_next_eq_map hcallable other
      rw [Stop.route_of_parts parent hnext, Stop.route_of_parts parent hnext', List.countP_append,
        List.countP_append]
      refine Nat.add_le_add (countP_flatMap_le fun child hchild => ih child hchild _ _ _) ?_
      simp [hself]

lemma countP_hits_parts (file : String) (owner : Option String) (node : Node) :
    (node.children.map fun child => (⟨file, owner, some node, child⟩ : Stop)).countP d.hits ≤
      (node.statements.map fun statement => (file, statement)).countP d.fits := by
  rw [List.countP_map, List.countP_map]
  cases hlist : node.isStatementList with
  | true =>
    rw [Node.statements, hlist, if_pos rfl]
    exact List.countP_mono_left fun child _ h => (d.fits_of_hits h).1
  | false =>
    have hnone : node.children.countP (d.hits ∘ fun child => ⟨file, owner, some node, child⟩) = 0 := by
      refine List.countP_eq_zero.mpr fun child _ h => ?_
      have hparent := (d.fits_of_hits h).2
      simp [hlist] at hparent
    omega

/-- The route of a node and the routes of the bodies that are declared in it come to no more statements
than there are in the node, beside the node itself. -/
lemma countP_hits_le (file : String) (owner : Option String) (parent : Option Node) (node : Node) :
    (Stop.route ⟨file, owner, parent, node⟩).countP d.hits +
        (node.nodes.flatMap (Node.bodyStops file)).countP d.hits ≤
      (node.statementsWithin file).countP d.fits +
        [(⟨file, owner, parent, node⟩ : Stop)].countP d.hits := by
  induction node using Node.induction_on_children generalizing owner parent with
  | step node ih =>
    -- the same for several parts, in turn
    have hparts : ∀ (owner : Option String) (parent : Option Node) (l : List Node),
        (∀ child ∈ l, child ∈ node.children) →
        (l.flatMap fun child => Stop.route ⟨file, owner, parent, child⟩).countP d.hits +
            (l.flatMap fun child => child.nodes.flatMap (Node.bodyStops file)).countP d.hits ≤
          (l.flatMap (Node.statementsWithin file)).countP d.fits +
            (l.map fun child => (⟨file, owner, parent, child⟩ : Stop)).countP d.hits := by
      intro owner parent l hl
      induction l with
      | nil => exact Nat.le_refl _
      | cons child l ihl =>
        have hchild := ih child (hl child (List.mem_cons_self ..)) owner parent
        have hrest := ihl fun other hother => hl other (List.mem_cons_of_mem _ hother)
        simp only [List.flatMap_cons, List.map_cons, List.countP_append, List.countP_cons,
          List.countP_nil] at hchild hrest ⊢
        omega
    have hbodies : (node.nodes.flatMap (Node.bodyStops file)).countP d.hits =
        (node.bodyStops file).countP d.hits +
          (node.children.flatMap fun child =>
            child.nodes.flatMap (Node.bodyStops file)).countP d.hits := by
      rw [Node.nodes_eq, List.flatMap_cons, List.countP_append, List.flatMap_assoc]
    have hstatements : (node.statementsWithin file).countP d.fits =
        (node.statements.map fun statement => (file, statement)).countP d.fits +
          (node.children.flatMap (Node.statementsWithin file)).countP d.fits := by
      rw [Node.statementsWithin, Node.nodes_eq, List.flatMap_cons, List.countP_append, List.flatMap_assoc]
      rfl
    rw [hbodies, hstatements]
    cases hcallable : node.isCallable with
    | true =>
      have hwithin := hparts none none node.children fun _ h => h
      -- the walk of the node stops here, and its body is a route of its own
      have hnone :
          (node.children.map fun child => (⟨file, none, none, child⟩ : Stop)).countP d.hits = 0 := by
        rw [List.countP_map]
        exact List.countP_eq_zero.mpr fun child _ => by simp [d.hits_of_parent_none]
      rw [Stop.route_of_isCallable hcallable, Node.bodyStops, if_pos hcallable]
      omega
    | false =>
      obtain ⟨inner, hnext⟩ := Visit.exists_next_eq_map hcallable owner
      have hwithin := hparts inner (some node) node.children fun _ h => h
      have hlisted := countP_hits_parts d file inner node
      rw [Stop.route_of_parts parent hnext, List.countP_append, Node.bodyStops, hcallable]
      simp only [Bool.false_eq_true, if_false, List.countP_nil]
      omega

lemma countP_hits_units (units : List SourceUnit) :
    (units.flatMap fun unit => unit.stop.route).countP d.hits +
        ((units.flatMap SourceUnit.nodes).flatMap fun node => node.2.bodyStops node.1).countP d.hits ≤
      (units.flatMap SourceUnit.statements).countP d.fits := by
  induction units with
  | nil => exact Nat.le_refl _
  | cons unit units ih =>
    have hunit := countP_hits_le d unit.path none none unit.root
    have hnodes : (unit.nodes.flatMap fun node => node.2.bodyStops node.1) =
        unit.root.nodes.flatMap (Node.bodyStops unit.path) := by
      rw [SourceUnit.nodes, List.flatMap_map]
    rw [List.countP_singleton, d.hits_of_parent_none] at hunit
    simp only [List.flatMap_cons, List.flatMap_append, List.countP_append, hnodes]
    rw [SourceUnit.stop, SourceUnit.statements]
    simp only [Bool.false_eq_true, if_false] at hunit
    omega

lemma DeclaredBy.countP_stops_le {file : String} {node : Node} {c : Callable}
    (h : DeclaredBy file node c) : c.stops.countP d.hits ≤ (node.bodyStops file).countP d.hits := by
  rw [Callable.stops, Node.bodyStops, if_pos h.isCallable, h.body]
  refine countP_flatMap_le fun body _ => ?_
  rw [Callable.stop, h.file]
  exact countP_hits_route_le d file none body c.owner none

/-- The routes of the units and those of the bodies that are collected from them come to no more
statements than are written. -/
lemma countP_hits_program {units : List SourceUnit} {symbols : SymbolTable}
    (hcollect : SymbolTable.builtin.collectUnits units = .ok symbols) :
    (units.flatMap fun unit => unit.stop.route).countP d.hits +
        (symbols.callables.flatMap Callable.stops).countP d.hits ≤
      (units.flatMap SourceUnit.statements).countP d.fits := by
  obtain ⟨declared, hcallables, hnodes, hdeclared⟩ := collectUnits_declares hcollect
  have hbuiltin : SymbolTable.builtin.callables.flatMap Callable.stops = [] := by
    refine List.flatMap_eq_nil_iff.mpr fun c hc => ?_
    have hnone : ∀ f ∈ SymbolTable.builtinFunctions, f.body = none := by
      simp [SymbolTable.builtinFunctions, Callable.internal]
    rw [Callable.stops, hnone c (mem_builtinFunctions_of_mem_callables hc)]
    rfl
  have hfiled : (symbols.callables.flatMap Callable.stops).countP d.hits ≤
      (declared.flatMap fun entry => entry.2.stops).countP d.hits := by
    have hle := countP_flatMap_le_of_subperm hcallables Callable.stops d.hits
    rwa [List.flatMap_append, hbuiltin, List.append_nil, List.flatMap_map] at hle
  have hbodies : (declared.flatMap fun entry => entry.2.stops).countP d.hits ≤
      (declared.flatMap fun entry => entry.1.2.bodyStops entry.1.1).countP d.hits :=
    countP_flatMap_le fun entry hentry => (hdeclared entry hentry).countP_stops_le d
  have hwritten : (declared.flatMap fun entry => entry.1.2.bodyStops entry.1.1).countP d.hits ≤
      ((units.flatMap SourceUnit.nodes).flatMap fun node => node.2.bodyStops node.1).countP d.hits := by
    have hle := countP_flatMap_le_of_subperm hnodes.subperm (fun node => node.2.bodyStops node.1) d.hits
    rwa [List.flatMap_map] at hle
  have hunits := countP_hits_units d units
  omega

end Hits

end PhpCheck
