import PhpCheck.Proofs.Collection

/-!
# The steps of a collection

`Enters` lists all that a node can enter into the symbol table. A preorder that every such step respects
holds between the tables before and after a collection, also where an error has cut it short.
-/

namespace PhpCheck

/-- What a node of a file enters into the table `s`, inside the class `owner` if there is one. -/
inductive Enters (file : String) (owner : Option String) (node : Node) (s : SymbolTable) :
    SymbolTable → Prop
  | nothing : Enters file owner node s s
  | class {decl : ClassDecl} (hkind : node.kind = .classDecl decl) :
    Enters file owner node s (s.addClass
      { Class.declared decl.name decl.parent ⟨file, node.line⟩ with isTrait := decl.isTrait })
  | function {signature : Signature} {key name : String} {c : Callable}
    (hc : signature.declared (.function key) name owner ⟨file, node.line⟩ = .ok c) :
    Enters file owner node s (s.addFunction c)
  | method {decl : MethodDecl} {name : String} {signature : Signature} {c : Callable}
    (hkind : node.kind = .methodDecl decl)
    (hc : signature.declared (.ofMethod name decl.name) (name ++ "::" ++ decl.name) (some name)
      ⟨file, node.line⟩ = .ok c) :
    Enters file owner node s (s.modifyClass name (·.addMethod c))
  | property (name : String) (p : Property) :
    Enters file owner node s (s.modifyClass name (·.addProperty p))
  | classConstant (name : String) (k : Constant) :
    Enters file owner node s (s.modifyClass name (·.addConstant k))
  | constant (k : Constant) : Enters file owner node s (s.addConstant k)

namespace Collect

variable {α β : Type}

/-- The table that an action leaves, whether it returns or ends with an error. -/
def after (m : Collect α) (s : SymbolTable) : SymbolTable := (m.run.run s).2

lemma after_ofExcept_bind (e : Except LoadError α) (f : α → Collect β) (s : SymbolTable) :
    after (MonadExcept.ofExcept e >>= f) s =
      match e with
      | .ok a => after (f a) s
      | .error _ => s := by
  cases e <;> rfl

lemma after_bind (m : Collect α) (f : α → Collect β) (s : SymbolTable) :
    after (m >>= f) s = after m s ∨ ∃ a, after (m >>= f) s = after (f a) (after m s) := by
  unfold after
  rw [ExceptT.run_bind, StateT.run_bind]
  generalize m.run.run s = result
  obtain ⟨error | a, t⟩ := result
  · exact .inl rfl
  · exact .inr ⟨a, rfl⟩

end Collect

open Collect in
lemma register_enters (file : String) (owner : Option String) (node : Node) (s : SymbolTable) :
    Enters file owner node s (after (register file owner node) s) := by
  unfold register
  split
  case h_1 decl hkind =>
    change Enters file owner node s (after (if s.hasClass _ then _ else _) s)
    split
    · exact .nothing
    · exact .class hkind
  case h_2 decl hkind =>
    simp only [Collect.declared, after_ofExcept_bind]
    split
    · rename_i c hc
      change Enters file owner node s (after (if !s.isNewFunction c then _ else _) s)
      split
      · exact .nothing
      · exact .function hc
    · exact .nothing
  case h_3 decl hkind =>
    cases owner with
    | none => exact .nothing
    | some name =>
      simp only [Collect.declared, after_ofExcept_bind]
      split
      · rename_i c hc
        exact .method hkind hc
      · exact .nothing
  case h_4 decl hkind =>
    simp only [Collect.declared, after_ofExcept_bind]
    split
    · rename_i c hc
      exact .function hc
    · exact .nothing
  case h_5 decl hkind =>
    cases owner with
    | none => exact .nothing
    | some name =>
      cases hannotation : decl.annotation with
      | none => exact .property name _
      | some raw =>
        simp only [after_ofExcept_bind]
        split
        · exact .property name _
        · exact .nothing
  case h_6 decl hkind =>
    cases owner with
    | none => exact .nothing
    | some name => exact .classConstant name _
  case h_7 decl hkind => exact .constant _
  case h_8 => exact .nothing

section Respected

variable {R : SymbolTable → SymbolTable → Prop} (hrefl : ∀ s, R s s)
  (htrans : ∀ s t u, R s t → R t u → R s u)

include hrefl htrans

open Collect in
/-- The parts are collected in turn, each into the table that the one before has left. -/
lemma collectNode_respects {file : String} {node : Node}
    (h : ∀ part ∈ node.nodes, ∀ owner s t, Enters file owner part s t → R s t)
    (owner : Option String) (s : SymbolTable) : R s (after (collectNode file owner node) s) := by
  induction node using Node.induction_on_children generalizing owner s with
  | step node ih =>
    have hbind : ∀ {α β : Type} {m : Collect α} {f : α → Collect β}, (∀ s, R s (after m s)) →
        (∀ a s, R s (after (f a) s)) → ∀ s, R s (after (m >>= f) s) := by
      intro α β m f hm hf s
      rcases after_bind m f s with heq | ⟨a, heq⟩
      · rw [heq]
        exact hm s
      · rw [heq]
        exact htrans _ _ _ (hm s) (hf a _)
    have hchildren : ∀ (inner : Option String) (l : List { child // child ∈ node.children })
        (s : SymbolTable), R s (after (l.forM fun child => collectNode file inner child.val) s) := by
      intro inner l
      induction l with
      | nil => exact fun s => hrefl s
      | cons child l ihl =>
        have hchild := ih child.val child.property fun part hpart =>
          h part (Node.mem_nodes_of_child child.property hpart)
        exact hbind (hchild inner) fun _ => ihl
    rw [collectNode]
    refine hbind (fun s => ?_) (fun inner s => ?_) s
    · exact h node node.self_mem_nodes owner _ _ (register_enters file owner node s)
    · cases inner with
      | none => exact hrefl s
      | some inner => exact hchildren inner _ s

lemma collect_respects {file : String} {root : Node}
    (h : ∀ part ∈ root.nodes, ∀ owner s t, Enters file owner part s t → R s t) (s : SymbolTable) :
    R s (s.collect file root).2 :=
  collectNode_respects hrefl htrans h none s

end Respected

/-- The table after the declarations of units have been entered in turn, those of a unit with an error
up to the error. -/
def SymbolTable.collectEach (s : SymbolTable) (units : List SourceUnit) : SymbolTable :=
  units.foldl (fun s unit => (s.collect unit.path unit.root).2) s

/-- What every step of a collection keeps holds of the table after the units. -/
lemma SymbolTable.collectEach_keeps {P : SymbolTable → Prop} {units : List SourceUnit}
    (h : ∀ unit ∈ units, ∀ part ∈ unit.root.nodes, ∀ owner s t,
      Enters unit.path owner part s t → P s → P t) {s : SymbolTable} (hs : P s) :
    P (s.collectEach units) := by
  induction units generalizing s with
  | nil => exact hs
  | cons unit rest ih =>
    rw [List.forall_mem_cons] at h
    refine ih h.2 (collect_respects (R := fun s t => P s → P t) ?_ ?_ h.1 s hs)
    · exact fun s => id
    · exact fun s t u hst htu => htu ∘ hst

/-- Where there is no error, this is the table that a run starts with. -/
lemma SymbolTable.collectEach_of_collectUnits {units : List SourceUnit} {s t : SymbolTable}
    (h : s.collectUnits units = .ok t) : s.collectEach units = t := by
  induction units generalizing s with
  | nil =>
    cases h
    rfl
  | cons unit rest ih =>
    rw [collectUnits] at h
    split at h
    · rename_i u hu
      rw [collectEach, List.foldl_cons, hu]
      exact ih h
    · cases h

end PhpCheck
