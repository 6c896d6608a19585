import PhpCheck.Analysis.Run
import PhpCheck.Proofs.Route
import Mathlib.Data.List.Perm.Subperm

/-!
# What the collection of declarations files

A node enters at most one callable, which has the body of the declaration and whose return type is not
gathered. So every callable that is collected is declared by a node of its own, and all that is said
about collected callables is derived from that.
-/

namespace PhpCheck

/-- The callable is one that the node of the file declares. -/
structure DeclaredBy (file : String) (node : Node) (c : Callable) : Prop where
  file : c.site.file = file
  body : c.body.toList = node.children
  isCallable : node.isCallable = true
  returnInferred : c.returnInferred = false

/-! ### The callables of a table -/

lemma Table.values_add_subperm {α : Type} (t : Table α) (key : String) (v : α) :
    (t.add key v).values.Subperm (v :: t.values) := by
  by_cases h : t.contains key = true
  · rw [add_of_contains h]
    exact List.Subperm.cons_self
  · rw [values, entries_add_of_not_contains h, List.map_append]
    exact (List.perm_append_singleton v t.values).subperm

/-- At most one value is changed. -/
lemma Table.values_modify {α : Type} (t : Table α) (key : String) (f : α → α) :
    (t.modify key f).values = t.values ∨ ∃ before v after,
      t.values = before ++ v :: after ∧ (t.modify key f).values = before ++ f v :: after := by
  obtain ⟨entries, hnodup⟩ := t
  have hother : ∀ entries : List (String × α), key ∉ entries.map Prod.fst →
      (entries.map fun entry => if entry.1 = key then f entry.2 else entry.2) =
        entries.map Prod.snd := by
    intro entries hkey
    refine List.map_congr_left fun entry hentry => if_neg ?_
    rintro rfl
    exact hkey (List.mem_map_of_mem hentry)
  by_cases hmem : key ∈ entries.map Prod.fst
  · right
    obtain ⟨⟨k, v⟩, hentry, rfl⟩ := List.mem_map.mp hmem
    obtain ⟨before, after, rfl⟩ := List.append_of_mem hentry
    simp only [List.map_append, List.map_cons, List.nodup_append, List.nodup_cons] at hnodup
    have hbefore : k ∉ before.map Prod.fst := fun h => hnodup.2.2 k h k (List.mem_cons_self ..) rfl
    refine ⟨before.map Prod.snd, v, after.map Prod.snd, by simp [values], ?_⟩
    simp [values, modify, Function.comp_def, hother before hbefore, hother after hnodup.2.1.1]
  · left
    simpa [values, modify, Function.comp_def] using hother entries hmem

namespace SymbolTable

variable (s : SymbolTable)

lemma mem_callables_of_callable? {key : CallableKey} {c : Callable} (h : s.callable? key = some c) :
    c ∈ s.callables := by
  rw [callables, List.mem_append]
  cases key with
  | function name =>
    left
    exact List.mem_map_of_mem (Table.get?_eq_some_iff.mp h)
  | method owner name =>
    right
    obtain ⟨d, hd, hmethod⟩ := Option.bind_eq_some_iff.mp h
    refine List.mem_flatMap.mpr ⟨d, List.mem_map_of_mem (Table.get?_eq_some_iff.mp hd), ?_⟩
    exact List.mem_map_of_mem (Table.get?_eq_some_iff.mp hmethod)

lemma callables_addFunction (f : Callable) :
    (s.addFunction f).callables.Subperm (f :: s.callables) := by
  cases hkey : f.key with
  | function name =>
    simp only [addFunction, hkey, callables]
    exact (Table.values_add_subperm s.functions name f).append (.refl _)
  | method owner name =>
    simp only [addFunction, hkey]
    exact List.Subperm.cons_self

lemma callables_addClass {d : Class} (hd : d.methods = ∅) :
    (s.addClass d).callables.Subperm s.callables := by
  have hempty : Table.values (∅ : Table Callable) = [] := rfl
  rw [addClass, callables, callables]
  refine (List.Subperm.refl _).append ?_
  by_cases h : s.classes.contains (Text.canonical d.name) = true
  · rw [Table.add_of_contains h]
  · have hvalues : (s.classes.add (Text.canonical d.name) d).values = s.classes.values ++ [d] := by
      simp [Table.values, Table.entries_add_of_not_contains h]
    simp [hvalues, hd, hempty, List.Subperm.refl]

lemma callables_modifyClass (name : String) {f : Class → Class} {new : List Callable}
    (hf : ∀ d, (f d).methods.values.Subperm (new ++ d.methods.values)) :
    (s.modifyClass name f).callables.Subperm (new ++ s.callables) := by
  have hclasses : ((s.modifyClass name f).classes.values.flatMap (·.methods.values)).Subperm
      (new ++ s.classes.values.flatMap (·.methods.values)) := by
    rcases Table.values_modify s.classes (Text.canonical name) f with h | ⟨before, d, after, hold, hnew⟩
    · rw [modifyClass, h]
      exact (List.sublist_append_right _ _).subperm
    · rw [modifyClass, hnew, hold]
      simp only [List.flatMap_append, List.flatMap_cons]
      refine (List.Subperm.append (.refl _) ((hf d).append (.refl _))).trans ?_
      refine List.Perm.subperm ?_
      simp only [← List.append_assoc]
      exact ((List.perm_append_comm.append_right _).append_right _)
  rw [callables, callables]
  refine (List.Subperm.append (.refl _) hclasses).trans (List.Perm.subperm ?_)
  rw [← List.append_assoc, ← List.append_assoc]
  exact List.perm_append_comm.append_right _

end SymbolTable

/-! ### Actions of the collection -/

namespace Collect

variable {α β : Type} {s : SymbolTable} {R : α → SymbolTable → Prop}

/-- If the action returns when it starts with the table `s`, the result and the table after it satisfy
`R`. -/
def Yields (s : SymbolTable) (m : Collect α) (R : α → SymbolTable → Prop) : Prop :=
  ∀ a t, m.run.run s = (.ok a, t) → R a t

lemma Yields.pure {a : α} (h : R a s) : Yields s (Pure.pure a : Collect α) R := by
  intro b t hrun
  cases hrun
  exact h

lemma Yields.bind {m : Collect α} {f : α → Collect β} {R : β → SymbolTable → Prop}
    (h : Yields s m fun a t => Yields t (f a) R) : Yields s (m >>= f) R := by
  intro b u hrun
  rw [ExceptT.run_bind, StateT.run_bind] at hrun
  generalize hm : m.run.run s = result at hrun
  obtain ⟨error | a, t⟩ := result
  · cases hrun
  · exact h a t hm b u hrun

lemma yields_get {R : SymbolTable → SymbolTable → Prop} (h : R s s) :
    Yields s (get : Collect SymbolTable) R := by
  intro a t hrun
  cases hrun
  exact h

lemma yields_modify {f : SymbolTable → SymbolTable} {R : PUnit → SymbolTable → Prop}
    (h : R ⟨⟩ (f s)) : Yields s (modify f : Collect PUnit) R := by
  intro a t hrun
  cases hrun
  exact h

lemma yields_ofExcept {e : Except LoadError α} (h : ∀ a, e = .ok a → R a s) :
    Yields s (MonadExcept.ofExcept e : Collect α) R := by
  intro a t hrun
  cases e with
  | error error => cases hrun
  | ok b =>
    cases hrun
    exact h a rfl

lemma Yields.mono {m : Collect α} {R' : α → SymbolTable → Prop} (h : Yields s m R)
    (hR : ∀ a t, R a t → R' a t) : Yields s m R' :=
  fun a t hrun => hR a t (h a t hrun)

end Collect

/-! ### One node -/

lemma Signature.of_declared {signature : Signature} {key : CallableKey} {name : String}
    {owner : Option String} {site : Site} {c : Callable}
    (h : signature.declared key name owner site = .ok c) :
    c.key = key ∧ c.name = name ∧ c.owner = owner ∧ c.body = signature.body ∧ c.site = site ∧
      c.returnInferred = false := by
  obtain ⟨parameters, returnType, isStatic, body⟩ := signature
  have hparameters : ∀ (r : TypeSet) (ps : Except LoadError (List Parameter)),
      (ps >>= fun ps => Except.ok ({
        key, name, owner, parameters := ps, returnType := r, site, isStatic, body,
        scope := entryScope owner isStatic ps site } : Callable)) = .ok c →
      c.key = key ∧ c.name = name ∧ c.owner = owner ∧ c.body = body ∧ c.site = site ∧
        c.returnInferred = false := by
    rintro r (error | ps) h
    · cases h
    · cases h
      exact ⟨rfl, rfl, rfl, rfl, rfl, rfl⟩
  unfold declared at h
  cases returnType with
  | none => exact hparameters _ _ h
  | some raw =>
    cases hraw : TypeSet.parse raw owner with
    | error error =>
      simp only [hraw] at h
      cases h
    | ok r =>
      simp only [hraw] at h
      exact hparameters _ _ h

/-- Every callable that `t` has beside those of `s` is declared by a node of its own among those listed,
each with its file. -/
def Declares (nodes : List (String × Node)) (s t : SymbolTable) : Prop :=
  ∃ declared : List ((String × Node) × Callable),
    t.callables.Subperm (declared.map Prod.snd ++ s.callables) ∧
    (declared.map Prod.fst).Sublist nodes ∧ ∀ d ∈ declared, DeclaredBy d.1.1 d.1.2 d.2

namespace Declares

variable {nodes more : List (String × Node)} {file : String} {node : Node} {s t u : SymbolTable}

lemma of_subperm (h : t.callables.Subperm s.callables) : Declares nodes s t :=
  ⟨[], h, List.nil_sublist _, List.forall_mem_nil _⟩

lemma refl (s : SymbolTable) : Declares nodes s s := of_subperm (.refl _)

lemma trans (hst : Declares nodes s t) (htu : Declares more t u) : Declares (nodes ++ more) s u := by
  obtain ⟨first, hfirst, hfirstNodes, hfirstBy⟩ := hst
  obtain ⟨second, hsecond, hsecondNodes, hsecondBy⟩ := htu
  refine ⟨first ++ second, ?_, ?_, ?_⟩
  · refine (hsecond.trans (List.Subperm.append (.refl _) hfirst)).trans (List.Perm.subperm ?_)
    rw [List.map_append, ← List.append_assoc]
    exact List.perm_append_comm.append_right _
  · rw [List.map_append]
    exact hfirstNodes.append hsecondNodes
  · exact List.forall_mem_append.mpr ⟨hfirstBy, hsecondBy⟩

lemma of_declared {owner : Option String} {signature : Signature} {key : CallableKey} {name : String}
    {c : Callable} (hc : signature.declared key name owner ⟨file, node.line⟩ = .ok c)
    (hbody : signature.body.toList = node.children) (hnode : node.isCallable = true)
    (h : t.callables.Subperm (c :: s.callables)) : Declares [(file, node)] s t := by
  obtain ⟨-, -, -, hsame, hsite, hinferred⟩ := Signature.of_declared hc
  have hdeclared : DeclaredBy file node c := ⟨by rw [hsite], by rw [hsame, hbody], hnode, hinferred⟩
  exact ⟨[((file, node), c)], h, .refl _, by simpa using hdeclared⟩

lemma modifyClass (s : SymbolTable) (name : String) {f : Class → Class}
    (hf : ∀ d, (f d).methods = d.methods) : Declares nodes s (s.modifyClass name f) := by
  refine of_subperm (@SymbolTable.callables_modifyClass s name f [] fun d => ?_)
  rw [hf d]
  exact .refl _

end Declares

open Collect in
/-- A node itself enters at most one callable. -/
lemma register_declares (s : SymbolTable) (file : String) (owner : Option String) (node : Node) :
    Yields s (register file owner node) fun _ t => Declares [(file, node)] s t := by
  have hkeep : Declares [(file, node)] s s := .refl s
  unfold register
  split
  case h_1 decl hkind =>
    refine Yields.bind (yields_get ?_)
    split
    · exact Yields.pure hkeep
    · refine Yields.bind (yields_modify (Yields.pure ?_))
      exact .of_subperm (s.callables_addClass rfl)
  case h_2 decl hkind =>
    refine Yields.bind (yields_ofExcept fun c hc => Yields.bind (yields_get ?_))
    split
    · exact Yields.pure hkeep
    · refine Yields.bind (yields_modify (Yields.pure (Declares.of_declared hc ?_ ?_ ?_)))
      · simp [Node.children, hkind, Kind.children]
      · simp [Node.isCallable, hkind]
      · exact s.callables_addFunction c
  case h_3 decl hkind =>
    cases owner with
    | none => exact Yields.pure hkeep
    | some name =>
      refine Yields.bind (yields_ofExcept fun c hc => ?_)
      refine Yields.bind (yields_modify (Yields.pure (Declares.of_declared hc ?_ ?_ ?_)))
      · simp [Node.children, hkind, Kind.children]
      · simp [Node.isCallable, hkind]
      · exact @SymbolTable.callables_modifyClass s name _ [c] fun d => d.methods.values_add_subperm _ c
  case h_4 decl hkind =>
    refine Yields.bind (yields_ofExcept fun c hc => ?_)
    refine Yields.bind (yields_modify (Yields.pure (Declares.of_declared hc ?_ ?_ ?_)))
    · simp [Node.children, hkind, Kind.children]
    · simp [Node.isCallable, hkind]
    · exact s.callables_addFunction c
  case h_5 decl hkind =>
    cases owner with
    | none => exact Yields.pure hkeep
    | some name =>
      have hadd : ∀ p : Property, Declares [(file, node)] s (s.modifyClass name (·.addProperty p)) :=
        fun p => .modifyClass s name fun _ => rfl
      cases hannotation : decl.annotation with
      | none => exact Yields.bind (Yields.pure (Yields.bind (yields_modify (Yields.pure (hadd _)))))
      | some raw =>
        refine Yields.bind (yields_ofExcept fun type _ => ?_)
        exact Yields.bind (yields_modify (Yields.pure (hadd _)))
  case h_6 decl hkind =>
    cases owner with
    | none => exact Yields.pure hkeep
    | some name => exact Yields.bind (yields_modify (Yields.pure (.modifyClass s name fun _ => rfl)))
  case h_7 decl hkind => exact Yields.bind (yields_modify (Yields.pure hkeep))
  case h_8 => exact Yields.pure hkeep

/-! ### Whole programs -/

/-- The nodes of a unit, each with the file. -/
def SourceUnit.nodes (unit : SourceUnit) : List (String × Node) :=
  unit.root.nodes.map fun node => (unit.path, node)

open Collect in
lemma collectNode_declares (s : SymbolTable) (file : String) (owner : Option String) (node : Node) :
    Yields s (collectNode file owner node) fun _ t =>
      Declares (node.nodes.map fun part => (file, part)) s t := by
  induction node using Node.induction_on_children generalizing s owner with
  | step node ih =>
    -- the parts are collected in turn, each into the table that the one before has left
    have hchildren : ∀ (inner : Option String) (l : List { child // child ∈ node.children })
        (s : SymbolTable), Yields s (l.forM fun child => collectNode file inner child.val) fun _ t =>
          Declares (l.flatMap fun child => child.val.nodes.map fun part => (file, part)) s t := by
      intro inner l
      induction l with
      | nil => exact fun s => Yields.pure (.refl s)
      | cons child l ihl =>
        intro s
        refine Yields.bind ((ih child.val child.property s inner).mono fun _ t hchild => ?_)
        exact (ihl t).mono fun _ u hrest => hchild.trans hrest
    have hnodes : (node.nodes.map fun part => (file, part)) = [(file, node)] ++
        node.children.attach.flatMap fun child => child.val.nodes.map fun part => (file, part) := by
      rw [Node.nodes_eq]
      simp [List.map_flatMap, List.flatMap_subtype]
    rw [collectNode, hnodes]
    refine Yields.bind ((register_declares s file owner node).mono fun inner t hself => ?_)
    cases inner with
    | none => exact Yields.pure (hself.trans (.refl t))
    | some inner => exact (hchildren inner _ t).mono fun _ u hrest => hself.trans hrest

/-- Every callable of a program is declared by a node of its own. -/
lemma collectUnits_declares {units : List SourceUnit} {s t : SymbolTable}
    (h : s.collectUnits units = .ok t) : Declares (units.flatMap SourceUnit.nodes) s t := by
  induction units generalizing s with
  | nil =>
    cases h
    exact .refl _
  | cons unit rest ih =>
    rw [SymbolTable.collectUnits] at h
    split at h
    · rename_i u hu
      exact (collectNode_declares s unit.path none unit.root () u hu).trans (ih h)
    · cases h

lemma mem_builtinFunctions_of_mem_callables {c : Callable} (h : c ∈ SymbolTable.builtin.callables) :
    c ∈ SymbolTable.builtinFunctions := by
  have hfold : ∀ (fs : List Callable) (s : SymbolTable),
      c ∈ (fs.foldl SymbolTable.addFunction s).callables → c ∈ fs ∨ c ∈ s.callables := by
    intro fs
    induction fs with
    | nil => exact fun s hc => .inr hc
    | cons f fs ih =>
      intro s hc
      rcases ih _ hc with hc | hc
      · exact .inl (List.mem_cons_of_mem _ hc)
      · rcases List.mem_cons.mp ((s.callables_addFunction f).subset hc) with rfl | hc
        · exact .inl (List.mem_cons_self ..)
        · exact .inr hc
  rcases hfold _ _ ((SymbolTable.callables_addClass _ rfl).subset h) with h | h
  · exact h
  · cases h

end PhpCheck
