import PhpCheck.Proofs.Names
import PhpCheck.Proofs.Runs
import Mathlib.Data.List.Nodup

/-!
# What is filed under a key

`Stop.places` lists the nodes that the collection of declarations comes to, as `Stop.route` lists those
that a walk comes to. As long as nothing is declared twice, the collection files under the key of a
place the callable that is declared there, and under no other key anything new.
-/

namespace PhpCheck

/-! ### What the collection comes to -/

/-- The body of the function, method or closure that the node declares. -/
def Node.body? (node : Node) : Option Node :=
  match node.kind with
  | .functionDecl decl => some decl.body
  | .methodDecl decl => decl.body
  | .closure decl => some decl.body
  | _ => none

namespace Stop

/-- The name under which the class that the node declares is filed. -/
def declaresClass? (stop : Stop) : Option String :=
  match stop.node.kind with
  | .classDecl decl => some (Text.canonical decl.name)
  | _ => none

/-- The name of the method that the node declares. -/
def methodName? (stop : Stop) : Option String :=
  match stop.node.kind with
  | .methodDecl decl => some decl.name
  | _ => none

/-- The class around the parts of the node, or none when the collection passes over them. -/
def innerOwner? (stop : Stop) : Option (Option String) :=
  match stop.node.kind with
  | .classDecl decl => some (some (Text.unrooted decl.name))
  | .methodDecl _ => stop.owner.map some
  | _ => some stop.owner

/-- The parts of the node that the collection goes on to. -/
def parts (stop : Stop) : List Stop :=
  match stop.innerOwner? with
  | none => []
  | some owner => stop.node.children.map fun child => ⟨stop.file, owner, some stop.node, child⟩

lemma node_mem_children_of_mem_parts {stop part : Stop} (h : part ∈ stop.parts) :
    part.node ∈ stop.node.children := by
  unfold parts at h
  split at h
  · cases h
  · obtain ⟨child, hchild, rfl⟩ := List.mem_map.mp h
    exact hchild

/-- All nodes that the collection comes to, in turn: the whole before the parts. -/
def places (stop : Stop) : List Stop :=
  stop :: stop.parts.attach.flatMap fun part => part.val.places
termination_by sizeOf stop.node
decreasing_by exact Node.sizeOf_children_mem (node_mem_children_of_mem_parts part.property)

lemma places_eq (stop : Stop) : stop.places = [stop] ++ stop.parts.flatMap places := by
  rw [places]
  simp [List.flatMap_subtype]

lemma mem_places_iff {start place : Stop} :
    place ∈ start.places ↔ place = start ∨ ∃ part ∈ start.parts, place ∈ part.places := by
  rw [places_eq]
  simp

lemma self_mem_places (stop : Stop) : stop ∈ stop.places := mem_places_iff.mpr (.inl rfl)

/-- With a place the collection also comes to its parts. -/
lemma mem_places_of_parts {start place part : Stop} (hplace : place ∈ start.places)
    (hpart : part ∈ place.parts) : part ∈ start.places := by
  obtain ⟨file, owner, parent, node⟩ := start
  induction node using Node.induction_on_children generalizing file owner parent with
  | step node ih =>
    rcases mem_places_iff.mp hplace with rfl | ⟨⟨file', inner, around, child⟩, hnext, hplace⟩
    · exact mem_places_iff.mpr (.inr ⟨part, hpart, part.self_mem_places⟩)
    · have hmem := ih child (node_mem_children_of_mem_parts hnext) file' inner around hplace
      exact mem_places_iff.mpr (.inr ⟨_, hnext, hmem⟩)

end Stop

/-- No class and no callable is declared at two of the places or known to the table, and no method has a
colon in its name. -/
structure Unambiguous (places : List Stop) (s : SymbolTable) : Prop where
  classes : (places.filterMap Stop.declaresClass?).Nodup
  callables : (places.filterMap Stop.declares?).Nodup
  newClasses : ∀ name ∈ places.filterMap Stop.declaresClass?, s.classes.contains name = false
  newCallables : ∀ key ∈ places.filterMap Stop.declares?, s.callable? key = none
  methodNames : ∀ name ∈ places.filterMap Stop.methodName?, ':' ∉ name.toList

/-- The callable is the one that is declared at the stop. -/
structure Callable.StandsFor (c : Callable) (stop : Stop) : Prop where
  owner : c.owner = stop.owner
  body : c.body = stop.node.body?
  site : c.site = ⟨stop.file, stop.node.line⟩

/-- The table `t` has what is declared at the places, and otherwise the classes and callables of `s`. -/
structure Registers (places : List Stop) (s t : SymbolTable) : Prop where
  declared : ∀ place ∈ places, ∀ key, place.declares? = some key →
    ∃ c, t.callable? key = some c ∧ c.StandsFor place
  kept : ∀ key, key ∉ places.filterMap Stop.declares? → t.callable? key = s.callable? key
  classes : ∀ name, t.classes.contains name = true ↔
    s.classes.contains name = true ∨ name ∈ places.filterMap Stop.declaresClass?

lemma Registers.nil (s : SymbolTable) : Registers [] s s :=
  ⟨List.forall_mem_nil _, fun _ _ => rfl, fun _ => by simp⟩

namespace Unambiguous

variable {first rest : List Stop} {s t : SymbolTable}

lemma left (h : Unambiguous (first ++ rest) s) : Unambiguous first s := by
  obtain ⟨hclasses, hcallables, hnewClasses, hnewCallables, hnames⟩ := h
  rw [List.filterMap_append] at hclasses hcallables hnewClasses hnewCallables hnames
  exact ⟨(List.nodup_append.mp hclasses).1, (List.nodup_append.mp hcallables).1,
    (List.forall_mem_append.mp hnewClasses).1, (List.forall_mem_append.mp hnewCallables).1,
    (List.forall_mem_append.mp hnames).1⟩

/-- What is declared later is still distinct when the first places have been registered. -/
lemma right (h : Unambiguous (first ++ rest) s) (hfirst : Registers first s t) : Unambiguous rest t := by
  obtain ⟨hclasses, hcallables, hnewClasses, hnewCallables, hnames⟩ := h
  rw [List.filterMap_append] at hclasses hcallables hnewClasses hnewCallables hnames
  obtain ⟨-, hclasses, hdisjoint⟩ := List.nodup_append'.mp hclasses
  obtain ⟨-, hcallables, hapart⟩ := List.nodup_append'.mp hcallables
  refine ⟨hclasses, hcallables, fun name hname => ?_, fun key hkey => ?_,
    (List.forall_mem_append.mp hnames).2⟩
  · have hnew := (List.forall_mem_append.mp hnewClasses).2 name hname
    rw [Bool.eq_false_iff, Ne, hfirst.classes name]
    rintro (h | h)
    · rw [hnew] at h
      cases h
    · exact hdisjoint h hname
  · rw [hfirst.kept key fun h => hapart h hkey]
    exact (List.forall_mem_append.mp hnewCallables).2 key hkey

end Unambiguous

lemma Registers.append {first rest : List Stop} {s t u : SymbolTable} (hfirst : Registers first s t)
    (hrest : Registers rest t u) (h : Unambiguous (first ++ rest) s) : Registers (first ++ rest) s u where
  declared place hplace key hkey := by
    rcases List.mem_append.mp hplace with hplace | hplace
    · obtain ⟨c, hc, hstands⟩ := hfirst.declared place hplace key hkey
      have hcallables := h.callables
      rw [List.filterMap_append] at hcallables
      have hapart := (List.nodup_append'.mp hcallables).2.2
      refine ⟨c, ?_, hstands⟩
      rw [hrest.kept key (hapart (List.mem_filterMap.mpr ⟨place, hplace, hkey⟩)), hc]
    · exact hrest.declared place hplace key hkey
  kept key hkey := by
    rw [List.filterMap_append, List.mem_append, not_or] at hkey
    rw [hrest.kept key hkey.2, hfirst.kept key hkey.1]
  classes name := by
    rw [hrest.classes, hfirst.classes, List.filterMap_append, List.mem_append, or_assoc]

/-! ### What entering a declaration does to the table -/

namespace SymbolTable

variable (s : SymbolTable)

lemma callable?_addFunction {f : Callable} {name : String} (hkey : f.key = .function name)
    (key : CallableKey) : (s.addFunction f).callable? key =
      (s.callable? key).or (if key = .function name then some f else none) := by
  simp only [addFunction, hkey]
  cases key with
  | function other => simp [callable?, Table.get?_add]
  | method owner other => simp [callable?]

lemma callable?_addMethod {owner : String} {m : Callable} (hclass : s.hasClass owner = true)
    (key : CallableKey) : (s.modifyClass owner (·.addMethod m)).callable? key =
      (s.callable? key).or
        (if key = .method (Text.canonical owner) (Class.methodKey m) then some m else none) := by
  cases key with
  | function name => simp [modifyClass, callable?]
  | method other name =>
    by_cases howner : other = Text.canonical owner
    · obtain ⟨d, hd⟩ := Option.isSome_iff_exists.mp hclass
      simp [modifyClass, callable?, howner, hd, Class.addMethod, Table.get?_add]
    · simp [modifyClass, callable?, howner]

/-- A class without methods brings no callable. -/
lemma callable?_addClass {d : Class} (hd : d.methods = ∅) (key : CallableKey) :
    (s.addClass d).callable? key = s.callable? key := by
  cases key with
  | function name => rfl
  | method owner name =>
    simp only [addClass, callable?, Table.get?_add]
    cases s.classes.get? owner with
    | some c => rfl
    | none => by_cases howner : owner = Text.canonical d.name <;> simp [howner, hd]

lemma contains_addClass (d : Class) (name : String) :
    (s.addClass d).classes.contains name = true ↔
      s.classes.contains name = true ∨ name = Text.canonical d.name := by
  simp only [addClass, Table.contains, Table.get?_add, Option.isSome_or, Bool.or_eq_true]
  by_cases h : name = Text.canonical d.name <;> simp [h]

lemma contains_modifyClass (owner : String) (f : Class → Class) (name : String) :
    (s.modifyClass owner f).classes.contains name = s.classes.contains name := by
  simp only [modifyClass, Table.contains, Table.get?_modify]
  split <;> simp

lemma classes_addFunction (f : Callable) : (s.addFunction f).classes = s.classes := by
  unfold addFunction
  split <;> rfl

end SymbolTable

namespace Registers

variable {place : Stop} {s t : SymbolTable}

lemma of_nothing (hkey : place.declares? = none) (hclass : place.declaresClass? = none)
    (hcallable : ∀ key, t.callable? key = s.callable? key)
    (hclasses : ∀ name, t.classes.contains name = s.classes.contains name) :
    Registers [place] s t where
  declared := by simp [hkey]
  kept key _ := hcallable key
  classes name := by simp [hclass, hclasses]

lemma of_callable {key : CallableKey} {c : Callable} (hkey : place.declares? = some key)
    (hclass : place.declaresClass? = none) (hnew : s.callable? key = none) (hc : c.StandsFor place)
    (hcallable : ∀ k, t.callable? k = (s.callable? k).or (if k = key then some c else none))
    (hclasses : ∀ name, t.classes.contains name = s.classes.contains name) :
    Registers [place] s t where
  declared := by
    have hself : t.callable? key = some c := by simp [hcallable, hnew]
    simpa [hkey] using ⟨c, hself, hc⟩
  kept k hk := by
    have hne : k ≠ key := by simpa [hkey] using hk
    simp [hcallable, hne]
  classes name := by simp [hclass, hclasses]

lemma of_addFunction {name : String} {c : Callable} (hkey : place.declares? = some (.function name))
    (hclass : place.declaresClass? = none) (hnew : s.callable? (.function name) = none)
    (hc : c.StandsFor place) (hname : c.key = .function name) :
    Registers [place] s (s.addFunction c) := by
  refine .of_callable hkey hclass hnew hc (s.callable?_addFunction hname) fun other => ?_
  rw [s.classes_addFunction]

lemma of_modifyClass (hkey : place.declares? = none) (hclass : place.declaresClass? = none)
    (owner : String) {f : Class → Class} (hf : ∀ d, (f d).methods = d.methods) :
    Registers [place] s (s.modifyClass owner f) :=
  .of_nothing hkey hclass (s.callable?_modifyClass owner hf) (s.contains_modifyClass owner f)

end Registers

lemma Callable.StandsFor.of_declared {signature : Signature} {key : CallableKey} {name : String}
    {place : Stop} {c : Callable}
    (hc : signature.declared key name place.owner ⟨place.file, place.node.line⟩ = .ok c)
    (hbody : signature.body = place.node.body?) : c.StandsFor place := by
  obtain ⟨-, -, howner, hsame, hsite, -⟩ := Signature.of_declared hc
  exact ⟨howner, hsame.trans hbody, hsite⟩

open Collect in
/-- A node that is entered under new names is registered, and the collection goes on to its parts. -/
lemma register_registers {place : Stop} {s : SymbolTable} (h : Unambiguous [place] s)
    (howner : ∀ name ∈ place.owner, s.hasClass name = true) :
    Yields s (register place.file place.owner place.node) fun inner t =>
      inner = place.innerOwner? ∧ Registers [place] s t := by
  obtain ⟨file, owner, parent, ⟨line, kind⟩⟩ := place
  obtain ⟨-, -, hnewClass, hnew, hname⟩ := h
  cases kind
  case classDecl decl =>
    have hfree : s.classes.contains (Text.canonical decl.name) = false :=
      hnewClass _ (List.mem_singleton_self _)
    refine Yields.bind (yields_get ?_)
    rw [if_neg (by simpa [SymbolTable.hasClass, Class.declared, Text.canonical_unrooted] using hfree)]
    refine Yields.bind (yields_modify (Yields.pure ⟨rfl, List.forall_mem_singleton.mpr ?_, ?_, ?_⟩))
    · intro key hkey
      cases hkey
    · exact fun key _ => s.callable?_addClass rfl key
    · intro name
      simp [SymbolTable.contains_addClass, Class.declared, Text.canonical_unrooted, Stop.declaresClass?]
  case functionDecl decl =>
    have hfree : s.callable? (.ofFunction decl.name) = none := hnew _ (List.mem_singleton_self _)
    refine Yields.bind (yields_ofExcept fun c hc => Yields.bind (yields_get ?_))
    have hkey : c.key = .ofFunction decl.name := (Signature.of_declared hc).1
    have hisNew : s.isNewFunction c = true := by
      have hget : s.functions.get? (Text.canonical decl.name) = none := hfree
      simp [SymbolTable.isNewFunction, hkey, CallableKey.ofFunction, Table.contains, hget]
    rw [if_neg (by simp [hisNew])]
    refine Yields.bind (yields_modify (Yields.pure ⟨rfl, ?_⟩))
    exact .of_addFunction rfl rfl hfree (.of_declared hc rfl) hkey
  case methodDecl decl =>
    cases owner with
    | none => exact Yields.pure ⟨rfl, .of_nothing rfl rfl (fun _ => rfl) fun _ => rfl⟩
    | some owner =>
      have hfree : s.callable? (.ofMethod owner decl.name) = none := hnew _ (List.mem_singleton_self _)
      refine Yields.bind (yields_ofExcept fun c hc => ?_)
      refine Yields.bind (yields_modify (Yields.pure ⟨rfl, ?_⟩))
      have hfiled : Class.methodKey c = Text.lowered decl.name := by
        rw [Class.methodKey, (Signature.of_declared hc).2.1, Text.memberPart_qualified]
        exact hname _ (List.mem_singleton_self _)
      have hadd := @SymbolTable.callable?_addMethod s owner c (howner owner rfl)
      rw [hfiled] at hadd
      exact .of_callable rfl rfl hfree (.of_declared hc rfl) hadd (s.contains_modifyClass owner _)
  case closure decl =>
    have hfree : s.callable? (.ofClosure file line) = none := hnew _ (List.mem_singleton_self _)
    refine Yields.bind (yields_ofExcept fun c hc => ?_)
    have hkey : c.key = .ofClosure file line := (Signature.of_declared hc).1
    refine Yields.bind (yields_modify (Yields.pure ⟨rfl, ?_⟩))
    exact .of_addFunction rfl rfl hfree (.of_declared hc rfl) hkey
  case propertyDecl decl =>
    cases owner with
    | none => exact Yields.pure ⟨rfl, .of_nothing rfl rfl (fun _ => rfl) fun _ => rfl⟩
    | some owner =>
      have hadd : ∀ p : Property, Registers [⟨file, some owner, parent, line, .propertyDecl decl⟩] s
          (s.modifyClass owner (·.addProperty p)) := fun p => .of_modifyClass rfl rfl owner fun _ => rfl
      cases hannotation : decl.annotation with
      | none =>
        simp only [register, hannotation]
        exact Yields.bind (Yields.pure (Yields.bind (yields_modify (Yields.pure ⟨rfl, hadd _⟩))))
      | some raw =>
        simp only [register, hannotation]
        refine Yields.bind (yields_ofExcept fun type _ => ?_)
        exact Yields.bind (yields_modify (Yields.pure ⟨rfl, hadd _⟩))
  case classConstDecl decl =>
    cases owner with
    | none => exact Yields.pure ⟨rfl, .of_nothing rfl rfl (fun _ => rfl) fun _ => rfl⟩
    | some owner =>
      refine Yields.bind (yields_modify (Yields.pure ⟨rfl, ?_⟩))
      exact .of_modifyClass rfl rfl owner fun _ => rfl
  case constDecl decl =>
    refine Yields.bind (yields_modify (Yields.pure ⟨rfl, .of_nothing rfl rfl ?_ fun _ => rfl⟩))
    intro key
    cases key <;> rfl
  all_goals exact Yields.pure ⟨rfl, .of_nothing rfl rfl (fun _ => rfl) fun _ => rfl⟩

/-- The class around the parts is known once the node is registered. -/
lemma Registers.hasClass {place : Stop} {s t : SymbolTable} (h : Registers [place] s t)
    (howner : ∀ name ∈ place.owner, s.hasClass name = true) {inner : Option String}
    (hinner : place.innerOwner? = some inner) : ∀ name ∈ inner, t.hasClass name = true := by
  have hkept : ∀ name ∈ place.owner, t.hasClass name = true :=
    fun name hname => (h.classes _).mpr (.inl (howner name hname))
  unfold Stop.innerOwner? at hinner
  split at hinner
  · rename_i decl hkind
    cases hinner
    rintro name ⟨⟩
    refine (h.classes _).mpr (.inr ?_)
    simp [Text.canonical_unrooted, Stop.declaresClass?, hkind]
  · obtain ⟨owner, hsome, rfl⟩ := Option.map_eq_some_iff.mp hinner
    rwa [hsome] at hkept
  · cases hinner
    exact hkept

open Collect in
lemma collectNode_registers {place : Stop} {s : SymbolTable} (h : Unambiguous place.places s)
    (howner : ∀ name ∈ place.owner, s.hasClass name = true) :
    Yields s (collectNode place.file place.owner place.node) fun _ t =>
      Registers place.places s t := by
  obtain ⟨file, owner, parent, node⟩ := place
  induction node using Node.induction_on_children generalizing s owner parent with
  | step node ih =>
    -- the parts are collected in turn, each into the table that the one before has left
    have hchildren : ∀ (inner : Option String) (l : List { child // child ∈ node.children })
        (s : SymbolTable), (∀ name ∈ inner, s.hasClass name = true) →
        Unambiguous (l.flatMap fun child => Stop.places ⟨file, inner, some node, child.val⟩) s →
        Yields s (l.forM fun child => collectNode file inner child.val) fun _ t =>
          Registers (l.flatMap fun child => Stop.places ⟨file, inner, some node, child.val⟩) s t := by
      intro inner l
      induction l with
      | nil => exact fun s _ _ => Yields.pure (.nil s)
      | cons child l ihl =>
        intro s hinner hunambiguous
        rw [List.flatMap_cons] at hunambiguous ⊢
        refine Yields.bind ((ih child.val child.property inner (some node) hunambiguous.left hinner).mono
          fun _ t hchild => ?_)
        have hknown : ∀ name ∈ inner, t.hasClass name = true :=
          fun name hname => (hchild.classes _).mpr (.inl (hinner name hname))
        exact (ihl t hknown (hunambiguous.right hchild)).mono fun _ u hrest =>
          hchild.append hrest hunambiguous
    rw [Stop.places_eq] at h ⊢
    rw [collectNode]
    refine Yields.bind ((register_registers h.left howner).mono fun inner t => ?_)
    rintro ⟨hinner, hself⟩
    cases inner with
    | none =>
      have hparts : Stop.parts ⟨file, owner, parent, node⟩ = [] := by simp [Stop.parts, ← hinner]
      rw [hparts]
      exact Yields.pure hself
    | some inner =>
      have hparts : (Stop.parts ⟨file, owner, parent, node⟩).flatMap Stop.places =
          node.children.attach.flatMap fun child =>
            Stop.places ⟨file, inner, some node, child.val⟩ := by
        simp [Stop.parts, ← hinner, List.flatMap_map, List.flatMap_subtype]
      rw [hparts] at h ⊢
      have hknown := hself.hasClass howner hinner.symm
      exact (hchildren inner _ t hknown (h.right hself)).mono fun _ u hrest => hself.append hrest h

/-- The nodes of a unit that the collection comes to. -/
def SourceUnit.places (unit : SourceUnit) : List Stop := unit.stop.places

lemma SourceUnit.mem_places_of_parts {units : List SourceUnit} {place part : Stop}
    (hplace : place ∈ units.flatMap SourceUnit.places) (hpart : part ∈ place.parts) :
    part ∈ units.flatMap SourceUnit.places := by
  obtain ⟨unit, hunit, hplace⟩ := List.mem_flatMap.mp hplace
  exact List.mem_flatMap.mpr ⟨unit, hunit, Stop.mem_places_of_parts hplace hpart⟩

lemma collectUnits_registers {units : List SourceUnit} {s t : SymbolTable}
    (h : s.collectUnits units = .ok t)
    (hunambiguous : Unambiguous (units.flatMap SourceUnit.places) s) :
    Registers (units.flatMap SourceUnit.places) s t := by
  induction units generalizing s with
  | nil =>
    cases h
    exact .nil _
  | cons unit rest ih =>
    rw [List.flatMap_cons] at hunambiguous ⊢
    rw [SymbolTable.collectUnits] at h
    split at h
    · rename_i u hu
      have howner : ∀ name ∈ unit.stop.owner, s.hasClass name = true := by simp [SourceUnit.stop]
      have hunit : Registers unit.places s u := collectNode_registers hunambiguous.left howner () u hu
      exact hunit.append (ih h (hunambiguous.right hunit)) hunambiguous
    · cases h

/-- A callable with a body is the one that is declared at some place. -/
lemma Registers.exists_place {places : List Stop} {table : SymbolTable}
    (h : Registers places SymbolTable.builtin table) {key : CallableKey} {c : Callable} {body : Node}
    (hc : table.callable? key = some c) (hbody : c.body = some body) :
    ∃ place ∈ places, place.declares? = some key ∧ c.StandsFor place := by
  by_cases hkey : key ∈ places.filterMap Stop.declares?
  · obtain ⟨place, hplace, hkey⟩ := List.mem_filterMap.mp hkey
    obtain ⟨d, hd, hstands⟩ := h.declared place hplace key hkey
    rw [hc] at hd
    cases hd
    exact ⟨place, hplace, hkey, hstands⟩
  · rw [h.kept key hkey] at hc
    have hbuiltin := mem_builtinFunctions_of_mem_callables (SymbolTable.mem_callables_of_callable? _ hc)
    rw [body_of_mem_builtinFunctions hbuiltin] at hbody
    cases hbody

end PhpCheck
