import PhpCheck.Proofs.SymbolEdits

/-!
# What the type of an expression depends on

What a name of a class stands for depends on the names and the parents of classes. Of the classes that it
meets the type of an expression reads all but the methods, and of the callables the keys and the return
types. A use that is recorded changes nothing that is read.
-/

namespace PhpCheck

/-- What names are resolved by: the name of a class and that of its parent. -/
def Class.head (c : Class) : String × Option String := (c.name, c.parent)

/-- A class without its methods. -/
def Class.outline (c : Class) : Class := { c with methods := ∅ }

/-- What the type of a call reads of a callable. -/
def Callable.reading (c : Callable) : CallableKey × TypeSet := (c.key, c.returnType)

namespace SymbolTable

/-- The same classes are known, with the same parents. -/
structure SameHeads (s t : SymbolTable) : Prop where
  size : t.classes.size = s.classes.size
  heads : ∀ name, (t.class? name).map Class.head = (s.class? name).map Class.head

/-- The tables are the same in all that the types of expressions can depend on. -/
structure ReadsAlike (s t : SymbolTable) : Prop where
  size : t.classes.size = s.classes.size
  outlines : ∀ name, (t.class? name).map Class.outline = (s.class? name).map Class.outline
  readings : ∀ key, (t.callable? key).map Callable.reading = (s.callable? key).map Callable.reading
  constants : t.constants = s.constants

namespace SameHeads

variable {s t u : SymbolTable}

lemma refl (s : SymbolTable) : s.SameHeads s := ⟨rfl, fun _ => rfl⟩

lemma trans (hst : s.SameHeads t) (htu : t.SameHeads u) : s.SameHeads u :=
  ⟨htu.size.trans hst.size, fun name => (htu.heads name).trans (hst.heads name)⟩

variable (h : s.SameHeads t)

include h

lemma class?_bind {α : Type} (f : String × Option String → Option α) (name : String) :
    (t.class? name >>= fun c => f c.head) = s.class? name >>= fun c => f c.head := by
  have hname := congrArg (· >>= f) (h.heads name)
  simpa [Option.bind_map, Function.comp_def] using hname

lemma hasClass (name : String) : t.hasClass name = s.hasClass name := by
  have hknown := congrArg Option.isSome (h.heads name)
  rwa [Option.isSome_map, Option.isSome_map] at hknown

lemma parent? (name : String) : t.parent? name = s.parent? name :=
  h.class?_bind Prod.snd name

lemma ancestors (name : String) : t.ancestors name = s.ancestors name := by
  have hfrom : ∀ fuel passed current,
      t.ancestorsFrom name fuel passed current = s.ancestorsFrom name fuel passed current := by
    intro fuel
    induction fuel with
    | zero => exact fun _ _ => rfl
    | succ fuel ih =>
      intro passed current
      cases current with
      | none => rfl
      | some current => rw [ancestorsFrom, ancestorsFrom, h.parent?, ih]
  rw [SymbolTable.ancestors, SymbolTable.ancestors, h.size, h.parent?, hfrom]

lemma lineage (name : String) : t.lineage name = s.lineage name := by
  have hknown : t.hasClass = s.hasClass := funext h.hasClass
  rw [SymbolTable.lineage, SymbolTable.lineage, hknown, h.ancestors]

lemma knownClass (name : String) : t.knownClass name = s.knownClass name := by
  have hread : ∀ u : SymbolTable, u.knownClass name =
      (u.class? name >>= fun c => some c.head.1).elim (.error (.undefinedClass name)) .ok := by
    intro u
    unfold SymbolTable.knownClass
    cases u.class? name <;> rfl
  rw [hread, hread, h.class?_bind fun head => some head.1]

lemma resolveClass (context : Context) (reference : Node) :
    t.resolveClass context reference = s.resolveClass context reference := by
  simp only [SymbolTable.resolveClass, h.knownClass, h.parent?]

end SameHeads

lemma readsAlike_useCallable (s : SymbolTable) (key : CallableKey) :
    s.ReadsAlike (s.edit (.useCallable key)) where
  size := by
    cases key with
    | function name => rfl
    | method owner name => exact List.length_map _
  outlines name := by
    cases key with
    | function _ => rfl
    | method owner _ =>
      simp only [edit, modifyCallable, class?, Table.get?_modify]
      split
      · cases s.classes.get? (Text.canonical name) <;> rfl
      · rfl
  readings k := by
    rw [callable?_edit, Option.map_map]
    congr 1
    funext c
    simp only [Function.comp_apply, Edit.onCallable]
    split <;> rfl
  constants := by cases key <;> rfl

namespace ReadsAlike

variable {s t : SymbolTable} (h : s.ReadsAlike t)

include h

lemma class?_bind {α : Type} {f : Class → Option α} (hf : ∀ c, f c.outline = f c) (name : String) :
    t.class? name >>= f = s.class? name >>= f := by
  have hname := congrArg (· >>= f) (h.outlines name)
  simpa [Option.bind_map, Function.comp_def, hf] using hname

lemma callable?_map {α : Type} (f : CallableKey × TypeSet → α) (key : CallableKey) :
    (t.callable? key).map (fun c => f c.reading) = (s.callable? key).map fun c => f c.reading := by
  have hkey := congrArg (Option.map f) (h.readings key)
  rwa [Option.map_map, Option.map_map] at hkey

lemma sameHeads : s.SameHeads t where
  size := h.size
  heads name := by
    have hname := congrArg (Option.map Class.head) (h.outlines name)
    rwa [Option.map_map, Option.map_map] at hname

/-! ### Members -/

lemma findMethod (owner name : String) : t.findMethod owner name = s.findMethod owner name := by
  have hkeys : ∀ c, (t.class? c >>= (·.method? name)).map Callable.key =
      (s.class? c >>= (·.method? name)).map Callable.key :=
    fun c => h.callable?_map Prod.fst (.ofMethod c name)
  simp only [SymbolTable.findMethod, h.sameHeads.lineage, hkeys]

lemma findProperty (owner name : String) : t.findProperty owner name = s.findProperty owner name := by
  have hproperty : ∀ c, t.class? c >>= (·.property? name) = s.class? c >>= (·.property? name) :=
    h.class?_bind fun _ => rfl
  simp only [SymbolTable.findProperty, h.sameHeads.lineage, hproperty]

lemma findClassConstant (owner name : String) :
    t.findClassConstant owner name = s.findClassConstant owner name := by
  have hconstant : ∀ c, t.class? c >>= (·.constant? name) = s.class? c >>= (·.constant? name) :=
    h.class?_bind fun _ => rfl
  simp only [SymbolTable.findClassConstant, h.sameHeads.lineage, hconstant]

lemma property? (owner name : String) : t.property? owner name = s.property? owner name := by
  have hproperty : ∀ c, t.class? c >>= (·.property? name) = s.class? c >>= (·.property? name) :=
    h.class?_bind fun _ => rfl
  simp only [SymbolTable.property?, h.findProperty, bind_assoc, hproperty]

/-! ### Names -/

lemma resolveFunction (raw : String) : t.resolveFunction raw = s.resolveFunction raw := by
  let found (u : SymbolTable) : Option Callable :=
    (u.function? (Text.unrooted raw)).or (Text.shortName? (Text.unrooted raw) >>= u.function?)
  have hread : ∀ u : SymbolTable, u.resolveFunction raw = ((found u).map Callable.key).elim
      (.error (.undefinedFunction (Text.unrooted raw))) .ok := by
    intro u
    unfold SymbolTable.resolveFunction
    cases hfound : found u with
    | none =>
      dsimp only [found] at hfound ⊢
      rw [hfound]
      rfl
    | some f =>
      dsimp only [found] at hfound ⊢
      rw [hfound]
      rfl
  have hkeys : ∀ name, (t.function? name).map Callable.key = (s.function? name).map Callable.key :=
    fun name => h.callable?_map Prod.fst (.ofFunction name)
  have hfound : (found t).map Callable.key = (found s).map Callable.key := by
    simp only [found, Option.map_or, Option.map_bind, Option.bind_eq_bind, Function.comp_def, hkeys]
  rw [hread, hread, hfound]

lemma isSome_callable? (key : CallableKey) : (t.callable? key).isSome = (s.callable? key).isSome := by
  rw [← Option.isSome_map, h.readings, Option.isSome_map]

/-! ### Types -/

lemma returnTypeOf (keys : List CallableKey) : t.returnTypeOf keys = s.returnTypeOf keys := by
  have htypes : ∀ key, (t.callable? key).map Callable.returnType =
      (s.callable? key).map Callable.returnType := h.callable?_map Prod.snd
  simp only [SymbolTable.returnTypeOf, htypes]

lemma propertyTypeOf (owners : List String) (name : String) :
    t.propertyTypeOf owners name = s.propertyTypeOf owners name := by
  simp only [SymbolTable.propertyTypeOf, h.property?]

lemma calleesOf (context : Context) (callee : Node) (type : TypeSet) :
    t.calleesOf context callee type = s.calleesOf context callee type := by
  simp only [SymbolTable.calleesOf, h.resolveFunction, h.isSome_callable?]

lemma newType (context : Context) (reference : Node) :
    t.newType context reference = s.newType context reference := by
  simp only [SymbolTable.newType, h.sameHeads.resolveClass]

lemma constantType (name : String) : t.constantType name = s.constantType name := by
  simp only [SymbolTable.constantType, constant?, h.constants]

lemma classConstantType (context : Context) (reference : Node) (name : String) :
    t.classConstantType context reference name = s.classConstantType context reference name := by
  have hconstant : ∀ c, t.class? c >>= (·.constant? name) = s.class? c >>= (·.constant? name) :=
    h.class?_bind fun _ => rfl
  simp only [SymbolTable.classConstantType, resolveClassConstant, h.sameHeads.resolveClass,
    h.findClassConstant, hconstant]

lemma infer (context : Context) (node : Node) :
    PhpCheck.infer t context node = PhpCheck.infer s context node := by
  apply infer.induct s context
    (fun node => PhpCheck.infer t context node = PhpCheck.infer s context node)
    (fun items => inferItems t context items = inferItems s context items)
  all_goals
    intros
    simp only [PhpCheck.infer, inferItems, h.returnTypeOf, h.propertyTypeOf, h.calleesOf, h.newType,
      h.constantType, h.classConstantType, h.findMethod, h.sameHeads.resolveClass, *]

lemma typeOf (context : Context) (node : Node) :
    PhpCheck.typeOf t context node = PhpCheck.typeOf s context node :=
  congrArg Typing.type (h.infer context node)

end ReadsAlike

end SymbolTable

end PhpCheck
