import PhpCheck.Proofs.TableGrowth
import PhpCheck.Proofs.Traversal

/-!
# A run keeps the declared program

Whatever a run does to the symbol table, the classes, callables and constants that were collected are
still there, at their places. Uses are only counted up, and classes only gain properties that belong to
objects.
-/

namespace PhpCheck

/-- The callable is the same but for its binding and its return type, and is not used less. -/
structure Callable.Kept (c d : Callable) : Prop where
  core : d.core = c.core
  uses : c.uses ≤ d.uses

structure Property.Kept (p q : Property) : Prop where
  name : q.name = p.name
  isStatic : q.isStatic = p.isStatic
  site : q.site = p.site
  type : ∀ t ∈ p.type, t ∈ q.type
  uses : p.uses ≤ q.uses

structure Constant.Kept (k l : Constant) : Prop where
  name : l.name = k.name
  type : l.type = k.type
  site : l.site = k.site
  uses : k.uses ≤ l.uses

/-- The class has the same methods and constants in the same order, and at most more properties, none
of which is static. -/
structure Class.Kept (c d : Class) : Prop where
  name : d.name = c.name
  parent : d.parent = c.parent
  isTrait : d.isTrait = c.isTrait
  site : d.site = c.site
  uses : c.uses ≤ d.uses
  methods : Table.Grows Callable.Kept (fun _ => False) c.methods d.methods
  properties : Table.Grows Property.Kept (fun p => p.isStatic = false) c.properties d.properties
  constants : Table.Grows Constant.Kept (fun _ => False) c.constants d.constants

/-- The same classes, functions and constants are known, in the same order. -/
structure SymbolTable.Kept (s t : SymbolTable) : Prop where
  classes : Table.Grows Class.Kept (fun _ => False) s.classes t.classes
  functions : Table.Grows Callable.Kept (fun _ => False) s.functions t.functions
  constants : Table.Grows Constant.Kept (fun _ => False) s.constants t.constants

namespace Callable.Kept

lemma refl (c : Callable) : c.Kept c := ⟨rfl, Nat.le_refl _⟩

lemma trans {c d e : Callable} (hcd : c.Kept d) (hde : d.Kept e) : c.Kept e :=
  ⟨hde.core.trans hcd.core, Nat.le_trans hcd.uses hde.uses⟩

end Callable.Kept

namespace Property.Kept

lemma refl (p : Property) : p.Kept p := ⟨rfl, rfl, rfl, fun _ h => h, Nat.le_refl _⟩

lemma trans {p q r : Property} (hpq : p.Kept q) (hqr : q.Kept r) : p.Kept r where
  name := hqr.name.trans hpq.name
  isStatic := hqr.isStatic.trans hpq.isStatic
  site := hqr.site.trans hpq.site
  type t ht := hqr.type t (hpq.type t ht)
  uses := Nat.le_trans hpq.uses hqr.uses

lemma widen (p : Property) (types : TypeSet) : p.Kept (p.widen types) :=
  ⟨rfl, rfl, rfl, fun _ h => TypeSet.mem_merge.mpr (.inl h), Nat.le_refl _⟩

end Property.Kept

namespace Constant.Kept

lemma refl (k : Constant) : k.Kept k := ⟨rfl, rfl, rfl, Nat.le_refl _⟩

lemma trans {k l m : Constant} (hkl : k.Kept l) (hlm : l.Kept m) : k.Kept m where
  name := hlm.name.trans hkl.name
  type := hlm.type.trans hkl.type
  site := hlm.site.trans hkl.site
  uses := Nat.le_trans hkl.uses hlm.uses

lemma recordUse (k : Constant) : k.Kept k.recordUse := ⟨rfl, rfl, rfl, Nat.le_succ _⟩

end Constant.Kept

namespace Class.Kept

lemma refl (c : Class) : c.Kept c :=
  ⟨rfl, rfl, rfl, rfl, Nat.le_refl _, .refl .refl _, .refl .refl _, .refl .refl _⟩

lemma trans {c d e : Class} (hcd : c.Kept d) (hde : d.Kept e) : c.Kept e where
  name := hde.name.trans hcd.name
  parent := hde.parent.trans hcd.parent
  isTrait := hde.isTrait.trans hcd.isTrait
  site := hde.site.trans hcd.site
  uses := Nat.le_trans hcd.uses hde.uses
  methods := hcd.methods.trans (fun _ _ _ => .trans) (fun _ _ _ => id) hde.methods
  properties := by
    apply hcd.properties.trans (fun _ _ _ => .trans) _ hde.properties
    intro p q hpq hp
    rw [hpq.isStatic]
    exact hp
  constants := hcd.constants.trans (fun _ _ _ => .trans) (fun _ _ _ => id) hde.constants

lemma recordUse (c : Class) : c.Kept c.recordUse :=
  ⟨rfl, rfl, rfl, rfl, Nat.le_succ _, .refl .refl _, .refl .refl _, .refl .refl _⟩

lemma modifyMethod (c : Class) (name : String) {f : Callable → Callable}
    (h : ∀ m : Callable, m.Kept (f m)) :
    c.Kept { c with methods := c.methods.modify name f } :=
  { refl c with methods := Table.grows_modify .refl c.methods name h }

lemma modifyProperty (c : Class) (name : String) {f : Property → Property}
    (h : ∀ p : Property, p.Kept (f p)) :
    c.Kept { c with properties := c.properties.modify name f } :=
  { refl c with properties := Table.grows_modify .refl c.properties name h }

lemma modifyConstant (c : Class) (name : String) {f : Constant → Constant}
    (h : ∀ k : Constant, k.Kept (f k)) :
    c.Kept { c with constants := c.constants.modify name f } :=
  { refl c with constants := Table.grows_modify .refl c.constants name h }

lemma addProperty (c : Class) {p : Property} (h : p.isStatic = false) : c.Kept (c.addProperty p) :=
  { refl c with properties := Table.grows_add .refl c.properties p.name h }

end Class.Kept

namespace SymbolTable.Kept

variable {s t u : SymbolTable}

lemma refl (s : SymbolTable) : s.Kept s := ⟨.refl .refl _, .refl .refl _, .refl .refl _⟩

lemma trans (hst : s.Kept t) (htu : t.Kept u) : s.Kept u where
  classes := hst.classes.trans (fun _ _ _ => .trans) (fun _ _ _ => id) htu.classes
  functions := hst.functions.trans (fun _ _ _ => .trans) (fun _ _ _ => id) htu.functions
  constants := hst.constants.trans (fun _ _ _ => .trans) (fun _ _ _ => id) htu.constants

lemma modifyClass (s : SymbolTable) (name : String) {f : Class → Class}
    (h : ∀ c : Class, c.Kept (f c)) :
    s.Kept (s.modifyClass name f) :=
  { refl s with classes := Table.grows_modify .refl s.classes (Text.canonical name) h }

lemma modifyCallable (s : SymbolTable) (key : CallableKey) {f : Callable → Callable}
    (h : ∀ c : Callable, c.Kept (f c)) : s.Kept (s.modifyCallable key f) := by
  cases key with
  | function name => exact { refl s with functions := Table.grows_modify .refl s.functions name h }
  | method owner name =>
    have hclass : ∀ c : Class, c.Kept { c with methods := c.methods.modify name f } :=
      fun c => .modifyMethod c name h
    exact { refl s with classes := Table.grows_modify .refl s.classes owner hclass }

lemma modifyProperty (s : SymbolTable) (owner name : String) {f : Property → Property}
    (h : ∀ p : Property, p.Kept (f p)) : s.Kept (s.modifyProperty owner name f) := by
  unfold SymbolTable.modifyProperty
  split
  · exact modifyClass s _ fun c => .modifyProperty c name h
  · exact refl s

lemma modifyClassConstant (s : SymbolTable) (owner name : String) {f : Constant → Constant}
    (h : ∀ k : Constant, k.Kept (f k)) : s.Kept (s.modifyClassConstant owner name f) := by
  unfold SymbolTable.modifyClassConstant
  split
  · exact modifyClass s _ fun c => .modifyConstant c name h
  · exact refl s

/-- A property that is created by an assignment belongs to objects. -/
lemma widenProperty (s : SymbolTable) (owner name : String) (site : Site) (types : TypeSet) :
    s.Kept (s.widenProperty owner name site types) := by
  have hensure : s.Kept (s.ensureProperty owner name site) :=
    modifyClass s _ fun c => .addProperty c rfl
  exact hensure.trans (modifyProperty _ owner name fun p => .widen p types)

lemma edit (s : SymbolTable) (e : Edit) : s.Kept (s.edit e) := by
  cases e with
  | useCallable key => exact modifyCallable s key fun c => ⟨rfl, Nat.le_succ _⟩
  | gatherReturn key types => exact modifyCallable s key fun c => ⟨rfl, Nat.le_refl _⟩
  | capture key name site types => exact modifyCallable s key fun c => ⟨rfl, Nat.le_refl _⟩
  | rebind key parameters scope => exact modifyCallable s key fun c => ⟨rfl, Nat.le_refl _⟩
  | useClass name => exact modifyClass s name .recordUse
  | useProperty owner name =>
    exact modifyProperty s owner name fun p => ⟨rfl, rfl, rfl, fun _ h => h, Nat.le_succ _⟩
  | useClassConstant owner name => exact modifyClassConstant s owner name .recordUse
  | useConstant name =>
    exact { refl s with constants := Table.grows_modify .refl s.constants _ .recordUse }
  | widenProperty owner name site types => exact widenProperty s owner name site types

end SymbolTable.Kept

namespace Analysis

lemma kept_of_mem_moments {α : Type} {m : Analysis α} {s t : Session} (h : t ∈ m.moments s) :
    s.symbols.Kept t.symbols := by
  refine (only_true m).related (R := fun s t => s.symbols.Kept t.symbols) ?_ ?_ ?_ h
  · exact fun s => .refl s.symbols
  · exact fun s t u => .trans
  · intro s c _
    cases c with
    | edit e => exact .edit s.symbols e
    | record | arrive | beginTrial | endTrial | beginWalk | endWalk => exact .refl s.symbols

/-- In a run over units, and so at the end of it, the symbol table has the classes, callables and
constants that were collected, and what is new in it are properties of objects. -/
theorem run_keeps_declarations {setup : Setup} {units : List SourceUnit} {symbols : SymbolTable}
    (hcollect : SymbolTable.builtin.collectUnits units = .ok symbols) :
    (∀ s ∈ (walkUnits setup units).moments { symbols }, symbols.Kept s.symbols) ∧
    ∀ outcome, analyzeUnits setup units = .ok outcome → symbols.Kept outcome.symbols := by
  have hmoments : ∀ s ∈ (walkUnits setup units).moments { symbols }, symbols.Kept s.symbols :=
    fun s hs => kept_of_mem_moments hs
  refine ⟨hmoments, fun outcome houtcome => ?_⟩
  obtain ⟨session, hrun, houtcome⟩ := exists_run_of_analyzeUnits hcollect houtcome
  rw [houtcome]
  exact hmoments session (mem_moments_of_run hrun)

/-- A trial of a method gives its class a property, which the end of the trial does not take away. -/
theorem run_keeps_declarations_newProperty :
    let x (name : String) : Node := ⟨2, .var (.literal name)⟩
    let method : Node := ⟨2, .methodDecl ⟨"m", [⟨"x", none, false, false, none⟩], none, false,
      some ⟨2, .assign ⟨2, .prop (x "this") (.literal "p")⟩ (x "x")⟩⟩⟩
    let units : List SourceUnit := [⟨"a.php", ⟨1, .statementList [
      ⟨1, .classDecl ⟨"C", none, false,
        ⟨1, .statementList [⟨1, .propertyDecl ⟨"s", none, true, none⟩⟩, method]⟩⟩⟩,
      ⟨3, .methodCall ⟨3, .new ⟨3, .identifier "C"⟩ []⟩ (.literal "m") [⟨3, .literal (.int 1)⟩]⟩]⟩,
      none⟩]
    let properties (s : SymbolTable) := (s.class? "C").map fun c =>
      c.properties.values.map fun p => (p.name, p.isStatic, p.type.members)
    ∃ symbols, SymbolTable.builtin.collectUnits units = .ok symbols ∧
      properties symbols = some [("s", true, [])] ∧
      ∃ outcome, analyzeUnits {} units = .ok outcome ∧
        properties outcome.symbols = some [("s", true, []), ("p", false, [.int])] ∧
        symbols.Kept outcome.symbols := by
  intro x method units properties
  apply exists_ok_of_any (fun symbols => decide (properties symbols = some [("s", true, [])]))
    (by decide +kernel)
  intro symbols hsymbols hbefore
  refine ⟨of_decide_eq_true hbefore, ?_⟩
  apply exists_ok_of_any (fun outcome =>
    decide (properties outcome.symbols = some [("s", true, []), ("p", false, [.int])]))
    (by decide +kernel)
  intro outcome houtcome hafter
  exact ⟨of_decide_eq_true hafter, (run_keeps_declarations hsymbols).2 outcome houtcome⟩

end Analysis

end PhpCheck
