import PhpCheck.Proofs.Actions

/-!
# What a run does to callables

`Edit.onCallable` says what a change of the symbol table does to the callable under a key. From it is
read off what a run keeps of callables: always the core, and through plain changes also the parameters
and the scope.
-/

namespace PhpCheck

/-- What a change of the symbol table does to the callable under a key. -/
def Edit.onCallable (key : CallableKey) : Edit → Callable → Callable
  | .useCallable k, c => if key = k then c.recordUse else c
  | .gatherReturn k types, c => if key = k then c.gatherReturn types else c
  | .capture k name site types, c =>
    if key = k then { c with scope := c.scope.assign name site types } else c
  | .rebind k parameters scope, c => if key = k then { c with parameters, scope } else c
  | .useClass _, c | .useProperty .., c | .useConstant _, c | .useClassConstant .., c
  | .widenProperty .., c => c

/-- What no run changes of a callable. -/
def Callable.core (c : Callable) : Callable :=
  { c with parameters := [], returnType := ∅, returnInferred := false, uses := 0, scope := {} }

/-- What the body of a callable is entered with. -/
def Callable.binding (c : Callable) : List Parameter × Scope := (c.parameters, c.scope)

namespace SymbolTable

lemma callable?_modifyCallable (s : SymbolTable) (key k : CallableKey) (f : Callable → Callable) :
    (s.modifyCallable k f).callable? key =
      (s.callable? key).map fun c => if key = k then f c else c := by
  cases k with
  | function name =>
    cases key with
    | function name' =>
      simp only [modifyCallable, callable?, Table.get?_modify, CallableKey.function.injEq]
      split <;> simp
    | method owner' name' => simp [modifyCallable, callable?]
  | method owner name =>
    cases key with
    | function name' => simp [modifyCallable, callable?]
    | method owner' name' =>
      simp only [modifyCallable, callable?, Table.get?_modify, CallableKey.method.injEq]
      by_cases ho : owner' = owner
      · cases s.classes.get? owner' with
        | none => simp [ho]
        | some c => by_cases hn : name' = name <;> simp [ho, hn]
      · simp [ho]

/-- A change of a class that leaves its methods alone leaves every callable alone. -/
lemma callable?_modifyClass (s : SymbolTable) (name : String) {f : Class → Class}
    (hf : ∀ c, (f c).methods = c.methods) (key : CallableKey) :
    (s.modifyClass name f).callable? key = s.callable? key := by
  cases key with
  | function name => rfl
  | method owner method =>
    simp only [modifyClass, callable?, Table.get?_modify]
    split
    · cases s.classes.get? owner with
      | none => rfl
      | some c => simp [hf]
    · rfl

lemma callable?_modifyProperty (s : SymbolTable) (owner name : String) (f : Property → Property)
    (key : CallableKey) : (s.modifyProperty owner name f).callable? key = s.callable? key := by
  unfold modifyProperty
  split
  · refine callable?_modifyClass s _ ?_ key
    intro c
    rfl
  · rfl

lemma callable?_modifyClassConstant (s : SymbolTable) (owner name : String)
    (f : Constant → Constant) (key : CallableKey) :
    (s.modifyClassConstant owner name f).callable? key = s.callable? key := by
  unfold modifyClassConstant
  split
  · refine callable?_modifyClass s _ ?_ key
    intro c
    rfl
  · rfl

lemma callable?_widenProperty (s : SymbolTable) (owner name : String) (site : Site)
    (types : TypeSet) (key : CallableKey) :
    (s.widenProperty owner name site types).callable? key = s.callable? key := by
  unfold widenProperty ensureProperty
  rw [callable?_modifyProperty]
  refine callable?_modifyClass s _ ?_ key
  intro c
  rfl

lemma callable?_edit (s : SymbolTable) (e : Edit) (key : CallableKey) :
    (s.edit e).callable? key = (s.callable? key).map (e.onCallable key) := by
  cases e with
  | useCallable k => exact callable?_modifyCallable s key k _
  | gatherReturn k types => exact callable?_modifyCallable s key k _
  | capture k name site types => exact callable?_modifyCallable s key k _
  | rebind k parameters scope => exact callable?_modifyCallable s key k _
  | useClass name =>
    have h : ∀ c : Class, c.recordUse.methods = c.methods := fun c => rfl
    rw [edit, callable?_modifyClass s name h]
    exact Option.map_id'.symm
  | useProperty owner name =>
    rw [edit, callable?_modifyProperty]
    exact Option.map_id'.symm
  | useConstant name =>
    have h : (s.edit (.useConstant name)).callable? key = s.callable? key := by
      cases key <;> rfl
    rw [h]
    exact Option.map_id'.symm
  | useClassConstant owner name =>
    rw [edit, callable?_modifyClassConstant]
    exact Option.map_id'.symm
  | widenProperty owner name site types =>
    rw [edit, callable?_widenProperty]
    exact Option.map_id'.symm

lemma callable?_rebind_self (s : SymbolTable) (key : CallableKey) (parameters : List Parameter)
    (scope : Scope) : (s.edit (.rebind key parameters scope)).callable? key =
      (s.callable? key).map fun c => { c with parameters, scope } := by
  rw [callable?_edit]
  congr 1
  funext c
  exact if_pos rfl

lemma callable?_rebind_of_ne (s : SymbolTable) {key other : CallableKey} (h : other ≠ key)
    (parameters : List Parameter) (scope : Scope) :
    (s.edit (.rebind key parameters scope)).callable? other = s.callable? other := by
  have hid : (Edit.rebind key parameters scope).onCallable other = id := by
    funext c
    exact if_neg h
  rw [callable?_edit, hid, Option.map_id]
  rfl

end SymbolTable

/-! ### Along a run -/

/-- The same callables are known, and their cores are the same. -/
def SymbolTable.SameCores (s t : SymbolTable) : Prop :=
  ∀ key, (t.callable? key).map Callable.core = (s.callable? key).map Callable.core

namespace SymbolTable.SameCores

variable {s t u : SymbolTable}

lemma refl (s : SymbolTable) : s.SameCores s := fun _ => rfl

lemma trans (hst : s.SameCores t) (htu : t.SameCores u) : s.SameCores u :=
  fun key => (htu key).trans (hst key)

lemma symm (h : s.SameCores t) : t.SameCores s := fun key => (h key).symm

lemma exists_callable (h : s.SameCores t) {key : CallableKey} {c : Callable}
    (hc : s.callable? key = some c) : ∃ d, t.callable? key = some d ∧ d.core = c.core := by
  have hkey := h key
  rw [hc, Option.map_some, Option.map_eq_some_iff] at hkey
  exact hkey

end SymbolTable.SameCores

lemma Edit.core_onCallable (e : Edit) (key : CallableKey) (c : Callable) :
    (e.onCallable key c).core = c.core := by
  cases e <;> simp only [onCallable] <;> split <;> rfl

lemma Edit.binding_onCallable {e : Edit} (he : (Change.edit e).IsPlain) (key : CallableKey)
    (c : Callable) : (e.onCallable key c).binding = c.binding := by
  cases e with
  | capture => cases he
  | rebind => cases he
  | useCallable k => simp only [onCallable]; split <;> rfl
  | gatherReturn k types => simp only [onCallable]; split <;> rfl
  | useClass | useProperty | useConstant | useClassConstant | widenProperty => rfl

namespace Session

lemma sameCores_apply (s : Session) (c : Change) : s.symbols.SameCores (s.apply c).symbols := by
  intro key
  cases c with
  | edit e =>
    rw [apply, SymbolTable.callable?_edit, Option.map_map]
    congr 1
    funext c
    exact e.core_onCallable key c
  | record | arrive | beginTrial | endTrial | beginWalk | endWalk => rfl

/-- The same trials are in progress, and the bodies of callables are entered with the same. -/
structure SameBindings (s t : Session) : Prop where
  trials : t.trials = s.trials
  bindings : ∀ key, (t.symbols.callable? key).map Callable.binding =
    (s.symbols.callable? key).map Callable.binding

lemma SameBindings.refl (s : Session) : s.SameBindings s := ⟨rfl, fun _ => rfl⟩

lemma SameBindings.trans {s t u : Session} (hst : s.SameBindings t) (htu : t.SameBindings u) :
    s.SameBindings u :=
  ⟨htu.trials.trans hst.trials, fun key => (htu.bindings key).trans (hst.bindings key)⟩

lemma sameBindings_apply (s : Session) {c : Change} (hc : c.IsPlain) : s.SameBindings (s.apply c) := by
  cases c with
  | edit e =>
    refine ⟨rfl, fun key => ?_⟩
    rw [apply, SymbolTable.callable?_edit, Option.map_map]
    congr 1
    funext c
    exact Edit.binding_onCallable hc key c
  | record | arrive | beginWalk | endWalk => exact ⟨rfl, fun _ => rfl⟩
  | beginTrial => cases hc
  | endTrial => cases hc

lemma SameBindings.parameters {s t : Session} (h : s.SameBindings t) (key : CallableKey) :
    (t.symbols.callable? key).map Callable.parameters =
      (s.symbols.callable? key).map Callable.parameters := by
  have hbinding := congrArg (Option.map Prod.fst) (h.bindings key)
  rwa [Option.map_map, Option.map_map] at hbinding

lemma SameBindings.declaredParameters {s t : Session} (h : s.SameBindings t)
    (callee : CallableKey) : t.declaredParameters callee = s.declaredParameters callee := by
  rw [Session.declaredParameters, Session.declaredParameters, h.trials, h.parameters]

end Session

namespace Analysis

variable {α : Type} {m : Analysis α} {s t : Session}

lemma sameCores_of_mem_moments (h : t ∈ m.moments s) : s.symbols.SameCores t.symbols := by
  refine (only_true m).related (R := fun s t => s.symbols.SameCores t.symbols) ?_ ?_ ?_ h
  · exact fun s => SymbolTable.SameCores.refl s.symbols
  · exact fun s t u => SymbolTable.SameCores.trans
  · exact fun s c _ => s.sameCores_apply c

lemma sameCores_of_run {a : α} (h : m.run s = .ok (a, t)) : s.symbols.SameCores t.symbols :=
  sameCores_of_mem_moments (mem_moments_of_run h)

lemma Only.sameBindings (hm : m.Plain) (h : t ∈ m.moments s) : s.SameBindings t := by
  refine hm.related Session.SameBindings.refl ?_ ?_ h
  · intro s t u hst htu
    exact hst.trans htu
  · intro s c hc
    exact s.sameBindings_apply hc

end Analysis

end PhpCheck
