import PhpCheck.Proofs.Entries
import PhpCheck.Proofs.Registration
import Mathlib.Data.List.Infix

/-!
# The first declaration wins

A collection only appends to the symbol table. Members are entered into a class that is looked up by its
name each time, so this rests on the class around a node being one that the same collection has entered:
a class that was there before is passed over with all its parts.
-/

namespace PhpCheck

namespace Table

variable {α : Type} {t u : Table α} {key : String}

lemma prefix_add (t : Table α) (key : String) (v : α) : t.entries <+: (t.add key v).entries := by
  by_cases h : t.contains key = true
  · rw [add_of_contains h]
  · rw [entries_add_of_not_contains h]
    exact List.prefix_append ..

/-- A change under another key leaves the older entries as they are. -/
lemma prefix_modify (h : t.entries <+: u.entries) (hkey : t.contains key = false) (f : α → α) :
    t.entries <+: (u.modify key f).entries := by
  obtain ⟨new, hnew⟩ := h
  have hkept : (t.entries.map fun entry => (entry.1, if entry.1 == key then f entry.2 else entry.2)) =
      t.entries := by
    refine (List.map_congr_left fun entry hentry => ?_).trans (List.map_id _)
    have hne : entry.1 ≠ key := by
      rintro rfl
      have hmem := (t.contains_iff_mem_keys entry.1).mpr (List.mem_map_of_mem hentry)
      rw [hkey] at hmem
      cases hmem
    simp [hne]
  simp only [modify, ← hnew, List.map_append, hkept]
  exact List.prefix_append ..

lemma get?_of_prefix (h : t.entries <+: u.entries) {v : α} (hv : t.get? key = some v) :
    u.get? key = some v :=
  get?_eq_some_iff.mpr (h.subset (get?_eq_some_iff.mp hv))

end Table

/-- A class without its members. -/
def Class.shell (c : Class) : Class := { c with methods := ∅, properties := ∅, constants := ∅ }

/-- Everything that is declared in `s` is in `t` too, unchanged and at its place, and what `t` has beside
that comes after it. -/
structure SymbolTable.Precedes (s t : SymbolTable) : Prop where
  classes : s.classes.entries <+: t.classes.entries
  functions : s.functions.entries <+: t.functions.entries
  constants : s.constants.entries <+: t.constants.entries

namespace SymbolTable.Precedes

variable {s t u : SymbolTable}

lemma refl (s : SymbolTable) : s.Precedes s :=
  ⟨List.prefix_refl _, List.prefix_refl _, List.prefix_refl _⟩

lemma trans (hst : s.Precedes t) (htu : t.Precedes u) : s.Precedes u :=
  ⟨hst.classes.trans htu.classes, hst.functions.trans htu.functions,
    hst.constants.trans htu.constants⟩

lemma addClass (h : s.Precedes t) (c : Class) : s.Precedes (t.addClass c) :=
  ⟨h.classes.trans (t.classes.prefix_add _ _), h.functions, h.constants⟩

lemma addFunction (h : s.Precedes t) (f : Callable) : s.Precedes (t.addFunction f) := by
  unfold SymbolTable.addFunction
  split
  · exact ⟨h.classes, h.functions.trans (t.functions.prefix_add _ _), h.constants⟩
  · exact h

lemma addConstant (h : s.Precedes t) (k : Constant) : s.Precedes (t.addConstant k) :=
  ⟨h.classes, h.functions, h.constants.trans (t.constants.prefix_add _ _)⟩

lemma modifyClass (h : s.Precedes t) {name : String} (hname : s.hasClass name = false)
    (f : Class → Class) : s.Precedes (t.modifyClass name f) :=
  ⟨Table.prefix_modify h.classes hname f, h.functions, h.constants⟩

lemma class? (h : s.Precedes t) {name : String} {c : Class} (hc : s.class? name = some c) :
    t.class? name = some c :=
  Table.get?_of_prefix h.classes hc

lemma callable? (h : s.Precedes t) {key : CallableKey} {c : Callable}
    (hc : s.callable? key = some c) : t.callable? key = some c := by
  cases key with
  | function name => exact Table.get?_of_prefix h.functions hc
  | method owner name =>
    obtain ⟨d, hd, hmethod⟩ := Option.bind_eq_some_iff.mp hc
    exact Option.bind_eq_some_iff.mpr ⟨d, Table.get?_of_prefix h.classes hd, hmethod⟩

lemma constant? (h : s.Precedes t) {name : String} {k : Constant} (hk : s.constant? name = some k) :
    t.constant? name = some k :=
  Table.get?_of_prefix h.constants hk

/-- A class that is new to `t` is new to `s`. -/
lemma hasClass_eq_false (h : s.Precedes t) {name : String} (hname : ¬t.hasClass name = true) :
    s.hasClass name = false := by
  cases hold : s.hasClass name with
  | false => rfl
  | true =>
    obtain ⟨c, hc⟩ := Option.isSome_iff_exists.mp hold
    exact absurd (Option.isSome_iff_exists.mpr ⟨c, h.class? hc⟩) hname

end SymbolTable.Precedes

/-! ### Actions that keep a property of the table -/

namespace Collect

variable {α β : Type} {P : SymbolTable → Prop}

/-- From a table with the property the action leaves one with the property, whether it returns or ends
with an error, and what it returns satisfies `R`. -/
def Keeps (P : SymbolTable → Prop) (R : α → Prop) (m : Collect α) : Prop :=
  ∀ s, P s → P (after m s) ∧ ∀ a, (m.run.run s).1 = .ok a → R a

lemma keeps_pure {R : α → Prop} {a : α} (h : R a) : Keeps P R (pure a : Collect α) := by
  intro s hs
  refine ⟨hs, fun b hb => ?_⟩
  cases hb
  exact h

lemma Keeps.bind {R : α → Prop} {S : β → Prop} {m : Collect α} {f : α → Collect β}
    (hm : Keeps P R m) (hf : ∀ a, R a → Keeps P S (f a)) : Keeps P S (m >>= f) := by
  intro s hs
  obtain ⟨hP, hR⟩ := hm s hs
  unfold after at hP ⊢
  rw [ExceptT.run_bind, StateT.run_bind]
  generalize m.run.run s = result at hP hR
  obtain ⟨error | a, t⟩ := result
  · refine ⟨hP, fun b hb => ?_⟩
    cases hb
  · exact hf a (hR a rfl) t hP

lemma keeps_get : Keeps P P (get : Collect SymbolTable) := by
  intro s hs
  refine ⟨hs, fun a ha => ?_⟩
  cases ha
  exact hs

lemma keeps_modify {f : SymbolTable → SymbolTable} (h : ∀ s, P s → P (f s)) :
    Keeps P (fun _ => True) (modify f : Collect PUnit) :=
  fun s hs => ⟨h s hs, fun _ _ => trivial⟩

lemma keeps_ofExcept (e : Except LoadError α) :
    Keeps P (fun _ => True) (MonadExcept.ofExcept e : Collect α) := by
  intro s hs
  cases e <;> exact ⟨hs, fun _ _ => trivial⟩

end Collect

/-! ### What was declared before -/

section Before

variable {base : SymbolTable}

open Collect in
/-- If the class around a node is new, so is the one around its parts. -/
lemma register_keeps (file : String) {owner : Option String}
    (howner : ∀ name ∈ owner, base.hasClass name = false) (node : Node) :
    Keeps base.Precedes (fun inner => ∀ o ∈ inner, ∀ name ∈ o, base.hasClass name = false)
      (register file owner node) := by
  have hself : ∀ o ∈ some owner, ∀ name ∈ o, base.hasClass name = false := by
    rintro o ⟨⟩
    exact howner
  have hmember : ∀ {name : String} {f : Class → Class}, owner = some name →
      Keeps base.Precedes (fun inner => ∀ o ∈ inner, ∀ name ∈ o, base.hasClass name = false)
        (do modify (·.modifyClass name f); return some owner) := by
    intro name f hname
    refine (keeps_modify fun s hs => ?_).bind fun _ _ => keeps_pure hself
    exact hs.modifyClass (howner name hname) f
  unfold register
  split
  case h_1 decl hkind =>
    refine keeps_get.bind fun s hs => ?_
    split
    · exact keeps_pure (by simp)
    · rename_i hnew
      refine (keeps_modify fun t ht => ht.addClass _).bind fun _ _ => keeps_pure ?_
      rintro o ⟨⟩ name ⟨⟩
      exact hs.hasClass_eq_false hnew
  case h_2 decl hkind =>
    refine (keeps_ofExcept _).bind fun c _ => keeps_get.bind fun s _ => ?_
    split
    · exact keeps_pure (by simp)
    · exact (keeps_modify fun t ht => ht.addFunction c).bind fun _ _ => keeps_pure hself
  case h_3 decl hkind =>
    cases owner with
    | none => exact keeps_pure (by simp)
    | some name => exact (keeps_ofExcept _).bind fun c _ => hmember rfl
  case h_4 decl hkind =>
    refine (keeps_ofExcept _).bind fun c _ => ?_
    exact (keeps_modify fun t ht => ht.addFunction c).bind fun _ _ => keeps_pure hself
  case h_5 decl hkind =>
    cases owner with
    | none => exact keeps_pure hself
    | some name =>
      cases decl.annotation with
      | none => exact hmember rfl
      | some raw => exact (keeps_ofExcept _).bind fun type _ => hmember rfl
  case h_6 decl hkind =>
    cases owner with
    | none => exact keeps_pure hself
    | some name => exact hmember rfl
  case h_7 decl hkind =>
    exact (keeps_modify fun t ht => ht.addConstant _).bind fun _ _ => keeps_pure hself
  case h_8 => exact keeps_pure hself

open Collect in
lemma collectNode_keeps (file : String) {owner : Option String}
    (howner : ∀ name ∈ owner, base.hasClass name = false) (node : Node) :
    Keeps base.Precedes (fun _ => True) (collectNode file owner node) := by
  induction node using Node.induction_on_children generalizing owner with
  | step node ih =>
    rw [collectNode]
    refine (register_keeps file howner node).bind fun inner hinner => ?_
    cases inner with
    | none => exact keeps_pure trivial
    | some inner =>
      -- the parts are collected in turn, all of them inside the same new class
      have hparts : ∀ l : List { child // child ∈ node.children },
          Keeps base.Precedes (fun _ => True) (l.forM fun child => collectNode file inner child.val) := by
        intro l
        induction l with
        | nil => exact keeps_pure trivial
        | cons child l ihl => exact (ih child.val child.property (hinner inner rfl)).bind fun _ _ => ihl
      exact hparts _

end Before

namespace SymbolTable

lemma precedes_collect (s : SymbolTable) (file : String) (root : Node) :
    s.Precedes (s.collect file root).2 := by
  have hnone : ∀ name ∈ (none : Option String), s.hasClass name = false := by simp
  exact (collectNode_keeps file hnone root s (.refl s)).1

lemma precedes_collectEach (s : SymbolTable) (units : List SourceUnit) :
    s.Precedes (s.collectEach units) := by
  induction units generalizing s with
  | nil => exact .refl s
  | cons unit rest ih => exact (s.precedes_collect unit.path unit.root).trans (ih _)

end SymbolTable

/-! ### Parts in turn -/

section Parts

open Collect

lemma forM_attach_collectNode (file : String) (owner : Option String) (nodes : List Node) :
    (nodes.attach.forM fun child => collectNode file owner child.val) =
      nodes.forM (collectNode file owner) := by
  simp only [List.forM_eq_forM]
  rw [← List.forM_map, List.attach_map_subtype_val]

lemma after_statementList (file : String) (owner : Option String) (line : Line) (nodes : List Node)
    (s : SymbolTable) : after (collectNode file owner ⟨line, .statementList nodes⟩) s =
      after (nodes.forM (collectNode file owner)) s := by
  rw [collectNode, ← forM_attach_collectNode]
  rfl

/-- Once a node is entered, its parts are collected like the statements of a list. -/
lemma after_collectNode {file : String} {owner inner : Option String} {node : Node}
    {s t : SymbolTable} (h : (register file owner node).run.run s = (.ok (some inner), t)) :
    after (collectNode file owner node) s =
      after (collectNode file inner ⟨node.line, .statementList node.children⟩) t := by
  rw [after_statementList, ← forM_attach_collectNode, collectNode, after, ExceptT.run_bind,
    StateT.run_bind, h]
  rfl

lemma SymbolTable.precedes_collect_append (s : SymbolTable) (file : String) (line : Line)
    (first rest : List Node) : (s.collect file ⟨line, .statementList first⟩).2.Precedes
      (s.collect file ⟨line, .statementList (first ++ rest)⟩).2 := by
  change (after _ s).Precedes (after _ s)
  rw [after_statementList, after_statementList]
  simp only [List.forM_eq_forM, List.forM_append]
  rcases after_bind (forM first (collectNode file none)) (fun _ => forM rest (collectNode file none)) s
    with heq | ⟨_, heq⟩
  · rw [heq]
    exact .refl _
  · rw [heq]
    generalize after (forM first (collectNode file none)) s = t
    have hrest : t.Precedes (after _ t) := t.precedes_collect file ⟨line, .statementList rest⟩
    rwa [after_statementList] at hrest

/-- A class keeps all but its members while more is collected. -/
lemma shell_collectNode (file : String) (owner : Option String) (node : Node) {s : SymbolTable}
    {name : String} {c : Class} (hc : s.class? name = some c) :
    ((Collect.after (collectNode file owner node) s).class? name).map Class.shell = some c.shell := by
  refine collectNode_respects (R := fun s t => ∀ c, (s.class? name).map Class.shell = some c →
    (t.class? name).map Class.shell = some c) ?_ ?_ ?_ owner s c.shell (by rw [hc]; rfl)
  · exact fun s c => id
  · exact fun s t u hst htu c => htu c ∘ hst c
  · intro part _ owner s t henters c hc
    have hmodify : ∀ (other : String) {f : Class → Class}, (∀ c, (f c).shell = c.shell) →
        ((s.modifyClass other f).class? name).map Class.shell = some c := by
      intro other f hf
      simp only [SymbolTable.class?, SymbolTable.modifyClass, Table.get?_modify] at hc ⊢
      split
      · simpa [Option.map_map, Function.comp_def, hf] using hc
      · exact hc
    cases henters with
    | nothing => exact hc
    | «class» hkind =>
      obtain ⟨d, hd, rfl⟩ := Option.map_eq_some_iff.mp hc
      have hd' : s.classes.get? (Text.canonical name) = some d := hd
      simp [SymbolTable.class?, SymbolTable.addClass, Table.get?_add, hd']
    | function hf =>
      rw [SymbolTable.class?, s.classes_addFunction]
      exact hc
    | method hkind hm => exact hmodify _ fun _ => rfl
    | property other p => exact hmodify other fun _ => rfl
    | classConstant other k => exact hmodify other fun _ => rfl
    | constant k => exact hc


end Parts

/-! ### New names -/

namespace SymbolTable

variable {s : SymbolTable} {file : String} {line : Line}

/-- A class of a new name is the one that is declared, with whatever members its body has up to an error. -/
lemma class?_collect_classDecl {decl : ClassDecl} (hnew : s.class? decl.name = none) :
    ((s.collect file ⟨line, .classDecl decl⟩).2.class? decl.name).map Class.shell =
      some { Class.declared decl.name decl.parent ⟨file, line⟩ with isTrait := decl.isTrait } := by
  have hfree : s.hasClass (Text.unrooted decl.name) = false := by
    rw [hasClass, Text.canonical_unrooted, Table.contains]
    exact Option.isSome_eq_false_iff.mpr (Option.isNone_iff_eq_none.mpr hnew)
  let declared : Class :=
    { Class.declared decl.name decl.parent ⟨file, line⟩ with isTrait := decl.isTrait }
  have hregister : (register file none ⟨line, .classDecl decl⟩).run.run s =
      (.ok (some (some (Text.unrooted decl.name))), s.addClass declared) := by
    change ExceptT.run (m := StateM SymbolTable) (if s.hasClass (Text.unrooted decl.name) then pure none else do
      modify (·.addClass declared)
      return some (some (Text.unrooted decl.name))) s = _
    rw [if_neg (by simp [hfree])]
    rfl
  have hadded : (s.addClass declared).class? decl.name = some declared := by
    have hnew' : s.classes.get? (Text.canonical decl.name) = none := hnew
    simp [class?, addClass, Table.get?_add, hnew', declared, Class.declared, Text.canonical_unrooted]
  change ((Collect.after _ s).class? decl.name).map Class.shell = _
  rw [after_collectNode hregister]
  exact shell_collectNode file _ _ hadded

/-- A function of a new name is the one that is declared. -/
lemma callable?_collect_functionDecl {decl : FunctionDecl} {f : Callable}
    (hnew : s.callable? (.ofFunction decl.name) = none)
    (hf : Signature.declared ⟨decl.parameters, decl.returnType, false, some decl.body⟩
      (.ofFunction decl.name) (Text.unrooted decl.name) none ⟨file, line⟩ = .ok f) :
    (s.collect file ⟨line, .functionDecl decl⟩).2.callable? (.ofFunction decl.name) = some f := by
  have hkey : f.key = .ofFunction decl.name := (Signature.of_declared hf).1
  have hfree : s.isNewFunction f = true := by
    have hget : s.functions.get? (Text.canonical decl.name) = none := hnew
    simp [isNewFunction, hkey, CallableKey.ofFunction, Table.contains, hget]
  have hregister : (register file none ⟨line, .functionDecl decl⟩).run.run s =
      (.ok (some none), s.addFunction f) := by
    simp only [register, Collect.declared, hf]
    change ExceptT.run (m := StateM SymbolTable) (if !s.isNewFunction f then pure none else do
      modify (·.addFunction f)
      return some none) s = _
    rw [if_neg (by simp [hfree])]
    rfl
  have hadded : (s.addFunction f).callable? (.ofFunction decl.name) = some f := by
    rw [s.callable?_addFunction hkey, hnew]
    simp [CallableKey.ofFunction]
  change (Collect.after _ s).callable? (.ofFunction decl.name) = some f
  rw [after_collectNode hregister]
  exact (precedes_collect _ file _).callable? hadded

/-- A global constant of a new name is the one that is declared. -/
lemma constant?_collect_constDecl {decl : ConstDecl} (hnew : s.constant? decl.name = none) :
    (s.collect file ⟨line, .constDecl decl⟩).2.constant? decl.name =
      some ⟨Text.unrooted decl.name, PhpCheck.constantType decl.value, 0, ⟨file, line⟩⟩ := by
  let declared : Constant :=
    { name := Text.unrooted decl.name, type := PhpCheck.constantType decl.value, site := ⟨file, line⟩ }
  have hregister : (register file none ⟨line, .constDecl decl⟩).run.run s =
      (.ok (some none), s.addConstant declared) := rfl
  have hadded : (s.addConstant declared).constant? decl.name = some declared := by
    have hnew' : s.constants.get? (Text.unrooted decl.name) = none := hnew
    simp [constant?, addConstant, Table.get?_add, hnew', declared]
  change (Collect.after _ s).constant? decl.name = _
  rw [after_collectNode hregister]
  exact (precedes_collect _ file _).constant? hadded

/-- A collection leaves everything that is declared as it is and where it is, also if it ends with an error,
and enters what is new after it; a name that is new stands for what is declared then. So the first
declaration of a name wins: among the statements of a unit, and in a sequence of units, where all names
stand for what they stand for when the units `before` have been collected, whatever comes `after`. -/
theorem first_declarations_win (s : SymbolTable) :
    (∀ file root, s.Precedes (s.collect file root).2) ∧
    (∀ file line first rest, (s.collect file ⟨line, .statementList first⟩).2.Precedes
      (s.collect file ⟨line, .statementList (first ++ rest)⟩).2) ∧
    (∀ before after : List SourceUnit,
      (s.collectEach before).Precedes (s.collectEach (before ++ after)) ∧
      (∀ name c, (s.collectEach before).class? name = some c →
        (s.collectEach (before ++ after)).class? name = some c) ∧
      (∀ key c, (s.collectEach before).callable? key = some c →
        (s.collectEach (before ++ after)).callable? key = some c) ∧
      ∀ name k, (s.collectEach before).constant? name = some k →
        (s.collectEach (before ++ after)).constant? name = some k) ∧
    (∀ file line (decl : ClassDecl), s.class? decl.name = none →
      ((s.collect file ⟨line, .classDecl decl⟩).2.class? decl.name).map Class.shell =
        some { Class.declared decl.name decl.parent ⟨file, line⟩ with isTrait := decl.isTrait }) ∧
    (∀ file line (decl : FunctionDecl) f, s.callable? (.ofFunction decl.name) = none →
      Signature.declared ⟨decl.parameters, decl.returnType, false, some decl.body⟩
        (.ofFunction decl.name) (Text.unrooted decl.name) none ⟨file, line⟩ = .ok f →
      (s.collect file ⟨line, .functionDecl decl⟩).2.callable? (.ofFunction decl.name) = some f) ∧
    ∀ file line (decl : ConstDecl), s.constant? decl.name = none →
      (s.collect file ⟨line, .constDecl decl⟩).2.constant? decl.name =
        some ⟨Text.unrooted decl.name, PhpCheck.constantType decl.value, 0, ⟨file, line⟩⟩ := by
  refine ⟨s.precedes_collect, s.precedes_collect_append, fun before after => ?_, ?_, ?_, ?_⟩
  · have hlater : (s.collectEach before).Precedes (s.collectEach (before ++ after)) := by
      rw [collectEach, collectEach, List.foldl_append]
      exact precedes_collectEach _ after
    exact ⟨hlater, fun _ _ => hlater.class?, fun _ _ => hlater.callable?, fun _ _ => hlater.constant?⟩
  · exact fun file line decl => class?_collect_classDecl
  · exact fun file line decl f => callable?_collect_functionDecl
  · exact fun file line decl => constant?_collect_constDecl

/-- A second unit declares a class again, now with a method, and breaks off at a type that cannot be read.
The class is still the one of the first unit, and the function that the second unit declares before the
error is there. -/
theorem first_declarations_win_errorMidway :
    let first : SourceUnit :=
      ⟨"a.php", ⟨1, .classDecl ⟨"Thing", none, false, ⟨1, .statementList []⟩⟩⟩, none⟩
    let method : Node := ⟨3, .methodDecl ⟨"run", [], none, false, none⟩⟩
    let second : SourceUnit := ⟨"b.php", ⟨1, .statementList [
      ⟨2, .functionDecl ⟨"f", [], none, ⟨2, .statementList []⟩⟩⟩,
      ⟨3, .classDecl ⟨"\\thing", some "Other", false, ⟨3, .statementList [method]⟩⟩⟩,
      ⟨4, .functionDecl ⟨"g", [], some "?", ⟨4, .statementList []⟩⟩⟩]⟩, none⟩
    let table := SymbolTable.builtin.collectEach [first]
    (table.collect "b.php" second.root).1.toOption = none ∧
      ∃ c, table.class? "thing" = some c ∧ c.site = ⟨"a.php", 1⟩ ∧
        (table.collectEach [second]).class? "thing" = some c ∧
        ((table.collectEach [second]).callable? (.ofFunction "f")).isSome = true := by
  intro first method second table
  have hfound : (table.class? "thing").any (fun c => decide (c.site = ⟨"a.php", 1⟩)) = true := by
    decide +kernel
  have herror : (table.collect "b.php" second.root).1.toOption = none := by decide +kernel
  have hfunction : ((table.collectEach [second]).callable? (.ofFunction "f")).isSome = true := by
    decide +kernel
  cases hc : table.class? "thing" with
  | none =>
    rw [hc] at hfound
    cases hfound
  | some c =>
    rw [hc] at hfound
    obtain ⟨-, hkept, -⟩ := (first_declarations_win SymbolTable.builtin).2.2.1 [first] [second]
    exact ⟨herror, c, rfl, of_decide_eq_true hfound, hkept "thing" c hc, hfunction⟩

end SymbolTable

end PhpCheck
