import PhpCheck.Proofs.DeclaredProgram
import PhpCheck.Proofs.PropertyHolders
import PhpCheck.Proofs.Resolution
import PhpCheck.Proofs.TypeText

/-!
# What is assigned can be read back

A type that is assigned to a variable or a property is among the types that are read there afterwards, as
deep as the assignment may be inside of arrays. A class is found again under the name that it is resolved
to because it is filed under that name, from the collection of declarations to the end of a run.
-/

namespace PhpCheck

namespace SymbolTable

/-- Every class is filed under the canonical form of its name. -/
def ClassesFiled (s : SymbolTable) : Prop :=
  ∀ key c, s.classes.get? key = some c → Text.canonical c.name = key

variable {s t : SymbolTable}

/-! ### Classes under their names -/

namespace ClassesFiled

lemma empty : ClassesFiled {} := by
  intro key c hc
  cases hc

lemma of_classes_eq (hs : s.ClassesFiled) (h : t.classes = s.classes) : t.ClassesFiled := by
  intro key c hc
  rw [h] at hc
  exact hs key c hc

lemma addClass (hs : s.ClassesFiled) (d : Class) : (s.addClass d).ClassesFiled := by
  intro key c hc
  rw [SymbolTable.addClass, Table.get?_add, Option.or_eq_some_iff] at hc
  rcases hc with hc | ⟨-, hc⟩
  · exact hs key c hc
  · by_cases hkey : key = Text.canonical d.name
    · rw [if_pos hkey] at hc
      rw [← Option.some.inj hc, hkey]
    · rw [if_neg hkey] at hc
      cases hc

lemma modifyClass (hs : s.ClassesFiled) (name : String) {f : Class → Class}
    (hf : ∀ c, (f c).name = c.name) : (s.modifyClass name f).ClassesFiled := by
  intro key c hc
  rw [SymbolTable.modifyClass, Table.get?_modify] at hc
  by_cases hkey : key = Text.canonical name
  · rw [if_pos hkey] at hc
    obtain ⟨d, hd, rfl⟩ := Option.map_eq_some_iff.mp hc
    rw [hf]
    exact hs key d hd
  · rw [if_neg hkey] at hc
    exact hs key c hc

lemma builtin : SymbolTable.builtin.ClassesFiled := by
  have hfold : ∀ (fs : List Callable) (s : SymbolTable),
      (fs.foldl SymbolTable.addFunction s).classes = s.classes := by
    intro fs
    induction fs with
    | nil => exact fun s => rfl
    | cons f fs ih => exact fun s => (ih _).trans (s.classes_addFunction f)
  exact (empty.of_classes_eq (hfold _ {})).addClass _

lemma enters {file : String} {owner : Option String} {node : Node} (h : Enters file owner node s t)
    (hs : s.ClassesFiled) : t.ClassesFiled := by
  cases h with
  | nothing => exact hs
  | «class» hkind => exact hs.addClass _
  | function hc => exact hs.of_classes_eq (s.classes_addFunction _)
  | method hkind hc => exact hs.modifyClass _ fun _ => rfl
  | property name p => exact hs.modifyClass _ fun _ => rfl
  | classConstant name k => exact hs.modifyClass _ fun _ => rfl
  | constant k => exact hs.of_classes_eq rfl

lemma collectEach (hs : s.ClassesFiled) (units : List SourceUnit) :
    (s.collectEach units).ClassesFiled :=
  collectEach_keeps (fun _ _ _ _ _ _ _ => enters) hs

lemma of_kept (hs : s.ClassesFiled) (h : s.Kept t) : t.ClassesFiled := by
  intro key d hd
  obtain ⟨i, hi⟩ := List.mem_iff_getElem?.mp (Table.get?_eq_some_iff.mp hd)
  by_cases hlt : i < s.classes.entries.length
  · have hentry := List.getElem?_eq_getElem hlt
    obtain ⟨d', hd', hkept⟩ := h.classes.kept i _ _ hentry
    obtain ⟨hkey, rfl⟩ := Prod.mk.inj (Option.some.inj (hi.symm.trans hd'))
    rw [hkept.name, hkey]
    exact hs _ _ (Table.get?_eq_some_iff.mpr (List.mem_of_getElem? hentry))
  · exact (h.classes.added i key d (Nat.le_of_not_lt hlt) hi).elim

lemma canonical_of_knownClass (hs : s.ClassesFiled) {name owner : String}
    (h : s.knownClass name = .ok owner) :
    Text.canonical owner = Text.canonical name ∧ s.hasClass owner = true := by
  unfold knownClass at h
  split at h
  · rename_i c hc
    cases h
    have hcanonical : Text.canonical c.name = Text.canonical name := hs _ c hc
    refine ⟨hcanonical, hasClass_of_class? (c := c) ?_⟩
    rw [class?, hcanonical]
    exact hc
  · cases h

lemma hasClass_of_resolveClass (hs : s.ClassesFiled) {context : Context} {reference : Node}
    {owner : String} (h : s.resolveClass context reference = .ok owner) :
    s.hasClass owner = true := by
  have hknown : ∀ {name}, s.knownClass name = .ok owner → s.hasClass owner = true :=
    fun hname => (hs.canonical_of_knownClass hname).2
  unfold resolveClass at h
  split at h
  case h_2 => cases h
  dsimp only at h
  cases howner : context.owner with
  | none =>
    simp only [howner] at h
    split at h
    case h_4 => exact hknown h
    all_goals cases h
  | some around =>
    simp only [howner] at h
    split at h
    case h_3 =>
      split at h
      · exact hknown h
      · cases h
    all_goals exact hknown h

end ClassesFiled

/-! ### Properties after a change -/

/-- The types that a property of a known class is given can be read from it. -/
lemma exists_property?_widenProperty {owner : String} (h : s.hasClass owner = true) (name : String)
    (site : Site) (types : TypeSet) : ∃ p, (s.widenProperty owner name site types).property? owner name =
      some p ∧ ∀ u ∈ types, u ∈ p.type := by
  obtain ⟨-, p, -, -, hp⟩ := exists_findProperty_obtainProperty h name site
  refine ⟨p.widen types, ?_, fun u hu => TypeSet.mem_merge.mpr (.inr hu)⟩
  rw [property?_widenProperty, hp]
  rfl

lemma mem_propertyTypeOf {owners : List String} {owner name : String} {p : Property} {u : Ty}
    (howner : owner ∈ owners) (hp : s.property? owner name = some p) (hu : u ∈ p.type) :
    u ∈ s.propertyTypeOf owners name := by
  have hfold : ∀ (l : List String) (types : TypeSet), (u ∈ types ∨ owner ∈ l) →
      u ∈ l.foldl (fun types owner =>
        types.merge (((s.property? owner name).map Property.type).getD ∅)) types := by
    intro l
    induction l with
    | nil => exact fun types h => h.resolve_right List.not_mem_nil
    | cons other l ih =>
      intro types h
      apply ih
      rcases h with h | h
      · exact .inl (TypeSet.mem_merge.mpr (.inl h))
      · rcases List.mem_cons.mp h with rfl | h
        · refine .inl (TypeSet.mem_merge.mpr (.inr ?_))
          rw [hp]
          exact hu
        · exact .inr h
  exact hfold owners ∅ (.inr howner)

end SymbolTable

/-! ### Elements -/

/-- What is put into an array of unknown or other elements can be taken out of it. -/
lemma Typing.mem_element {types base : TypeSet} (h : ∀ u ∈ types.asArray, u ∈ base) {u : Ty}
    (hu : u ∈ types) : u ∈ Typing.element base := by
  have hknown : ¬types.isEmpty = true := by
    intro hempty
    have hmember : u ∈ types.members := hu
    rw [List.isEmpty_iff.mp hempty] at hmember
    cases hmember
  have harray : Ty.arrayOf u ∈ types.asArray := by
    rw [TypeSet.asArray, if_neg hknown]
    exact TypeSet.mem_ofList.mpr (List.mem_map_of_mem hu)
  have hmember : u ∈ base.elementTypes :=
    TypeSet.mem_ofList.mpr (List.mem_filterMap.mpr ⟨_, h _ harray, rfl⟩)
  unfold Typing.element
  split
  · exact TypeSet.mem_insert.mpr (.inr hmember)
  · exact hmember

/-- A variable, a property of the objects in a variable, or a static property, where the classes are
known, with any number of index accesses behind it. -/
inductive Node.IsCell (s : SymbolTable) (context : Context) : Node → Prop
  | var (line : Line) (name : String) : IsCell s context ⟨line, .var (.literal name)⟩
  | prop (line objectLine : Line) (object name : String)
    (h : ∃ owners, s.resolveClasses context ⟨objectLine, .var (.literal object)⟩ = .ok owners) :
    IsCell s context ⟨line, .prop ⟨objectLine, .var (.literal object)⟩ (.literal name)⟩
  | staticProp (line : Line) (reference : Node) (name : String)
    (h : ∃ owner, s.resolveClass context reference = .ok owner) :
    IsCell s context ⟨line, .staticProp reference (.literal name)⟩
  | dim (line : Line) {base : Node} (index : Option Node) (h : IsCell s context base) :
    IsCell s context ⟨line, .dim base index⟩

lemma SymbolTable.ClassesFiled.of_resolveClasses {s : SymbolTable} (hs : s.ClassesFiled)
    {context : Context} {object : Node} {owners : List String}
    (h : s.resolveClasses context object = .ok owners) :
    owners ≠ [] ∧ ∀ owner ∈ owners, s.hasClass owner = true ∧
      ∃ name ∈ (typeOf s context object).classNames, Text.canonical owner = Text.canonical name := by
  unfold resolveClasses at h
  cases hknown : (typeOf s context object).classNames.mapM s.knownClass with
  | error e => simp [hknown, bind, Except.bind] at h
  | ok found =>
    by_cases hempty : found.isEmpty = true
    · simp [hknown, hempty, bind, Except.bind] at h
    · have howners : found.eraseDups = owners := by
        simpa [hknown, hempty, bind, Except.bind] using h
      subst howners
      refine ⟨?_, fun owner howner => ?_⟩
      · have hne : found ≠ [] := fun hnil => hempty (List.isEmpty_iff.mpr hnil)
        obtain ⟨owner, howner⟩ := List.exists_mem_of_ne_nil found hne
        exact List.ne_nil_of_mem (List.mem_eraseDups.mpr howner)
      · obtain ⟨name, hname, hfound⟩ := exists_of_mem_mapM hknown (List.mem_eraseDups.mp howner)
        obtain ⟨hcanonical, hclass⟩ := hs.canonical_of_knownClass hfound
        exact ⟨hclass, name, hname, hcanonical⟩

namespace Analysis

open SymbolTable

/-! ### One place -/

lemma assign_of_placesOf {target : Node} {type type' : TypeSet} {place : Place}
    (h : placesOf target type = .ok [(place, type')]) (context : Context) :
    assign context target type = assignPlace context place type' := by
  rw [assign, h]
  exact bind_pure (assignPlace context place type')

lemma assign_dim (context : Context) (line : Line) (base : Node) (index : Option Node)
    (type : TypeSet) : assign context ⟨line, .dim base index⟩ type = assign context base type.asArray := by
  rw [assign, assign, placesOf]

/-- The property is widened in one class after another, and the last of them has the types then. -/
lemma run_forM_widenProperty {owners : List String} (hne : owners ≠ []) (name : String) (site : Site)
    (types : TypeSet) (s : Session) (hknown : ∀ owner ∈ owners, s.symbols.hasClass owner = true) :
    ∃ t, (owners.forM fun owner => edit (.widenProperty owner name site types)).run s = .ok ((), t) ∧
      ∃ owner ∈ owners, ∃ p, t.symbols.property? owner name = some p ∧ ∀ u ∈ types, u ∈ p.type := by
  induction owners generalizing s with
  | nil => exact absurd rfl hne
  | cons owner rest ih =>
    rw [List.forall_mem_cons] at hknown
    let next := s.apply (.edit (.widenProperty owner name site types))
    have hrun : ∀ m : Unit → Analysis Unit,
        (edit (.widenProperty owner name site types) >>= m).run s = (m ()).run next := fun m => rfl
    by_cases hrest : rest = []
    · subst hrest
      refine ⟨next, rfl, owner, List.mem_cons_self .., ?_⟩
      exact exists_property?_widenProperty hknown.1 name site types
    · have hheads := s.symbols.sameHeads_widenProperty owner name site types
      have hstill : ∀ other ∈ rest, next.symbols.hasClass other = true := by
        intro other hother
        exact (hheads.hasClass other).trans (hknown.2 other hother)
      obtain ⟨t, ht, other, hother, hp⟩ := ih hrest next hstill
      exact ⟨t, (hrun _).trans ht, other, List.mem_cons_of_mem _ hother, hp⟩

/-- An assignment of the types to the target returns, and then they are all read from the target. -/
def ReadsBack (s : Session) (context : Context) (target : Node) (types : TypeSet) : Prop :=
  ∃ after t, (assign context target types).run s = .ok (after, t) ∧
    ∀ u ∈ types, u ∈ typeOf t.symbols after target

variable {s : Session} {context : Context}

lemma readsBack_var (s : Session) (context : Context) (line : Line) (name : String) (types : TypeSet) :
    ReadsBack s context ⟨line, .var (.literal name)⟩ types := by
  refine ⟨context.assign name types, s, ?_, fun u hu => ?_⟩
  · rw [assign_of_placesOf (by rw [placesOf])]
    rfl
  · obtain ⟨v, hv, hmem⟩ := Context.mem_typeOf_iff.mp (context.mem_typeOf_assign name hu)
    rw [typeOf, infer, Typing.ofVariable, hv]
    exact hmem

/-- The type of the variable with the objects is not touched, so that the property is looked up in the
classes that it was widened in. -/
lemma readsBack_prop (hs : s.symbols.ClassesFiled) {objectLine : Line} {object : String}
    {owners : List String}
    (h : s.symbols.resolveClasses context ⟨objectLine, .var (.literal object)⟩ = .ok owners)
    (line : Line) (name : String) (types : TypeSet) :
    ReadsBack s context ⟨line, .prop ⟨objectLine, .var (.literal object)⟩ (.literal name)⟩ types := by
  obtain ⟨hne, hnamed⟩ := hs.of_resolveClasses h
  obtain ⟨t, hrun, owner, howner, p, hp, hmem⟩ :=
    run_forM_widenProperty hne name context.site types s fun owner howner => (hnamed owner howner).1
  refine ⟨context, t, ?_, fun u hu => ?_⟩
  · rw [assign_of_placesOf (by rw [placesOf])]
    simp only [assignPlace, run_symbols_bind, h]
    exact run_bind_of_run hrun
  · obtain ⟨-, spelled, hspelled, hcanonical⟩ := hnamed owner howner
    rw [property?_congr hcanonical] at hp
    rw [typeOf, infer]
    exact mem_propertyTypeOf hspelled hp (hmem u hu)

lemma readsBack_staticProp (hs : s.symbols.ClassesFiled) {reference : Node} {owner : String}
    (h : s.symbols.resolveClass context reference = .ok owner) (line : Line) (name : String)
    (types : TypeSet) : ReadsBack s context ⟨line, .staticProp reference (.literal name)⟩ types := by
  let t := s.apply (.edit (.widenProperty owner name context.site types))
  have hheads : s.symbols.SameHeads t.symbols := sameHeads_widenProperty ..
  obtain ⟨p, hp, hmem⟩ :=
    exists_property?_widenProperty (hs.hasClass_of_resolveClass h) name context.site types
  refine ⟨context, t, ?_, fun u hu => ?_⟩
  · rw [assign_of_placesOf (by rw [placesOf])]
    simp only [assignPlace, run_symbols_bind, h]
    rfl
  · rw [typeOf, infer, hheads.resolveClass, h]
    exact mem_propertyTypeOf (List.mem_singleton_self _) hp (hmem u hu)

lemma ReadsBack.dim {base : Node} {types : TypeSet} (h : ReadsBack s context base types.asArray)
    (line : Line) (index : Option Node) : ReadsBack s context ⟨line, .dim base index⟩ types := by
  obtain ⟨after, t, hrun, hmem⟩ := h
  refine ⟨after, t, ?_, fun u hu => ?_⟩
  · rw [assign_dim]
    exact hrun
  · rw [typeOf, infer]
    exact Typing.mem_element hmem hu

/-- In every state that actions lead to from collected declarations, classes are filed under their names.
Where they are, all types that are assigned to a cell are read from it afterwards. -/
theorem assigned_types_read_back :
    (∀ base : SymbolTable, base = {} ∨ base = SymbolTable.builtin → ∀ (units : List SourceUnit)
      (s : Session), s.symbols = base.collectEach units → ∀ {α : Type} (m : Analysis α),
        ∀ t ∈ m.moments s, t.symbols.ClassesFiled) ∧
    ∀ s : Session, s.symbols.ClassesFiled → ∀ (context : Context) (target : Node),
      target.IsCell s.symbols context → ∀ types : TypeSet, ReadsBack s context target types := by
  constructor
  · intro base hbase units s hs α m t ht
    have hfiled : base.ClassesFiled := by
      rcases hbase with rfl | rfl
      · exact .empty
      · exact .builtin
    have hstart : s.symbols.ClassesFiled := hs ▸ hfiled.collectEach units
    exact hstart.of_kept (kept_of_mem_moments ht)
  · intro s hs context target htarget
    -- each index access asks for the types to be read back as arrays from what stands in front of it
    induction htarget with
    | var line name => exact readsBack_var s context line name
    | prop line objectLine object name h =>
      obtain ⟨owners, howners⟩ := h
      exact readsBack_prop hs howners line name
    | staticProp line reference name h =>
      obtain ⟨owner, howner⟩ := h
      exact readsBack_staticProp hs howner line name
    | dim line index _ ih => exact fun types => (ih types.asArray).dim line index

/-- Objects of a class that inherits the property and of one that does not have it, and a static property
that a class gets by the assignment. -/
theorem assigned_types_read_back_nested :
    let declare (line : Line) (name : String) (parent : Option String) (body : List Node) : Node :=
      ⟨line, .classDecl ⟨name, parent, false, ⟨line, .statementList body⟩⟩⟩
    let units : List SourceUnit := [⟨"a.php", ⟨1, .statementList [
      declare 1 "Base" none [⟨1, .propertyDecl ⟨"p", none, false, none⟩⟩],
      declare 2 "Derived" (some "\\base") [], declare 3 "Other" none []]⟩, none⟩]
    let s : Session := { symbols := SymbolTable.builtin.collectEach units }
    let around : Context := { file := "a.php", line := 5, owner := some "derived" }
    let context := around.assign "o" (.ofList [.ofClass "DERIVED", .ofClass "\\other"])
    let object : Node := ⟨5, .prop ⟨5, .var (.literal "o")⟩ (.literal "p")⟩
    let nested : Node := ⟨5, .dim ⟨5, .dim object none⟩ (some ⟨5, .literal (.int 0)⟩)⟩
    let parent : Node := ⟨5, .dim ⟨5, .staticProp ⟨5, .identifier "PARENT"⟩ (.literal "q")⟩ none⟩
    let types : TypeSet := .ofList [.int, .string]
    s.symbols.ClassesFiled ∧ ∀ target ∈ [nested, parent], target.IsCell s.symbols context ∧
      ∃ after t, (assign context target types).run s = .ok (after, t) ∧
        .int ∈ typeOf t.symbols after target ∧ .string ∈ typeOf t.symbols after target := by
  intro declare units s around context object nested parent types
  have hs : s.symbols.ClassesFiled :=
    assigned_types_read_back.1 _ (.inr rfl) units s rfl (pure ()) s (start_mem_moments _ s)
  have hnested : nested.IsCell s.symbols context := by
    refine .dim 5 _ (.dim 5 _ (.prop 5 5 "o" "p" ⟨["Derived", "Other"], ?_⟩))
    decide +kernel
  have hparent : parent.IsCell s.symbols context := by
    refine .dim 5 _ (.staticProp 5 _ "q" ⟨"Base", ?_⟩)
    decide +kernel
  refine ⟨hs, fun target htarget => ?_⟩
  have hcell : target.IsCell s.symbols context := by
    rcases List.mem_cons.mp htarget with rfl | htarget
    · exact hnested
    · rwa [List.mem_singleton.mp htarget]
  obtain ⟨after, t, hrun, hmem⟩ := assigned_types_read_back.2 s hs context target hcell types
  exact ⟨hcell, after, t, hrun, hmem _ (by decide +kernel), hmem _ (by decide +kernel)⟩

end Analysis

end PhpCheck
