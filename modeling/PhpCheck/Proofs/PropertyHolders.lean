import PhpCheck.Proofs.Inheritance
import PhpCheck.Proofs.TypingReads

/-!
# Which class a property belongs to

A property is looked for from a class upward along declared parents, and a known class that comes to none
gets one itself. Looking it up and filing it go to the same class, however the names are spelled and
whatever cycles the parents run into, so that the property that is handed out is the one that is found
afterwards.
-/

namespace PhpCheck

namespace Table

variable {α : Type} {t u : Table α}

lemma ext_entries (h : t.entries = u.entries) : t = u := by
  rcases t with ⟨entries, nodup⟩
  cases h
  rfl

/-- A change that keeps the value under its key changes nothing. -/
lemma modify_eq_self {key : String} {f : α → α} (h : ∀ v, t.get? key = some v → f v = v) :
    t.modify key f = t := by
  apply ext_entries
  refine (List.map_congr_left fun entry hentry => ?_).trans (List.map_id _)
  by_cases hkey : entry.1 = key
  · have hvalue : f entry.2 = entry.2 := h _ (hkey ▸ get?_eq_some_iff.mpr hentry)
    simp [hvalue]
  · simp [hkey]

end Table

namespace SymbolTable

variable {s t : SymbolTable} {owner holder name : String}

/-- The property that the class of that name has itself. -/
def ownProperty? (s : SymbolTable) (owner name : String) : Option Property :=
  s.class? owner >>= (·.property? name)

/-- From the class `owner` upward along declared parents, `holder` is the nearest that has the property. -/
inductive NearestHolder (s : SymbolTable) (name : String) : String → String → Prop
  | own {c : String} (h : (s.ownProperty? c name).isSome = true) : NearestHolder s name c c
  | inherited {c parent holder : String} (h : s.ownProperty? c name = none)
    (hparent : s.parent? c = some parent) (hholder : NearestHolder s name parent holder) :
    NearestHolder s name c holder

/-- The property that `ensureProperty` makes sure of, with the table after it: what then stands at the class
that has been found to have it, or else at the class itself. -/
def obtainProperty (s : SymbolTable) (owner name : String) (site : Site) :
    Option Property × SymbolTable :=
  let t := s.ensureProperty owner name site
  (t.ownProperty? ((s.findProperty owner name).getD owner) name, t)

/-- The tables are the same but for one property more, which the class of that name has after its others. -/
structure GainsProperty (s : SymbolTable) (owner : String) (p : Property) (t : SymbolTable) : Prop where
  functions : t.functions = s.functions
  constants : t.constants = s.constants
  keys : t.classes.keys = s.classes.keys
  others : ∀ key, key ≠ Text.canonical owner → t.classes.get? key = s.classes.get? key
  gained : ∃ c properties, s.class? owner = some c ∧ t.class? owner = some { c with properties } ∧
    c.property? p.name = none ∧ properties.entries = c.properties.entries ++ [(p.name, p)]

/-! ### One class -/

lemma ownProperty?_congr {a b : String} (h : Text.canonical a = Text.canonical b) (name : String) :
    s.ownProperty? a name = s.ownProperty? b name := by
  rw [ownProperty?, ownProperty?, class?, class?, h]

lemma ownProperty?_eq_none (h : s.hasClass owner = false) (name : String) :
    s.ownProperty? owner name = none := by
  rw [ownProperty?, class?_eq_none h]
  rfl

lemma class?_modifyClass (s : SymbolTable) (name other : String) (f : Class → Class) :
    (s.modifyClass name f).class? other =
      if Text.canonical other = Text.canonical name then (s.class? other).map f
      else s.class? other :=
  Table.get?_modify ..

lemma get?_modifyClass_of_ne {key : String} (h : key ≠ Text.canonical name) (f : Class → Class) :
    (s.modifyClass name f).classes.get? key = s.classes.get? key :=
  (Table.get?_modify ..).trans (if_neg h)

lemma keys_modifyClass (s : SymbolTable) (name : String) (f : Class → Class) :
    (s.modifyClass name f).classes.keys = s.classes.keys :=
  Table.keys_modify ..

lemma modifyClass_eq_self {f : Class → Class} (h : ∀ c, s.class? name = some c → f c = c) :
    s.modifyClass name f = s := by
  rw [modifyClass, Table.modify_eq_self h]

lemma sameHeads_modifyClass (s : SymbolTable) (name : String) {f : Class → Class}
    (hf : ∀ c, (f c).head = c.head) : s.SameHeads (s.modifyClass name f) where
  size := List.length_map _
  heads other := by
    rw [class?_modifyClass]
    split
    · rw [Option.map_map]
      exact congrArg (Option.map · _) (funext hf)
    · rfl

/-! ### The nearest class with a property -/

lemma NearestHolder.isSome (h : s.NearestHolder name owner holder) :
    (s.ownProperty? holder name).isSome = true := by
  induction h with
  | own h => exact h
  | inherited _ _ _ ih => exact ih

lemma NearestHolder.reached (h : s.NearestHolder name owner holder) :
    holder = owner ∨ s.Inherits owner holder := by
  induction h with
  | own => exact .inl rfl
  | inherited _ hparent _ ih =>
    rcases ih with rfl | hinherits
    · exact .inr (.single hparent)
    · exact .inr (.head hparent hinherits)

lemma NearestHolder.unique {other : String} (h : s.NearestHolder name owner holder)
    (h' : s.NearestHolder name owner other) : holder = other := by
  induction h with
  | own h =>
    cases h' with
    | own => rfl
    | inherited hnone => simp [hnone] at h
  | inherited hnone hparent _ ih =>
    cases h' with
    | own h => simp [hnone] at h
    | inherited _ hparent' hholder =>
      rw [hparent] at hparent'
      cases hparent'
      exact ih hholder

/-- The search along a chain of parents comes to the nearest class with the property. -/
lemma nearestHolder_of_find? {chain : List String}
    (hchain : (owner :: chain).IsChain fun a b => s.parent? a = some b)
    (h : (owner :: chain).find? (fun c => (s.ownProperty? c name).isSome) = some holder) :
    s.NearestHolder name owner holder := by
  induction chain generalizing owner with
  | nil =>
    obtain rfl := List.mem_singleton.mp (List.mem_of_find?_eq_some h)
    exact .own (List.find?_some (p := fun c => (s.ownProperty? c name).isSome) h)
  | cons parent chain ih =>
    obtain ⟨hparent, hrest⟩ := List.isChain_cons_cons.mp hchain
    cases hown : s.ownProperty? owner name with
    | none =>
      rw [List.find?_cons_of_neg (by simp [hown])] at h
      exact .inherited hown hparent (ih hrest h)
    | some p =>
      rw [List.find?_cons_of_pos (by simp [hown])] at h
      cases h
      exact .own (by rw [hown]; rfl)

/-- Only known classes have properties, so that the whole chain may be searched. -/
lemma findProperty_eq_find? (s : SymbolTable) (owner name : String) : s.findProperty owner name =
    (owner :: s.ancestors owner).find? fun c => (s.ownProperty? c name).isSome := by
  have hknown : ∀ c, (s.ownProperty? c name).isSome = true → s.hasClass c = true := by
    intro c hc
    by_contra hunknown
    rw [ownProperty?_eq_none (Bool.eq_false_iff.mpr hunknown)] at hc
    cases hc
  rw [findProperty, lineage, List.find?_filter]
  congr 1
  funext c
  rw [Bool.eq_iff_iff, decide_eq_true_iff]
  exact and_iff_right_of_imp (hknown c)

/-- Declared parents lead to a class with the property exactly if the search comes to one. -/
lemma findProperty_eq_none_iff : s.findProperty owner name = none ↔
    ∀ c, c = owner ∨ s.Inherits owner c → s.ownProperty? c name = none := by
  rw [findProperty_eq_find?, List.find?_eq_none]
  constructor
  · intro hnone c hc
    -- The chain is cut only where it would come back to a class, which has been searched by then.
    have hmem : Text.canonical c ∈ (owner :: s.ancestors owner).map Text.canonical := by
      rcases hc with rfl | hc
      · exact List.mem_cons_self ..
      · exact canonical_mem_of_inherits hc
    obtain ⟨a, ha, hsame⟩ := List.mem_map.mp hmem
    have hown : s.ownProperty? a name = none := by simpa using hnone a ha
    rwa [ownProperty?_congr hsame] at hown
  · intro hnone c hc
    have hown : s.ownProperty? c name = none := by
      rcases List.mem_cons.mp hc with rfl | hc
      · exact hnone _ (.inl rfl)
      · exact hnone c (.inr (inherits_of_mem_ancestors hc))
    simp [hown]

lemma findProperty_eq_some_iff :
    s.findProperty owner name = some holder ↔ s.NearestHolder name owner holder := by
  have hsound : ∀ {c}, s.findProperty owner name = some c → s.NearestHolder name owner c := by
    intro c hc
    rw [findProperty_eq_find?] at hc
    exact nearestHolder_of_find? (isChain_ancestors owner) hc
  -- Where there is a nearest class the search comes to one, and there is no other.
  refine ⟨hsound, fun h => ?_⟩
  cases hfound : s.findProperty owner name with
  | none =>
    have hsome := h.isSome
    rw [findProperty_eq_none_iff.mp hfound holder h.reached] at hsome
    cases hsome
  | some c => rw [(hsound hfound).unique h]

lemma canonical_findProperty_getD {other : String} (h : Text.canonical other = Text.canonical owner)
    (name : String) : Text.canonical ((s.findProperty other name).getD other) =
      Text.canonical ((s.findProperty owner name).getD owner) := by
  rw [findProperty_eq_find?, findProperty_eq_find?, List.find?_cons, List.find?_cons,
    ownProperty?_congr h, ancestors_congr h]
  -- Only the class itself is named as it is spelled; the parents are named as they are declared.
  cases (s.ownProperty? owner name).isSome with
  | true => exact h
  | false =>
    cases (s.ancestors owner).find? fun c => (s.ownProperty? c name).isSome with
    | none => exact h
    | some c => rfl

/-! ### Properties that are looked up and changed -/

lemma property?_of_findProperty (h : s.findProperty owner name = some holder) :
    s.property? owner name = s.ownProperty? holder name := by
  rw [property?, h]
  rfl

lemma property?_eq (owner name : String) : s.property? owner name =
    (owner :: s.ancestors owner).findSome? fun c => s.ownProperty? c name := by
  have hfind : ∀ l : List String,
      (l.find? fun c => (s.ownProperty? c name).isSome) >>= (fun c => s.ownProperty? c name) =
        l.findSome? fun c => s.ownProperty? c name := by
    intro l
    induction l with
    | nil => rfl
    | cons c l ih =>
      rw [List.find?_cons, List.findSome?_cons]
      cases hc : s.ownProperty? c name with
      | none => exact ih
      | some p => exact hc
  rw [← hfind, ← findProperty_eq_find?]
  exact bind_assoc ..

lemma property?_congr {a b : String} (h : Text.canonical a = Text.canonical b) (name : String) :
    s.property? a name = s.property? b name := by
  rw [property?_eq, property?_eq, ancestors_congr h, List.findSome?_cons, List.findSome?_cons,
    ownProperty?_congr h]

lemma sameHeads_modifyProperty (s : SymbolTable) (owner name : String) (f : Property → Property) :
    s.SameHeads (s.modifyProperty owner name f) := by
  unfold modifyProperty
  split
  · exact s.sameHeads_modifyClass _ fun _ => rfl
  · exact .refl s

lemma sameHeads_widenProperty (s : SymbolTable) (owner name : String) (site : Site) (types : TypeSet) :
    s.SameHeads (s.widenProperty owner name site types) := by
  have hensure : s.SameHeads (s.ensureProperty owner name site) :=
    s.sameHeads_modifyClass _ fun _ => rfl
  exact hensure.trans (sameHeads_modifyProperty _ owner name _)

/-- What is looked up of a class is what has been changed. -/
lemma property?_modifyProperty (s : SymbolTable) (owner name : String) (f : Property → Property) :
    (s.modifyProperty owner name f).property? owner name = (s.property? owner name).map f := by
  have hlineage := (s.sameHeads_modifyProperty owner name f).lineage owner
  cases hholder : s.findProperty owner name with
  | none =>
    have hsame : s.modifyProperty owner name f = s := by rw [modifyProperty, hholder]
    have hnone : s.property? owner name = none := by
      rw [property?, hholder]
      rfl
    rw [hsame, hnone]
    rfl
  | some holder =>
    have hown : ∀ c, (s.modifyProperty owner name f).ownProperty? c name =
        if Text.canonical c = Text.canonical holder then (s.ownProperty? c name).map f
        else s.ownProperty? c name := by
      intro c
      rw [modifyProperty, hholder]
      simp only [ownProperty?, class?_modifyClass]
      split
      · cases s.class? c with
        | none => rfl
        | some d => exact (Table.get?_modify ..).trans (if_pos rfl)
      · rfl
    have hfound : (s.modifyProperty owner name f).findProperty owner name = some holder := by
      rw [← hholder, findProperty, findProperty, hlineage]
      congr 1
      funext c
      have hc := congrArg Option.isSome (hown c)
      refine hc.trans ?_
      split
      · exact Option.isSome_map
      · rfl
    rw [property?_of_findProperty hfound, property?_of_findProperty hholder, hown, if_pos rfl]

/-! ### Properties that are made sure of -/

lemma findProperty_of_unknown (h : s.hasClass owner = false) (name : String) :
    s.findProperty owner name = none := by
  rw [findProperty_eq_none_iff]
  rintro c (rfl | hc)
  · exact ownProperty?_eq_none h name
  · obtain ⟨parent, hparent, -⟩ := Relation.TransGen.head'_iff.mp hc
    rw [parent?_eq_none h] at hparent
    cases hparent

lemma obtainProperty_of_unknown (h : s.hasClass owner = false) (name : String) (site : Site) :
    s.obtainProperty owner name site = (none, s) := by
  have hnone := findProperty_of_unknown h name
  have hsame : s.ensureProperty owner name site = s := by
    rw [ensureProperty, hnone]
    refine modifyClass_eq_self fun c hc => ?_
    rw [Option.getD_none, class?_eq_none h] at hc
    cases hc
  rw [obtainProperty, hsame, hnone]
  exact Prod.ext (ownProperty?_eq_none h name) rfl

lemma obtainProperty_of_findProperty (h : s.findProperty owner name = some holder) (site : Site) :
    s.obtainProperty owner name site = (s.ownProperty? holder name, s) := by
  have hsame : s.ensureProperty owner name site = s := by
    rw [ensureProperty, h]
    refine modifyClass_eq_self fun c hc => ?_
    have hown := (findProperty_eq_some_iff.mp h).isSome
    rw [Option.getD_some] at hc
    rw [ownProperty?, hc] at hown
    have htaken : c.properties.contains name = true := hown
    rw [Class.addProperty, Table.add_of_contains htaken]
  rw [obtainProperty, hsame, h]
  rfl

lemma gainsProperty_ensureProperty (hknown : s.hasClass owner = true)
    (h : s.findProperty owner name = none) (site : Site) :
    s.GainsProperty owner { name, type := ∅, site } (s.ensureProperty owner name site) := by
  obtain ⟨c, hc⟩ := Option.isSome_iff_exists.mp hknown
  have hclass : s.class? owner = some c := hc
  have hfree : c.property? name = none := by
    have hown := findProperty_eq_none_iff.mp h owner (.inl rfl)
    rwa [ownProperty?, hclass] at hown
  have htaken : ¬c.properties.contains name = true := by
    rw [Table.contains, ← Class.property?, hfree]
    exact Bool.false_ne_true
  have hensure : s.ensureProperty owner name site =
      s.modifyClass owner fun c => c.addProperty { name, type := ∅, site } := by
    rw [ensureProperty, h, Option.getD_none]
  rw [hensure]
  refine ⟨rfl, rfl, s.keys_modifyClass owner _, fun key hkey => get?_modifyClass_of_ne hkey _,
    c, c.properties.add name { name, type := ∅, site }, hclass, ?_, hfree,
    Table.entries_add_of_not_contains htaken _⟩
  rw [class?_modifyClass, if_pos rfl, hclass]
  rfl

lemma GainsProperty.ownProperty? {p : Property} (h : s.GainsProperty owner p t) :
    t.ownProperty? owner p.name = some p := by
  obtain ⟨c, properties, -, hclass, -, hentries⟩ := h.gained
  rw [SymbolTable.ownProperty?, hclass]
  apply Table.get?_eq_some_iff.mpr
  rw [hentries]
  exact List.mem_append_right _ (List.mem_singleton_self _)

/-- A known class has the property already, or inherits it, or gets it. -/
lemma obtainProperty_cases (hknown : s.hasClass owner = true) (name : String) (site : Site) :
    let obtained := s.obtainProperty owner name site
    let fresh : Property := { name, type := ∅, site }
    (∃ holder, s.NearestHolder name owner holder ∧ obtained = (s.ownProperty? holder name, s) ∧
      obtained.2.findProperty owner name = some holder) ∨
    (∀ c, c = owner ∨ s.Inherits owner c → s.ownProperty? c name = none) ∧ obtained.1 = some fresh ∧
      s.GainsProperty owner fresh obtained.2 ∧ obtained.2.findProperty owner name = some owner := by
  intro obtained fresh
  cases h : s.findProperty owner name with
  | some holder =>
    have hobtained : obtained = (s.ownProperty? holder name, s) := obtainProperty_of_findProperty h site
    refine .inl ⟨holder, findProperty_eq_some_iff.mp h, hobtained, ?_⟩
    rw [hobtained, h]
  | none =>
    have hgains : s.GainsProperty owner fresh obtained.2 := gainsProperty_ensureProperty hknown h site
    have hown : obtained.2.ownProperty? owner name = some fresh := hgains.ownProperty?
    refine .inr ⟨findProperty_eq_none_iff.mp h, ?_, hgains, findProperty_eq_some_iff.mpr (.own ?_)⟩
    · rw [← hown]
      change obtained.2.ownProperty? ((s.findProperty owner name).getD owner) name = _
      rw [h, Option.getD_none]
    · rw [hown]
      rfl

/-- The property that is handed out for a known class is the one that is found afterwards. -/
lemma exists_findProperty_obtainProperty (hknown : s.hasClass owner = true) (name : String) (site : Site) :
    ∃ holder p, (s.obtainProperty owner name site).2.findProperty owner name = some holder ∧
      (s.obtainProperty owner name site).2.ownProperty? holder name = some p ∧
      (s.obtainProperty owner name site).1 = some p := by
  rcases obtainProperty_cases hknown name site with
    ⟨holder, hnearest, hobtained, hfound⟩ | ⟨-, hfresh, hgains, hfound⟩
  · obtain ⟨p, hp⟩ := Option.isSome_iff_exists.mp hnearest.isSome
    refine ⟨holder, p, hfound, ?_, ?_⟩
    · rw [hobtained, hp]
    · rw [hobtained, hp]
  · exact ⟨owner, _, hfound, hgains.ownProperty?, hfresh⟩

lemma obtainProperty_again (s : SymbolTable) (owner name : String) (site again : Site) :
    (s.obtainProperty owner name site).2.obtainProperty owner name again =
      s.obtainProperty owner name site := by
  by_cases hknown : s.hasClass owner = true
  · obtain ⟨holder, p, hfound, hown, hp⟩ := exists_findProperty_obtainProperty hknown name site
    rw [obtainProperty_of_findProperty hfound, hown]
    exact Prod.ext hp.symm rfl
  · have hunknown := Bool.eq_false_iff.mpr hknown
    rw [obtainProperty_of_unknown hunknown]
    exact obtainProperty_of_unknown hunknown name again

lemma property?_obtainProperty (s : SymbolTable) (owner name : String) (site : Site) :
    (s.obtainProperty owner name site).2.property? owner name = (s.obtainProperty owner name site).1 := by
  by_cases hknown : s.hasClass owner = true
  · obtain ⟨holder, p, hfound, hown, hp⟩ := exists_findProperty_obtainProperty hknown name site
    rw [property?_of_findProperty hfound, hown, hp]
  · have hunknown := Bool.eq_false_iff.mpr hknown
    rw [obtainProperty_of_unknown hunknown, property?, findProperty_of_unknown hunknown]
    rfl

/-- The types of a widening are added to the property that is handed out. -/
lemma property?_widenProperty (s : SymbolTable) (owner name : String) (site : Site) (types : TypeSet) :
    (s.widenProperty owner name site types).property? owner name =
      (s.obtainProperty owner name site).1.map (·.widen types) := by
  rw [← property?_obtainProperty, widenProperty, property?_modifyProperty]
  rfl

lemma obtainProperty_congr {other : String} (h : Text.canonical other = Text.canonical owner)
    (name : String) (site : Site) :
    s.obtainProperty other name site = s.obtainProperty owner name site := by
  have hholder := canonical_findProperty_getD (s := s) h name
  have hensure : s.ensureProperty other name site = s.ensureProperty owner name site := by
    rw [ensureProperty, ensureProperty, modifyClass, modifyClass, hholder]
  rw [obtainProperty, obtainProperty, hensure, ownProperty?_congr hholder]

/-- A property is handed out for a known class and for no other. It is the one of the nearest class that has
it, from the class itself upward, and nothing changes; or else no class that declared parents lead to has
one, and the class gets a property of unknown type while all else stays as it is. Either way the property
is found afterwards at the class that it belongs to, and asking again, for that class in any spelling, gives
the same property and changes nothing. Types that are assigned are added to this property. -/
theorem properties_obtained_from_lineage (s : SymbolTable) (owner name : String) (site : Site) :
    let obtained := s.obtainProperty owner name site
    let fresh : Property := { name, type := ∅, site }
    (obtained.1 = none ↔ s.hasClass owner = false) ∧
    (s.hasClass owner = false → obtained.2 = s) ∧
    (s.hasClass owner = true →
      (∃ holder, s.NearestHolder name owner holder ∧ obtained = (s.ownProperty? holder name, s) ∧
        obtained.2.findProperty owner name = some holder) ∨
      (∀ c, c = owner ∨ s.Inherits owner c → s.ownProperty? c name = none) ∧ obtained.1 = some fresh ∧
        s.GainsProperty owner fresh obtained.2 ∧ obtained.2.findProperty owner name = some owner) ∧
    (∀ spelling again, Text.canonical spelling = Text.canonical owner →
      obtained.2.obtainProperty spelling name again = obtained) ∧
    ∀ types, (s.widenProperty owner name site types).property? owner name =
      obtained.1.map (·.widen types) := by
  intro obtained fresh
  refine ⟨⟨fun hnone => ?_, fun hunknown => ?_⟩, fun hunknown => ?_,
    fun hknown => obtainProperty_cases hknown name site, fun spelling again hspelling => ?_,
    s.property?_widenProperty owner name site⟩
  · by_contra hknown
    obtain ⟨-, p, -, -, hp⟩ :=
      exists_findProperty_obtainProperty (Bool.not_eq_false _ ▸ hknown) name site
    cases hnone.symm.trans hp
  · exact congrArg Prod.fst (obtainProperty_of_unknown hunknown name site)
  · exact congrArg Prod.snd (obtainProperty_of_unknown hunknown name site)
  · rw [obtainProperty_congr hspelling]
    exact s.obtainProperty_again owner name site again

/-- The parents of the class run into a cycle on which one class has the property, under names in other
spellings; another property is on none of the classes. -/
theorem properties_obtained_from_lineage_cycle :
    let p : Property := { name := "p", type := .of .int, site := ⟨"a.php", 3⟩ }
    let s := (((SymbolTable.addClass {} (.declared "A" (some "\\B") .internal)).addClass
      (.declared "B" (some "c") .internal)).addClass
      ((Class.declared "C" (some "b") .internal).addProperty p))
    s.hasClass "\\a" = true ∧ s.NearestHolder "p" "\\a" "c" ∧
      s.obtainProperty "\\a" "p" .internal = (some p, s) ∧
      s.GainsProperty "a" { name := "q", type := ∅, site := .internal }
        (s.obtainProperty "a" "q" .internal).2 ∧
      (s.obtainProperty "a" "q" .internal).2.obtainProperty "\\A" "q" p.site =
        s.obtainProperty "a" "q" .internal ∧
      s.hasClass "Gone" = false ∧ (s.obtainProperty "Gone" "p" .internal).2 = s := by
  intro p s
  have hknown : s.hasClass "\\a" = true := by decide +kernel
  have hunknown : s.hasClass "Gone" = false := by decide +kernel
  have hp : s.findProperty "\\a" "p" = some "c" ∧ s.ownProperty? "c" "p" = some p := by decide +kernel
  have hq : s.findProperty "a" "q" = none := by decide +kernel
  have hfirst : s.parent? "\\a" = some "B" := by decide +kernel
  have hsecond : s.parent? "B" = some "c" := by decide +kernel
  obtain ⟨-, -, hinherited, -, -⟩ := properties_obtained_from_lineage s "\\a" "p" .internal
  obtain ⟨-, -, hgained, hagain, -⟩ := properties_obtained_from_lineage s "a" "q" .internal
  obtain ⟨-, hgone, -⟩ := properties_obtained_from_lineage s "Gone" "p" .internal
  have hfound : s.NearestHolder "p" "\\a" "c" ∧ s.obtainProperty "\\a" "p" .internal = (some p, s) := by
    rcases hinherited hknown with ⟨holder, hnearest, hobtained, hholder⟩ | ⟨hnone, -⟩
    · rw [hobtained, hp.1] at hholder
      cases hholder
      exact ⟨hnearest, hobtained.trans (by rw [hp.2])⟩
    · have hown := hnone "c" (.inr (.tail (.single hfirst) hsecond))
      rw [hp.2] at hown
      cases hown
  have hgains : s.GainsProperty "a" { name := "q", type := ∅, site := .internal }
      (s.obtainProperty "a" "q" .internal).2 := by
    rcases hgained (by decide +kernel) with ⟨holder, -, hobtained, hholder⟩ | ⟨-, -, hgains, -⟩
    · rw [hobtained, hq] at hholder
      cases hholder
    · exact hgains
  exact ⟨hknown, hfound.1, hfound.2, hgains, hagain "\\A" p.site (by decide +kernel), hunknown,
    hgone hunknown⟩

end SymbolTable

end PhpCheck
