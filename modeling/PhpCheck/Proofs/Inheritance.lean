import PhpCheck.Proofs.Names
import PhpCheck.SymbolTable.Lineage
import Mathlib.Data.List.Chain
import Mathlib.Data.List.Nodup
import Mathlib.Data.List.Perm.Subperm
import Mathlib.Logic.Relation

/-!
# Inheritance

The parent chain of a class is cut where it would come back to itself. All classes on it but the last
are known and different, so that the table bounds it; hence it holds every class that declared parents
lead to, whatever cycles they run into. The chain compares canonical names with the class that it starts
from, and names up to case with the others; on declared parents the two come to the same.
-/

namespace PhpCheck.SymbolTable

/-- Every class of the table has the name and the parent of a declaration. -/
def ClassesDeclared (s : SymbolTable) : Prop :=
  ∀ key c, s.classes.get? key = some c → ∃ name parent site,
    c.name = (Class.declared name parent site).name ∧
      c.parent = (Class.declared name parent site).parent

/-- Declared parents lead from the class named `a` to the class named `b`. -/
def Inherits (s : SymbolTable) : String → String → Prop :=
  Relation.TransGen fun a b => s.parent? a = some b

variable {s : SymbolTable}

lemma classesDeclared_empty : ClassesDeclared {} := by
  intro key c hc
  cases hc

lemma ClassesDeclared.addClass (hs : s.ClassesDeclared) (name : String) (parent : Option String)
    (site : Site) : (s.addClass (.declared name parent site)).ClassesDeclared := by
  intro key c hc
  rw [SymbolTable.addClass, Table.get?_add, Option.or_eq_some_iff] at hc
  rcases hc with hc | ⟨-, hc⟩
  · exact hs key c hc
  · have hclass : c = .declared name parent site := by grind
    exact ⟨name, parent, site, by rw [hclass], by rw [hclass]⟩

/-! ### Parents -/

lemma parent?_congr {a b : String} (h : Text.canonical a = Text.canonical b) :
    s.parent? a = s.parent? b := by
  rw [parent?, parent?, class?, class?, h]

lemma hasClass_of_class? {name : String} {c : Class} (h : s.class? name = some c) :
    s.hasClass name = true := by
  have hget : s.classes.get? (Text.canonical name) = some c := h
  rw [hasClass, Table.contains, hget]
  rfl

lemma class?_eq_none {name : String} (h : s.hasClass name = false) : s.class? name = none := by
  simpa [hasClass, Table.contains, class?] using h

lemma hasClass_of_parent? {a b : String} (h : s.parent? a = some b) : s.hasClass a = true := by
  obtain ⟨c, hc, -⟩ := Option.bind_eq_some_iff.mp h
  exact hasClass_of_class? hc

lemma parent?_eq_none {a : String} (h : s.hasClass a = false) : s.parent? a = none := by
  rw [parent?, class?_eq_none h]
  rfl

lemma ClassesDeclared.canonical_parent (hs : s.ClassesDeclared) {a b : String}
    (h : s.parent? a = some b) : Text.canonical b = Text.lowered b := by
  obtain ⟨c, hc, hparent⟩ := Option.bind_eq_some_iff.mp h
  obtain ⟨name, parent, site, -, hdeclared⟩ := hs _ c hc
  rw [hdeclared] at hparent
  obtain ⟨raw, -, hraw⟩ := Option.map_eq_some_iff.mp hparent
  have hplain : Text.unrooted b = b := by rw [← hraw, Text.unrooted_unrooted]
  exact Text.canonical_of_unrooted hplain

lemma Inherits.exists_parent {a b : String} (h : s.Inherits a b) : ∃ c, s.parent? c = some b := by
  cases h with
  | single h => exact ⟨_, h⟩
  | tail _ h => exact ⟨_, h⟩

lemma Inherits.congr_left {a b c : String} (h : Text.canonical a = Text.canonical b)
    (hac : s.Inherits a c) : s.Inherits b c := by
  obtain ⟨d, hd, hdc⟩ := Relation.TransGen.head'_iff.mp hac
  have hparent : s.parent? b = some d := by rw [← parent?_congr h, hd]
  exact Relation.TransGen.head' hparent hdc

/-- Declared parents lead from a class to one end at most. -/
lemma Inherits.eq_of_ends {name a b : String} (ha : s.Inherits name a) (hb : s.Inherits name b)
    (haend : s.parent? a = none) (hbend : s.parent? b = none) : a = b := by
  have hunique : Relator.RightUnique fun a b => s.parent? a = some b := by
    intro a b c hab hac
    exact Option.some.inj (hab.symm.trans hac)
  have hstay : ∀ {a b : String}, s.parent? a = none →
      Relation.ReflTransGen (fun a b => s.parent? a = some b) a b → a = b := by
    intro a b hend hab
    rcases Relation.ReflTransGen.cases_head hab with hab | ⟨c, hc, -⟩
    · exact hab
    · rw [hend] at hc
      cases hc
  have htotal := Relation.ReflTransGen.total_of_right_unique hunique ha.to_reflTransGen
    hb.to_reflTransGen
  rcases htotal with hab | hba
  · exact hstay haend hab
  · exact (hstay hbend hba).symm

/-! ### The chain so far -/

/-- The chain only ends at a class that is on it under some spelling. -/
lemma canonical_mem_of_comesBack {start current : String} {passed : List String}
    (h : comesBack start passed current = true) :
    Text.canonical current ∈ (start :: passed).map Text.canonical := by
  rcases Bool.or_eq_true_iff.mp h with hstart | hpassed
  · exact List.mem_map.mpr ⟨start, List.mem_cons_self .., (beq_iff_eq.mp hstart).symm⟩
  · obtain ⟨name, hname, hsame⟩ := List.any_eq_true.mp hpassed
    exact List.mem_map.mpr
      ⟨name, List.mem_cons_of_mem _ hname, Text.canonical_eq_of_sameIgnoringCase hsame⟩

/-- Declared parents have no separators in front, so that the two ways of comparing names agree on them. -/
lemma ClassesDeclared.comesBack_iff (hs : s.ClassesDeclared) {start child current : String}
    {passed : List String} (hpassed : ∀ name ∈ passed, ∃ child, s.parent? child = some name)
    (hcurrent : s.parent? child = some current) : comesBack start passed current = true ↔
      Text.canonical current ∈ (start :: passed).map Text.canonical := by
  refine ⟨canonical_mem_of_comesBack, fun hmem => ?_⟩
  rw [comesBack, Bool.or_eq_true]
  rcases List.mem_cons.mp hmem with hstart | hmem
  · exact .inl (beq_iff_eq.mpr hstart)
  · obtain ⟨name, hname, heq⟩ := List.mem_map.mp hmem
    obtain ⟨below, hbelow⟩ := hpassed name hname
    rw [hs.canonical_parent hbelow, hs.canonical_parent hcurrent] at heq
    exact .inr (List.any_eq_true.mpr ⟨name, hname, Text.sameIgnoringCase_iff.mpr heq⟩)

/-- What is still to come of a chain that has passed some classes, the latest first. -/
def ancestorsAfter (s : SymbolTable) (fuel : Nat) (start : String) (passed : List String) : List String :=
  s.ancestorsFrom start fuel passed (s.parent? (passed.headD start))

/-- The chain goes on to the parent, if there is one that does not bring it back. -/
lemma ancestorsAfter_succ (fuel : Nat) (start : String) (passed : List String) :
    s.ancestorsAfter (fuel + 1) start passed = [] ∧
        (∀ next, s.parent? (passed.headD start) = some next → comesBack start passed next = true) ∨
      ∃ next, s.parent? (passed.headD start) = some next ∧ comesBack start passed next = false ∧
        s.ancestorsAfter (fuel + 1) start passed = next :: s.ancestorsAfter fuel start (next :: passed) := by
  unfold ancestorsAfter
  cases hparent : s.parent? (passed.headD start) with
  | none => exact .inl ⟨rfl, fun next hnext => by cases hnext⟩
  | some next =>
    rw [ancestorsFrom]
    cases hback : comesBack start passed next with
    | true => exact .inl ⟨rfl, fun other hother => Option.some.inj hother ▸ hback⟩
    | false => exact .inr ⟨next, rfl, hback, rfl⟩

lemma isChain_ancestorsAfter (fuel : Nat) (start : String) (passed : List String) :
    (passed.headD start :: s.ancestorsAfter fuel start passed).IsChain
      fun a b => s.parent? a = some b := by
  induction fuel generalizing passed with
  | zero => exact List.IsChain.singleton _
  | succ fuel ih =>
    rcases ancestorsAfter_succ fuel start passed with ⟨hnil, -⟩ | ⟨next, hparent, -, hcons⟩
    · rw [hnil]
      exact List.IsChain.singleton _
    · rw [hcons]
      exact List.isChain_cons_cons.mpr ⟨hparent, ih (next :: passed)⟩

/-! ### The bound on the chain -/

/-- A chain in the making: the classes below the latest one are different, and their parents have been
passed. -/
structure IsTrail (s : SymbolTable) (start : String) (passed : List String) : Prop where
  nodup : ((passed ++ [start]).tail.map Text.canonical).Nodup
  parents : ∀ a ∈ (passed ++ [start]).tail, ∃ b ∈ passed, s.parent? a = some b

lemma isTrail_nil (start : String) : s.IsTrail start [] where
  nodup := List.nodup_nil
  parents := List.forall_mem_nil _

lemma append_singleton_eq_headD_cons (passed : List String) (start : String) :
    passed ++ [start] = passed.headD start :: (passed ++ [start]).tail := by
  cases passed <;> rfl

/-- A class that was passed under another spelling would have led to the same parent before. -/
lemma IsTrail.cons {start next : String} {passed : List String} (h : s.IsTrail start passed)
    (hparent : s.parent? (passed.headD start) = some next)
    (hnew : comesBack start passed next = false) : s.IsTrail start (next :: passed) := by
  have hnext : next ∉ passed := by
    intro hmem
    have hback : comesBack start passed next = true := by
      rw [comesBack, Bool.or_eq_true]
      exact .inr (List.any_eq_true.mpr ⟨next, hmem, Text.sameIgnoringCase_iff.mpr rfl⟩)
    rw [hnew] at hback
    cases hback
  have htail : (next :: passed ++ [start]).tail = passed.headD start :: (passed ++ [start]).tail :=
    append_singleton_eq_headD_cons passed start
  constructor
  · rw [htail, List.map_cons, List.nodup_cons]
    refine ⟨fun hmem => hnext ?_, h.nodup⟩
    obtain ⟨a, ha, heq⟩ := List.mem_map.mp hmem
    obtain ⟨b, hb, hab⟩ := h.parents a ha
    rw [parent?_congr heq, hparent] at hab
    exact Option.some.inj hab ▸ hb
  · rw [htail, List.forall_mem_cons]
    refine ⟨⟨next, List.mem_cons_self .., hparent⟩, fun a ha => ?_⟩
    obtain ⟨b, hb, hab⟩ := h.parents a ha
    exact ⟨b, List.mem_cons_of_mem _ hb, hab⟩

/-- The chain does not pass more classes than there are in the table. -/
lemma IsTrail.length_le {start : String} {passed : List String} (h : s.IsTrail start passed) :
    passed.length ≤ s.classes.size := by
  have hkeys : (passed ++ [start]).tail.map Text.canonical ⊆ s.classes.keys := by
    intro key hkey
    obtain ⟨name, hname, rfl⟩ := List.mem_map.mp hkey
    obtain ⟨b, -, hparent⟩ := h.parents name hname
    exact (s.classes.contains_iff_mem_keys _).mp (hasClass_of_parent? hparent)
  have hle := (List.subperm_of_subset h.nodup hkeys).length_le
  simpa [Table.keys, Table.size] using hle

/-- With enough fuel the chain is closed: the parent of every class on it is on it too. -/
lemma closed_ancestorsAfter {fuel : Nat} {start : String} {passed : List String}
    (h : s.IsTrail start passed) (hfuel : s.classes.size + 1 ≤ passed.length + fuel) :
    ∀ a ∈ passed.headD start :: s.ancestorsAfter fuel start passed, ∀ b, s.parent? a = some b →
      Text.canonical b ∈ (start :: passed ++ s.ancestorsAfter fuel start passed).map Text.canonical := by
  induction fuel generalizing passed with
  | zero =>
    have hle := h.length_le
    omega
  | succ fuel ih =>
    rcases ancestorsAfter_succ fuel start passed with ⟨hnil, hback⟩ | ⟨next, hparent, hnew, hcons⟩
    · rw [hnil, List.append_nil]
      intro a ha b hb
      rw [List.mem_singleton.mp ha] at hb
      exact canonical_mem_of_comesBack (hback b hb)
    · have hrest := ih (h.cons hparent hnew) (by simp only [List.length_cons]; omega)
      have hperm : (start :: next :: passed ++ s.ancestorsAfter fuel start (next :: passed)).Perm
          (start :: passed ++ next :: s.ancestorsAfter fuel start (next :: passed)) :=
        List.perm_middle.symm.cons start
      rw [hcons]
      intro a ha b hb
      rcases List.mem_cons.mp ha with rfl | ha
      · rw [hparent] at hb
        cases hb
        simp
      · exact (hperm.map Text.canonical).mem_iff.mp (hrest a ha b hb)

/-! ### The parent chain -/

lemma ancestors_eq (name : String) :
    s.ancestors name = s.ancestorsAfter (s.classes.size + 1) name [] := rfl

lemma isChain_ancestors (name : String) :
    (name :: s.ancestors name).IsChain fun a b => s.parent? a = some b :=
  isChain_ancestorsAfter _ name []

lemma ClassesDeclared.nodup_ancestorsAfter (hs : s.ClassesDeclared) (fuel : Nat) (start : String)
    {passed : List String} (hpassed : ∀ name ∈ passed, ∃ child, s.parent? child = some name) :
    ((s.ancestorsAfter fuel start passed).map Text.canonical).Nodup ∧
      ∀ a ∈ s.ancestorsAfter fuel start passed,
        Text.canonical a ∉ (start :: passed).map Text.canonical := by
  induction fuel generalizing passed with
  | zero => exact ⟨List.nodup_nil, List.forall_mem_nil _⟩
  | succ fuel ih =>
    rcases ancestorsAfter_succ fuel start passed with ⟨hnil, -⟩ | ⟨next, hparent, hnew, hcons⟩
    · rw [hnil]
      exact ⟨List.nodup_nil, List.forall_mem_nil _⟩
    · obtain ⟨hnodup, hfresh⟩ := ih (List.forall_mem_cons.mpr ⟨⟨_, hparent⟩, hpassed⟩)
      have hnext : Text.canonical next ∉ (start :: passed).map Text.canonical := by
        rw [← hs.comesBack_iff hpassed hparent, hnew]
        exact Bool.false_ne_true
      have hlater : ∀ a ∈ s.ancestorsAfter fuel start (next :: passed),
          Text.canonical a ≠ Text.canonical next ∧
            Text.canonical a ∉ (start :: passed).map Text.canonical := by
        intro a ha
        have hout := hfresh a ha
        simp only [List.map_cons, List.mem_cons, not_or] at hout ⊢
        exact ⟨hout.2.1, hout.1, hout.2.2⟩
      rw [hcons, List.map_cons, List.nodup_cons, List.forall_mem_cons]
      refine ⟨⟨fun hmem => ?_, hnodup⟩, hnext, fun a ha => (hlater a ha).2⟩
      obtain ⟨a, ha, heq⟩ := List.mem_map.mp hmem
      exact (hlater a ha).1 heq

/-- In a table of declared classes the chain has no class twice, in whatever spelling. -/
lemma ClassesDeclared.nodup_ancestors (hs : s.ClassesDeclared) (name : String) :
    ((name :: s.ancestors name).map Text.canonical).Nodup := by
  obtain ⟨hnodup, hfresh⟩ := hs.nodup_ancestorsAfter (s.classes.size + 1) name (List.forall_mem_nil _)
  rw [List.map_cons, List.nodup_cons]
  refine ⟨fun hmem => ?_, hnodup⟩
  obtain ⟨a, ha, heq⟩ := List.mem_map.mp hmem
  exact hfresh a ha (List.mem_singleton.mpr heq)

lemma inherits_of_mem_ancestors {name a : String} (h : a ∈ s.ancestors name) : s.Inherits name a := by
  have hchain : (name :: s.ancestors name).IsChain s.Inherits :=
    (isChain_ancestors name).imp fun a b hab => .single hab
  have htrans : ∀ a b c, s.Inherits a b → s.Inherits b c → s.Inherits a c := fun _ _ _ => .trans
  have : IsTrans String s.Inherits := ⟨htrans⟩
  exact List.rel_of_pairwise_cons (List.isChain_iff_pairwise.mp hchain) h

/-- The chain does not depend on how the name of the class is spelled. -/
lemma ancestors_congr {a b : String} (h : Text.canonical a = Text.canonical b) :
    s.ancestors a = s.ancestors b := by
  have hback : comesBack a = comesBack b := by
    unfold comesBack
    rw [h]
  have hfrom : ∀ fuel passed current,
      s.ancestorsFrom a fuel passed current = s.ancestorsFrom b fuel passed current := by
    intro fuel
    induction fuel with
    | zero => exact fun _ _ => rfl
    | succ fuel ih =>
      intro passed current
      cases current with
      | none => rfl
      | some current => rw [ancestorsFrom, ancestorsFrom, hback, ih]
  rw [ancestors, ancestors, parent?_congr h, hfrom]

/-- Declared parents do not lead out of the chain. -/
lemma canonical_mem_of_inherits {name b : String} (h : s.Inherits name b) :
    Text.canonical b ∈ (name :: s.ancestors name).map Text.canonical := by
  have hfuel : s.classes.size + 1 ≤ ([] : List String).length + (s.classes.size + 1) := by simp
  have hclosed := closed_ancestorsAfter (isTrail_nil name) hfuel
  rw [← ancestors_eq] at hclosed
  induction h with
  | single hb => exact hclosed name (List.mem_cons_self ..) _ hb
  | tail _ hb ih =>
    obtain ⟨a, ha, heq⟩ := List.mem_map.mp ih
    rw [← parent?_congr heq] at hb
    exact hclosed a ha _ hb

/-- The chain ends with the unknown class that declared parents lead to. -/
lemma getLast?_ancestors {name b : String} (h : s.Inherits name b) (hunknown : s.hasClass b = false) :
    (s.ancestors name).getLast? = some b := by
  have hend : s.parent? b = none := parent?_eq_none hunknown
  have hmem : b ∈ s.ancestors name := by
    obtain ⟨a, ha, heq⟩ := List.mem_map.mp (canonical_mem_of_inherits h)
    have haend : s.parent? a = none := by rw [parent?_congr heq, hend]
    obtain ⟨c, hc, -⟩ := Relation.TransGen.head'_iff.mp h
    have hne : a ≠ name := by
      rintro rfl
      rw [haend] at hc
      cases hc
    have hanc : a ∈ s.ancestors name := (List.mem_cons.mp ha).resolve_left hne
    have hab : a = b := (inherits_of_mem_ancestors hanc).eq_of_ends h haend hend
    rwa [← hab]
  obtain ⟨before, after, hsplit⟩ := List.append_of_mem hmem
  have hchain := isChain_ancestors (s := s) name
  rw [hsplit, ← List.cons_append] at hchain
  cases after with
  | nil => rw [hsplit, List.getLast?_concat]
  | cons c after =>
    have hnext : s.parent? b = some c := (List.isChain_append_cons_cons.mp hchain).2.1
    rw [hend] at hnext
    cases hnext

/-! ### Casts between classes -/

/-- An object passes for one of another class exactly by name or by an ancestor. -/
lemma castsTo_ofClass_iff (a b : String) :
    s.castsTo (.of (.ofClass a)) (.of (.ofClass b)) = true ↔ Text.canonical a = Text.canonical b ∨
      ∃ c ∈ s.ancestors (Text.unrooted a), Text.canonical c = Text.canonical b := by
  have hcast : ∀ name other : String, (Ty.ofClass name).castsTo (.ofClass other) = true ↔
      Text.canonical name = Text.canonical other := by
    intro name other
    have hname : Text.unrooted name = Text.unrooted other →
        Text.canonical name = Text.canonical other := congrArg Text.lowered
    simp only [Ty.ofClass, Ty.castsTo, Text.sameIgnoringCase, Bool.or_eq_true, beq_iff_eq,
      Ty.class.injEq]
    exact or_iff_right_of_imp hname
  have hmembers : ∀ t : Ty, t ∈ (s.expand (.of (.ofClass a))).members ↔
      t = .ofClass a ∨ ∃ c ∈ s.ancestors (Text.unrooted a), .ofClass c = t := by
    intro t
    simp [expand, TypeSet.of, TypeSet.classNames, Ty.className?, Ty.ofClass]
  have hmixed : ∀ name, (TypeSet.of (.ofClass name)).contains .mixed = false := fun name => rfl
  have hempty : ∀ name, (TypeSet.of (.ofClass name)).isEmpty = false := fun name => rfl
  simp only [castsTo, hmixed, hempty, Bool.false_or, List.any_eq_true, hmembers]
  constructor
  · rintro ⟨t, rfl | ⟨c, hc, rfl⟩, u, hu, htu⟩
    · rw [List.mem_singleton.mp hu] at htu
      exact .inl ((hcast a b).mp htu)
    · rw [List.mem_singleton.mp hu] at htu
      exact .inr ⟨c, hc, (hcast c b).mp htu⟩
  · have hself : Ty.ofClass b ∈ (TypeSet.of (.ofClass b)).members := List.mem_singleton_self _
    rintro (hab | ⟨c, hc, hcb⟩)
    · exact ⟨_, .inl rfl, _, hself, (hcast a b).mpr hab⟩
    · exact ⟨_, .inr ⟨c, hc, rfl⟩, _, hself, (hcast c b).mpr hcb⟩

/-- The parent chain of a class goes from parent to parent, without repetition, and names exactly the
other classes that declared parents lead to; it ends with the unknown one if there is one. Hence an
object of a class passes for one of another class exactly if declared parents lead from the one to the
other, or the classes are the same. -/
theorem inheritance_followed_exactly (hs : s.ClassesDeclared) (name : String) :
    (name :: s.ancestors name).IsChain (fun a b => s.parent? a = some b) ∧
    (s.ancestors name).Pairwise (fun a b => Text.sameIgnoringCase a b = false) ∧
    (∀ other, (∃ a ∈ s.ancestors name, Text.sameIgnoringCase a other = true) ↔
      ∃ b, s.Inherits name b ∧ Text.canonical b ≠ Text.canonical name ∧
        Text.sameIgnoringCase b other = true) ∧
    (∀ b, s.Inherits name b → s.hasClass b = false → (s.ancestors name).getLast? = some b) ∧
    ∀ other, s.castsTo (.of (.ofClass name)) (.of (.ofClass other)) = true ↔
      Text.canonical name = Text.canonical other ∨
        ∃ b, s.Inherits name b ∧ Text.canonical b = Text.canonical other := by
  have hlowered : ∀ {a b : String}, s.Inherits a b → Text.canonical b = Text.lowered b := by
    intro a b hab
    obtain ⟨c, hc⟩ := hab.exists_parent
    exact hs.canonical_parent hc
  have hancestor : ∀ {name a : String}, a ∈ s.ancestors name →
      s.Inherits name a ∧ Text.canonical a ≠ Text.canonical name := by
    intro name a ha
    have hnew := (List.nodup_cons.mp (hs.nodup_ancestors name)).1
    exact ⟨inherits_of_mem_ancestors ha, fun heq => hnew (heq ▸ List.mem_map_of_mem ha)⟩
  have hlisted : ∀ {name b : String}, s.Inherits name b → Text.canonical b ≠ Text.canonical name →
      ∃ a ∈ s.ancestors name, Text.canonical a = Text.canonical b := by
    intro name b hb hne
    exact List.mem_map.mp ((List.mem_cons.mp (canonical_mem_of_inherits hb)).resolve_left hne)
  refine ⟨isChain_ancestors name, ?_, fun other => ⟨?_, ?_⟩, fun b => getLast?_ancestors,
    fun other => ?_⟩
  · have hnodup := (List.nodup_cons.mp (hs.nodup_ancestors name)).2
    refine (List.pairwise_map.mp hnodup).imp_of_mem fun ha hb hne => ?_
    rw [Bool.eq_false_iff, Ne, Text.sameIgnoringCase_iff, ← hlowered (hancestor ha).1,
      ← hlowered (hancestor hb).1]
    exact hne
  · rintro ⟨a, ha, hsame⟩
    exact ⟨a, (hancestor ha).1, (hancestor ha).2, hsame⟩
  · rintro ⟨b, hb, hne, hsame⟩
    obtain ⟨a, ha, heq⟩ := hlisted hb hne
    rw [hlowered hb, hlowered (hancestor ha).1] at heq
    refine ⟨a, ha, ?_⟩
    rw [Text.sameIgnoringCase_iff] at hsame ⊢
    rw [heq, hsame]
  · rw [castsTo_ofClass_iff]
    have hname := Text.canonical_unrooted name
    constructor
    · rintro (hsame | ⟨c, hc, hcother⟩)
      · exact .inl hsame
      · exact .inr ⟨c, (hancestor hc).1.congr_left hname, hcother⟩
    · rintro (hsame | ⟨b, hb, hbother⟩)
      · exact .inl hsame
      · by_cases hne : Text.canonical b = Text.canonical name
        · exact .inl (hne.symm.trans hbother)
        · obtain ⟨a, ha, heq⟩ := hlisted (hb.congr_left hname.symm) (by rwa [hname])
          exact .inr ⟨a, ha, heq.trans hbother⟩

/-- A cycle that does not come back to the class itself, and a parent that is not declared. -/
theorem inheritance_followed_exactly_cycle :
    let s := ((((SymbolTable.addClass {} (.declared "A" (some "\\B") .internal)).addClass
      (.declared "B" (some "C") .internal)).addClass (.declared "C" (some "b") .internal)).addClass
      (.declared "D" (some "Gone") .internal))
    s.ClassesDeclared ∧ s.ancestors "\\a" = ["B", "C"] ∧
      s.castsTo (.of (.ofClass "A")) (.of (.ofClass "c")) = true ∧
      (s.ancestors "D").getLast? = some "Gone" := by
  intro s
  have hs : s.ClassesDeclared :=
    (((classesDeclared_empty.addClass _ _ _).addClass _ _ _).addClass _ _ _).addClass _ _ _
  have hfirst : s.parent? "A" = some "B" := by decide +kernel
  have hsecond : s.parent? "B" = some "C" := by decide +kernel
  have hgone : s.parent? "D" = some "Gone" := by decide +kernel
  have hcasts := (inheritance_followed_exactly hs "A").2.2.2.2 "c"
  have hlast := (inheritance_followed_exactly hs "D").2.2.2.1 "Gone"
  refine ⟨hs, by decide +kernel, hcasts.mpr (.inr ⟨"C", ?_, by decide +kernel⟩), ?_⟩
  · exact .tail (.single hfirst) hsecond
  · exact hlast (.single hgone) (by decide +kernel)

end PhpCheck.SymbolTable
