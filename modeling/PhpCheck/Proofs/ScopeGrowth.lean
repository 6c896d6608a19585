import PhpCheck.Context
import PhpCheck.Proofs.TableGrowth

/-!
# How scopes grow

Along a walk variables are only added to a scope, and their types only gain members. `Scope.Grows` is
this order, and `Scope.GrownBy` the part of it in which only the variables of given names change.
-/

namespace PhpCheck

/-- A variable that has at most gained types. -/
structure Variable.Grows (v w : Variable) : Prop where
  name : w.name = v.name
  site : w.site = v.site
  referenceTo : w.referenceTo = v.referenceTo
  type : ∀ t ∈ v.type, t ∈ w.type

/-- Every variable of `f` is still at its place in `g` and has at most gained types; those that are new
in `g` come after them and stand for no variable of a caller. -/
structure Frame.Grows (f g : Frame) : Prop where
  kept : ∀ (i : Nat) (name : String) (v : Variable), f.entries[i]? = some (name, v) →
    ∃ w, g.entries[i]? = some (name, w) ∧ v.Grows w
  fresh : ∀ (i : Nat) (name : String) (w : Variable), f.entries.length ≤ i →
    g.entries[i]? = some (name, w) → w.referenceTo = none

/-- The innermost frame has grown, and the frames around it are the same. -/
structure Scope.Grows (a b : Scope) : Prop where
  frame : Frame.Grows a.frame b.frame
  enclosing : b.enclosing = a.enclosing

/-- The scope has grown by variables of the given names at most. -/
structure Scope.GrownBy (names : String → Prop) (a b : Scope) : Prop where
  grows : a.Grows b
  others : ∀ name, ¬names name → b.find? name = a.find? name

/-- The place is the same but for the line, and the scope has grown. -/
structure Context.Continues (a b : Context) : Prop where
  file : b.file = a.file
  owner : b.owner = a.owner
  callable : b.callable = a.callable
  scope : a.scope.Grows b.scope

lemma Variable.Grows.refl (v : Variable) : v.Grows v := ⟨rfl, rfl, rfl, fun _ h => h⟩

lemma Variable.Grows.trans {u v w : Variable} (huv : u.Grows v) (hvw : v.Grows w) : u.Grows w where
  name := hvw.name.trans huv.name
  site := hvw.site.trans huv.site
  referenceTo := hvw.referenceTo.trans huv.referenceTo
  type t ht := hvw.type t (huv.type t ht)

namespace Frame

lemma grows_iff {f g : Frame} :
    Grows f g ↔ Table.Grows Variable.Grows (fun v => v.referenceTo = none) f g :=
  ⟨fun h => ⟨h.kept, h.fresh⟩, fun h => ⟨h.kept, h.added⟩⟩

lemma Grows.refl (f : Frame) : Grows f f := grows_iff.mpr (.refl .refl f)

lemma Grows.trans {f g h : Frame} (hfg : Grows f g) (hgh : Grows g h) : Grows f h := by
  apply grows_iff.mpr (Table.Grows.trans _ _ (grows_iff.mp hfg) (grows_iff.mp hgh))
  · intro u v w huv hvw
    exact huv.trans hvw
  · intro v w hvw hv
    rw [hvw.referenceTo]
    exact hv

lemma grows_modify (f : Frame) (name : String) {change : Variable → Variable}
    (h : ∀ v : Variable, v.Grows (change v)) : Grows f (f.modify name change) :=
  grows_iff.mpr (Table.grows_modify .refl f name h)

lemma grows_add (f : Frame) (name : String) {v : Variable} (hv : v.referenceTo = none) :
    Grows f (f.add name v) :=
  grows_iff.mpr (Table.grows_add .refl f name hv)

/-- A frame that has grown without a change to the variable of any name is the same. -/
lemma Grows.eq_of_get?_eq {f g : Frame} (h : Grows f g) (hget : ∀ name, g.get? name = f.get? name) :
    g = f := by
  have hentries : g.entries = f.entries := by
    apply List.ext_getElem?
    intro i
    cases hf : f.entries[i]? with
    | some entry =>
      obtain ⟨w, hw, -⟩ := h.kept i entry.1 entry.2 hf
      have hfv : f.get? entry.1 = some entry.2 :=
        Table.get?_eq_some_iff.mpr (List.mem_of_getElem? hf)
      have hgw : g.get? entry.1 = some w := Table.get?_eq_some_iff.mpr (List.mem_of_getElem? hw)
      rw [hget, hfv] at hgw
      rw [hw, ← Option.some.inj hgw]
    | none =>
      -- a variable that is new in `g` would be filed there twice
      rw [List.getElem?_eq_none_iff] at hf
      cases hg : g.entries[i]? with
      | none => rfl
      | some entry =>
        have hgw : g.get? entry.1 = some entry.2 :=
          Table.get?_eq_some_iff.mpr (List.mem_of_getElem? hg)
        rw [hget] at hgw
        obtain ⟨j, hj⟩ := List.mem_iff_getElem?.mp (Table.get?_eq_some_iff.mp hgw)
        obtain ⟨hlt, -⟩ := List.getElem?_eq_some_iff.mp hj
        obtain ⟨w, hw, -⟩ := h.kept j entry.1 entry.2 hj
        have hkeys : (g.entries.map Prod.fst)[i]? = (g.entries.map Prod.fst)[j]? := by
          rw [List.getElem?_map, List.getElem?_map, hg, hw]
          rfl
        obtain ⟨hi, -⟩ := List.getElem?_eq_some_iff.mp hg
        have hij := (List.getElem?_inj (by simpa using hi) g.nodup).mp hkeys
        omega
  cases f
  cases g
  cases hentries
  rfl

end Frame

namespace Scope

lemma Grows.refl (a : Scope) : a.Grows a := ⟨.refl _, rfl⟩

lemma Grows.trans {a b c : Scope} (hab : a.Grows b) (hbc : b.Grows c) : a.Grows c :=
  ⟨hab.frame.trans hbc.frame, hbc.enclosing.trans hab.enclosing⟩

lemma grows_declare (a : Scope) (name : String) (site : Site) : a.Grows (a.declare name site) :=
  ⟨Frame.grows_add _ _ rfl, rfl⟩

lemma grows_widen (a : Scope) (name : String) (types : TypeSet) : a.Grows (a.widen name types) := by
  refine ⟨?_, rfl⟩
  dsimp only [widen]
  apply Frame.grows_modify
  intro v
  exact ⟨rfl, rfl, rfl, fun t ht => TypeSet.mem_merge.mpr (.inl ht)⟩

lemma grows_assign (a : Scope) (name : String) (site : Site) (types : TypeSet) :
    a.Grows (a.assign name site types) :=
  (a.grows_declare name site).trans (grows_widen _ name types)

lemma find?_assign_of_ne (a : Scope) {name other : String} (h : other ≠ name) (site : Site)
    (types : TypeSet) : (a.assign name site types).find? other = a.find? other := by
  simp [assign, widen, declare, find?, Table.get?_add, h]

lemma GrownBy.refl (names : String → Prop) (a : Scope) : GrownBy names a a :=
  ⟨.refl a, fun _ _ => rfl⟩

lemma GrownBy.trans {names : String → Prop} {a b c : Scope} (hab : GrownBy names a b)
    (hbc : GrownBy names b c) : GrownBy names a c :=
  ⟨hab.grows.trans hbc.grows, fun name h => (hbc.others name h).trans (hab.others name h)⟩

lemma grownBy_assign {names : String → Prop} (a : Scope) {name : String} (h : names name)
    (site : Site) (types : TypeSet) : GrownBy names a (a.assign name site types) := by
  refine ⟨a.grows_assign name site types, fun other hother => ?_⟩
  apply a.find?_assign_of_ne
  rintro rfl
  exact hother h

lemma GrownBy.eq_of_forall_not {names : String → Prop} {a b : Scope} (h : GrownBy names a b)
    (hnames : ∀ name, ¬names name) : b = a := by
  have hframe := h.grows.frame.eq_of_get?_eq fun name => h.others name (hnames name)
  have henclosing := h.grows.enclosing
  cases a
  cases b
  cases hframe
  cases henclosing
  rfl

end Scope

namespace Context

lemma Continues.refl (a : Context) : a.Continues a := ⟨rfl, rfl, rfl, .refl _⟩

lemma Continues.trans {a b c : Context} (hab : a.Continues b) (hbc : b.Continues c) :
    a.Continues c where
  file := hbc.file.trans hab.file
  owner := hbc.owner.trans hab.owner
  callable := hbc.callable.trans hab.callable
  scope := hab.scope.trans hbc.scope

lemma continues_atLine (a : Context) (line : Line) : a.Continues (a.atLine line) :=
  ⟨rfl, rfl, rfl, .refl _⟩

lemma continues_declare (a : Context) (name : String) : a.Continues (a.declare name) :=
  ⟨rfl, rfl, rfl, a.scope.grows_declare name a.site⟩

lemma continues_widen (a : Context) (name : String) (types : TypeSet) :
    a.Continues (a.widen name types) :=
  ⟨rfl, rfl, rfl, a.scope.grows_widen name types⟩

lemma continues_assign (a : Context) (name : String) (types : TypeSet) :
    a.Continues (a.assign name types) :=
  ⟨rfl, rfl, rfl, a.scope.grows_assign name a.site types⟩

/-! ### Types of variables -/

variable {a b : Context} {name : String} {t : Ty} {types : TypeSet}

lemma mem_typeOf_iff : t ∈ a.typeOf name ↔ ∃ v, a.find? name = some v ∧ t ∈ v.type := by
  change t ∈ ((a.find? name).map Variable.type).getD ∅ ↔ _
  cases a.find? name with
  | none => exact ⟨fun h => absurd h List.not_mem_nil, fun ⟨v, hv, _⟩ => by cases hv⟩
  | some v => simp

lemma mem_typeOf_widen (hfound : (a.find? name).isSome = true) (ht : t ∈ types) :
    t ∈ (a.widen name types).typeOf name := by
  obtain ⟨v, hv⟩ := Option.isSome_iff_exists.mp hfound
  have hwiden : (a.widen name types).find? name = some { v with type := v.type.merge types } := by
    change (a.scope.frame.modify name _).get? name = _
    rw [Table.get?_modify, if_pos rfl]
    exact congrArg (Option.map _) hv
  exact mem_typeOf_iff.mpr ⟨_, hwiden, TypeSet.mem_merge.mpr (.inr ht)⟩

lemma mem_typeOf_assign (a : Context) (name : String) (ht : t ∈ types) :
    t ∈ (a.assign name types).typeOf name := by
  have hdeclared : ((a.declare name).find? name).isSome = true := by
    simp [declare, find?, Scope.find?, Scope.declare, Table.get?_add]
  have hassign : a.assign name types = (a.declare name).widen name types := rfl
  rw [hassign]
  exact mem_typeOf_widen hdeclared ht

end Context

end PhpCheck
