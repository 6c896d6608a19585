import PhpCheck.Proofs.Entries
import PhpCheck.Proofs.Inheritance
import PhpCheck.Proofs.Registration

/-!
# What names are resolved to

Every callable is filed under the key that it carries, from the collection of declarations to the end of
a run. So a key that a look-up gives is one that the symbol table knows, and what is filed under it is
what the look-up has found; for a method that is the one of the nearest class of the lineage.
-/

namespace PhpCheck

/-- The callable carries the key, and if that is the key of a method, then the names of its class and of
the method make it up. -/
structure Callable.Carries (c : Callable) (k : CallableKey) : Prop where
  key : c.key = k
  method : ∀ owner name, k = .method owner name → ∃ spelled raw, c.owner = some spelled ∧
    c.name = spelled ++ "::" ++ raw ∧ k = .ofMethod spelled raw

namespace SymbolTable

/-- Every callable is filed under the key that it carries. -/
def FiledByKey (s : SymbolTable) : Prop := ∀ key c, s.callable? key = some c → c.Carries key

variable {s t : SymbolTable}

namespace FiledByKey

lemma empty : FiledByKey {} := by
  intro key c hc
  cases key <;> cases hc

lemma of_or (hs : s.FiledByKey) {k : CallableKey} {f : Callable} (hf : f.Carries k)
    (h : ∀ key, t.callable? key = (s.callable? key).or (if key = k then some f else none)) :
    t.FiledByKey := by
  intro key c hc
  rw [h, Option.or_eq_some_iff] at hc
  rcases hc with hc | ⟨-, hc⟩
  · exact hs key c hc
  · by_cases hk : key = k
    · rw [if_pos hk] at hc
      rwa [← Option.some.inj hc, hk]
    · rw [if_neg hk] at hc
      cases hc

lemma addFunction (hs : s.FiledByKey) (f : Callable) : (s.addFunction f).FiledByKey := by
  cases hkey : f.key with
  | function name =>
    have hcarries : f.Carries (.function name) := ⟨hkey, fun owner name h => by cases h⟩
    exact hs.of_or hcarries (s.callable?_addFunction hkey)
  | method owner name =>
    have hsame : s.addFunction f = s := by rw [SymbolTable.addFunction, hkey]
    rwa [hsame]

lemma of_callable?_eq (hs : s.FiledByKey) (h : ∀ key, t.callable? key = s.callable? key) :
    t.FiledByKey := by
  intro key c hc
  rw [h] at hc
  exact hs key c hc

lemma addMethod (hs : s.FiledByKey) {owner : String} {m : Callable}
    (hm : m.Carries (.method (Text.canonical owner) (Class.methodKey m))) :
    (s.modifyClass owner (·.addMethod m)).FiledByKey := by
  by_cases hclass : s.hasClass owner = true
  · exact hs.of_or hm (s.callable?_addMethod hclass)
  · -- without the class there is nothing that changes
    have hnone : s.classes.get? (Text.canonical owner) = none := by
      simpa [hasClass, Table.contains] using hclass
    apply hs.of_callable?_eq
    intro key
    cases key with
    | function name => rfl
    | method other name =>
      simp only [callable?, modifyClass, Table.get?_modify]
      split
      · rename_i hother
        rw [hother, hnone]
        rfl
      · rfl

lemma builtin : SymbolTable.builtin.FiledByKey := by
  have hfold : ∀ (fs : List Callable) (s : SymbolTable), s.FiledByKey →
      (fs.foldl SymbolTable.addFunction s).FiledByKey := by
    intro fs
    induction fs with
    | nil => exact fun s hs => hs
    | cons f fs ih => exact fun s hs => ih _ (hs.addFunction f)
  exact (hfold _ _ empty).of_callable?_eq (callable?_addClass _ rfl)

/-- A node whose method name has no colon enters callables under their keys. -/
lemma enters {file : String} {owner : Option String} {node : Node} (h : Enters file owner node s t)
    (hname : ∀ decl, node.kind = .methodDecl decl → ':' ∉ decl.name.toList) (hs : s.FiledByKey) :
    t.FiledByKey := by
  cases h with
  | nothing => exact hs
  | «class» hkind => exact hs.of_callable?_eq (s.callable?_addClass rfl)
  | function hc => exact hs.addFunction _
  | method hkind hc =>
    obtain ⟨hkey, hcname, howner, -⟩ := Signature.of_declared hc
    apply hs.addMethod
    rw [Class.methodKey, hcname, Text.memberPart_qualified _ (hname _ hkind)]
    exact ⟨hkey, fun _ _ _ => ⟨_, _, howner, hcname, rfl⟩⟩
  | property name p => exact hs.of_callable?_eq (s.callable?_modifyClass name fun _ => rfl)
  | classConstant name k => exact hs.of_callable?_eq (s.callable?_modifyClass name fun _ => rfl)
  | constant k =>
    apply hs.of_callable?_eq
    intro key
    cases key <;> rfl

lemma collectEach {units : List SourceUnit}
    (hnames : ∀ unit ∈ units, ∀ node ∈ unit.root.nodes, ∀ decl, node.kind = .methodDecl decl →
      ':' ∉ decl.name.toList) (hs : s.FiledByKey) : (s.collectEach units).FiledByKey :=
  collectEach_keeps (fun unit hunit part hpart _ _ _ h => enters h (hnames unit hunit part hpart)) hs

lemma of_sameCores (hs : s.FiledByKey) (h : s.SameCores t) : t.FiledByKey := by
  intro key d hd
  obtain ⟨c, hc, hcore⟩ := h.symm.exists_callable hd
  have hkey : c.core.key = d.core.key := by rw [hcore]
  have hname : c.core.name = d.core.name := by rw [hcore]
  have howner : c.core.owner = d.core.owner := by rw [hcore]
  obtain ⟨hckey, hcmethod⟩ := hs key c hc
  refine ⟨hkey.symm.trans hckey, fun owner name hmethod => ?_⟩
  obtain ⟨spelled, raw, hspelled, hraw, hmade⟩ := hcmethod owner name hmethod
  exact ⟨spelled, raw, howner.symm.trans hspelled, hname.symm.trans hraw, hmade⟩

end FiledByKey

end SymbolTable

end PhpCheck
