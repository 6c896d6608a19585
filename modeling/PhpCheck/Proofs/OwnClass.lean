import PhpCheck.Proofs.Names
import PhpCheck.Proofs.TypeGrammar

/-!
# The declaring class in declared types

A part of a declared type that is `self` or `static` stands for the declaring class. With array marks
behind it or a separator in front it does not: it is then read like any other class name, and there is no
other way for a type of that name to be declared.
-/

namespace PhpCheck

def IsOwnName (name : String) : Prop :=
  Text.sameIgnoringCase name "self" = true ∨ Text.sameIgnoringCase name "static" = true

instance (name : String) : Decidable (IsOwnName name) := instDecidableOr

/-! ### Names and words -/

lemma isOwnName_iff {name : String} :
    IsOwnName name ↔ Text.lowered name = "self" ∨ Text.lowered name = "static" := by
  have hself : Text.lowered "self" = "self" := by decide
  have hstatic : Text.lowered "static" = "static" := by decide
  rw [IsOwnName, Text.sameIgnoringCase_iff, Text.sameIgnoringCase_iff, hself, hstatic]

lemma toLower_eq_separator_iff {c : Char} : c.toLower = '\\' ↔ c = '\\' := by
  constructor
  · intro h
    by_cases hupper : c.val ≥ 'A'.val ∧ c.val ≤ 'Z'.val
    · -- Small letters stand behind the separator, so a capital is not made one.
      have hval : c.toLower.val = c.val + ('a'.val - 'A'.val) := congrArg Char.val (dif_pos hupper)
      have hsum := congrArg UInt32.toNat hval
      rw [h, UInt32.toNat_add] at hsum
      have hbounds : 65 ≤ c.val.toNat ∧ c.val.toNat ≤ 90 := hupper
      have hshift : ('a'.val - 'A'.val).toNat = 32 := by decide
      have hseparator : '\\'.val.toNat = 92 := by decide
      omega
    · have hsame : c.toLower = c := dif_neg hupper
      exact hsame.symm.trans h
  · rintro rfl
    decide

lemma Text.unrooted_lowered (name : String) :
    Text.unrooted (Text.lowered name) = Text.lowered (Text.unrooted name) := by
  have hsep : (fun c : Char => c == '\\') ∘ Char.toLower = fun c => c == '\\' := by
    funext c
    rw [Function.comp_apply, Bool.eq_iff_iff, beq_iff_eq, beq_iff_eq, toLower_eq_separator_iff]
  simp [Text.unrooted, Text.lowered, List.dropWhile_map, hsep]

lemma isOwnName_ofList_iff {word : List Char} : IsOwnName (String.ofList word) ↔
    word.head? ≠ some '\\' ∧ IsOwnName (Text.unrooted (String.ofList word)) := by
  by_cases hhead : word.head? = some '\\'
  · obtain ⟨rest, rfl⟩ : ∃ rest, word = '\\' :: rest := List.head?_eq_some_iff.mp hhead
    have hfirst : (Text.lowered (String.ofList ('\\' :: rest))).toList.head? = some '\\' := by
      rw [Text.lowered, String.toList_ofList, String.toList_ofList]
      exact congrArg some (toLower_eq_separator_iff.mpr rfl)
    have hnot : ¬IsOwnName (String.ofList ('\\' :: rest)) := by
      rw [isOwnName_iff]
      rintro (h | h)
      · rw [h] at hfirst
        revert hfirst
        decide
      · rw [h] at hfirst
        revert hfirst
        decide
    exact ⟨fun h => absurd h hnot, fun h => absurd hhead h.1⟩
  · have hunrooted : Text.unrooted (String.ofList word) = String.ofList word := by
      cases word with
      | nil => rfl
      | cons c rest =>
        have hc : c ≠ '\\' := by simpa using hhead
        simp [Text.unrooted, hc]
    simp [hhead, hunrooted]

lemma isOwnClass_iff_isOwnName {part : DeclaredPart} :
    part.IsOwnClass ↔ part.depth = 0 ∧ IsOwnName (String.ofList part.word) := Iff.rfl

/-! ### Types -/

namespace Ty

/-- What is left of a type when all array layers have been taken off. -/
def core : Ty → Ty
  | .arrayOf t => core t
  | t => t

/-- The type is a class that is called `self` or `static`, below any number of array layers. -/
def LeavesOwnName (t : Ty) : Prop := ∃ name, t.core = .class name ∧ IsOwnName name

lemma core_nested (depth : Nat) (t : Ty) : (nested depth t).core = t.core := by
  induction depth with
  | zero => rfl
  | succ depth ih => rw [nested, core, ih]

lemma leavesOwnName_nested {depth : Nat} {t : Ty} :
    (nested depth t).LeavesOwnName ↔ t.LeavesOwnName := by
  rw [LeavesOwnName, core_nested, LeavesOwnName]

lemma leavesOwnName_ofClass {name : String} :
    (ofClass name).LeavesOwnName ↔ IsOwnName (Text.unrooted name) := by
  simp [LeavesOwnName, ofClass, core]

lemma not_leavesOwnName_of_ofKeyword? {word : String} {t : Ty} (h : ofKeyword? word = some t) :
    ¬t.LeavesOwnName := by
  unfold ofKeyword? at h
  rintro ⟨name, hname, -⟩
  split at h <;> cases h <;> cases hname

/-- Separators in front do not make a reserved word of `self` or `static`. -/
lemma ofBase_eq_ofClass {word : List Char} (h : IsOwnName (Text.unrooted (String.ofList word))) :
    ofBase word = ofClass (String.ofList word) := by
  have hreserved : ∀ text ∈ reservedWords,
      Text.unrooted text ≠ "self" ∧ Text.unrooted text ≠ "static" := by decide
  have hkeyword : ofKeyword? (Text.lowered (String.ofList word)) = none := by
    rw [← Option.not_isSome_iff_eq_none, ofKeyword?_isSome_iff]
    intro hmem
    obtain ⟨hself, hstatic⟩ := hreserved _ hmem
    rw [Text.unrooted_lowered] at hself hstatic
    exact (isOwnName_iff.mp h).elim hself hstatic
  rw [ofBase, hkeyword, Option.getD_none]

lemma leavesOwnName_ofBase {word : List Char} :
    (ofBase word).LeavesOwnName ↔ IsOwnName (Text.unrooted (String.ofList word)) := by
  constructor
  · intro h
    cases hkeyword : ofKeyword? (Text.lowered (String.ofList word)) with
    | some t =>
      rw [ofBase, hkeyword] at h
      exact absurd h (not_leavesOwnName_of_ofKeyword? hkeyword)
    | none =>
      rw [ofBase, hkeyword] at h
      exact leavesOwnName_ofClass.mp h
  · intro h
    rw [ofBase_eq_ofClass h]
    exact leavesOwnName_ofClass.mpr h

end Ty

/-! ### Declarations -/

namespace DeclaredPart

lemma type_of_isOwnClass {part : DeclaredPart} (h : part.IsOwnClass) (owner : String) :
    part.type (some owner) = .ofClass owner := by
  simp [type, h]

/-- With array marks behind it or a separator in front, `self` or `static` is the name of a class. -/
lemma type_of_marked (part : DeclaredPart) (owner : Option String)
    (hname : IsOwnName (Text.unrooted (String.ofList part.word)))
    (hmarked : 0 < part.depth ∨ part.word.head? = some '\\') :
    part.type owner = .nested part.depth (.ofClass (String.ofList part.word)) := by
  have hown : ¬part.IsOwnClass := by
    rw [isOwnClass_iff_isOwnName, isOwnName_ofList_iff]
    rintro ⟨hdepth, hhead, -⟩
    exact hmarked.elim (fun hpos => hpos.ne' hdepth) hhead
  rw [type, if_neg hown, Ty.ofBase_eq_ofClass hname]

/-- In a class with a name of its own, a part leaves `self` or `static` in its type exactly if that is its
word, apart from separators in front, and the part is not only the word. -/
lemma leavesOwnName_type {owner : String} (howner : ¬IsOwnName (Text.unrooted owner))
    (part : DeclaredPart) : (part.type (some owner)).LeavesOwnName ↔
      IsOwnName (Text.unrooted (String.ofList part.word)) ∧
        (0 < part.depth ∨ part.word.head? = some '\\') := by
  by_cases hown : part.IsOwnClass
  · rw [type_of_isOwnClass hown, Ty.leavesOwnName_ofClass]
    obtain ⟨hdepth, hname⟩ := isOwnClass_iff_isOwnName.mp hown
    have hhead := (isOwnName_ofList_iff.mp hname).1
    simp [howner, hdepth, hhead]
  · rw [type, if_neg hown, Ty.leavesOwnName_nested, Ty.leavesOwnName_ofBase]
    rw [isOwnClass_iff_isOwnName, isOwnName_ofList_iff] at hown
    constructor
    · intro hname
      refine ⟨hname, ?_⟩
      by_contra hbare
      obtain ⟨hdepth, hhead⟩ := not_or.mp hbare
      exact hown ⟨Nat.eq_zero_of_not_pos hdepth, hhead, hname⟩
    · exact And.left

end DeclaredPart

namespace TypeSet

lemma mem_iff_of_parse {raw : String} {owner : Option String} {u : TypeSet}
    (hu : parse raw owner = .ok u) {t : Ty} : t ∈ u ↔ ∃ part : DeclaredPart, IsBaseWord part.word ∧
      part.text ∈ declarationParts raw ∧ (t = part.type owner ∨ part.nullable = true ∧ t = .null) := by
  rw [parse_eq_map] at hu
  obtain ⟨read, hread, rfl⟩ := exists_of_map_eq_ok hu
  have hmem : t ∈ ofList read.flatten ↔ ∃ types ∈ read, t ∈ types := by
    rw [← List.mem_flatten]
    exact mem_ofList
  rw [hmem]
  constructor
  · rintro ⟨types, htypes, ht⟩
    obtain ⟨cs, hcs, hcs_types⟩ := exists_of_mem_mapM hread htypes
    obtain ⟨part, hword, rfl, hmeans⟩ := (mem_of_parsePart_iff hcs_types).mp ht
    exact ⟨part, hword, hcs, hmeans⟩
  · rintro ⟨part, hword, hpart, hmeans⟩
    obtain ⟨types, htypes, hpart_types⟩ := exists_mem_of_mapM hread hpart
    exact ⟨types, htypes, (mem_of_parsePart_iff hpart_types).mpr ⟨part, hword, rfl, hmeans⟩⟩

/-- Where `self` or `static` is a part of its own, with or without a question mark, the declaring class is
declared. The types that are left with such a name come from the parts that have array marks behind the
name or separators in front of it, and each of these parts leaves one. -/
theorem own_class_resolved_when_bare (raw owner : String) (u : TypeSet)
    (howner : ¬IsOwnName (Text.unrooted owner)) (hu : parse raw (some owner) = .ok u) :
    (∀ part : DeclaredPart, part.IsOwnClass → part.text ∈ declarationParts raw → .ofClass owner ∈ u) ∧
    ∀ t, (t ∈ u ∧ t.LeavesOwnName) ↔ ∃ part : DeclaredPart, IsBaseWord part.word ∧
      part.text ∈ declarationParts raw ∧ IsOwnName (Text.unrooted (String.ofList part.word)) ∧
      (0 < part.depth ∨ part.word.head? = some '\\') ∧
      t = .nested part.depth (.ofClass (String.ofList part.word)) := by
  constructor
  · intro part hown htext
    have hword := isBaseWord_of_isOwnClass (isOwnClass_iff.mpr hown.2)
    exact (mem_iff_of_parse hu).mpr ⟨part, hword, htext, .inl (DeclaredPart.type_of_isOwnClass hown owner).symm⟩
  · intro t
    constructor
    · rintro ⟨ht, hleaves⟩
      obtain ⟨part, hword, htext, rfl | ⟨-, rfl⟩⟩ := (mem_iff_of_parse hu).mp ht
      · obtain ⟨hname, hmarked⟩ := (part.leavesOwnName_type howner).mp hleaves
        exact ⟨part, hword, htext, hname, hmarked, part.type_of_marked _ hname hmarked⟩
      · obtain ⟨name, hname, -⟩ := hleaves
        cases hname
    · rintro ⟨part, hword, htext, hname, hmarked, rfl⟩
      rw [← part.type_of_marked (some owner) hname hmarked]
      exact ⟨(mem_iff_of_parse hu).mpr ⟨part, hword, htext, .inl rfl⟩,
        (part.leavesOwnName_type howner).mpr ⟨hname, hmarked⟩⟩

/-- One part is resolved, and two are not. -/
theorem own_class_resolved_when_bare_beside :
    ∃ u, parse "?Self|Static[][]| \\\\SELF" (some "\\Widget") = .ok u ∧ .class "Widget" ∈ u ∧
      (.arrayOf (.arrayOf (.class "Static")) ∈ u ∧
        Ty.LeavesOwnName (.arrayOf (.arrayOf (.class "Static")))) ∧
      .class "SELF" ∈ u ∧ Ty.LeavesOwnName (.class "SELF") := by
  let own : DeclaredPart := ⟨true, "Self".toList, 0⟩
  let arrays : DeclaredPart := ⟨false, "Static".toList, 2⟩
  let rooted : DeclaredPart := ⟨false, "\\\\SELF".toList, 0⟩
  have hparts : declarationParts "?Self|Static[][]| \\\\SELF" =
      [own.text, arrays.text, rooted.text] := by decide +kernel
  have harrays : IsBaseWord arrays.word := isClassName_iff_isBaseWord.mp rfl
  have hrooted : IsBaseWord rooted.word := isClassName_iff_isBaseWord.mp rfl
  have hu : parse "?Self|Static[][]| \\\\SELF" (some "\\Widget") =
      .ok (.ofList [.class "Widget", .null, .arrayOf (.arrayOf (.class "Static")), .class "SELF"]) := by
    decide +kernel
  obtain ⟨hresolved, hleft⟩ := own_class_resolved_when_bare _ _ _ (by decide +kernel) hu
  rw [hparts] at hresolved hleft
  refine ⟨_, hu, hresolved own (by decide +kernel) (by simp), ?_, ?_⟩
  · exact (hleft _).mpr ⟨arrays, harrays, by simp, by decide +kernel, .inl (by decide), by decide +kernel⟩
  · exact (hleft _).mpr ⟨rooted, hrooted, by simp, by decide +kernel, .inr rfl, by decide +kernel⟩

/-- The name is not resolved in front of array marks, nor behind a separator. -/
theorem own_class_unresolved :
    parse "self[]" (some "Widget") = .ok (.of (.arrayOf (.class "self"))) ∧
      parse "\\static" (some "Widget") = .ok (.of (.class "static")) := by
  decide +kernel

end TypeSet

end PhpCheck
