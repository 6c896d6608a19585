import PhpCheck.TypeSet.Declaration
import Mathlib.Data.List.Forall2
import Mathlib.Tactic.Lemma

/-!
# Types in writing

A declared type is read into a set of types, and a set of types is written as a declared type. A set that
is written and read again is the same if and only if its members can be declared: a closure cannot, nor a
class whose name has other characters than names have, is a word that stands for something else, or loses
its first character when it is read.
-/

namespace PhpCheck

/-! ### Results that may be errors -/

lemma exists_of_map_eq_ok {ε α β : Type} {f : α → β} {r : Except ε α} {b : β}
    (h : f <$> r = .ok b) : ∃ a, r = .ok a ∧ f a = b := by
  cases r with
  | error e => cases h
  | ok a => exact ⟨a, rfl, by cases h; rfl⟩

lemma mapM_eq_ok_iff {ε α β : Type} {f : α → Except ε β} {l : List α} {bs : List β} :
    l.mapM f = .ok bs ↔ List.Forall₂ (fun a b => f a = .ok b) l bs := by
  induction l generalizing bs with
  | nil => simp [pure, Except.pure, eq_comm]
  | cons a l ih =>
    rw [List.mapM_cons, List.forall₂_cons_left_iff]
    cases ha : f a with
    | error e => simp [bind, Except.bind]
    | ok b =>
      simp only [bind, Except.bind, pure, Except.pure, Except.ok.injEq, ← ih]
      cases hl : l.mapM f with
      | error e => simp
      | ok rest => simp [eq_comm]

lemma exists_of_mem_mapM {ε α β : Type} {f : α → Except ε β} {l : List α} {bs : List β}
    (h : l.mapM f = .ok bs) {b : β} (hb : b ∈ bs) : ∃ a ∈ l, f a = .ok b := by
  have hall := mapM_eq_ok_iff.mp h
  clear h
  induction hall with
  | nil => cases hb
  | cons ha _ ih =>
    rcases List.mem_cons.mp hb with rfl | hb
    · exact ⟨_, List.mem_cons_self .., ha⟩
    · obtain ⟨a, hmem, hfa⟩ := ih hb
      exact ⟨a, List.mem_cons_of_mem _ hmem, hfa⟩

/-! ### What can be declared -/

namespace Ty

/-- The words that do not stand for classes. -/
def reservedWords : List String :=
  ["int", "integer", "float", "double", "string", "bool", "boolean", "true", "false", "null", "array",
    "mixed", "callable", "object", "void", "resource"]

/-- The name of a class as a declared type has it. -/
structure IsDeclaredName (name : String) : Prop where
  ne_nil : name.toList ≠ []
  characters : ∀ c ∈ name.toList, c.isAlphanum = true ∨ c = '_' ∨ c = '\\'
  first : ∀ c ∈ name.toList.head?, c.isDigit = false ∧ c ≠ '\\'
  not_reserved : ∀ word ∈ reservedWords, Text.sameIgnoringCase name word = false

/-- The type can be declared: below the array marks it is no closure and no class but one with the name
of a class. -/
def IsDeclarable : Ty → Prop
  | .class name => IsDeclaredName name
  | .arrayOf element => element.IsDeclarable
  | .closure _ => False
  | _ => True

/-- The type may be the result of reading a declared type. -/
def IsReadable : Ty → Prop
  | .class name => (∀ c ∈ name.toList, isNameChar c = true) ∧ ∀ c ∈ name.toList.head?, c ≠ '\\'
  | .arrayOf element => element.IsReadable
  | .closure _ => False
  | _ => True

lemma isNameChar_iff {c : Char} : isNameChar c = true ↔ c.isAlphanum = true ∨ c = '_' ∨ c = '\\' := by
  simp [isNameChar, or_assoc]

lemma IsDeclarable.isReadable {t : Ty} (h : t.IsDeclarable) : t.IsReadable := by
  induction t with
  | «class» name =>
    refine ⟨fun c hc => isNameChar_iff.mpr (h.characters c hc), fun c hc => (h.first c hc).2⟩
  | arrayOf element ih => exact ih h
  | closure id => exact h
  | _ => trivial

/-! ### Reserved words -/

lemma ofKeyword?_isSome_iff {word : String} : (ofKeyword? word).isSome = true ↔ word ∈ reservedWords := by
  unfold ofKeyword?
  split <;> simp_all [reservedWords]

lemma isDeclarable_of_ofKeyword? {word : String} {t : Ty} (h : ofKeyword? word = some t) :
    t.IsDeclarable := by
  unfold ofKeyword? at h
  split at h <;> cases h <;> trivial

lemma ofKeyword?_lowered_eq_none_iff {name : String} : ofKeyword? (Text.lowered name) = none ↔
    ∀ word ∈ reservedWords, Text.sameIgnoringCase name word = false := by
  have hlowered : ∀ word ∈ reservedWords, Text.lowered word = word := by decide
  rw [← Option.not_isSome_iff_eq_none, ofKeyword?_isSome_iff]
  constructor
  · intro h word hword
    have hne : Text.lowered name ≠ word := fun heq => h (heq ▸ hword)
    simpa [Text.sameIgnoringCase, hlowered word hword] using hne
  · intro h hmem
    have hsame := h _ hmem
    simp [Text.sameIgnoringCase, hlowered _ hmem] at hsame

/-! ### The characters of a type in writing -/

/-- A character that may stand in a readable type. -/
def isTypeChar (c : Char) : Bool := isNameChar c || c == '[' || c == ']'

lemma IsReadable.isTypeChar {t : Ty} (h : t.IsReadable) : ∀ c ∈ t.text.toList, isTypeChar c = true := by
  induction t with
  | «class» name =>
    intro c hc
    simp [Ty.isTypeChar, h.1 c hc]
  | arrayOf element ih =>
    intro c hc
    rw [text, String.toList_append, List.mem_append] at hc
    rcases hc with hc | hc
    · exact ih h c hc
    · have hmarks : "[]".toList.all Ty.isTypeChar = true := rfl
      exact List.all_eq_true.mp hmarks c hc
  | closure id => exact h.elim
  | _ => exact List.all_eq_true.mp rfl

lemma isBlank_of_isTypeChar {c : Char} (h : isTypeChar c = true) : Text.isBlank c = false := by
  have hbounds : (65 ≤ c.toNat ∧ c.toNat ≤ 90) ∨ (97 ≤ c.toNat ∧ c.toNat ≤ 122) ∨
      (48 ≤ c.toNat ∧ c.toNat ≤ 57) ∨ c = '_' ∨ c = '\\' ∨ c = '[' ∨ c = ']' := by
    have hclasses : (decide (65 ≤ c.val ∧ c.val ≤ 90) || (decide (97 ≤ c.val) && decide (c.val ≤ 122)) ||
        (decide (48 ≤ c.val) && decide (c.val ≤ 57)) || c == '_' || c == '\\' || c == '[' ||
        c == ']') = true := h
    simp only [Bool.or_eq_true, Bool.and_eq_true, decide_eq_true_eq, beq_iff_eq,
      UInt32.le_iff_toNat_le, or_assoc] at hclasses
    exact hclasses
  rcases hbounds with h | h | h | rfl | rfl | rfl | rfl
  · simp [Text.isBlank, Text.blankRanges]
    omega
  · simp [Text.isBlank, Text.blankRanges]
    omega
  · simp [Text.isBlank, Text.blankRanges]
    omega
  all_goals decide

/-- Reading takes nothing off the front of a readable type. -/
lemma IsReadable.head?_ne {t : Ty} (h : t.IsReadable) : ∀ c ∈ t.text.toList.head?, c ≠ '\\' := by
  have hall : ∀ o : Option Char, o.all (· != '\\') = true → ∀ c ∈ o, c ≠ '\\' := by
    rintro o ho c rfl
    simpa using ho
  induction t with
  | «class» name => exact h.2
  | arrayOf element ih =>
    rw [text, String.toList_append, List.head?_append]
    cases hhead : element.text.toList.head? with
    | none => exact hall _ rfl
    | some c => simpa [hhead] using ih h
  | closure id => exact h.elim
  | _ => exact hall _ rfl

lemma IsDeclarable.text_ne_nil {t : Ty} (h : t.IsDeclarable) : t.text.toList ≠ [] := by
  induction t with
  | «class» name => exact h.ne_nil
  | arrayOf element ih => simp [text]
  | closure id => exact h.elim
  | _ => decide

/-! ### Reading a single type -/

lemma unrooted_of_head? {name : String} (h : ∀ c ∈ name.toList.head?, c ≠ '\\') :
    Text.unrooted name = name := by
  have hdrop : name.toList.dropWhile (· == '\\') = name.toList := by
    generalize name.toList = l at h
    cases l with
    | nil => rfl
    | cons c rest =>
      have hc : c ≠ '\\' := h c rfl
      simp [hc]
  rw [Text.unrooted, hdrop, String.ofList_toList]

lemma head?_unrooted (name : String) : ∀ c ∈ (Text.unrooted name).toList.head?, c ≠ '\\' := by
  intro c hc hslash
  rw [Text.unrooted, String.toList_ofList] at hc
  have := List.head?_dropWhile_not (· == '\\') name.toList
  simp_all

lemma isClassName_iff {word : List Char} : isClassName word = true ↔
    word ≠ [] ∧ (∀ c ∈ word, isNameChar c = true) ∧ ∀ c ∈ word.head?, c.isDigit = false := by
  cases word with
  | nil => simp [isClassName]
  | cons first rest => simp [isClassName]

lemma ofWord_eq_ok_iff {word : List Char} {t : Ty} : ofWord word = .ok t ↔
    ofKeyword? (Text.lowered (String.ofList word)) = some t ∨
      ofKeyword? (Text.lowered (String.ofList word)) = none ∧ isClassName word = true ∧
        t = ofClass (String.ofList word) := by
  unfold ofWord
  cases ofKeyword? (Text.lowered (String.ofList word)) with
  | some type => simp
  | none =>
    by_cases hname : isClassName word = true
    · simp [hname, eq_comm]
    · simp [hname]

/-- A word with another first character than the separator is read as a type that can be declared. -/
lemma isDeclarable_of_ofWord {word : List Char} {t : Ty} (h : ofWord word = .ok t)
    (hfirst : ∀ c ∈ word.head?, c ≠ '\\') : t.IsDeclarable := by
  rcases ofWord_eq_ok_iff.mp h with hkeyword | ⟨hkeyword, hname, rfl⟩
  · exact isDeclarable_of_ofKeyword? hkeyword
  · obtain ⟨hne, hchars, hdigit⟩ := isClassName_iff.mp hname
    have hroot : Text.unrooted (String.ofList word) = String.ofList word :=
      unrooted_of_head? (by simpa using hfirst)
    rw [ofClass, hroot]
    refine ⟨by simpa using hne, ?_, ?_, ofKeyword?_lowered_eq_none_iff.mp hkeyword⟩
    · intro c hc
      exact isNameChar_iff.mp (hchars c (by simpa using hc))
    · intro c hc
      rw [String.toList_ofList] at hc
      exact ⟨hdigit c hc, hfirst c hc⟩

lemma isReadable_of_ofWord {word : List Char} {t : Ty} (h : ofWord word = .ok t) : t.IsReadable := by
  rcases ofWord_eq_ok_iff.mp h with hkeyword | ⟨-, hname, rfl⟩
  · exact (isDeclarable_of_ofKeyword? hkeyword).isReadable
  · obtain ⟨-, hchars, -⟩ := isClassName_iff.mp hname
    refine ⟨fun c hc => ?_, head?_unrooted _⟩
    rw [Text.unrooted, String.toList_ofList, String.toList_ofList] at hc
    exact hchars c ((List.dropWhile_sublist _).subset hc)

lemma ofWord_of_isDeclaredName {name : String} (h : IsDeclaredName name) :
    ofWord name.toList = .ok (.class name) := by
  have hname : isClassName name.toList = true :=
    isClassName_iff.mpr ⟨h.ne_nil, fun c hc => isNameChar_iff.mpr (h.characters c hc),
      fun c hc => (h.first c hc).1⟩
  have hroot : Text.unrooted name = name := unrooted_of_head? fun c hc => (h.first c hc).2
  rw [ofWord_eq_ok_iff, String.ofList_toList, ofClass, hroot]
  exact .inr ⟨ofKeyword?_lowered_eq_none_iff.mpr h.not_reserved, hname, rfl⟩

lemma isReadable_of_ofReversed {cs : List Char} {t : Ty} (h : ofReversed cs = .ok t) :
    t.IsReadable := by
  fun_induction ofReversed cs generalizing t with
  | case1 rest ih =>
    obtain ⟨element, helement, rfl⟩ := exists_of_map_eq_ok h
    rw [IsReadable]
    exact ih helement
  | case2 rest _ => exact isReadable_of_ofWord h

/-- Marks are only taken off the end, so what is left of a word begins as the word does. -/
lemma isDeclarable_of_ofReversed {cs : List Char} {t : Ty} (h : ofReversed cs = .ok t)
    (hfirst : ∀ c ∈ cs.reverse.head?, c ≠ '\\') : t.IsDeclarable := by
  fun_induction ofReversed cs generalizing t with
  | case1 rest ih =>
    obtain ⟨element, helement, rfl⟩ := exists_of_map_eq_ok h
    rw [IsDeclarable]
    refine ih helement fun c hc => hfirst c ?_
    simp only [List.reverse_cons, List.append_assoc, List.head?_append]
    simp [Option.mem_def.mp hc]
  | case2 rest _ => exact isDeclarable_of_ofWord h hfirst

/-- What can be declared is read as it is written. -/
lemma parse_text_of_isDeclarable {t : Ty} (h : t.IsDeclarable) : parse t.text.toList = .ok t := by
  unfold parse
  induction t with
  | «class» name =>
    rw [text, ofReversed]
    · rw [List.reverse_reverse]
      exact ofWord_of_isDeclaredName h
    · intro rest hrest
      have hmark : ']' ∈ name.toList := by
        rw [← List.mem_reverse, hrest]
        exact List.mem_cons_self ..
      have := h.characters ']' hmark
      revert this
      decide
  | arrayOf element ih =>
    have hreverse : (element.text ++ "[]").toList.reverse = ']' :: '[' :: element.text.toList.reverse := by
      simp
    rw [text, hreverse, ofReversed, ih h]
    rfl
  | closure id => exact h.elim
  | _ => rfl

end Ty

/-! ### Reading a set of types -/

lemma Text.pieces_eq_splitOn (separator : Char) (cs : List Char) :
    pieces separator cs = cs.splitOn separator := by
  induction cs with
  | nil => rfl
  | cons c rest ih =>
    have hsplit : (c :: rest).splitOn separator = if (c == separator) = true then
        [] :: rest.splitOn separator else (rest.splitOn separator).modifyHead (List.cons c) :=
      List.splitOnP_cons_eq_if_modifyHead c rest
    rw [pieces, ih, hsplit]
    cases hrest : rest.splitOn separator with
    | nil => exact absurd hrest (List.splitOn_ne_nil _ _)
    | cons piece more => simp

lemma Text.trim_eq_self {cs : List Char} (h : ∀ c ∈ cs, isBlank c = false) : trim cs = cs := by
  have hdrop : ∀ l : List Char, (∀ c ∈ l, isBlank c = false) → l.dropWhile isBlank = l := by
    intro l hl
    cases l with
    | nil => rfl
    | cons c rest => simp [hl c (List.mem_cons_self ..)]
  have hreverse : ∀ c ∈ cs.reverse, isBlank c = false := fun c hc => h c (List.mem_reverse.mp hc)
  rw [trim, hdrop cs h, hdrop cs.reverse hreverse, List.reverse_reverse]

namespace TypeSet

/-- The bars of a written set stand between its members. -/
lemma declarationParts_text {u : TypeSet} (h : ∀ t ∈ u.members, t.IsReadable) :
    declarationParts u.text =
      (u.members.map fun t => t.text.toList).filter fun part => !part.isEmpty := by
  have hchars : ∀ t ∈ u.members, ∀ c ∈ t.text.toList, Ty.isTypeChar c = true :=
    fun t ht => (h t ht).isTypeChar
  have hlist : u.text.toList = ['|'].intercalate (u.members.map fun t => t.text.toList) := by
    rw [text, String.toList_intercalate, List.map_map]
    rfl
  rw [declarationParts, hlist, Text.pieces_eq_splitOn]
  by_cases hempty : u.members = []
  · rw [hempty]
    rfl
  · rw [List.splitOn_intercalate]
    · congr 1
      rw [List.map_map]
      refine List.map_congr_left fun t ht => Text.trim_eq_self fun c hc => ?_
      exact Ty.isBlank_of_isTypeChar (hchars t ht c hc)
    · intro part hpart hbar
      obtain ⟨t, ht, rfl⟩ := List.mem_map.mp hpart
      exact absurd (hchars t ht '|' hbar) (by decide)
    · simpa using hempty

lemma parsePart_text {t : Ty} (h : t.IsReadable) :
    parsePart none t.text.toList = (fun u => [u]) <$> Ty.parse t.text.toList := by
  have hquestion : '?' ∉ t.text.toList := fun hmem => absurd (h.isTypeChar '?' hmem) (by decide)
  unfold parsePart
  split
  · rename_i word hword
    rw [hword] at hquestion
    exact absurd (List.mem_cons_self ..) hquestion
  · simp only [parseWord, bind_pure_comp]

lemma parse_eq_map (raw : String) (owner : Option String) : parse raw owner =
    (fun parts => ofList parts.flatten) <$> (declarationParts raw).mapM (parsePart owner) :=
  bind_pure_comp _ _

/-- Without a class to refer to, only readable types are read. -/
lemma isReadable_of_parsePart {part : List Char} {types : List Ty} (h : parsePart none part = .ok types) :
    ∀ t ∈ types, t.IsReadable := by
  unfold parsePart at h
  split at h
  · rw [bind_pure_comp] at h
    obtain ⟨t, ht, rfl⟩ := exists_of_map_eq_ok h
    have hreadable : t.IsReadable := Ty.isReadable_of_ofReversed ht
    simpa using ⟨hreadable, trivial⟩
  · rw [bind_pure_comp] at h
    obtain ⟨t, ht, rfl⟩ := exists_of_map_eq_ok h
    simpa using Ty.isReadable_of_ofReversed ht

lemma isReadable_of_parse {raw : String} {u : TypeSet} (h : parse raw none = .ok u) :
    ∀ t ∈ u.members, t.IsReadable := by
  rw [parse_eq_map] at h
  obtain ⟨parts, hparts, rfl⟩ := exists_of_map_eq_ok h
  intro t ht
  obtain ⟨types, htypes, ht⟩ := List.mem_flatten.mp (mem_ofList.mp ht)
  obtain ⟨part, -, hpart⟩ := exists_of_mem_mapM hparts htypes
  exact isReadable_of_parsePart hpart t ht

/-- A set of types is read as it is written if and only if its members can be declared. -/
theorem parse_text_eq_ok_iff (u : TypeSet) :
    parse u.text none = .ok u ↔ ∀ t ∈ u.members, t.IsDeclarable := by
  constructor
  · intro h t ht
    have hreadable := isReadable_of_parse h
    rw [parse_eq_map, declarationParts_text hreadable] at h
    obtain ⟨parts, hparts, hu⟩ := exists_of_map_eq_ok h
    rw [← hu, mem_ofList] at ht
    obtain ⟨types, htypes, ht⟩ := List.mem_flatten.mp ht
    -- the part that the member is read from is itself the writing of a readable type
    obtain ⟨part, hpart, hread⟩ := exists_of_mem_mapM hparts htypes
    obtain ⟨source, hsource, rfl⟩ := List.mem_map.mp (List.mem_filter.mp hpart).1
    have hsource := hreadable source hsource
    rw [parsePart_text hsource] at hread
    obtain ⟨t', ht', rfl⟩ := exists_of_map_eq_ok hread
    rw [List.mem_singleton.mp ht]
    apply Ty.isDeclarable_of_ofReversed ht'
    rw [List.reverse_reverse]
    exact hsource.head?_ne
  · intro h
    have hreadable : ∀ t ∈ u.members, t.IsReadable := fun t ht => (h t ht).isReadable
    have hnonempty : ∀ part ∈ u.members.map (fun t => t.text.toList), (!part.isEmpty) = true := by
      intro part hpart
      obtain ⟨t, ht, rfl⟩ := List.mem_map.mp hpart
      simpa using (h t ht).text_ne_nil
    have hparts : (u.members.map fun t => t.text.toList).mapM (parsePart none) =
        .ok (u.members.map fun t => [t]) := by
      rw [mapM_eq_ok_iff, List.forall₂_map_left_iff, List.forall₂_map_right_iff, List.forall₂_same]
      intro t ht
      rw [parsePart_text (hreadable t ht), Ty.parse_text_of_isDeclarable (h t ht)]
      rfl
    rw [parse_eq_map, declarationParts_text hreadable, List.filter_eq_self.mpr hnonempty, hparts]
    have hsame : ofList (u.members.map fun t => [t]).flatten = u := ext_members (by simp)
    exact congrArg Except.ok hsame

end TypeSet

end PhpCheck
