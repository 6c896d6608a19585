import PhpCheck.Proofs.TypeText

/-!
# The grammar of declared types

Every part of a declared type can be taken apart into a question mark, a word and array marks. It is
read if and only if the word is a base word, and then it means what the word means below as many array
types as there are marks; otherwise the word is what the error names.
-/

namespace PhpCheck

/-! ### Results that may be errors -/

section Errors

variable {ε α β : Type} {f : α → Except ε β} {l : List α}

lemma exists_mem_of_mapM {bs : List β} (h : l.mapM f = .ok bs) {a : α} (ha : a ∈ l) :
    ∃ b ∈ bs, f a = .ok b := by
  have hall := mapM_eq_ok_iff.mp h
  clear h
  induction hall with
  | nil => cases ha
  | cons hfirst _ ih =>
    rcases List.mem_cons.mp ha with rfl | ha
    · exact ⟨_, List.mem_cons_self .., hfirst⟩
    · obtain ⟨b, hb, hfa⟩ := ih ha
      exact ⟨b, List.mem_cons_of_mem _ hb, hfa⟩

lemma exists_mapM_eq_ok (h : ∀ a ∈ l, ∃ b, f a = .ok b) : ∃ bs, l.mapM f = .ok bs := by
  induction l with
  | nil => exact ⟨[], rfl⟩
  | cons a l ih =>
    obtain ⟨b, hb⟩ := h a (List.mem_cons_self ..)
    obtain ⟨bs, hbs⟩ := ih fun x hx => h x (List.mem_cons_of_mem _ hx)
    refine ⟨b :: bs, ?_⟩
    rw [List.mapM_cons, hb, hbs]
    rfl

/-- The error is that of the first element that has one. -/
lemma mapM_eq_error_iff {e : ε} : l.mapM f = .error e ↔ ∃ before a after,
    l = before ++ a :: after ∧ (∀ x ∈ before, ∃ b, f x = .ok b) ∧ f a = .error e := by
  constructor
  · intro h
    induction l with
    | nil => cases h
    | cons a l ih =>
      rw [List.mapM_cons] at h
      cases ha : f a with
      | error e' =>
        rw [ha] at h
        cases h
        exact ⟨[], a, l, rfl, by simp, ha⟩
      | ok b =>
        have hrest : l.mapM f = .error e := by
          cases hl : l.mapM f with
          | error e' => simpa [ha, hl, bind, Except.bind] using h
          | ok bs => simp [ha, hl, bind, Except.bind, pure, Except.pure] at h
        obtain ⟨before, x, after, rfl, hbefore, hx⟩ := ih hrest
        exact ⟨a :: before, x, after, rfl, List.forall_mem_cons.mpr ⟨⟨b, ha⟩, hbefore⟩, hx⟩
  · rintro ⟨before, a, after, rfl, hbefore, ha⟩
    obtain ⟨bs, hbs⟩ := exists_mapM_eq_ok hbefore
    rw [List.mapM_append, hbs, List.mapM_cons, ha]
    rfl

end Errors

/-! ### Parts taken apart -/

/-- A word that array marks and a question mark may stand around. -/
structure IsBaseWord (word : List Char) : Prop where
  ne_nil : word ≠ []
  characters : ∀ c ∈ word, c.isAlphanum = true ∨ c = '_' ∨ c = '\\'
  first : ∀ c ∈ word.head?, c.isDigit = false

/-- So many times `[]`. -/
def arrayMarks (depth : Nat) : List Char := (List.replicate depth ['[', ']']).flatten

namespace Ty

/-- The type of arrays of arrays, so many levels deep, of values of the type. -/
def nested : Nat → Ty → Ty
  | 0, t => t
  | depth + 1, t => .arrayOf (nested depth t)

/-- What a base word means: a reserved word in any case of letters its type, any other word the class
of that name. -/
def ofBase (word : List Char) : Ty :=
  (ofKeyword? (Text.lowered (String.ofList word))).getD (ofClass (String.ofList word))

end Ty

/-- A part of a declared type. -/
structure DeclaredPart where
  /-- Whether there is a question mark in front. -/
  nullable : Bool
  word : List Char
  /-- How many array marks there are behind. -/
  depth : Nat

namespace DeclaredPart

/-- How the part is written. -/
def text (part : DeclaredPart) : List Char :=
  (if part.nullable then ['?'] else []) ++ (part.word ++ arrayMarks part.depth)

/-- The word is `self` or `static`, and there are no array marks. -/
def IsOwnClass (part : DeclaredPart) : Prop :=
  part.depth = 0 ∧ (Text.sameIgnoringCase (String.ofList part.word) "self" = true ∨
    Text.sameIgnoringCase (String.ofList part.word) "static" = true)

instance (part : DeclaredPart) : Decidable part.IsOwnClass := instDecidableAnd

/-- The type that the part stands for, the question mark aside. In a class, `self` and `static` mean
that class. -/
def type (owner : Option String) (part : DeclaredPart) : Ty :=
  if part.IsOwnClass then (owner.map Ty.ofClass).getD (Ty.ofBase part.word)
  else Ty.nested part.depth (Ty.ofBase part.word)

/-- The text is that of a part with a base word. -/
def Writes (cs : List Char) : Prop := ∃ part : DeclaredPart, IsBaseWord part.word ∧ part.text = cs

/-- One question mark has been taken off the front, if there was one, and all array marks off the end. -/
structure IsStripped (part : DeclaredPart) : Prop where
  question : part.nullable = false → part.text.head? ≠ some '?'
  marks : ¬['[', ']'] <:+ part.word

end DeclaredPart

/-! ### Base words -/

lemma isClassName_iff_isBaseWord {word : List Char} :
    Ty.isClassName word = true ↔ IsBaseWord word := by
  rw [Ty.isClassName_iff]
  simp only [Ty.isNameChar_iff]
  exact ⟨fun h => ⟨h.1, h.2.1, h.2.2⟩, fun h => ⟨h.ne_nil, h.characters, h.first⟩⟩

lemma isAlpha_of_toLower {c : Char} (h : c.toLower.isAlpha = true) : c.isAlpha = true := by
  by_cases hupper : c.val ≥ 'A'.val ∧ c.val ≤ 'Z'.val
  · have hisUpper : c.isUpper = true := decide_eq_true hupper
    exact Bool.or_eq_true_iff.mpr (.inl hisUpper)
  · have hsame : c.toLower = c := dif_neg hupper
    rwa [hsame] at h

lemma isDigit_of_isAlpha {c : Char} (h : c.isAlpha = true) : c.isDigit = false := by
  have hletter : (65 ≤ c.toNat ∧ c.toNat ≤ 90) ∨ (97 ≤ c.toNat ∧ c.toNat ≤ 122) := by
    have hclasses : (decide (65 ≤ c.val ∧ c.val ≤ 90) ||
        (decide (97 ≤ c.val) && decide (c.val ≤ 122))) = true := h
    simp only [Bool.or_eq_true, Bool.and_eq_true, decide_eq_true_eq, UInt32.le_iff_toNat_le] at hclasses
    exact hclasses
  by_contra hdigit
  have hbounds : 48 ≤ c.toNat ∧ c.toNat ≤ 57 := by
    have hclass : (decide (48 ≤ c.val) && decide (c.val ≤ 57)) = true :=
      eq_true_of_ne_false hdigit
    simp only [Bool.and_eq_true, decide_eq_true_eq, UInt32.le_iff_toNat_le] at hclass
    exact hclass
  omega

/-- A word that has only letters when its capitals are made small is a base word. -/
lemma isBaseWord_of_lowered {word : List Char} {text : String}
    (h : Text.lowered (String.ofList word) = text) (hne : text.toList ≠ [])
    (hletters : text.toList.all Char.isAlpha = true) : IsBaseWord word := by
  have hmap : word.map Char.toLower = text.toList := by
    rw [← h, Text.lowered, String.toList_ofList, String.toList_ofList]
  have halpha : ∀ c ∈ word, c.isAlpha = true := by
    intro c hc
    apply isAlpha_of_toLower
    apply List.all_eq_true.mp hletters
    rw [← hmap]
    exact List.mem_map_of_mem hc
  constructor
  · rintro rfl
    exact hne hmap.symm
  · intro c hc
    exact .inl (Bool.or_eq_true_iff.mpr (.inl (halpha c hc)))
  · intro c hc
    exact isDigit_of_isAlpha (halpha c (List.mem_of_mem_head? hc))

lemma isBaseWord_of_ofKeyword? {word : List Char} {t : Ty}
    (h : Ty.ofKeyword? (Text.lowered (String.ofList word)) = some t) : IsBaseWord word := by
  have hreserved : Text.lowered (String.ofList word) ∈ Ty.reservedWords :=
    Ty.ofKeyword?_isSome_iff.mp (by rw [h]; rfl)
  have hletters : Ty.reservedWords.all
      (fun text => !text.toList.isEmpty && text.toList.all Char.isAlpha) = true := by decide
  have hword := List.all_eq_true.mp hletters _ hreserved
  rw [Bool.and_eq_true] at hword
  exact isBaseWord_of_lowered rfl (by simpa using hword.1) hword.2

lemma Ty.ofWord_eq (word : List Char) : Ty.ofWord word =
    if Ty.isClassName word then .ok (Ty.ofBase word) else .error (.invalidType (String.ofList word)) := by
  unfold Ty.ofWord Ty.ofBase
  cases hkeyword : Ty.ofKeyword? (Text.lowered (String.ofList word)) with
  | some t =>
    have hbase := isClassName_iff_isBaseWord.mpr (isBaseWord_of_ofKeyword? hkeyword)
    exact (if_pos hbase).symm
  | none => rfl

lemma IsBaseWord.bracket_not_mem {word : List Char} (h : IsBaseWord word) : ']' ∉ word := by
  intro hmem
  have := h.characters ']' hmem
  revert this
  decide

lemma IsBaseWord.not_suffix {word : List Char} (h : IsBaseWord word) : ¬['[', ']'] <:+ word :=
  fun hsuffix => h.bracket_not_mem (hsuffix.subset (by simp))

/-! ### Array marks -/

lemma arrayMarks_succ (depth : Nat) : arrayMarks (depth + 1) = arrayMarks depth ++ ['[', ']'] := by
  simp [arrayMarks, List.replicate_succ']

lemma exists_eq_append_arrayMarks (cs : List Char) :
    ∃ word depth, cs = word ++ arrayMarks depth ∧ ¬['[', ']'] <:+ word := by
  induction hlength : cs.length using Nat.strongRecOn generalizing cs with
  | ind length ih =>
    by_cases hmarks : ['[', ']'] <:+ cs
    · obtain ⟨front, rfl⟩ := hmarks
      have hshorter : front.length < length := by
        rw [← hlength, List.length_append]
        exact Nat.lt_add_of_pos_right (by decide)
      obtain ⟨word, depth, rfl, hword⟩ := ih _ hshorter front rfl
      refine ⟨word, depth + 1, ?_, hword⟩
      rw [arrayMarks_succ, List.append_assoc]
    · exact ⟨cs, 0, by simp [arrayMarks], hmarks⟩

namespace Ty

lemma parse_of_not_suffix {word : List Char} (h : ¬['[', ']'] <:+ word) : parse word = ofWord word := by
  rw [parse, ofReversed]
  · rw [List.reverse_reverse]
  · intro rest hrest
    apply h
    refine ⟨rest.reverse, ?_⟩
    rw [← List.reverse_inj, hrest]
    simp

lemma parse_append_arrayMarks (word : List Char) (depth : Nat) :
    parse (word ++ arrayMarks depth) = nested depth <$> parse word := by
  induction depth with
  | zero =>
    have hnone : word ++ arrayMarks 0 = word := by simp [arrayMarks]
    rw [hnone]
    cases parse word with
    | error e => rfl
    | ok t => rfl
  | succ depth ih =>
    have hreverse : (word ++ arrayMarks (depth + 1)).reverse =
        ']' :: '[' :: (word ++ arrayMarks depth).reverse := by
      rw [arrayMarks_succ]
      simp
    have hstep : parse (word ++ arrayMarks (depth + 1)) =
        arrayOf <$> parse (word ++ arrayMarks depth) := by
      rw [parse, hreverse, ofReversed, parse]
    rw [hstep, ih]
    cases parse word with
    | error e => rfl
    | ok t => rfl

end Ty

/-! ### Reading a part -/

namespace TypeSet

lemma isOwnClass_iff {word : List Char} : isOwnClass word = true ↔
    Text.sameIgnoringCase (String.ofList word) "self" = true ∨
      Text.sameIgnoringCase (String.ofList word) "static" = true := by
  have hself : Text.lowered "self" = "self" := by decide
  have hstatic : Text.lowered "static" = "static" := by decide
  simp only [Text.sameIgnoringCase, hself, hstatic, beq_iff_eq]
  unfold isOwnClass
  split <;> simp_all

lemma isBaseWord_of_isOwnClass {word : List Char} (h : isOwnClass word = true) : IsBaseWord word := by
  unfold isOwnClass at h
  split at h
  · rename_i htext
    exact isBaseWord_of_lowered htext (by decide) (by decide)
  · rename_i htext
    exact isBaseWord_of_lowered htext (by decide) (by decide)
  · cases h

/-- Behind `self` and `static` there are no array marks. -/
lemma isOwnClass_append_arrayMarks {part : DeclaredPart} :
    isOwnClass (part.word ++ arrayMarks part.depth) = true ↔ part.IsOwnClass := by
  rw [DeclaredPart.IsOwnClass, ← isOwnClass_iff]
  by_cases hdepth : part.depth = 0
  · simp [hdepth, arrayMarks]
  · obtain ⟨depth, hsucc⟩ := Nat.exists_eq_succ_of_ne_zero hdepth
    have hmark : ']' ∈ part.word ++ arrayMarks part.depth := by
      rw [hsucc, Nat.succ_eq_add_one, arrayMarks_succ]
      simp
    have hnot : ¬isOwnClass (part.word ++ arrayMarks part.depth) = true :=
      fun h => (isBaseWord_of_isOwnClass h).bracket_not_mem hmark
    simp [hnot, hdepth]

lemma parseWord_append_arrayMarks (owner : Option String) {part : DeclaredPart}
    (h : ¬['[', ']'] <:+ part.word) :
    parseWord owner (part.word ++ arrayMarks part.depth) =
      if Ty.isClassName part.word then .ok (part.type owner)
      else .error (.invalidType (String.ofList part.word)) := by
  have hparse : Ty.parse (part.word ++ arrayMarks part.depth) =
      if Ty.isClassName part.word then .ok (Ty.nested part.depth (Ty.ofBase part.word))
      else .error (.invalidType (String.ofList part.word)) := by
    rw [Ty.parse_append_arrayMarks, Ty.parse_of_not_suffix h, Ty.ofWord_eq]
    split
    · rfl
    · rfl
  by_cases hown : part.IsOwnClass
  · have hword : Ty.isClassName part.word = true :=
      isClassName_iff_isBaseWord.mpr (isBaseWord_of_isOwnClass (isOwnClass_iff.mpr hown.2))
    rw [DeclaredPart.type, if_pos hown, if_pos hword]
    cases owner with
    | none =>
      rw [parseWord, hparse, if_pos hword, hown.1]
      rfl
    | some name =>
      rw [parseWord, if_pos (isOwnClass_append_arrayMarks.mpr hown)]
      rfl
  · rw [DeclaredPart.type, if_neg hown, ← hparse]
    cases owner with
    | none => rfl
    | some name => rw [parseWord, if_neg (mt isOwnClass_append_arrayMarks.mp hown)]

lemma parsePart_text_of_isStripped (owner : Option String) {part : DeclaredPart} (h : part.IsStripped) :
    parsePart owner part.text =
      if Ty.isClassName part.word then
        .ok (part.type owner :: if part.nullable then [.null] else [])
      else .error (.invalidType (String.ofList part.word)) := by
  have hword := parseWord_append_arrayMarks owner h.marks
  cases hnullable : part.nullable with
  | true =>
    have htext : part.text = '?' :: (part.word ++ arrayMarks part.depth) := by
      simp [DeclaredPart.text, hnullable]
    rw [htext, parsePart, hword]
    split
    · rfl
    · rfl
  | false =>
    have htext : part.text = part.word ++ arrayMarks part.depth := by
      simp [DeclaredPart.text, hnullable]
    have hquestion := h.question hnullable
    rw [htext] at hquestion ⊢
    rw [parsePart, hword]
    · split
      · rfl
      · rfl
    · intro rest hrest
      rw [hrest] at hquestion
      exact hquestion rfl

end TypeSet

namespace DeclaredPart

lemma exists_isStripped (cs : List Char) : ∃ part : DeclaredPart, part.IsStripped ∧ part.text = cs := by
  by_cases hquestion : cs.head? = some '?'
  · obtain ⟨rest, rfl⟩ : ∃ rest, cs = '?' :: rest := List.head?_eq_some_iff.mp hquestion
    obtain ⟨word, depth, rfl, hmarks⟩ := exists_eq_append_arrayMarks rest
    exact ⟨⟨true, word, depth⟩, ⟨by simp, hmarks⟩, rfl⟩
  · obtain ⟨word, depth, rfl, hmarks⟩ := exists_eq_append_arrayMarks cs
    exact ⟨⟨false, word, depth⟩, ⟨fun _ => hquestion, hmarks⟩, rfl⟩

lemma isStripped_of_isBaseWord {part : DeclaredPart} (h : IsBaseWord part.word) : part.IsStripped := by
  refine ⟨fun hnullable hhead => ?_, h.not_suffix⟩
  obtain ⟨c, rest, hword⟩ := List.exists_cons_of_ne_nil h.ne_nil
  have hc : c = '?' := by simpa [text, hnullable, hword] using hhead
  have := h.characters c (by rw [hword]; exact List.mem_cons_self ..)
  rw [hc] at this
  revert this
  decide

end DeclaredPart

namespace TypeSet

lemma parsePart_of_isBaseWord (owner : Option String) {part : DeclaredPart} (h : IsBaseWord part.word) :
    parsePart owner part.text = .ok (part.type owner :: if part.nullable then [.null] else []) := by
  rw [parsePart_text_of_isStripped owner (DeclaredPart.isStripped_of_isBaseWord h),
    if_pos (isClassName_iff_isBaseWord.mpr h)]

lemma exists_parsePart_eq_ok_iff {owner : Option String} {cs : List Char} :
    (∃ types, parsePart owner cs = .ok types) ↔ DeclaredPart.Writes cs := by
  constructor
  · rintro ⟨types, htypes⟩
    obtain ⟨part, hstripped, rfl⟩ := DeclaredPart.exists_isStripped cs
    rw [parsePart_text_of_isStripped owner hstripped] at htypes
    split at htypes
    · rename_i hword
      exact ⟨part, isClassName_iff_isBaseWord.mp hword, rfl⟩
    · cases htypes
  · rintro ⟨part, hword, rfl⟩
    exact ⟨_, parsePart_of_isBaseWord owner hword⟩

lemma parsePart_eq_error_iff {owner : Option String} {cs : List Char} {e : LoadError} :
    parsePart owner cs = .error e ↔ ¬DeclaredPart.Writes cs ∧ ∃ part : DeclaredPart,
      part.IsStripped ∧ part.text = cs ∧ e = .invalidType (String.ofList part.word) := by
  have hstripped_error : ∀ part : DeclaredPart, part.IsStripped → ¬DeclaredPart.Writes part.text →
      parsePart owner part.text = .error (.invalidType (String.ofList part.word)) := by
    intro part hstripped hwrites
    have hword : ¬Ty.isClassName part.word = true :=
      fun hword => hwrites ⟨part, isClassName_iff_isBaseWord.mp hword, rfl⟩
    rw [parsePart_text_of_isStripped owner hstripped, if_neg hword]
  constructor
  · intro h
    have hwrites : ¬DeclaredPart.Writes cs := by
      intro hwrites
      obtain ⟨types, htypes⟩ := exists_parsePart_eq_ok_iff.mpr hwrites
      rw [h] at htypes
      cases htypes
    obtain ⟨part, hstripped, rfl⟩ := DeclaredPart.exists_isStripped cs
    rw [hstripped_error part hstripped hwrites] at h
    cases h
    exact ⟨hwrites, part, hstripped, rfl, rfl⟩
  · rintro ⟨hwrites, part, hstripped, rfl, rfl⟩
    exact hstripped_error part hstripped hwrites

lemma mem_of_parsePart_iff {owner : Option String} {cs : List Char} {types : List Ty}
    (h : parsePart owner cs = .ok types) {t : Ty} : t ∈ types ↔ ∃ part : DeclaredPart,
      IsBaseWord part.word ∧ part.text = cs ∧ (t = part.type owner ∨ part.nullable = true ∧ t = .null) := by
  constructor
  · intro ht
    obtain ⟨part, hword, rfl⟩ := exists_parsePart_eq_ok_iff.mp ⟨types, h⟩
    rw [parsePart_of_isBaseWord owner hword] at h
    cases h
    exact ⟨part, hword, rfl, by simpa using ht⟩
  · rintro ⟨part, hword, rfl, ht⟩
    rw [parsePart_of_isBaseWord owner hword] at h
    cases h
    simpa using ht

/-- A declared type is read if and only if every part between its bars, without the blanks around it, is
a base word with array marks behind it and at most one question mark in front. What is read are the
types that the parts stand for, and `null` if there is a question mark. The error names the first part
that is of another form, without one question mark in front and without all array marks behind. -/
theorem declared_types_read_by_grammar (raw : String) (owner : Option String) :
    let parts := ((raw.toList.splitOn '|').map Text.trim).filter fun cs => !cs.isEmpty
    ((∃ u, parse raw owner = .ok u) ↔ ∀ cs ∈ parts, DeclaredPart.Writes cs) ∧
    (∀ u, parse raw owner = .ok u → ∀ t, t ∈ u ↔ ∃ part : DeclaredPart, IsBaseWord part.word ∧
      part.text ∈ parts ∧ (t = part.type owner ∨ part.nullable = true ∧ t = .null)) ∧
    ∀ e, parse raw owner = .error e ↔ ∃ (before : List (List Char)) (part : DeclaredPart)
      (after : List (List Char)), parts = before ++ part.text :: after ∧
      (∀ cs ∈ before, DeclaredPart.Writes cs) ∧ ¬DeclaredPart.Writes part.text ∧ part.IsStripped ∧
      e = .invalidType (String.ofList part.word) := by
  intro parts
  have hparts : declarationParts raw = parts := by rw [declarationParts, Text.pieces_eq_splitOn]
  rw [parse_eq_map, hparts]
  refine ⟨?_, ?_, ?_⟩
  · constructor
    · rintro ⟨u, hu⟩ cs hcs
      obtain ⟨read, hread, -⟩ := exists_of_map_eq_ok hu
      obtain ⟨types, -, htypes⟩ := exists_mem_of_mapM hread hcs
      exact exists_parsePart_eq_ok_iff.mp ⟨types, htypes⟩
    · intro hwrites
      obtain ⟨read, hread⟩ := exists_mapM_eq_ok fun cs hcs =>
        exists_parsePart_eq_ok_iff.mpr (hwrites cs hcs)
      rw [hread]
      exact ⟨_, rfl⟩
  · intro u hu t
    obtain ⟨read, hread, rfl⟩ := exists_of_map_eq_ok hu
    have hmem : t ∈ ofList read.flatten ↔ ∃ types ∈ read, t ∈ types := by
      rw [← List.mem_flatten]
      exact mem_ofList
    rw [hmem]
    constructor
    · rintro ⟨types, htypes, ht⟩
      obtain ⟨cs, hcs, hcs_types⟩ := exists_of_mem_mapM hread htypes
      obtain ⟨part, hword, rfl, hmeans⟩ := (mem_of_parsePart_iff hcs_types).mp ht
      exact ⟨part, hword, hcs, hmeans⟩
    · rintro ⟨part, hword, hpart, hmeans⟩
      obtain ⟨types, htypes, hpart_types⟩ := exists_mem_of_mapM hread hpart
      exact ⟨types, htypes, (mem_of_parsePart_iff hpart_types).mpr ⟨part, hword, rfl, hmeans⟩⟩
  · intro e
    have herror : (fun read => ofList read.flatten) <$> parts.mapM (parsePart owner) = .error e ↔
        parts.mapM (parsePart owner) = .error e := by
      cases parts.mapM (parsePart owner) with
      | error e' =>
        constructor
        · intro h
          cases h
          rfl
        · intro h
          cases h
          rfl
      | ok read =>
        constructor
        · intro h
          cases h
        · intro h
          cases h
    rw [herror, mapM_eq_error_iff]
    simp only [exists_parsePart_eq_ok_iff, parsePart_eq_error_iff]
    constructor
    · rintro ⟨before, cs, after, hsplit, hbefore, hwrites, part, hstripped, rfl, he⟩
      exact ⟨before, part, after, hsplit, hbefore, hwrites, hstripped, he⟩
    · rintro ⟨before, part, after, hsplit, hbefore, hwrites, hstripped, he⟩
      exact ⟨before, part.text, after, hsplit, hbefore, hwrites, part, hstripped, rfl, he⟩

/-- Blanks are dropped around a part only, and the part that is named is the first one that is no type. -/
theorem declared_types_read_by_grammar_mixed :
    (∃ u, parse " ?INT[] || \\A|Self" (some "\\C") = .ok u ∧
      .arrayOf .int ∈ u ∧ .null ∈ u ∧ .class "A" ∈ u ∧ .class "C" ∈ u) ∧
    parse " ?SELF ||? se-lf[][]|+" (some "A") = .error (.invalidType " se-lf") := by
  constructor
  · let ints : DeclaredPart := ⟨true, "INT".toList, 1⟩
    let named : DeclaredPart := ⟨false, "\\A".toList, 0⟩
    let own : DeclaredPart := ⟨false, "Self".toList, 0⟩
    have hints : IsBaseWord ints.word := isClassName_iff_isBaseWord.mp rfl
    have hnamed : IsBaseWord named.word := isClassName_iff_isBaseWord.mp rfl
    have hown : IsBaseWord own.word := isClassName_iff_isBaseWord.mp rfl
    have hparts : (((" ?INT[] || \\A|Self".toList.splitOn '|').map Text.trim).filter
        fun cs => !cs.isEmpty) = [ints.text, named.text, own.text] := by decide +kernel
    have hgrammar := declared_types_read_by_grammar " ?INT[] || \\A|Self" (some "\\C")
    rw [hparts] at hgrammar
    obtain ⟨hok, hmembers, -⟩ := hgrammar
    have hwrites : ∀ cs ∈ [ints.text, named.text, own.text], DeclaredPart.Writes cs := by
      simp only [List.mem_cons, List.not_mem_nil, or_false, forall_eq_or_imp, forall_eq]
      exact ⟨⟨ints, hints, rfl⟩, ⟨named, hnamed, rfl⟩, ⟨own, hown, rfl⟩⟩
    obtain ⟨u, hu⟩ := hok.mpr hwrites
    refine ⟨u, hu, ?_, ?_, ?_, ?_⟩
    · exact (hmembers u hu _).mpr ⟨ints, hints, by simp, .inl (by decide +kernel)⟩
    · exact (hmembers u hu _).mpr ⟨ints, hints, by simp, .inr ⟨rfl, rfl⟩⟩
    · exact (hmembers u hu _).mpr ⟨named, hnamed, by simp, .inl (by decide +kernel)⟩
    · exact (hmembers u hu _).mpr ⟨own, hown, by simp, .inl (by decide +kernel)⟩
  · let own : DeclaredPart := ⟨true, "SELF".toList, 0⟩
    let wrong : DeclaredPart := ⟨true, " se-lf".toList, 2⟩
    have hparts : (((" ?SELF ||? se-lf[][]|+".toList.splitOn '|').map Text.trim).filter
        fun cs => !cs.isEmpty) = [own.text] ++ wrong.text :: ["+".toList] := by decide +kernel
    have hgrammar := declared_types_read_by_grammar " ?SELF ||? se-lf[][]|+" (some "A")
    rw [hparts] at hgrammar
    have hstripped : wrong.IsStripped := ⟨by simp [wrong], by decide +kernel⟩
    have hwrong : ¬DeclaredPart.Writes wrong.text := by
      have herror := parsePart_text_of_isStripped none hstripped
      exact (parsePart_eq_error_iff.mp herror).1
    refine (hgrammar.2.2 _).mpr ⟨[own.text], wrong, ["+".toList], rfl, ?_, hwrong, hstripped, rfl⟩
    intro cs hcs
    exact ⟨own, isClassName_iff_isBaseWord.mp rfl, (List.mem_singleton.mp hcs).symm⟩

end TypeSet

end PhpCheck
