import PhpCheck.Text.Case
import Mathlib.Data.List.DropRight
import Mathlib.Tactic.Lemma

/-!
# Names and the forms in which they are filed

A name without separators in front is canonical up to case, names that are the same up to case are filed
alike, and a method is filed under its own name, whatever the name of its class is.
-/

namespace PhpCheck.Text

lemma sameIgnoringCase_iff {a b : String} : sameIgnoringCase a b = true ↔ lowered a = lowered b := by
  simp [sameIgnoringCase]

lemma unrooted_unrooted (name : String) : unrooted (unrooted name) = unrooted name := by
  simp [unrooted, List.dropWhile_idempotent]

lemma canonical_unrooted (name : String) : canonical (unrooted name) = canonical name := by
  rw [canonical, unrooted_unrooted, canonical]

lemma canonical_of_unrooted {name : String} (h : unrooted name = name) :
    canonical name = lowered name := by
  rw [canonical, h]

/-- No capital becomes a separator. -/
lemma toLower_eq_separator_iff {c : Char} : c.toLower = '\\' ↔ c = '\\' := by
  unfold Char.toLower
  split
  · rename_i h
    have hshift : ('a'.val - 'A'.val).toNat = 32 := rfl
    have hseparator : '\\'.val.toNat = 92 := rfl
    have hlow : 65 ≤ c.val.toNat := h.1
    have hhigh : c.val.toNat ≤ 90 := h.2
    constructor
    · intro heq
      have hval := congrArg (fun c : Char => c.val.toNat) heq
      simp only [UInt32.toNat_add, hshift, hseparator] at hval
      omega
    · intro heq
      have hval := congrArg (fun c : Char => c.val.toNat) heq
      simp only [hseparator] at hval
      omega
  · rfl

lemma canonical_eq_unrooted_lowered (name : String) : canonical name = unrooted (lowered name) := by
  have hseparator : (fun c => c == '\\') ∘ Char.toLower = fun c => c == '\\' := by
    funext c
    rw [Bool.eq_iff_iff]
    simp [toLower_eq_separator_iff]
  simp [canonical, unrooted, lowered, List.dropWhile_map, hseparator]

lemma canonical_eq_of_sameIgnoringCase {a b : String} (h : sameIgnoringCase a b = true) :
    canonical a = canonical b := by
  rw [canonical_eq_unrooted_lowered, canonical_eq_unrooted_lowered, sameIgnoringCase_iff.mp h]

lemma untilColons_append {cs : List Char} (h : ':' ∉ cs) (rest : List Char) :
    untilColons (cs ++ ':' :: ':' :: rest) = cs := by
  induction cs with
  | nil => rfl
  | cons c cs ih =>
    obtain ⟨hc, hcs⟩ : ':' ≠ c ∧ ':' ∉ cs := by simpa using h
    rw [List.cons_append, untilColons, ih hcs]
    rintro rest rfl
    exact absurd rfl hc

/-- A method is filed under its own name, whatever that of its class is. -/
lemma memberPart_qualified (owner : String) {name : String} (h : ':' ∉ name.toList) :
    memberPart (owner ++ "::" ++ name) = name := by
  have hcolons : "::".toList = [':', ':'] := by decide
  have hreverse : ':' ∉ name.toList.reverse := by simpa using h
  have huntil := untilColons_append hreverse owner.toList.reverse
  simp [memberPart, hcolons, huntil]

end PhpCheck.Text
