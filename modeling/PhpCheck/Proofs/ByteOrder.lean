import PhpCheck.Text.Case
import Mathlib.Tactic.Lemma
import Mathlib.Tactic.SplitIfs
import Mathlib.Tactic.ByContra

/-!
# The order of names

Names are compared character by character, and that is the order of their bytes in UTF-8. The code of a
character lists the digits of its number, so that codes of one width are compared as the numbers are, and
a wider code starts with a greater byte.
-/

namespace PhpCheck.Text

/-- The bytes of a text in UTF-8. -/
def bytes (s : String) : List UInt8 := s.toUTF8.data.toList

/-! ### Codes of numbers -/

/-- A number without its last `width` digits in base 64. -/
def leading : Nat → Nat → Nat
  | 0, v => v
  | width + 1, v => leading width (v / 64)

/-- A number in `width + 1` bytes: the leading part with a mark added, then the digits. -/
def code (mark : Nat) : Nat → Nat → List UInt8
  | 0, v => [UInt8.ofNat (v + mark)]
  | width + 1, v => code mark width (v / 64) ++ [UInt8.ofNat (v % 64 + 128)]

lemma ofNat_lt_ofNat {m n : Nat} (h : m < n) (hn : n < 256) : UInt8.ofNat m < UInt8.ofNat n := by
  rw [UInt8.lt_iff_toNat_lt, UInt8.toNat_ofNat_of_lt' (Nat.lt_trans h hn), UInt8.toNat_ofNat_of_lt' hn]
  exact h

lemma exists_code_eq_cons (mark width v : Nat) :
    ∃ rest, code mark width v = UInt8.ofNat (leading width v + mark) :: rest := by
  induction width generalizing v with
  | zero => exact ⟨[], rfl⟩
  | succ width ih =>
    obtain ⟨rest, hrest⟩ := ih (v / 64)
    exact ⟨rest ++ [UInt8.ofNat (v % 64 + 128)], by rw [code, hrest, leading, List.cons_append]⟩

/-- Codes of one width differ first where the numbers do, whatever follows them. -/
lemma code_append_lt {mark width x y : Nat} (h : x < y) (hfits : leading width y + mark < 256)
    (rest rest' : List UInt8) : code mark width x ++ rest < code mark width y ++ rest' := by
  induction width generalizing x y rest rest' with
  | zero => exact List.Lex.rel (ofNat_lt_ofNat (Nat.add_lt_add_right h mark) hfits)
  | succ width ih =>
    rw [code, code, List.append_assoc, List.append_assoc]
    by_cases hdiv : x / 64 < y / 64
    · exact ih hdiv hfits ..
    · have hsame : x / 64 = y / 64 := by omega
      rw [hsame]
      exact List.append_left_lt (List.Lex.rel (ofNat_lt_ofNat (by omega) (by omega)))

/-! ### Codes of characters -/

/-- The number of bytes after the first one. -/
def codeWidth (v : Nat) : Nat :=
  if v ≤ 0x7f then 0 else if v ≤ 0x7ff then 1 else if v ≤ 0xffff then 2 else 3

/-- What tells the first byte of a code of some width from that of any other. -/
def codeMark : Nat → Nat
  | 0 => 0
  | 1 => 0xc0
  | 2 => 0xe0
  | _ => 0xf0

lemma toNat_val_lt (c : Char) : c.val.toNat < 0x110000 := by
  rcases c.valid with h | ⟨-, h⟩
  · exact Nat.lt_trans h (by decide)
  · exact h

lemma utf8EncodeChar_eq_code (c : Char) : String.utf8EncodeChar c =
    code (codeMark (codeWidth c.val.toNat)) (codeWidth c.val.toNat) c.val.toNat := by
  have hv := toNat_val_lt c
  unfold String.utf8EncodeChar codeWidth
  dsimp only
  generalize c.val.toNat = v at *
  have hsecond : v / 64 / 64 = v / 4096 := Nat.div_div_eq_div_mul ..
  have hthird : v / 4096 / 64 = v / 262144 := Nat.div_div_eq_div_mul ..
  -- Up to the width's bound nothing is cut off from the leading part.
  split_ifs with hone htwo hthree
  · rfl
  · have hlead : v / 64 % 32 = v / 64 := Nat.mod_eq_of_lt (by omega)
    simp only [hlead, codeMark, code, List.cons_append, List.nil_append]
  · have hlead : v / 4096 % 16 = v / 4096 := Nat.mod_eq_of_lt (by omega)
    simp only [hlead, codeMark, code, hsecond, List.cons_append, List.nil_append]
  · have hlead : v / 262144 % 8 = v / 262144 := Nat.mod_eq_of_lt (by omega)
    simp only [hlead, codeMark, code, hsecond, hthird, List.cons_append, List.nil_append]

/-- A wider code starts with a greater byte. -/
lemma leading_lt_leading {x y : Nat} (h : x < y) (hwidth : codeWidth x ≠ codeWidth y) :
    leading (codeWidth x) x + codeMark (codeWidth x) <
      leading (codeWidth y) y + codeMark (codeWidth y) := by
  unfold codeWidth at *
  split_ifs at * <;> simp only [leading, codeMark] <;> omega

lemma leading_add_codeMark_lt {v : Nat} (h : v < 0x110000) :
    leading (codeWidth v) v + codeMark (codeWidth v) < 256 := by
  unfold codeWidth
  split_ifs <;> simp only [leading, codeMark] <;> omega

lemma utf8EncodeChar_append_lt {c d : Char} (h : c < d) (rest rest' : List UInt8) :
    String.utf8EncodeChar c ++ rest < String.utf8EncodeChar d ++ rest' := by
  have hcd : c.val.toNat < d.val.toNat := h
  have hfits := leading_add_codeMark_lt (toNat_val_lt d)
  rw [utf8EncodeChar_eq_code, utf8EncodeChar_eq_code]
  by_cases hwidth : codeWidth c.val.toNat = codeWidth d.val.toNat
  · rw [hwidth]
    exact code_append_lt hcd hfits rest rest'
  · have hfirst := ofNat_lt_ofNat (leading_lt_leading hcd hwidth) hfits
    obtain ⟨tail, htail⟩ := exists_code_eq_cons (codeMark (codeWidth c.val.toNat))
      (codeWidth c.val.toNat) c.val.toNat
    obtain ⟨tail', htail'⟩ := exists_code_eq_cons (codeMark (codeWidth d.val.toNat))
      (codeWidth d.val.toNat) d.val.toNat
    rw [htail, htail']
    exact List.Lex.rel hfirst

/-! ### Texts -/

lemma bytes_eq_flatMap (s : String) : bytes s = s.toList.flatMap String.utf8EncodeChar := by
  rw [bytes, String.toUTF8_eq_toByteArray, ← String.utf8Encode_toList, List.utf8Encode]
  exact List.toList_data_toByteArray

lemma flatMap_utf8EncodeChar_lt {l l' : List Char} (h : l < l') :
    l.flatMap String.utf8EncodeChar < l'.flatMap String.utf8EncodeChar := by
  induction h with
  | @nil d l' =>
    obtain ⟨b, rest, hb⟩ := List.exists_cons_of_ne_nil (String.utf8EncodeChar_ne_nil (c := d))
    rw [List.flatMap_nil, List.flatMap_cons, hb]
    exact List.nil_lt_cons ..
  | rel hcd =>
    rw [List.flatMap_cons, List.flatMap_cons]
    exact utf8EncodeChar_append_lt hcd ..
  | cons _ ih =>
    rw [List.flatMap_cons, List.flatMap_cons]
    exact List.append_left_lt ih

/-- The order of texts is that of their bytes. -/
lemma bytes_lt_bytes_iff {a b : String} : bytes a < bytes b ↔ a < b := by
  have hmono : ∀ {a b : String}, a < b → bytes a < bytes b := by
    intro a b h
    rw [bytes_eq_flatMap, bytes_eq_flatMap]
    exact flatMap_utf8EncodeChar_lt h
  refine ⟨fun h => ?_, hmono⟩
  by_contra hab
  rcases eq_or_ne a b with rfl | hne
  · exact List.lt_irrefl _ h
  · have hba : b < a := String.not_le.mp fun hle => hne (String.le_antisymm hle (String.not_lt.mp hab))
    exact List.lt_asymm h (hmono hba)

end PhpCheck.Text
