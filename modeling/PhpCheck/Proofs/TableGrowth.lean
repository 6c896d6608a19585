import PhpCheck.Table
import Mathlib.Tactic.Lemma

/-!
# How tables grow

A table grows if every entry stays at its place under its key, with a value that is related to the old
one, and what is new comes after the old entries.
-/

namespace PhpCheck.Table

variable {α : Type}

/-- Every entry of `t` is still at its place in `u`, with a value that `R` relates to the old one, and
the values that are new in `u` are `fresh`. -/
structure Grows (R : α → α → Prop) (fresh : α → Prop) (t u : Table α) : Prop where
  kept : ∀ (i : Nat) (key : String) (v : α), t.entries[i]? = some (key, v) →
    ∃ w, u.entries[i]? = some (key, w) ∧ R v w
  added : ∀ (i : Nat) (key : String) (w : α), t.entries.length ≤ i →
    u.entries[i]? = some (key, w) → fresh w

variable {R : α → α → Prop} {fresh : α → Prop}

namespace Grows

lemma refl (hR : ∀ v, R v v) (t : Table α) : Grows R fresh t t where
  kept i key v h := ⟨v, h, hR v⟩
  added i key w hi h := by
    rw [List.getElem?_eq_none hi] at h
    cases h

lemma trans (hR : ∀ u v w, R u v → R v w → R u w) (hfresh : ∀ v w, R v w → fresh v → fresh w)
    {t u v : Table α} (htu : Grows R fresh t u) (huv : Grows R fresh u v) : Grows R fresh t v where
  kept i key a ha := by
    obtain ⟨b, hb, hab⟩ := htu.kept i key a ha
    obtain ⟨c, hc, hbc⟩ := huv.kept i key b hb
    exact ⟨c, hc, hR a b c hab hbc⟩
  added i key c hi hc := by
    by_cases hlt : i < u.entries.length
    · -- new in `u` already, and still fresh on the way to `v`
      obtain ⟨b, hb, hbc⟩ := huv.kept i _ _ (List.getElem?_eq_getElem hlt)
      have hcb : c = b := congrArg Prod.snd (Option.some.inj (hc.symm.trans hb))
      have hold := htu.added i _ _ hi (List.getElem?_eq_getElem hlt)
      rw [hcb]
      exact hfresh _ _ hbc hold
    · exact huv.added i key c (Nat.le_of_not_lt hlt) hc

end Grows

lemma grows_modify (hR : ∀ v, R v v) (t : Table α) (key : String) {f : α → α} (h : ∀ v, R v (f v)) :
    Grows R fresh t (t.modify key f) where
  kept i k v hv := by
    refine ⟨if k == key then f v else v, ?_, ?_⟩
    · simp only [modify, List.getElem?_map, hv, Option.map_some]
    · split
      · exact h v
      · exact hR v
  added i k w hi hw := by
    have hlen : (t.modify key f).entries.length = t.entries.length := by simp [modify]
    rw [List.getElem?_eq_none (hlen ▸ hi)] at hw
    cases hw

lemma grows_add (hR : ∀ v, R v v) (t : Table α) (key : String) {v : α} (hv : fresh v) :
    Grows R fresh t (t.add key v) := by
  by_cases h : t.contains key = true
  · rw [add_of_contains h]
    exact .refl hR t
  · have he := entries_add_of_not_contains h v
    constructor
    · intro i k u hu
      obtain ⟨hlt, -⟩ := List.getElem?_eq_some_iff.mp hu
      refine ⟨u, ?_, hR u⟩
      rw [he, List.getElem?_append_left hlt]
      exact hu
    · intro i k w hi hw
      rw [he, List.getElem?_append_right hi] at hw
      cases List.mem_singleton.mp (List.mem_of_getElem? hw)
      exact hv

end PhpCheck.Table
