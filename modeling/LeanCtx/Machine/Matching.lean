import Mathlib.Data.Fintype.EquivFin
import Mathlib.Data.Fintype.Card

/-! Lists whose items are matched one to one. Where the items of one list each match an item of another of the same length, and no two
    of them the same, the two are in bijection. -/

namespace LeanCtx

variable {α β : Type} {R : α → β → Prop} {l : List α} {m : List β}

/-- No two places of the list match the same item. -/
def Separates (R : α → β → Prop) (l : List α) : Prop := ∀ i j : Fin l.length, ∀ b, R l[i] b → R l[j] b → i = j

theorem exists_equiv_of_matched (hlength : l.length = m.length) (hmatch : ∀ a ∈ l, ∃ b ∈ m, R a b) (h : Separates R l) :
    ∃ e : Fin l.length ≃ Fin m.length, ∀ i, R l[i] m[e i] := by
  have hplace : ∀ i : Fin l.length, ∃ j : Fin m.length, R l[i] m[j] := by
    intro i
    obtain ⟨b, hb, hR⟩ := hmatch l[i] (List.getElem_mem i.2)
    obtain ⟨j, hj, rfl⟩ := List.mem_iff_getElem.mp hb
    exact ⟨⟨j, hj⟩, hR⟩
  choose f hf using hplace
  have hinjective : Function.Injective f := fun i j hij => h i j m[f i] (hf i) (hij ▸ hf j)
  have hbijective : Function.Bijective f := (Fintype.bijective_iff_injective_and_card f).mpr ⟨hinjective, by simpa using hlength⟩
  exact ⟨Equiv.ofBijective f hbijective, hf⟩

/-- A matching by a key separates a list whose keys are distinct. -/
theorem separates_of_nodup {κ : Type} (key : α → κ) (name : β → κ) (hR : ∀ a b, R a b → name b = key a) (h : (l.map key).Nodup) :
    Separates R l := by
  intro i j b hi hj
  have heq : key l[i] = key l[j] := (hR _ _ hi).symm.trans (hR _ _ hj)
  rw [List.Nodup, List.pairwise_map, List.pairwise_iff_getElem] at h
  rcases Nat.lt_trichotomy i j with hlt | hval | hlt
  · exact absurd heq (h i j i.2 j.2 hlt)
  · exact Fin.ext hval
  · exact absurd heq.symm (h j i j.2 i.2 hlt)

/-- What is matched at all is matched at one place. -/
theorem Separates.existsUnique (h : Separates R l) {b : β} (hb : ∃ a ∈ l, R a b) : ∃! i : Fin l.length, R l[i] b := by
  obtain ⟨a, ha, hR⟩ := hb
  obtain ⟨i, hi, rfl⟩ := List.mem_iff_getElem.mp ha
  exact ⟨⟨i, hi⟩, hR, fun j hj => h j ⟨i, hi⟩ b hj hR⟩

end LeanCtx
