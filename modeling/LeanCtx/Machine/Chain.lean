import Mathlib.Data.List.Basic
import Mathlib.Data.List.Induction

/-! Lists in which every item names the digest of the one before it: where two items have one digest, they are the same, and so is all that
    comes before them, unless digests of different items collide. -/

namespace LeanCtx.Machine
variable {α δ : Type} {digest : α → δ} {previous : α → Option δ}

/-- Every item names the digest of the one before it, and the first one that of what comes before the list. -/
def Chained (digest : α → δ) (previous : α → Option δ) : Option δ → List α → Prop
  | _, [] => True
  | d, a :: l => previous a = d ∧ Chained digest previous (some (digest a)) l

theorem chained_concat {d : Option δ} {l : List α} {a : α} : Chained digest previous d (l ++ [a]) ↔
    Chained digest previous d l ∧ previous a = (l.getLast?.map digest).or d := by
  induction l generalizing d with
  | nil => simp [Chained]
  | cons b l ih =>
    have hlast : ((b :: l).getLast?.map digest).or d = (l.getLast?.map digest).or (some (digest b)) := by
      cases l with
      | nil => rfl
      | cons c l => rw [List.getLast?_cons_cons, List.getLast?_eq_some_getLast (List.cons_ne_nil c l)]; rfl
    simp only [List.cons_append, Chained, ih, hlast, and_assoc]

theorem Chained.left {d : Option δ} {l r : List α} (h : Chained digest previous d (l ++ r)) : Chained digest previous d l := by
  induction l generalizing d with
  | nil => trivial
  | cons a l ih => exact ⟨h.1, ih h.2⟩

/-- Two lists hold different items with one digest. -/
def Collide (digest : α → δ) (l m : List α) : Prop := ∃ a ∈ l, ∃ b ∈ m, a ≠ b ∧ digest a = digest b

theorem Collide.mono {l l' m m' : List α} (h : Collide digest l m) (hl : l ⊆ l') (hm : m ⊆ m') : Collide digest l' m' := by
  obtain ⟨a, ha, b, hb, hab⟩ := h
  exact ⟨a, hl ha, b, hm hb, hab⟩

/-- Two chains that end with one digest are the same, or they collide. -/
theorem Chained.eq_or_collide {l m : List α} (hl : Chained digest previous none l) (hm : Chained digest previous none m)
    (h : l.getLast?.map digest = m.getLast?.map digest) : l = m ∨ Collide digest l m := by
  induction l using List.reverseRecOn generalizing m with
  | nil =>
    have hnone : m.getLast? = none := Option.map_eq_none_iff.mp h.symm
    exact .inl (List.getLast?_eq_none_iff.mp hnone).symm
  | append_singleton l a ih =>
    obtain rfl | ⟨m, b, rfl⟩ := m.eq_nil_or_concat'
    · simp at h
    · rw [List.getLast?_concat, List.getLast?_concat, Option.map_some, Option.map_some, Option.some.injEq] at h
      obtain ⟨hinit, hprevious⟩ := chained_concat.mp hl
      obtain ⟨hinit', hprevious'⟩ := chained_concat.mp hm
      by_cases hab : a = b
      · subst hab
        have hlast : l.getLast?.map digest = m.getLast?.map digest := by simpa using hprevious.symm.trans hprevious'
        obtain rfl | hcollide := ih hinit hinit' hlast
        · exact .inl rfl
        · exact .inr (hcollide.mono (List.subset_append_left _ _) (List.subset_append_left _ _))
      · exact .inr ⟨a, List.mem_concat_self, b, List.mem_concat_self, hab, h⟩

/-- Where two chains come to one digest, they are the same up to it, or they collide. -/
theorem Chained.eq_upTo_or_collide {l l' r r' : List α} {a b : α} (hl : Chained digest previous none (l ++ a :: r))
    (hm : Chained digest previous none (l' ++ b :: r')) (h : digest a = digest b) :
    l = l' ∧ a = b ∨ Collide digest (l ++ a :: r) (l' ++ b :: r') := by
  rw [List.append_cons] at hl
  rw [List.append_cons] at hm
  obtain heq | hcollide := hl.left.eq_or_collide hm.left (by simpa using h)
  · obtain ⟨hinit, hlast⟩ := List.append_inj' heq rfl
    exact .inl ⟨hinit, List.head_eq_of_cons_eq hlast⟩
  · refine .inr (hcollide.mono ?_ ?_) <;> simp

end LeanCtx.Machine
