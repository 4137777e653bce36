import Mathlib.Data.List.Sort

/-! Lists of which some elements have a rank, and that are gone through with the ranked elements first, in ascending rank, and the
    others as they stand. Such a list keeps its order exactly when nothing stands ahead of a smaller rank. -/

namespace LeanCtx.Ranked
variable {α : Type} {rank : α → Option Nat} {l : List α}

/-- The ranked elements in ascending rank, and the others behind them as they stand. -/
def front (rank : α → Option Nat) (l : List α) : List α :=
  (l.filter fun a => (rank a).isSome).insertionSort (fun a b => (rank a).getD 0 ≤ (rank b).getD 0) ++
    l.filter fun a => (rank a).isNone

/-- An element may stand before a ranked one only with a smaller rank. -/
def Ahead (rank : α → Option Nat) (a b : α) : Prop := ∀ n ∈ rank b, ∃ m ∈ rank a, m < n

instance (a b : α) : Decidable (Ahead rank a b) := inferInstanceAs (Decidable (∀ n ∈ rank b, ∃ m ∈ rank a, m < n))

theorem perm_front (rank : α → Option Nat) (l : List α) : (front rank l).Perm l := by
  refine ((List.perm_insertionSort _ _).append_right _).trans ?_
  refine List.Perm.trans ?_ (List.filter_append_perm (fun a => (rank a).isSome) l)
  simp

theorem mem_front {a : α} : a ∈ front rank l ↔ a ∈ l := (perm_front rank l).mem_iff

/-- Elements of a list that differ have different ranks. -/
def Distinct (rank : α → Option Nat) (l : List α) : Prop := l.Pairwise fun a b => ∀ n ∈ rank a, n ∉ rank b

theorem Distinct.perm {m : List α} (h : Distinct rank l) (hp : l.Perm m) : Distinct rank m :=
  hp.pairwise h fun hab n hb ha => hab n ha hb

theorem front_ahead (h : Distinct rank l) : (front rank l).Pairwise (Ahead rank) := by
  have hfront : Distinct rank (front rank l) := h.perm (perm_front rank l).symm
  unfold front Distinct at hfront
  rw [List.pairwise_append] at hfront
  obtain ⟨hranked, -, -⟩ := hfront
  refine List.pairwise_append.mpr ⟨?_, ?_, ?_⟩
  · have hsorted := List.pairwise_insertionSort (fun a b : α => (rank a).getD 0 ≤ (rank b).getD 0) (l.filter fun a => (rank a).isSome)
    refine (hranked.and hsorted).imp_of_mem fun {a b} ha hb hab n hn => ?_
    obtain ⟨m, hm⟩ := Option.isSome_iff_exists.mp (List.mem_filter.mp (List.mem_insertionSort _ |>.mp ha)).2
    refine ⟨m, hm, ?_⟩
    obtain ⟨hne, hle⟩ := hab
    have hmn : m ≠ n := by
      rintro rfl
      exact hne m hm hn
    rw [hm, hn] at hle
    exact lt_of_le_of_ne hle hmn
  · refine List.pairwise_of_forall_mem_list fun a _ b hb n hn => ?_
    rw [Option.isNone_iff_eq_none.mp (List.mem_filter.mp hb).2] at hn
    cases hn
  · intro a _ b hb n hn
    rw [Option.isNone_iff_eq_none.mp (List.mem_filter.mp hb).2] at hn
    cases hn

/-- A list whose ranked elements come first is the ranked ones and the others. -/
theorem filter_append_filter (h : l.Pairwise (Ahead rank)) :
    (l.filter fun a => (rank a).isSome) ++ (l.filter fun a => (rank a).isNone) = l := by
  induction l with
  | nil => rfl
  | cons a l ih =>
    obtain ⟨ha, hl⟩ := List.pairwise_cons.mp h
    cases hrank : rank a with
    | some n => simpa [hrank] using ih hl
    | none =>
      have hnone : ∀ b ∈ l, rank b = none := fun b hb => by
        by_contra hb'
        obtain ⟨n, hn⟩ := Option.ne_none_iff_exists'.mp hb'
        obtain ⟨m, hm, -⟩ := ha b hb n hn
        rw [hrank] at hm
        cases hm
      have hsome : (l.filter fun a => (rank a).isSome) = [] :=
        List.filter_eq_nil_iff.mpr fun b hb => by simp [hnone b hb]
      have hall : (l.filter fun a => (rank a).isNone) = l :=
        List.filter_eq_self.mpr fun b hb => by simp [hnone b hb]
      simp [hrank, hsome, hall]

theorem front_eq_of_ahead (h : l.Pairwise (Ahead rank)) : front rank l = l := by
  have hsorted : (l.filter fun a => (rank a).isSome).Pairwise fun a b => (rank a).getD 0 ≤ (rank b).getD 0 := by
    refine (h.filter _).imp_of_mem fun {a b} _ hb hab => ?_
    obtain ⟨n, hn⟩ := Option.isSome_iff_exists.mp (List.mem_filter.mp hb).2
    obtain ⟨m, hm, hlt⟩ := hab n hn
    rw [hm, hn]
    exact hlt.le
  rw [front, hsorted.insertionSort_eq, filter_append_filter h]

theorem front_eq_iff (h : Distinct rank l) : front rank l = l ↔ l.Pairwise (Ahead rank) := by
  constructor
  · intro hfront
    exact hfront ▸ front_ahead h
  · exact front_eq_of_ahead

/-- In an ascending list a relation holds of all that stand in order exactly when it holds of all that are in order. -/
theorem pairwise_iff_of_lt {β : Type} [Preorder β] {R : β → β → Prop} {m : List β} (h : m.Pairwise (· < ·)) :
    m.Pairwise R ↔ ∀ a ∈ m, ∀ b ∈ m, a < b → R a b := by
  constructor
  · intro hR
    induction m with
    | nil => nofun
    | cons x m ih =>
      obtain ⟨hx, hm⟩ := List.pairwise_cons.mp h
      obtain ⟨hRx, hRm⟩ := List.pairwise_cons.mp hR
      intro a ha b hb hab
      rcases List.mem_cons.mp ha with rfl | ha'
      · rcases List.mem_cons.mp hb with rfl | hb'
        · exact absurd hab (lt_irrefl _)
        · exact hRx b hb'
      · rcases List.mem_cons.mp hb with rfl | hb'
        · exact absurd hab (lt_asymm (hx a ha'))
        · exact ih hm hRm a ha' b hb' hab
  · intro hR
    exact h.imp_of_mem fun ha hb hab => hR _ ha _ hb hab

end LeanCtx.Ranked
