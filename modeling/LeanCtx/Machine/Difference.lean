import Mathlib.Logic.Function.Basic
import Mathlib.Data.List.Basic

/-! Differences of maps: changes of single keys that lead from one map to another, and what they make of a map. -/

namespace LeanCtx.Machine

/-- A change of a key: its value before and after, where it has one. -/
structure Change (κ ν : Type) where
  key : κ
  before : Option ν
  after : Option ν

/-- The same change the other way. -/
def Change.swap {κ ν : Type} (c : Change κ ν) : Change κ ν := ⟨c.key, c.after, c.before⟩

section
variable {κ ν : Type} {l : List (Change κ ν)} {m m' : κ → Option ν}

/-- The changes from one map to another: each one has the values of both, and every key on which they differ has one. -/
structure Leads (l : List (Change κ ν)) (m m' : κ → Option ν) : Prop where
  before : ∀ c ∈ l, c.before = m c.key
  after : ∀ c ∈ l, c.after = m' c.key
  complete : ∀ k, m k ≠ m' k → ∃ c ∈ l, c.key = k

theorem Leads.swap (h : Leads l m m') : Leads (l.map Change.swap) m' m where
  before := by
    intro c hc
    obtain ⟨c', hc', rfl⟩ := List.mem_map.mp hc
    exact h.after c' hc'
  after := by
    intro c hc
    obtain ⟨c', hc', rfl⟩ := List.mem_map.mp hc
    exact h.before c' hc'
  complete := by
    intro k hk
    obtain ⟨c, hc, rfl⟩ := h.complete k hk.symm
    exact ⟨c.swap, List.mem_map_of_mem hc, rfl⟩

theorem Leads.perm {l' : List (Change κ ν)} (h : Leads l m m') (hperm : l'.Perm l) : Leads l' m m' where
  before := fun c hc => h.before c (hperm.mem_iff.mp hc)
  after := fun c hc => h.after c (hperm.mem_iff.mp hc)
  complete := fun k hk => (h.complete k hk).imp fun _ hc => ⟨hperm.mem_iff.mpr hc.1, hc.2⟩

variable [DecidableEq κ]

/-- A map after several changes. -/
def patch (m : κ → Option ν) (l : List (Change κ ν)) : κ → Option ν := l.foldl (fun m c => Function.update m c.key c.after) m

/-- A key has the value that its changes give it, or the one that it had. -/
theorem patch_apply (hafter : ∀ c ∈ l, c.after = m' c.key) (k : κ) :
    patch m l k = if k ∈ l.map (·.key) then m' k else m k := by
  induction l generalizing m with
  | nil => rfl
  | cons c l ih =>
    rw [patch, List.foldl_cons, ← patch, ih fun c hc => hafter c (List.mem_cons_of_mem _ hc), List.map_cons]
    by_cases hk : k ∈ l.map (·.key)
    · rw [if_pos hk, if_pos (List.mem_cons_of_mem _ hk)]
    · rw [if_neg hk]
      by_cases hck : k = c.key
      · subst hck
        rw [if_pos List.mem_cons_self, Function.update_self]
        exact hafter c List.mem_cons_self
      · rw [if_neg (by simp only [List.mem_cons, not_or]; exact ⟨hck, hk⟩), Function.update_of_ne hck]

/-- The changes from one map to another make the one of the other. -/
theorem Leads.patch_eq (h : Leads l m m') : patch m l = m' := by
  funext k
  rw [patch_apply h.after]
  split_ifs with hk
  · rfl
  · by_contra hne
    obtain ⟨c, hc, rfl⟩ := h.complete k hne
    exact hk (List.mem_map_of_mem hc)

end
end LeanCtx.Machine
