import LeanCtx.Json.Equal

/-! Objects are told apart by what their keys hold: fields in order that agree under every key are the same, so a key may be
    dropped, replaced or set before the keys are put in order or after. -/

namespace LeanCtx.Json

/-- Two lists of fields hold the same under every key. -/
def Agree (f g : List (Str × Json)) : Prop := ∀ j, f.find? (fun p => p.1 = j) = g.find? fun p => p.1 = j

theorem agree_sortFields (f : List (Str × Json)) : Agree (sortFields f) f := fun j => find?_sortFields j f

/-- Fields in order that agree are the same. -/
theorem Agree.eq_of_ordered {f g : List (Str × Json)} (h : Agree f g) (hf : Ordered f) (hg : Ordered g) : f = g := by
  induction f generalizing g with
  | nil =>
    cases g with
    | nil => rfl
    | cons q g =>
      have hq := h q.1
      simp at hq
  | cons p f ih =>
    obtain ⟨hp, hf'⟩ := List.pairwise_cons.mp hf
    cases g with
    | nil =>
      have hp := h p.1
      simp at hp
    | cons q g =>
      obtain ⟨hq, hg'⟩ := List.pairwise_cons.mp hg
      have hlt : ∀ {r : Str × Json} {l : List (Str × Json)} {j : Str} (_ : ∀ i ∈ l.map (·.1), r.1 < i) {w : Str × Json},
          l.find? (fun p => p.1 = j) = some w → r.1 < j := by
        intro r l j hl w hw
        have hj : w.1 = j := by simpa using List.find?_some hw
        exact hj ▸ hl _ (List.mem_map_of_mem (List.mem_of_find?_eq_some hw))
      have hpq : p = q := by
        have h1 := h p.1
        have h2 := h q.1
        simp only [List.find?_cons, decide_true] at h1 h2
        by_cases he : q.1 = p.1
        · simpa [he] using h1
        · simp only [he, Ne.symm he, decide_false] at h1 h2
          exact absurd ((hlt hq h1.symm).trans (hlt hp h2)) (lt_irrefl _)
      subst hpq
      have htail : Agree f g := by
        intro j
        by_cases he : p.1 = j
        · have hnone : ∀ l : List (Str × Json), (∀ i ∈ l.map (·.1), p.1 < i) → l.find? (fun p => p.1 = j) = none := by
            intro l hl
            refine List.find?_eq_none.mpr fun r hr => ?_
            have hr := hl r.1 (List.mem_map_of_mem hr)
            simpa using fun e : r.1 = j => absurd (e.trans he.symm) (ne_of_gt hr)
          rw [hnone f hp, hnone g hq]
        · have hj := h j
          simpa only [List.find?_cons, he, decide_false] using hj
      rw [ih htail hf' hg']

theorem sortFields_eq {f g : List (Str × Json)} (h : Agree f g) : sortFields f = sortFields g :=
  Agree.eq_of_ordered (fun j => by rw [find?_sortFields, find?_sortFields, h j]) (ordered_sortFields f) (ordered_sortFields g)

/-! ### Changing fields -/

theorem Agree.map {f g : List (Str × Json)} (h : Agree f g) (t : Str → Json → Json) :
    Agree (f.map fun p => (p.1, t p.1 p.2)) (g.map fun p => (p.1, t p.1 p.2)) := by
  intro j
  simp only [List.find?_map, Function.comp_def]
  rw [h j]

theorem Agree.filter {f g : List (Str × Json)} (h : Agree f g) (k : Str) :
    Agree (f.filter fun p => p.1 ≠ k) (g.filter fun p => p.1 ≠ k) := by
  intro j
  have hfind : ∀ l : List (Str × Json), (l.filter fun p => p.1 ≠ k).find? (fun p => p.1 = j) =
      if j = k then none else l.find? fun p => p.1 = j := by
    intro l
    rw [List.find?_filter]
    split_ifs with hj
    · subst hj
      exact List.find?_eq_none.mpr fun p _ => by simp
    · congr 1
      funext p
      by_cases hp : p.1 = j
      · simp [hp, hj]
      · simp [hp]
  rw [hfind, hfind, h j]

theorem Agree.insertField {f g : List (Str × Json)} (h : Agree f g) (k : Str) (v : Json) :
    Agree (insertField k v f) (insertField k v g) := by
  intro j
  rw [find?_insertField, find?_insertField, h j]

/-- Setting a key that comes later anyway. -/
theorem agree_set {k : Str} (v w : Json) {f : List (Str × Json)} (g : List (Str × Json)) (h : k ∉ f.map (·.1)) :
    Agree ((k, v) :: (f ++ (k, w) :: g)) (f ++ (k, v) :: g) := by
  intro j
  rw [List.find?_cons, List.find?_append, List.find?_append, List.find?_cons, List.find?_cons]
  by_cases hj : k = j
  · have hnone : (f.find? fun p => decide (p.1 = j)) = none := List.find?_eq_none.mpr fun p hp => by
      simpa using fun e : p.1 = j => h ((hj.trans e.symm) ▸ List.mem_map_of_mem hp)
    simp [hj, hnone]
  · simp [hj]

/-- Fields of different keys may be exchanged. -/
theorem agree_swap {p q : Str × Json} (f : List (Str × Json)) (h : p.1 ≠ q.1) : Agree (p :: q :: f) (q :: p :: f) := by
  intro j
  simp only [List.find?_cons]
  by_cases hp : p.1 = j
  · have hq : ¬q.1 = j := fun e => h (hp.trans e.symm)
    simp [hp, hq]
  · simp [hp]

/-! ### Equality of objects -/

theorem loose_mkObj (f : List (String × Json)) : (mkObj f).loose = mkObj (f.map fun p => (p.1, p.2.loose)) := by
  simp only [mkObj, loose, looseFields_eq, map_sortFields, List.map_map]
  rfl

/-- Objects are equal where their keys are the same and their values equal. -/
theorem pyEq_mkObj {f g : List (String × Json)}
    (h : List.Forall₂ (fun p q => p.1 = q.1 ∧ pyEq p.2 q.2 = true) f g) : pyEq (mkObj f) (mkObj g) = true := by
  have hmap : (f.map fun p => (p.1, p.2.plain.loose)) = g.map fun p => (p.1, p.2.plain.loose) := by
    induction h with
    | nil => rfl
    | cons hpq _ ih => rw [List.map_cons, List.map_cons, ih, hpq.1, pyEq_iff.mp hpq.2]
  rw [pyEq_iff, plain_mkObj, plain_mkObj, loose_mkObj, loose_mkObj, List.map_map, List.map_map]
  exact congrArg mkObj hmap

end LeanCtx.Json
