import Mathlib

/-! Python dictionaries: an association list without repeated keys, in the order in which the keys were first
    set. Setting a key that is there keeps its place. -/

namespace LeanCtx

/-- A Python `dict`. -/
@[ext] structure Dict (κ ν : Type) where
  items : List (κ × ν)
  nodup : (items.map Prod.fst).Nodup

namespace Dict
variable {κ ν : Type} [DecidableEq κ]

instance [DecidableEq ν] : DecidableEq (Dict κ ν) := fun d e =>
  decidable_of_iff (d.items = e.items) Dict.ext_iff.symm

/-- `{}`. -/
def empty : Dict κ ν := ⟨[], List.nodup_nil⟩

instance : Inhabited (Dict κ ν) := ⟨empty⟩

/-- `d.get(k)`. -/
def get? (d : Dict κ ν) (k : κ) : Option ν := (d.items.find? fun p => p.1 = k).map Prod.snd

/-- `k in d`. -/
def contains (d : Dict κ ν) (k : κ) : Bool := (d.get? k).isSome

def keys (d : Dict κ ν) : List κ := d.items.map Prod.fst

def values (d : Dict κ ν) : List ν := d.items.map Prod.snd

/-- `len(d)`. -/
def size (d : Dict κ ν) : Nat := d.items.length

/-- Set a key among items. -/
def setItems (k : κ) (v : ν) : List (κ × ν) → List (κ × ν)
  | [] => [(k, v)]
  | p :: l => if p.1 = k then (k, v) :: l else p :: setItems k v l

theorem mem_setItems_keys {k j : κ} {v : ν} {l : List (κ × ν)} :
    j ∈ (setItems k v l).map Prod.fst ↔ j = k ∨ j ∈ l.map Prod.fst := by
  induction l with
  | nil => simp [setItems]
  | cons p l ih =>
    unfold setItems
    split_ifs with h
    · subst h
      simp
    · simp only [List.map_cons, List.mem_cons, ih]
      tauto

theorem nodup_setItems {k : κ} {v : ν} {l : List (κ × ν)} (h : (l.map Prod.fst).Nodup) :
    ((setItems k v l).map Prod.fst).Nodup := by
  induction l with
  | nil => simp [setItems]
  | cons p l ih =>
    rw [List.map_cons, List.nodup_cons] at h
    unfold setItems
    split_ifs with hp
    · subst hp
      simpa using h
    · rw [List.map_cons, List.nodup_cons, mem_setItems_keys]
      exact ⟨fun hj => hj.elim hp h.1, ih h.2⟩

/-- `d[k] = v`. -/
def set (d : Dict κ ν) (k : κ) (v : ν) : Dict κ ν := ⟨setItems k v d.items, nodup_setItems d.nodup⟩

/-- `d.update(e)`. -/
def update (d e : Dict κ ν) : Dict κ ν := e.items.foldl (fun d p => d.set p.1 p.2) d

/-- The dictionary of a list of items, a later item of a key replacing an earlier one. -/
def ofItems (l : List (κ × ν)) : Dict κ ν := l.foldl (fun d p => d.set p.1 p.2) empty

/-- The dictionary with every value mapped. -/
def mapValues {μ : Type} (f : ν → μ) (d : Dict κ ν) : Dict κ μ :=
  ⟨d.items.map fun p => (p.1, f p.2), by simpa [Function.comp_def] using d.nodup⟩

/-- The values in key order. -/
def sortedValues [LinearOrder κ] (d : Dict κ ν) : List ν :=
  (d.items.insertionSort fun p q => p.1 ≤ q.1).map Prod.snd

/-! ### Lookups -/

theorem find?_setItems (k j : κ) (v : ν) (l : List (κ × ν)) :
    (setItems k v l).find? (fun p => p.1 = j) = if k = j then some (k, v) else l.find? fun p => p.1 = j := by
  induction l with
  | nil => by_cases h : k = j <;> simp [setItems, h]
  | cons p l ih =>
    unfold setItems
    by_cases hp : p.1 = k
    · subst hp
      by_cases h : p.1 = j <;> simp [h]
    · rw [if_neg hp, List.find?_cons, List.find?_cons, ih]
      by_cases h : k = j
      · subst h
        simp [hp]
      · simp only [if_neg h]

@[simp] theorem get?_empty (k : κ) : (empty : Dict κ ν).get? k = none := rfl

theorem get?_set (d : Dict κ ν) (k j : κ) (v : ν) : (d.set k v).get? j = if k = j then some v else d.get? j := by
  unfold get? set
  rw [find?_setItems]
  split_ifs <;> rfl

@[simp] theorem get?_set_self (d : Dict κ ν) (k : κ) (v : ν) : (d.set k v).get? k = some v := by
  rw [get?_set, if_pos rfl]

theorem get?_set_of_ne (d : Dict κ ν) {k j : κ} (v : ν) (h : k ≠ j) : (d.set k v).get? j = d.get? j := by
  rw [get?_set, if_neg h]

theorem get?_eq_some {d : Dict κ ν} {k : κ} {v : ν} : d.get? k = some v ↔ (k, v) ∈ d.items := by
  unfold get?
  constructor
  · intro h
    obtain ⟨⟨j, w⟩, hp, rfl⟩ := Option.map_eq_some_iff.mp h
    have hj : j = k := by simpa using List.find?_some hp
    subst hj
    exact List.mem_of_find?_eq_some hp
  · intro h
    have hnodup := d.nodup
    revert hnodup h
    generalize d.items = l
    intro h hnodup
    induction l with
    | nil => cases h
    | cons p l ih =>
      rw [List.map_cons, List.nodup_cons] at hnodup
      rcases List.mem_cons.mp h with rfl | h
      · simp
      · have hne : p.1 ≠ k := fun e => hnodup.1 (e ▸ List.mem_map.mpr ⟨_, h, rfl⟩)
        simpa [hne] using ih h hnodup.2

theorem contains_iff_mem_keys {d : Dict κ ν} {k : κ} : d.contains k = true ↔ k ∈ d.keys := by
  unfold contains keys
  rw [Option.isSome_iff_exists]
  simp only [get?_eq_some, List.mem_map, Prod.exists, exists_and_right, exists_eq_right]

theorem contains_of_get? {d : Dict κ ν} {k : κ} {v : ν} (h : d.get? k = some v) : d.contains k = true := by
  rw [contains, h, Option.isSome_some]

theorem contains_set {d : Dict κ ν} {k j : κ} {v : ν} :
    (d.set k v).contains j = true ↔ k = j ∨ d.contains j = true := by
  unfold contains
  rw [get?_set]
  split_ifs with h <;> simp [h]

theorem mem_values {d : Dict κ ν} {v : ν} : v ∈ d.values ↔ ∃ k, d.get? k = some v := by
  simp only [values, List.mem_map, Prod.exists, exists_eq_right, get?_eq_some]

omit [DecidableEq κ] in
theorem mem_sortedValues [LinearOrder κ] {d : Dict κ ν} {v : ν} : v ∈ d.sortedValues ↔ v ∈ d.values := by
  simp only [sortedValues, values, List.mem_map, (List.perm_insertionSort _ d.items).mem_iff]

theorem mem_values_set {d : Dict κ ν} {k : κ} {v w : ν} (h : w ∈ (d.set k v).values) : w = v ∨ w ∈ d.values := by
  obtain ⟨j, hj⟩ := mem_values.mp h
  rw [get?_set] at hj
  split_ifs at hj
  · exact Or.inl (Option.some.inj hj).symm
  · exact Or.inr (mem_values.mpr ⟨j, hj⟩)

theorem get?_mapValues {μ : Type} (f : ν → μ) (d : Dict κ ν) (k : κ) : (d.mapValues f).get? k = (d.get? k).map f := by
  unfold get? mapValues
  rw [List.find?_map, Option.map_map, Option.map_map]
  rfl

theorem mem_values_mapValues {μ : Type} {f : ν → μ} {d : Dict κ ν} {w : μ} :
    w ∈ (d.mapValues f).values ↔ ∃ v ∈ d.values, f v = w := by
  simp only [mem_values, get?_mapValues, Option.map_eq_some_iff]
  exact ⟨fun ⟨k, v, hv, hw⟩ => ⟨v, ⟨k, hv⟩, hw⟩, fun ⟨v, ⟨k, hv⟩, hw⟩ => ⟨k, v, hv, hw⟩⟩

theorem setItems_of_not_mem {k : κ} (v : ν) {l : List (κ × ν)} (h : ∀ p ∈ l, p.1 ≠ k) :
    setItems k v l = l ++ [(k, v)] := by
  induction l with
  | nil => rfl
  | cons p l ih =>
    rw [setItems, if_neg (h p (by simp)), ih fun q hq => h q (by simp [hq])]
    rfl

/-- A new key goes last. -/
theorem items_set_of_get?_none {d : Dict κ ν} {k : κ} (v : ν) (h : d.get? k = none) :
    (d.set k v).items = d.items ++ [(k, v)] :=
  setItems_of_not_mem v (by simpa [get?] using h)

/-! ### Updates -/

theorem contains_foldl_set {l : List (κ × ν)} {d : Dict κ ν} {k : κ} :
    (l.foldl (fun d p => d.set p.1 p.2) d).contains k = true ↔ d.contains k = true ∨ k ∈ l.map Prod.fst := by
  induction l generalizing d with
  | nil => simp
  | cons p l ih =>
    rw [List.foldl_cons, ih, contains_set, List.map_cons, List.mem_cons]
    constructor
    · rintro ((h | h) | h)
      · exact Or.inr (Or.inl h.symm)
      · exact Or.inl h
      · exact Or.inr (Or.inr h)
    · rintro (h | h | h)
      · exact Or.inl (Or.inr h)
      · exact Or.inl (Or.inl h.symm)
      · exact Or.inr h

theorem contains_update {d e : Dict κ ν} {k : κ} :
    (d.update e).contains k = true ↔ d.contains k = true ∨ e.contains k = true := by
  rw [update, contains_foldl_set, contains_iff_mem_keys (d := e)]
  rfl

theorem mem_values_foldl_set {l : List (κ × ν)} {d : Dict κ ν} {v : ν}
    (h : v ∈ (l.foldl (fun d p => d.set p.1 p.2) d).values) : v ∈ d.values ∨ v ∈ l.map Prod.snd := by
  induction l generalizing d with
  | nil => exact Or.inl h
  | cons p l ih =>
    rcases ih h with h | h
    · rcases mem_values_set h with rfl | h
      · exact Or.inr (by simp)
      · exact Or.inl h
    · exact Or.inr (List.mem_cons_of_mem _ h)

theorem mem_values_update {d e : Dict κ ν} {v : ν} (h : v ∈ (d.update e).values) : v ∈ d.values ∨ v ∈ e.values :=
  mem_values_foldl_set h

theorem mem_values_ofItems {l : List (κ × ν)} {v : ν} (h : v ∈ (ofItems l).values) : v ∈ l.map Prod.snd :=
  (mem_values_foldl_set h).resolve_left (by simp [values, empty])

theorem contains_ofItems {l : List (κ × ν)} {k : κ} : (ofItems l).contains k = true ↔ k ∈ l.map Prod.fst := by
  rw [ofItems, contains_foldl_set]
  simp [contains]

theorem get?_foldl_set {l : List (κ × ν)} {d : Dict κ ν} {k : κ} {v : ν}
    (h : (l.foldl (fun d p => d.set p.1 p.2) d).get? k = some v) : (k, v) ∈ l ∨ d.get? k = some v := by
  induction l generalizing d with
  | nil => exact Or.inr h
  | cons p l ih =>
    rcases ih h with h | h
    · exact Or.inl (List.mem_cons_of_mem _ h)
    · rw [get?_set] at h
      split_ifs at h with hk
      · obtain rfl := Option.some.inj h
        exact Or.inl (by rw [← hk]; exact List.mem_cons_self)
      · exact Or.inr h

/-- What an updated dictionary holds under a key was there or came with the update. -/
theorem get?_update {d e : Dict κ ν} {k : κ} {v : ν} (h : (d.update e).get? k = some v) :
    e.get? k = some v ∨ d.get? k = some v :=
  (get?_foldl_set h).imp_left get?_eq_some.mpr

/-- Items with distinct keys are the items of their dictionary. -/
theorem items_foldl_set {l : List (κ × ν)} {d : Dict κ ν} (h : ((d.items ++ l).map Prod.fst).Nodup) :
    (l.foldl (fun d p => d.set p.1 p.2) d).items = d.items ++ l := by
  induction l generalizing d with
  | nil => simp
  | cons p l ih =>
    have hnone : d.get? p.1 = none := by
      rw [get?, Option.map_eq_none_iff, List.find?_eq_none]
      intro q hq
      rw [List.map_append, List.map_cons, List.nodup_append] at h
      simpa using h.2.2 _ (List.mem_map.mpr ⟨q, hq, rfl⟩) _ (by simp)
    have hset := items_set_of_get?_none p.2 hnone
    rw [List.foldl_cons, ih (by rw [hset]; simpa using h), hset]
    simp

theorem items_ofItems {l : List (κ × ν)} (h : (l.map Prod.fst).Nodup) : (ofItems l).items = l :=
  items_foldl_set h

/-! ### Sorting -/

section
variable [LinearOrder κ] {d : Dict κ ν}

omit [DecidableEq κ] in
theorem pairwise_sortItems (l : List (κ × ν)) :
    (l.insertionSort fun p q => p.1 ≤ q.1).Pairwise fun p q => p.1 ≤ q.1 := by
  have : Std.Total fun p q : κ × ν => p.1 ≤ q.1 := ⟨fun p q => le_total p.1 q.1⟩
  have : IsTrans (κ × ν) fun p q => p.1 ≤ q.1 := ⟨fun _ _ _ => le_trans⟩
  exact List.pairwise_insertionSort _ l

/-- The dictionary with its keys in order. -/
def sort (d : Dict κ ν) : Dict κ ν :=
  ⟨d.items.insertionSort fun p q => p.1 ≤ q.1, ((List.perm_insertionSort _ d.items).map Prod.fst).nodup_iff.mpr d.nodup⟩

omit [DecidableEq κ] in
theorem values_sort : d.sort.values = d.sortedValues := rfl

omit [DecidableEq κ] in
theorem sortedValues_sort : d.sort.sortedValues = d.sortedValues := by
  rw [sortedValues, sort, List.Pairwise.insertionSort_eq (pairwise_sortItems d.items), sortedValues]

omit [DecidableEq κ] in
theorem mem_items_sort {p : κ × ν} : p ∈ d.sort.items ↔ p ∈ d.items := (List.perm_insertionSort _ d.items).mem_iff

omit [DecidableEq κ] in
theorem pairwise_keys_sort : (d.sort.items.map Prod.fst).Pairwise (· < ·) := by
  refine List.Pairwise.imp₂ (fun {_ _} hle hne => lt_of_le_of_ne hle hne) ?_ d.sort.nodup
  exact List.pairwise_map.mpr (pairwise_sortItems d.items)

theorem get?_sort (k : κ) : d.sort.get? k = d.get? k := by
  refine Option.ext fun v => ?_
  rw [get?_eq_some, get?_eq_some, mem_items_sort]

end

end Dict
end LeanCtx
