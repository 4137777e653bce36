import LeanCtx.Json.Value

/-! Objects: what a lookup in a built object finds, and that `plain` orders keys once and for all. -/

namespace LeanCtx.Json

/-! ### Lookups -/

theorem find?_insertField (k j : Str) (v : Json) (f : List (Str × Json)) :
    (insertField k v f).find? (fun p => p.1 = j) = if k = j then some (k, v) else f.find? fun p => p.1 = j := by
  induction f with
  | nil => by_cases h : k = j <;> simp [insertField, h]
  | cons p f ih =>
    obtain ⟨i, w⟩ := p
    unfold insertField
    by_cases h1 : k < i
    · rw [if_pos h1]
      by_cases h3 : k = j <;> simp [h3]
    · by_cases h2 : k = i
      · subst h2
        by_cases h3 : k = j <;> simp [h3]
      · rw [if_neg h1, if_neg h2, List.find?_cons, List.find?_cons, ih]
        by_cases h3 : k = j
        · have hi : ¬i = j := fun e => h2 (h3.trans e.symm)
          simp [h3, hi]
        · simp only [if_neg h3]

theorem find?_sortFields (j : Str) (f : List (Str × Json)) :
    (sortFields f).find? (fun p => p.1 = j) = f.find? fun p => p.1 = j := by
  induction f with
  | nil => rfl
  | cons p f ih =>
    rw [show sortFields (p :: f) = insertField p.1 p.2 (sortFields f) from rfl, find?_insertField, ih, List.find?_cons]
    by_cases h : p.1 = j
    · subst h
      simp
    · simp [h]

/-- A built object holds the fields it was built from. -/
@[simp] theorem get?_mkObj (f : List (String × Json)) (k : String) :
    (mkObj f).get? k = (f.find? fun p => p.1 = k).map (·.2) := by
  have hp : (fun p : Str × Json => decide (p.1 = Str.lit k)) ∘ (fun p : String × Json => (Str.lit p.1, p.2)) =
      fun p => decide (p.1 = k) := by
    funext p
    simp
  simp only [mkObj, get?, find?_sortFields, List.find?_map, Option.map_map, hp]
  rfl

theorem get_mkObj (f : List (String × Json)) (k : String) :
    (mkObj f).get k = ((f.find? fun p => p.1 = k).map (·.2)).getD .null := by
  rw [get, get?_mkObj]

theorem mem_keys_insertField {k j : Str} {v : Json} {f : List (Str × Json)} :
    j ∈ (insertField k v f).map (·.1) ↔ j = k ∨ j ∈ f.map (·.1) := by
  induction f with
  | nil => simp [insertField]
  | cons p f ih =>
    obtain ⟨i, w⟩ := p
    unfold insertField
    split_ifs with h1 h2
    · simp
    · subst h2
      simp
    · simp only [List.map_cons, List.mem_cons, ih]
      tauto

theorem mem_keys_sortFields {j : Str} {f : List (Str × Json)} :
    j ∈ (sortFields f).map (·.1) ↔ j ∈ f.map (·.1) := by
  induction f with
  | nil => rfl
  | cons p f ih =>
    rw [show sortFields (p :: f) = insertField p.1 p.2 (sortFields f) from rfl, mem_keys_insertField, ih]
    simp

theorem hasExactly_obj {f : List (Str × Json)} {ks : List String} :
    hasExactly (.obj f) ks = true ↔ ∀ j, j ∈ f.map (·.1) ↔ j ∈ ks.map Str.lit := by
  simp only [hasExactly, Bool.and_eq_true, List.all_eq_true, List.any_eq_true, decide_eq_true_eq, List.mem_map]
  constructor
  · rintro ⟨h1, h2⟩ j
    constructor
    · rintro ⟨p, hp, rfl⟩
      exact h1 p hp
    · rintro ⟨k, hk, rfl⟩
      exact h2 k hk
  · exact fun h => ⟨fun p hp => (h p.1).mp ⟨p, hp, rfl⟩, fun k hk => (h (Str.lit k)).mpr ⟨k, hk, rfl⟩⟩

/-- The keys of a built object. -/
theorem hasExactly_mkObj {f : List (String × Json)} {ks : List String} :
    hasExactly (mkObj f) ks = true ↔ ∀ k, k ∈ f.map (·.1) ↔ k ∈ ks := by
  rw [mkObj, hasExactly_obj]
  simp only [mem_keys_sortFields, List.map_map]
  have himage : ∀ l : List String, ∀ k : String, Str.lit k ∈ l.map Str.lit ↔ k ∈ l := fun l k =>
    List.mem_map_of_injective Str.lit_injective
  have hcomp : ((fun p : Str × Json => p.1) ∘ fun p : String × Json => (Str.lit p.1, p.2)) = Str.lit ∘ (·.1) := rfl
  rw [hcomp, ← List.map_map]
  constructor
  · intro h k
    rw [← himage, ← himage ks]
    exact h _
  · intro h j
    constructor
    · intro hj
      obtain ⟨k, hk, rfl⟩ := List.mem_map.mp hj
      exact (himage ks k).mpr ((h k).mp hk)
    · intro hj
      obtain ⟨k, hk, rfl⟩ := List.mem_map.mp hj
      exact (himage _ k).mpr ((h k).mpr hk)

@[simp] theorem hasExactly_mkObj_self (f : List (String × Json)) : hasExactly (mkObj f) (f.map (·.1)) = true :=
  hasExactly_mkObj.mpr fun _ => Iff.rfl

/-! ### Keys in order -/

/-- Fields in strict key order. -/
def Ordered (f : List (Str × Json)) : Prop := (f.map (·.1)).Pairwise (· < ·)

theorem ordered_insertField {k : Str} {v : Json} {f : List (Str × Json)} (h : Ordered f) :
    Ordered (insertField k v f) := by
  unfold Ordered at *
  induction f with
  | nil => simp [insertField]
  | cons p f ih =>
    obtain ⟨i, w⟩ := p
    simp only [List.map_cons, List.pairwise_cons] at h
    unfold insertField
    split_ifs with h1 h2
    · simp only [List.map_cons, List.pairwise_cons, List.mem_cons, forall_eq_or_imp]
      exact ⟨⟨h1, fun j hj => h1.trans (h.1 j hj)⟩, h⟩
    · subst h2
      simpa using h
    · simp only [List.map_cons, List.pairwise_cons, mem_keys_insertField, forall_eq_or_imp]
      exact ⟨⟨lt_of_le_of_ne (not_lt.mp h1) (Ne.symm h2), h.1⟩, ih h.2⟩

theorem ordered_sortFields (f : List (Str × Json)) : Ordered (sortFields f) := by
  induction f with
  | nil => exact List.Pairwise.nil
  | cons p f ih => exact ordered_insertField ih

theorem insertField_of_lt {k : Str} {v : Json} {f : List (Str × Json)} (h : ∀ j ∈ f.map (·.1), k < j) :
    insertField k v f = (k, v) :: f := by
  cases f with
  | nil => rfl
  | cons p f => rw [insertField, if_pos (h p.1 (by simp))]

theorem sortFields_eq_self {f : List (Str × Json)} (h : Ordered f) : sortFields f = f := by
  induction f with
  | nil => rfl
  | cons p f ih =>
    have h' := List.pairwise_cons.mp h
    rw [show sortFields (p :: f) = insertField p.1 p.2 (sortFields f) from rfl, ih h'.2, insertField_of_lt h'.1]

theorem plainList_eq (l : List Json) : plainList l = l.map plain := by
  induction l with
  | nil => rfl
  | cons v l ih => rw [plainList, ih, List.map_cons]

theorem plainFields_eq (f : List (Str × Json)) : plainFields f = sortFields (f.map fun p => (p.1, p.2.plain)) := by
  induction f with
  | nil => rfl
  | cons p f ih =>
    rw [plainFields, ih]
    rfl

theorem map_insertField (g : Json → Json) (k : Str) (v : Json) (f : List (Str × Json)) :
    (insertField k v f).map (fun p => (p.1, g p.2)) = insertField k (g v) (f.map fun p => (p.1, g p.2)) := by
  induction f with
  | nil => rfl
  | cons p f ih =>
    simp only [insertField, List.map_cons]
    split_ifs <;> simp_all

theorem map_sortFields (g : Json → Json) (f : List (Str × Json)) :
    (sortFields f).map (fun p => (p.1, g p.2)) = sortFields (f.map fun p => (p.1, g p.2)) := by
  induction f with
  | nil => rfl
  | cons p f ih =>
    rw [show sortFields (p :: f) = insertField p.1 p.2 (sortFields f) from rfl, map_insertField, ih]
    rfl

/-- A value whose keys are in order everywhere. -/
def IsPlain (v : Json) : Prop := v.plain = v

/-- Ordering the keys is idempotent. -/
@[simp] theorem plain_plain : ∀ v : Json, v.plain.plain = v.plain := by
  refine induct rfl (fun _ => rfl) (fun _ => rfl) (fun _ => rfl) (fun _ => rfl) (fun l ih => ?_) fun f ih => ?_
  · simp only [plain, plainList_eq, List.map_map]
    congr 1
    exact List.map_congr_left ih
  · simp only [plain, plainFields_eq]
    rw [map_sortFields, List.map_map, sortFields_eq_self (ordered_sortFields _)]
    congr 2
    exact List.map_congr_left fun p hp => by simp [ih p hp]

theorem isPlain_plain (v : Json) : IsPlain v.plain := plain_plain v

theorem plain_mkObj (f : List (String × Json)) : (mkObj f).plain = mkObj (f.map fun p => (p.1, p.2.plain)) := by
  simp only [mkObj, plain, plainFields_eq, map_sortFields, List.map_map]
  rw [sortFields_eq_self (ordered_sortFields _)]
  rfl

/-- An object built from plain fields is plain. -/
theorem isPlain_mkObj {f : List (String × Json)} (h : ∀ p ∈ f, IsPlain p.2) : IsPlain (mkObj f) := by
  rw [IsPlain, plain_mkObj]
  congr 1
  conv_rhs => rw [← List.map_id f]
  exact List.map_congr_left fun p hp => by rw [h p hp]; rfl

theorem isPlain_arr {l : List Json} (h : ∀ v ∈ l, IsPlain v) : IsPlain (.arr l) := by
  rw [IsPlain, plain, plainList_eq]
  congr 1
  conv_rhs => rw [← List.map_id l]
  exact List.map_congr_left h

@[simp] theorem pyEq_refl (v : Json) : pyEq v v = true := by simp [pyEq]

end LeanCtx.Json
