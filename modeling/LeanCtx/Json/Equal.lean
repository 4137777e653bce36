import LeanCtx.Json.Object

/-! Python's equality of JSON values, taken apart: equal objects have equal values under every key, equal arrays have
    equal items, and strings, integers and Booleans are equal only to themselves. -/

namespace LeanCtx.Json

theorem pyEq_iff {a b : Json} : pyEq a b = true ↔ a.plain.loose = b.plain.loose := by
  simp [pyEq]

theorem pyEq_symm {a b : Json} (h : pyEq a b = true) : pyEq b a = true := pyEq_iff.mpr (pyEq_iff.mp h).symm

theorem pyEq_trans {a b c : Json} (h : pyEq a b = true) (h' : pyEq b c = true) : pyEq a c = true :=
  pyEq_iff.mpr ((pyEq_iff.mp h).trans (pyEq_iff.mp h'))

theorem looseFields_eq (f : List (Str × Json)) : looseFields f = f.map fun p => (p.1, p.2.loose) := by
  induction f with
  | nil => rfl
  | cons p f ih => rw [looseFields, ih, List.map_cons]

theorem looseList_eq (l : List Json) : looseList l = l.map loose := by
  induction l with
  | nil => rfl
  | cons v l ih => rw [looseList, ih, List.map_cons]

/-! ### Objects -/

theorem get?_plain (v : Json) (k : String) : v.plain.get? k = (v.get? k).map plain := by
  cases v with
  | obj f =>
    have hp : (fun p : Str × Json => decide (p.1 = Str.lit k)) ∘ (fun p : Str × Json => (p.1, p.2.plain)) =
        fun p => decide (p.1 = Str.lit k) := rfl
    simp only [plain_obj, get?, plainFields_eq, find?_sortFields, List.find?_map, hp, Option.map_map]
    rfl
  | _ => rfl

theorem get_plain (v : Json) (k : String) : v.plain.get k = (v.get k).plain := by
  rw [get, get, get?_plain]
  cases v.get? k <;> rfl

theorem get?_loose (v : Json) (k : String) : v.loose.get? k = (v.get? k).map loose := by
  cases v with
  | obj f =>
    have hp : (fun p : Str × Json => decide (p.1 = Str.lit k)) ∘ (fun p : Str × Json => (p.1, p.2.loose)) =
        fun p => decide (p.1 = Str.lit k) := rfl
    simp only [loose_obj, get?, looseFields_eq, List.find?_map, hp, Option.map_map]
    rfl
  | float x => cases hx : x.toInt? <;> simp [loose, hx, get?]
  | _ => rfl

/-- Equal objects have equal values under every key. -/
theorem pyEq_get {a b : Json} (h : pyEq a b = true) (k : String) : pyEq (a.get k) (b.get k) = true := by
  have hget : ∀ v : Json, (v.get k).plain.loose = v.plain.loose.get k := by
    intro v
    rw [get, get, get?_loose, get?_plain]
    cases v.get? k <;> rfl
  rw [pyEq_iff, hget, hget, pyEq_iff.mp h]

/-! ### Strings, numbers and arrays -/

@[simp] theorem pyEq_str {s t : Str} : pyEq (.str s) (.str t) = true ↔ s = t := by
  simp [pyEq_iff, plain, loose]

@[simp] theorem pyEq_int {m n : Int} : pyEq (.int m) (.int n) = true ↔ m = n := by
  simp [pyEq_iff, plain, loose]

@[simp] theorem pyEq_bool {b c : Bool} : pyEq (.bool b) (.bool c) = true ↔ b = c := by
  cases b <;> cases c <;> simp [pyEq_iff, plain, loose]

/-- Only the same string equals a string. -/
theorem eq_of_pyEq_str {v : Json} {s : Str} (h : pyEq v (.str s) = true) : v = .str s := by
  rw [pyEq_iff] at h
  cases v with
  | str t => simpa [plain, loose] using h
  | float x => cases hx : x.toInt? <;> simp [plain, loose, hx] at h
  | _ => simp [plain, loose] at h

/-- Only null equals null. -/
theorem eq_of_pyEq_null {v : Json} (h : pyEq v .null = true) : v = .null := by
  rw [pyEq_iff] at h
  cases v with
  | null => rfl
  | float x => cases hx : x.toInt? <;> simp [plain, loose, hx] at h
  | _ => simp [plain, loose] at h

/-- Equal arrays have equal items. -/
theorem pyEq_arr {l m : List Json} : pyEq (.arr l) (.arr m) = true ↔ List.Forall₂ (fun a b => pyEq a b = true) l m := by
  rw [pyEq_iff, plain, plain, loose, loose, arr.injEq, plainList_eq, plainList_eq, looseList_eq, looseList_eq, List.map_map,
    List.map_map]
  induction l generalizing m with
  | nil => cases m <;> simp
  | cons a l ih => cases m <;> simp [pyEq_iff, ih]

theorem exists_mem_of_forall₂ {α β : Type} {R : α → β → Prop} {l : List α} {m : List β} (h : List.Forall₂ R l m) {a : α}
    (ha : a ∈ l) : ∃ b ∈ m, R a b := by
  induction h with
  | nil => cases ha
  | cons hab _ ih =>
    rcases List.mem_cons.mp ha with rfl | ha
    · exact ⟨_, by simp, hab⟩
    · obtain ⟨b, hb, hR⟩ := ih ha
      exact ⟨b, by simp [hb], hR⟩

/-- Only an array equals an array. -/
theorem exists_arr_of_pyEq {v : Json} {l : List Json} (h : pyEq v (.arr l) = true) : ∃ m, v = .arr m := by
  rw [pyEq_iff] at h
  cases v with
  | arr m => exact ⟨m, rfl⟩
  | float x => cases hx : x.toInt? <;> simp [plain, loose, hx] at h
  | _ => simp [plain, loose] at h

/-- Encoded lists that are equal were the same list, where the encoding tells its values apart. -/
theorem map_inj_of_pyEq {α : Type} {f : α → Json} (hf : ∀ a b, pyEq (f a) (f b) = true → a = b) {l m : List α}
    (h : pyEq (.arr (l.map f)) (.arr (m.map f)) = true) : l = m := by
  rw [pyEq_arr, List.forall₂_map_left_iff, List.forall₂_map_right_iff] at h
  induction h with
  | nil => rfl
  | cons hab _ ih => rw [hf _ _ hab, ih]

end LeanCtx.Json
