import LeanCtx.Json.Writable

/-! The number of bytes of a canonical text. It does not depend on the order of the keys, so that of an object is the sum
    over its fields as they were given. -/

namespace LeanCtx.Json

/-- The number of bytes of the canonical text of a value that has one. -/
def byteLength (v : Json) : Nat := ((canonicalBytes? v).map List.length).getD 0

/-- The number of bytes of the text of a value whose keys are in order. -/
def textLength (v : Json) : Nat := (v.text?.map Str.utf8Length).getD 0

theorem length_canonicalBytes {v : Json} {b : Bytes} (h : canonicalBytes? v = some b) : b.length = byteLength v := by
  rw [byteLength, h, Option.map_some, Option.getD_some]

theorem byteLength_eq_textLength {v : Json} (h : Writable v) : byteLength v = textLength v.plain := by
  obtain ⟨b, hb⟩ := h
  obtain ⟨t, ht, hutf8⟩ := Option.bind_eq_some_iff.mp hb
  rw [← length_canonicalBytes hb, textLength, ht, Option.map_some, Option.getD_some, Str.length_utf8 hutf8]

/-! ### Strings -/

/-- Printable ASCII that is written as it is. -/
def IsBare (c : Nat) : Prop := 32 ≤ c ∧ c < 127 ∧ c ≠ 34 ∧ c ≠ 92

instance : DecidablePred IsBare := fun c => by unfold IsBare; infer_instance

theorem utf8Length_quote {s : Str} (h : ∀ c ∈ s, IsBare c) : (quote s).utf8Length = s.length + 2 := by
  have hbody : Str.utf8Length (s.flatMap escape) = s.length := by
    induction s with
    | nil => rfl
    | cons c s ih =>
      rw [List.forall_mem_cons] at h
      obtain ⟨h32, h127, h34, h92⟩ := h.1
      have hescape : escape c = [c] := by
        unfold escape
        split_ifs <;> first | omega | rfl
      have hpoint : Str.pointLength c = 1 := if_pos (by omega)
      rw [List.flatMap_cons, hescape, Str.utf8Length_append, ih h.2, List.length_cons, Str.utf8Length, List.map_singleton,
        List.sum_singleton, hpoint, Nat.add_comm]
  rw [quote, Str.utf8Length_append, ← List.singleton_append, Str.utf8Length_append, hbody]
  have hmark : Str.utf8Length [34] = 1 := rfl
  omega

theorem byteLength_str {s : Str} (h : ∀ c ∈ s, IsBare c) : byteLength (.str s) = s.length + 2 := by
  have hscalar : s.all Str.isScalar = true := List.all_eq_true.mpr fun c hc => isScalar_of_lt (by
    obtain ⟨-, h127, -⟩ := h c hc
    omega)
  rw [byteLength_eq_textLength (writable_str hscalar)]
  exact utf8Length_quote h

/-! ### Arrays and objects -/

theorem utf8Length_joinComma {l : List Str} (h : l ≠ []) :
    (joinComma l).utf8Length + 1 = (l.map fun t => t.utf8Length + 1).sum := by
  induction l with
  | nil => exact absurd rfl h
  | cons t l ih =>
    cases l with
    | nil => rfl
    | cons u l =>
      have ih := ih (by simp)
      have hcomma : Str.utf8Length [44] = 1 := rfl
      rw [joinComma, ← List.singleton_append, Str.utf8Length_append, Str.utf8Length_append, List.map_cons, List.sum_cons,
        ← ih]
      omega

theorem itemTexts?_length {l : List Json} {ts : List Str} (h : itemTexts? l = some ts) :
    (ts.map fun t => t.utf8Length + 1).sum = (l.map fun v => textLength v + 1).sum := by
  induction l generalizing ts with
  | nil =>
    cases h
    rfl
  | cons v l ih =>
    obtain ⟨t, ht, h⟩ := Option.bind_eq_some_iff.mp h
    obtain ⟨us, hus, rfl⟩ := Option.map_eq_some_iff.mp h
    rw [List.map_cons, List.map_cons, List.sum_cons, List.sum_cons, ih hus, textLength, ht]
    rfl

/-- The bytes of a field and the comma or brace after it. -/
def fieldLength (p : Str × Json) : Nat := (quote p.1).utf8Length + textLength p.2 + 2

theorem fieldTexts?_length {f : List (Str × Json)} {ts : List Str} (h : fieldTexts? f = some ts) :
    (ts.map fun t => t.utf8Length + 1).sum = (f.map fieldLength).sum := by
  induction f generalizing ts with
  | nil =>
    cases h
    rfl
  | cons p f ih =>
    obtain ⟨t, ht, h⟩ := Option.bind_eq_some_iff.mp h
    obtain ⟨us, hus, rfl⟩ := Option.map_eq_some_iff.mp h
    have hfield : (quote p.1 ++ 58 :: t).utf8Length + 1 = fieldLength p := by
      have hcolon : Str.utf8Length [58] = 1 := rfl
      rw [← List.singleton_append, Str.utf8Length_append, Str.utf8Length_append, fieldLength, textLength, ht,
        Option.map_some, Option.getD_some]
      omega
    rw [List.map_cons, List.map_cons, List.sum_cons, List.sum_cons, ih hus, hfield]

theorem ne_nil_of_itemTexts? {l : List Json} {ts : List Str} (h : itemTexts? l = some ts) (hl : l ≠ []) : ts ≠ [] := by
  cases l with
  | nil => exact absurd rfl hl
  | cons v l =>
    obtain ⟨t, -, h⟩ := Option.bind_eq_some_iff.mp h
    obtain ⟨us, -, rfl⟩ := Option.map_eq_some_iff.mp h
    simp

theorem ne_nil_of_fieldTexts? {f : List (Str × Json)} {ts : List Str} (h : fieldTexts? f = some ts) (hf : f ≠ []) :
    ts ≠ [] := by
  cases f with
  | nil => exact absurd rfl hf
  | cons p f =>
    obtain ⟨t, -, h⟩ := Option.bind_eq_some_iff.mp h
    obtain ⟨us, -, rfl⟩ := Option.map_eq_some_iff.mp h
    simp

theorem byteLength_arr {l : List Json} (h : ∀ v ∈ l, Writable v) (hl : l ≠ []) :
    byteLength (.arr l) = 1 + (l.map fun v => byteLength v + 1).sum := by
  have hwritable := writable_arr h
  obtain ⟨t, ht, -⟩ := writable_iff.mp hwritable
  have hlengths : (l.map fun v => byteLength v + 1) = (l.map plain).map fun v => textLength v + 1 := by
    rw [List.map_map]
    exact List.map_congr_left fun v hv => by rw [byteLength_eq_textLength (h v hv), Function.comp_apply]
  rw [byteLength_eq_textLength hwritable, hlengths]
  rw [plain, plainList_eq] at ht ⊢
  obtain ⟨ts, hts, rfl⟩ := Option.map_eq_some_iff.mp ht
  have hjoin := utf8Length_joinComma (ne_nil_of_itemTexts? hts (by simpa using hl))
  have hopen : Str.utf8Length [91] = 1 := rfl
  have hclose : Str.utf8Length [93] = 1 := rfl
  rw [textLength, ht, Option.map_some, Option.getD_some, ← itemTexts?_length hts, ← hjoin, Str.utf8Length_append,
    ← List.singleton_append, Str.utf8Length_append]
  omega

theorem perm_insertField {k : Str} {v : Json} {f : List (Str × Json)} (h : k ∉ f.map (·.1)) :
    (insertField k v f).Perm ((k, v) :: f) := by
  induction f with
  | nil => exact .refl _
  | cons p f ih =>
    rw [List.map_cons, List.mem_cons, not_or] at h
    rw [insertField]
    split_ifs with hlt heq
    · exact .refl _
    · exact absurd heq h.1
    · exact ((ih h.2).cons p).trans (.swap _ _ _)

theorem perm_sortFields {f : List (Str × Json)} (h : (f.map (·.1)).Nodup) : (sortFields f).Perm f := by
  induction f with
  | nil => exact .refl _
  | cons p f ih =>
    rw [List.map_cons, List.nodup_cons] at h
    have hsorted : sortFields (p :: f) = insertField p.1 p.2 (sortFields f) := rfl
    rw [hsorted]
    exact (perm_insertField (by rw [mem_keys_sortFields]; exact h.1)).trans ((ih h.2).cons p)

/-- The bytes of an object: a brace, and for each field its key and value, a colon and what separates it. -/
theorem byteLength_mkObj {f : List (String × Json)} (h : ∀ p ∈ f, Writable p.2) (hnodup : (f.map (·.1)).Nodup)
    (hf : f ≠ []) :
    byteLength (mkObj f) = 1 + (f.map fun p => (quote (Str.lit p.1)).utf8Length + byteLength p.2 + 2).sum := by
  have hwritable := writable_mkObj h
  obtain ⟨t, ht, -⟩ := writable_iff.mp hwritable
  have hlengths : (f.map fun p => (quote (Str.lit p.1)).utf8Length + byteLength p.2 + 2) =
      ((f.map fun p => (p.1, p.2.plain)).map fun p => (Str.lit p.1, p.2)).map fieldLength := by
    rw [List.map_map, List.map_map]
    exact List.map_congr_left fun p hp => by rw [byteLength_eq_textLength (h p hp)]; rfl
  rw [byteLength_eq_textLength hwritable, hlengths]
  rw [plain_mkObj, mkObj] at ht ⊢
  have hkeys : (((f.map fun p => (p.1, p.2.plain)).map fun p => (Str.lit p.1, p.2)).map (·.1)).Nodup := by
    rw [List.map_map, List.map_map]
    have := hnodup.map Str.lit_injective
    rwa [List.map_map] at this
  obtain ⟨ts, hts, rfl⟩ := Option.map_eq_some_iff.mp ht
  have hne : sortFields ((f.map fun p => (p.1, p.2.plain)).map fun p => (Str.lit p.1, p.2)) ≠ [] := by
    intro hnil
    have := (perm_sortFields hkeys).length_eq
    rw [hnil, List.length_nil, List.length_map, List.length_map] at this
    exact hf (List.eq_nil_of_length_eq_zero this.symm)
  have hjoin := utf8Length_joinComma (ne_nil_of_fieldTexts? hts hne)
  have hsum := fieldTexts?_length hts
  rw [((perm_sortFields hkeys).map fieldLength).sum_eq] at hsum
  have hopen : Str.utf8Length [123] = 1 := rfl
  have hclose : Str.utf8Length [125] = 1 := rfl
  rw [textLength, ht, Option.map_some, Option.getD_some, ← hsum, ← hjoin, Str.utf8Length_append,
    ← List.singleton_append, Str.utf8Length_append]
  omega

/-! ### Values of a bounded length -/

/-- A value that is written in at most `n` bytes. -/
def Fits (n : Nat) (v : Json) : Prop := Writable v ∧ byteLength v ≤ n

theorem Fits.mono {m n : Nat} {v : Json} (h : Fits m v) (hle : m ≤ n) : Fits n v := ⟨h.1, h.2.trans hle⟩

theorem fits_str {s : Str} (h : ∀ c ∈ s, IsBare c) : Fits (s.length + 2) (.str s) := by
  refine ⟨writable_str (List.all_eq_true.mpr fun c hc => isScalar_of_lt ?_), (byteLength_str h).le⟩
  have := h c hc
  unfold IsBare at this
  omega

theorem fits_arr {l : List Json} {n : Nat} (h : ∀ v ∈ l, Fits n v) (hl : l ≠ []) : Fits (1 + l.length * (n + 1)) (.arr l) := by
  refine ⟨writable_arr fun v hv => (h v hv).1, ?_⟩
  rw [byteLength_arr (fun v hv => (h v hv).1) hl]
  have hsum := List.sum_le_card_nsmul (l.map fun v => byteLength v + 1) (n + 1) fun x hx => by
    obtain ⟨v, hv, rfl⟩ := List.mem_map.mp hx
    exact Nat.succ_le_succ (h v hv).2
  rw [List.length_map, smul_eq_mul] at hsum
  omega

/-- Keys that are written as they are, in a bounded length. -/
def BareKeys (k : Nat) (keys : List String) : Prop :=
  keys ≠ [] ∧ keys.Nodup ∧ ∀ s ∈ keys, (∀ c ∈ Str.lit s, IsBare c) ∧ (Str.lit s).length ≤ k

instance (k : Nat) (keys : List String) : Decidable (BareKeys k keys) :=
  inferInstanceAs (Decidable (_ ∧ _ ∧ _))

theorem fits_mkObj {f : List (String × Json)} {l : List String} {n k : Nat} (hf : f.map (·.1) = l) (hkeys : BareKeys k l)
    (h : ∀ p ∈ f, Fits n p.2) : Fits (1 + l.length * (k + n + 4)) (mkObj f) := by
  subst hf
  obtain ⟨hne, hnodup, hbare⟩ := hkeys
  refine ⟨writable_mkObj fun p hp => (h p hp).1, ?_⟩
  rw [byteLength_mkObj (fun p hp => (h p hp).1) hnodup (by simpa using hne)]
  have hsum := List.sum_le_card_nsmul (f.map fun p => (quote (Str.lit p.1)).utf8Length + byteLength p.2 + 2) (k + n + 4)
    fun x hx => by
      obtain ⟨p, hp, rfl⟩ := List.mem_map.mp hx
      obtain ⟨hchars, hlength⟩ := hbare p.1 (List.mem_map_of_mem hp)
      have hkey := utf8Length_quote hchars
      have hvalue := (h p hp).2
      omega
  rw [List.length_map, smul_eq_mul] at hsum
  rw [List.length_map]
  omega

theorem byteLength_plain (v : Json) : byteLength v.plain = byteLength v := by rw [byteLength, canonicalBytes?_plain, byteLength]

end LeanCtx.Json
