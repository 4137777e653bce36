import LeanCtx.Json.RoundTrip

/-! Values that have canonical bytes: their strings encode, their integers are short and their floats finite. -/

namespace LeanCtx.Json

/-- The value has canonical bytes. -/
def Writable (v : Json) : Prop := ∃ b, v.canonicalBytes? = some b

/-- The value, its keys in order, has a text that encodes. -/
def HasText (v : Json) : Prop := ∃ t, v.text? = some t ∧ t.all Str.isScalar = true

theorem writable_iff {v : Json} : Writable v ↔ HasText v.plain := by
  constructor
  · rintro ⟨b, h⟩
    obtain ⟨t, ht, hb⟩ := Option.bind_eq_some_iff.mp h
    unfold Str.utf8? at hb
    split_ifs at hb with hs
    exact ⟨t, ht, hs⟩
  · rintro ⟨t, ht, hs⟩
    exact ⟨_, Option.bind_eq_some_iff.mpr ⟨t, ht, if_pos hs⟩⟩

theorem all_escape {s : Str} (h : s.all Str.isScalar = true) : (s.flatMap escape).all Str.isScalar = true := by
  rw [List.all_eq_true] at h ⊢
  intro c hc
  obtain ⟨d, hd, hc⟩ := List.mem_flatMap.mp hc
  have hscalar := h d hd
  have hsmall : c < 128 → Str.isScalar c = true := fun h => by
    simp only [Str.isScalar, Bool.or_eq_true, decide_eq_true_eq]
    omega
  have hhex : ∀ n, n < 16 → hexDigit n < 128 := fun n hn => by unfold hexDigit; split_ifs <;> omega
  have hhi : d < 32 → hexDigit (d / 16) < 128 := fun _ => hhex _ (by omega)
  have hlo : d < 32 → hexDigit (d % 16) < 128 := fun _ => hhex _ (by omega)
  unfold escape at hc
  split_ifs at hc <;> simp only [List.mem_cons, List.not_mem_nil, or_false] at hc <;>
    first
    | (rcases hc with rfl | rfl <;> exact hsmall (by omega))
    | (rcases hc with rfl | rfl | rfl | rfl | rfl | rfl <;> exact hsmall (by omega))
    | exact hc ▸ hscalar

theorem all_quote {s : Str} (h : s.all Str.isScalar = true) : (quote s).all Str.isScalar = true := by
  simp only [quote, List.cons_append, List.all_cons, List.all_append, all_escape h]
  decide

theorem all_joinComma {l : List Str} (h : ∀ t ∈ l, t.all Str.isScalar = true) :
    (joinComma l).all Str.isScalar = true := by
  induction l with
  | nil => rfl
  | cons t l ih =>
    have ht := h t (by simp)
    cases l with
    | nil => exact ht
    | cons u l =>
      have hrest := ih fun x hx => h x (by simp [hx])
      have hcomma : Str.isScalar 44 = true := by decide
      simp only [joinComma, List.all_append, List.all_cons, ht, hrest, hcomma, Bool.and_self]

theorem itemTexts?_isSome {l : List Json} (h : ∀ v ∈ l, HasText v) :
    ∃ ts, itemTexts? l = some ts ∧ ∀ t ∈ ts, t.all Str.isScalar = true := by
  induction l with
  | nil => exact ⟨[], rfl, nofun⟩
  | cons v l ih =>
    obtain ⟨t, ht, hs⟩ := h v (by simp)
    obtain ⟨ts, hts, hall⟩ := ih fun x hx => h x (by simp [hx])
    refine ⟨t :: ts, by rw [itemTexts?, ht, Option.bind_some, hts]; rfl, fun u hu => ?_⟩
    rcases List.mem_cons.mp hu with rfl | hu
    · exact hs
    · exact hall u hu

theorem fieldTexts?_isSome {f : List (Str × Json)} (h : ∀ p ∈ f, p.1.all Str.isScalar = true ∧ HasText p.2) :
    ∃ ts, fieldTexts? f = some ts ∧ ∀ t ∈ ts, t.all Str.isScalar = true := by
  induction f with
  | nil => exact ⟨[], rfl, nofun⟩
  | cons p f ih =>
    obtain ⟨k, v⟩ := p
    obtain ⟨hk, t, ht, hs⟩ := h (k, v) (by simp)
    obtain ⟨ts, hts, hall⟩ := ih fun x hx => h x (by simp [hx])
    refine ⟨(quote k ++ 58 :: t) :: ts, by rw [fieldTexts?, ht, Option.bind_some, hts]; rfl, fun u hu => ?_⟩
    rcases List.mem_cons.mp hu with rfl | hu
    · have hcolon : Str.isScalar 58 = true := by decide
      simp only [List.all_append, List.all_cons, all_quote hk, hcolon, hs, Bool.and_self]
    · exact hall u hu

theorem hasText_arr {l : List Json} (h : ∀ v ∈ l, HasText v) : HasText (.arr l) := by
  obtain ⟨ts, hts, hall⟩ := itemTexts?_isSome h
  refine ⟨_, by rw [text?, hts]; rfl, ?_⟩
  simp only [List.cons_append, List.all_cons, List.all_append, all_joinComma hall]
  decide

theorem hasText_obj {f : List (Str × Json)} (h : ∀ p ∈ f, p.1.all Str.isScalar = true ∧ HasText p.2) :
    HasText (.obj f) := by
  obtain ⟨ts, hts, hall⟩ := fieldTexts?_isSome h
  refine ⟨_, by rw [text?, hts]; rfl, ?_⟩
  simp only [List.cons_append, List.all_cons, List.all_append, all_joinComma hall]
  decide

theorem isScalar_lit (s : String) : (Str.lit s).all Str.isScalar = true := by
  rw [List.all_eq_true]
  intro c hc
  obtain ⟨d, -, rfl⟩ := List.mem_map.mp hc
  have hvalid := d.valid
  simp only [UInt32.isValidChar, Nat.isValidChar] at hvalid
  simp only [Str.isScalar, Bool.or_eq_true, Bool.and_eq_true, decide_eq_true_eq, Char.toNat]
  omega

theorem mem_of_mem_insertField {k : Str} {v : Json} {f : List (Str × Json)} {p : Str × Json}
    (h : p ∈ insertField k v f) : p = (k, v) ∨ p ∈ f := by
  induction f with
  | nil => exact Or.inl (List.mem_singleton.mp h)
  | cons q f ih =>
    unfold insertField at h
    split_ifs at h
    · exact List.mem_cons.mp h
    · exact (List.mem_cons.mp h).imp_right (List.mem_cons_of_mem _)
    · rcases List.mem_cons.mp h with rfl | h
      · exact Or.inr (by simp)
      · exact (ih h).imp_right (List.mem_cons_of_mem _)

theorem mem_of_mem_sortFields {f : List (Str × Json)} {p : Str × Json} (h : p ∈ sortFields f) : p ∈ f := by
  induction f with
  | nil => cases h
  | cons q f ih =>
    rcases mem_of_mem_insertField (f := sortFields f) h with rfl | h
    · simp
    · exact List.mem_cons_of_mem _ (ih h)

theorem writable_null : Writable .null := writable_iff.mpr ⟨_, rfl, by decide⟩

theorem writable_bool (b : Bool) : Writable (.bool b) := writable_iff.mpr ⟨_, rfl, by cases b <;> decide⟩

theorem writable_str {s : Str} (h : s.all Str.isScalar = true) : Writable (.str s) :=
  writable_iff.mpr ⟨_, rfl, all_quote h⟩

theorem isScalar_of_lt {c : Nat} (h : c < 128) : Str.isScalar c = true := by
  simp only [Str.isScalar, Bool.or_eq_true, decide_eq_true_eq]
  omega

theorem all_natText (n : Nat) : (natText n).all Str.isScalar = true := by
  rw [natText_eq, digitsText, List.all_map, List.all_eq_true]
  intro d hd
  have hlt := decimal_lt n d hd
  exact isScalar_of_lt (show 48 + d < 128 by omega)

theorem writable_int {n : Int} (h : (natText n.natAbs).length ≤ maxIntDigits) : Writable (.int n) := by
  refine writable_iff.mpr ⟨_, by rw [plain, text?, if_pos h], ?_⟩
  cases n with
  | ofNat n => exact all_natText n
  | negSucc n =>
    simp only [intText, List.all_cons, all_natText]
    decide

theorem writable_arr {l : List Json} (h : ∀ v ∈ l, Writable v) : Writable (.arr l) := by
  rw [writable_iff, plain, plainList_eq]
  refine hasText_arr fun v hv => ?_
  obtain ⟨w, hw, rfl⟩ := List.mem_map.mp hv
  exact writable_iff.mp (h w hw)

theorem writable_mkObj {f : List (String × Json)} (h : ∀ p ∈ f, Writable p.2) : Writable (mkObj f) := by
  rw [writable_iff, plain_mkObj, mkObj]
  refine hasText_obj fun p hp => ?_
  obtain ⟨q, hq, rfl⟩ := List.mem_map.mp (mem_of_mem_sortFields hp)
  obtain ⟨r, hr, rfl⟩ := List.mem_map.mp hq
  exact ⟨isScalar_lit r.1, writable_iff.mp (h r hr)⟩

end LeanCtx.Json
