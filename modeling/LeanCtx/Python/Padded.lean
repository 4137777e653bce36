import LeanCtx.Json.RoundTrip

/-! Numbers filled with zeros to a width: they have that width while they are small enough, read back as the number, and
    sort as the numbers do. -/

namespace LeanCtx

/-- The number that a text of decimal digits spells. -/
def decimalValue (s : Str) : Nat := ofDigits (s.map (· - 48))

theorem natText_ne_nil (n : Nat) : natText n ≠ [] := by
  rw [Json.natText_eq]
  rcases Json.decimal_head n with ⟨d, l, h, -⟩ | h <;> simp [h, digitsText]

theorem isDigit_natText (n : Nat) : (natText n).all isDigit = true := by
  rw [Json.natText_eq, List.all_eq_true]
  intro c hc
  obtain ⟨d, hd, rfl⟩ := List.mem_map.mp hc
  have := Json.decimal_lt n d hd
  simp only [isDigit, Bool.and_eq_true, decide_eq_true_eq]
  omega

theorem decimalValue_natText (n : Nat) : decimalValue (natText n) = n := by
  have hmap : (digitsText (Json.decimal n)).map (· - 48) = Json.decimal n := by
    rw [digitsText, List.map_map]
    conv_rhs => rw [← List.map_id (Json.decimal n)]
    exact List.map_congr_left fun d _ => by simp
  rw [decimalValue, Json.natText_eq, hmap, Json.ofDigits_decimal]

/-- The length of a number's text is at most the width that bounds the number, and no less. -/
theorem length_natText_le {w n : Nat} (hw : 0 < w) : (natText n).length ≤ w ↔ n < 10 ^ w := by
  unfold natText
  split_ifs with h
  · subst h
    simp only [List.length_singleton]
    exact ⟨fun _ => Nat.pow_pos (by decide), fun _ => hw⟩
  · rw [digitsText, List.length_map, List.length_reverse]
    exact Nat.digits_length_le_iff (by decide) n

theorem length_paddedText {w n : Nat} (hw : 0 < w) (h : n < 10 ^ w) : (paddedText w n).length = w := by
  have := (length_natText_le hw).mpr h
  rw [paddedText, List.length_append, List.length_replicate]
  omega

theorem lt_length_paddedText {w n : Nat} (hw : 0 < w) (h : 10 ^ w ≤ n) : w < (paddedText w n).length := by
  have := mt (length_natText_le (n := n) hw).mp (not_lt.mpr h)
  rw [paddedText, List.length_append, List.length_replicate]
  omega

theorem isDigit_paddedText (w n : Nat) : (paddedText w n).all isDigit = true := by
  rw [paddedText, List.all_append, isDigit_natText, Bool.and_true, List.all_eq_true]
  intro c hc
  rw [List.eq_of_mem_replicate hc]
  rfl

theorem ofDigits_zeros (k : Nat) (ds : List Nat) : ofDigits (List.replicate k 0 ++ ds) = ofDigits ds := by
  induction k with
  | zero => rfl
  | succ k ih =>
    rw [List.replicate_succ, List.cons_append]
    simpa [ofDigits] using ih

theorem decimalValue_paddedText (w n : Nat) : decimalValue (paddedText w n) = n := by
  rw [paddedText, decimalValue, List.map_append, List.map_replicate, ofDigits_zeros]
  exact decimalValue_natText n

/-! ### Order -/

theorem foldl_digits (a : Nat) (ds : List Nat) :
    ds.foldl (fun n d => n * 10 + d) a = a * 10 ^ ds.length + ofDigits ds := by
  induction ds generalizing a with
  | nil => simp [ofDigits]
  | cons d ds ih =>
    have hcons : ofDigits (d :: ds) = ds.foldl (fun n d => n * 10 + d) (0 * 10 + d) := rfl
    rw [List.foldl_cons, ih, hcons, ih, List.length_cons, pow_succ]
    ring

theorem ofDigits_cons (d : Nat) (ds : List Nat) : ofDigits (d :: ds) = d * 10 ^ ds.length + ofDigits ds := by
  rw [ofDigits, List.foldl_cons, foldl_digits]
  simp

theorem decimalValue_lt {s : Str} (h : s.all isDigit = true) : decimalValue s < 10 ^ s.length := by
  induction s with
  | nil => decide
  | cons c s ih =>
    rw [List.all_cons, Bool.and_eq_true] at h
    have hc := h.1
    have := ih h.2
    simp only [isDigit, Bool.and_eq_true, decide_eq_true_eq] at hc
    simp only [decimalValue, List.map_cons, ofDigits_cons, List.length_map, List.length_cons, pow_succ] at this ⊢
    have : (c - 48) * 10 ^ s.length ≤ 9 * 10 ^ s.length := Nat.mul_le_mul_right _ (by omega)
    omega

/-- Texts of equally many digits sort as their numbers, whatever follows. -/
theorem lt_of_decimalValue_lt {s t : Str} (u v : Str) (hlen : s.length = t.length) (hs : s.all isDigit = true)
    (ht : t.all isDigit = true) (h : decimalValue s < decimalValue t) : s ++ u < t ++ v := by
  induction s generalizing t with
  | nil =>
    obtain rfl := List.eq_nil_of_length_eq_zero hlen.symm
    exact absurd h (lt_irrefl _)
  | cons c s ih =>
    cases t with
    | nil => cases hlen
    | cons d t =>
      rw [List.all_cons, Bool.and_eq_true] at hs ht
      have hlen' : s.length = t.length := Nat.succ.inj hlen
      have hsv := decimalValue_lt hs.2
      have htv := decimalValue_lt ht.2
      have hc := hs.1
      have hd := ht.1
      simp only [isDigit, Bool.and_eq_true, decide_eq_true_eq] at hc hd
      simp only [decimalValue, List.map_cons, ofDigits_cons, List.length_map, hlen'] at h hsv htv
      rw [List.cons_append, List.cons_append, List.cons_lt_cons_iff]
      rcases lt_trichotomy c d with hcd | rfl | hcd
      · exact Or.inl hcd
      · exact Or.inr ⟨rfl, ih hlen' hs.2 ht.2 (by simp only [decimalValue]; omega)⟩
      · -- a greater first digit outweighs the rest
        have hle : (d - 48 + 1) * 10 ^ t.length ≤ (c - 48) * 10 ^ t.length := Nat.mul_le_mul_right _ (by omega)
        rw [Nat.add_mul, Nat.one_mul] at hle
        omega

end LeanCtx
