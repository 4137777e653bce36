import LeanCtx.Json.Lexeme
import LeanCtx.Json.Length

/-! Decoding and encoding fit together. A decoded document is plain, and it has a canonical form exactly when
    the strings and numbers of its text can be said in JSON (`fitsTogether_iff`). -/

namespace LeanCtx.Json
open PyFloat

/-! ### Canonical bytes are UTF-8 -/

/-- The head of a value's text is ASCII. -/
theorem text_head_lt {v : Json} {t : Str} (h : v.text? = some t) : ∀ c ∈ t.head?, c < 128 := by
  have hnumber : ∀ {l u}, scanLiteral t = some (l, u) → ∀ c ∈ t.head?, c < 128 := by
    intro l u hl c hc
    obtain ⟨d, r, rfl, hd⟩ := scanLiteral_head hl
    cases hc
    simp only [isDigit, Bool.and_eq_true, decide_eq_true_eq] at hd
    omega
  cases v with
  | null => cases h; decide
  | bool b => cases h; cases b <;> decide
  | int n =>
    unfold text? at h
    split_ifs at h
    cases h
    exact hnumber (by simpa using scanLiteral_intText stops_nil n)
  | float x =>
    obtain ⟨l, hl, -⟩ := reads_of_repr h
    exact hnumber hl
  | str s => cases h; simp [quote]
  | arr l =>
    obtain ⟨ts, -, rfl⟩ := Option.map_eq_some_iff.mp h
    simp
  | obj f =>
    obtain ⟨ts, -, rfl⟩ := Option.map_eq_some_iff.mp h
    simp

/-- No byte of an encoded printable text is zero. -/
theorem encodePoint_ne_zero {c : Nat} (h : 32 ≤ c) (hc : c < 0x110000) : ∀ b ∈ Str.encodePoint c, b ≠ 0 := by
  intro b hb
  rw [ne_eq, ← UInt8.toNat_inj]
  unfold Str.encodePoint at hb
  split_ifs at hb
  all_goals
    simp only [List.mem_cons, List.not_mem_nil, or_false] at hb
    rcases hb with rfl | rfl | rfl | rfl <;>
      first
      | (rw [Str.toNat_ofNat_lt (by omega)]; change _ ≠ 0; omega)

/-- Bytes without a zero, the first of them ASCII, are read as UTF-8. -/
theorem decodeText?_ascii {b : Bytes} (hzero : ∀ x ∈ b, x ≠ 0) (hhead : ∀ x ∈ b.head?, x.toNat < 128) :
    decodeText? b = Str.decodeUtf8? b := by
  cases b with
  | nil => rfl
  | cons x r =>
    have hx : x.toNat < 128 := hhead x rfl
    have hne : ∀ n : UInt8, 128 ≤ n.toNat → x ≠ n := by
      rintro n hn rfl
      omega
    have hstart : ∀ (n : UInt8) (l : Bytes), 128 ≤ n.toNat ∨ n = 0 → ¬(n :: l) <+: x :: r := by
      rintro n l hn ⟨t, ht⟩
      have heq := (List.cons.inj ht).1
      rcases hn with hn | rfl
      · exact hne n hn heq.symm
      · exact hzero x (by simp) heq.symm
    unfold decodeText?
    rw [if_neg (hstart _ _ (Or.inr rfl)), if_neg (hstart _ _ (by decide)), if_neg (hstart _ _ (by decide)),
      if_neg (hstart _ _ (by decide)), if_neg (hstart _ _ (by decide))]
    split <;> first | rfl | simp_all

/-! ### Which values have a text -/

theorem hasText_str_iff {s : Str} : HasText (.str s) ↔ s.all Str.isScalar = true := by
  refine ⟨?_, fun h => ⟨_, rfl, all_quote h⟩⟩
  rintro ⟨_, ⟨⟩, hall⟩
  rw [List.all_eq_true] at hall ⊢
  intro c hc
  by_contra hscalar
  -- a character that does not encode stands for itself
  have hescape : escape c = [c] := by
    have hge : ¬ c < 128 := fun hlt => hscalar (isScalar_of_lt hlt)
    unfold escape
    rw [if_neg (by omega), if_neg (by omega), if_neg (by omega), if_neg (by omega), if_neg (by omega),
      if_neg (by omega), if_neg (by omega), if_neg (by omega)]
  refine hscalar (hall c ?_)
  simp only [quote, List.cons_append, List.mem_cons, List.mem_append, List.mem_flatMap]
  exact Or.inr (Or.inl ⟨c, hc, by simp [hescape]⟩)

theorem hasText_int_iff {n : ℤ} : HasText (.int n) ↔ (natText n.natAbs).length ≤ maxIntDigits := by
  constructor
  · rintro ⟨t, ht, -⟩
    unfold text? at ht
    split_ifs at ht with h
    exact h
  · exact fun h => writable_iff.mp (writable_int h)

theorem isScalar_numeral {c : Nat} (h : IsNumeral c) : Str.isScalar c = true := by
  simp only [IsNumeral, isDigit, Bool.and_eq_true, decide_eq_true_eq] at h
  exact isScalar_of_lt (by omega)

theorem hasText_float_iff {x : PyFloat} : HasText (.float x) ↔ isFinite x = true := by
  constructor
  · rintro ⟨t, ht, -⟩
    obtain ⟨neg, m, e, hv, rfl⟩ := (repr?_isSome_iff x).mp (by rw [show x.repr? = some t from ht]; rfl)
    rfl
  · intro h
    cases x with
    | inf neg => cases h
    | finite neg m e hv =>
      obtain ⟨t, ht⟩ := Option.isSome_iff_exists.mp (repr_finite neg m e hv)
      obtain ⟨l, hl, -⟩ := reads_of_repr ht
      exact ⟨t, ht, List.all_eq_true.mpr fun c hc => isScalar_numeral (numeral_scanLiteral hl c hc)⟩

theorem all_of_joinComma {l : List Str} (h : (joinComma l).all Str.isScalar = true) : ∀ t ∈ l, t.all Str.isScalar = true := by
  induction l with
  | nil => nofun
  | cons t l ih =>
    cases l with
    | nil => simpa [joinComma] using h
    | cons u l =>
      simp only [joinComma, List.all_append, List.all_cons, Bool.and_eq_true] at h
      exact List.forall_mem_cons.mpr ⟨h.1, ih h.2.2⟩

theorem hasText_items {l : List Json} {ts : List Str} (h : itemTexts? l = some ts)
    (hall : ∀ t ∈ ts, t.all Str.isScalar = true) : ∀ v ∈ l, HasText v := by
  induction l generalizing ts with
  | nil => nofun
  | cons v l ih =>
    obtain ⟨t, ht, h⟩ := Option.bind_eq_some_iff.mp h
    obtain ⟨us, hus, rfl⟩ := Option.map_eq_some_iff.mp h
    rw [List.forall_mem_cons] at hall ⊢
    exact ⟨⟨t, ht, hall.1⟩, ih hus hall.2⟩

theorem hasText_fields {f : List (Str × Json)} {ts : List Str} (h : fieldTexts? f = some ts)
    (hall : ∀ t ∈ ts, t.all Str.isScalar = true) : ∀ p ∈ f, p.1.all Str.isScalar = true ∧ HasText p.2 := by
  induction f generalizing ts with
  | nil => nofun
  | cons p f ih =>
    obtain ⟨t, ht, h⟩ := Option.bind_eq_some_iff.mp h
    obtain ⟨us, hus, rfl⟩ := Option.map_eq_some_iff.mp h
    rw [List.forall_mem_cons] at hall ⊢
    simp only [List.all_append, List.all_cons, Bool.and_eq_true] at hall
    exact ⟨⟨hasText_str_iff.mp ⟨_, rfl, hall.1.1⟩, t, ht, hall.1.2.2⟩, ih hus hall.2⟩

theorem hasText_arr_iff {l : List Json} : HasText (.arr l) ↔ ∀ v ∈ l, HasText v := by
  refine ⟨?_, hasText_arr⟩
  rintro ⟨t, ht, hall⟩
  obtain ⟨ts, hts, rfl⟩ := Option.map_eq_some_iff.mp ht
  simp only [List.cons_append, List.all_cons, List.all_append, Bool.and_eq_true] at hall
  exact hasText_items hts (all_of_joinComma hall.2.1)

theorem hasText_obj_iff {f : List (Str × Json)} :
    HasText (.obj f) ↔ ∀ p ∈ f, p.1.all Str.isScalar = true ∧ HasText p.2 := by
  refine ⟨?_, hasText_obj⟩
  rintro ⟨t, ht, hall⟩
  obtain ⟨ts, hts, rfl⟩ := Option.map_eq_some_iff.mp ht
  simp only [List.cons_append, List.all_cons, List.all_append, Bool.and_eq_true] at hall
  exact hasText_fields hts (all_of_joinComma hall.2.1)

theorem isPlain_sortFields {f : List (Str × Json)} (h : ∀ p ∈ f, IsPlain p.2) : IsPlain (.obj (sortFields f)) := by
  rw [IsPlain, plain, plainFields_eq]
  have hid : (sortFields f).map (fun p => (p.1, p.2.plain)) = sortFields f := by
    conv_rhs => rw [← List.map_id (sortFields f)]
    refine List.map_congr_left fun p hp => ?_
    rw [id, h p (mem_of_mem_sortFields hp)]
  rw [hid, sortFields_eq_self (ordered_sortFields f)]

/-! ### What the parser reads -/

/-- All the strings and numbers of a text can be said in JSON. -/
def Sayable (s : Str) : Prop := ∀ t ∈ lexemes s, t.isSayable = true

instance (s : Str) : Decidable (Sayable s) := inferInstanceAs (Decidable (∀ t ∈ lexemes s, t.isSayable = true))

theorem sayable_cons {s r : Str} {t : Lexeme} (h : lexemes s = t :: lexemes r) :
    Sayable s ↔ t.isSayable = true ∧ Sayable r := by rw [Sayable, h, List.forall_mem_cons]; rfl

theorem sayable_congr {s r : Str} (h : lexemes s = lexemes r) : Sayable s ↔ Sayable r := by rw [Sayable, h]; rfl

theorem sayable_skip (s : Str) : Sayable (skipSpace s) ↔ Sayable s := sayable_congr (lexemes_skipSpace s)

/-- Past a character that neither starts a string nor a number. -/
theorem sayable_other {c : Nat} (r : Str) (h : c ≠ 34 ∧ c ≠ 45 ∧ isDigit c = false) : Sayable (c :: r) ↔ Sayable r :=
  sayable_congr (lexemes_other r h)

theorem ofDigits_lt {l : List Nat} (h : ∀ d ∈ l, d < 10) : ofDigits l < 10 ^ l.length := by
  induction l using List.reverseRecOn with
  | nil => simp [ofDigits]
  | append_singleton l d ih =>
    have hd : d < 10 := h d (by simp)
    have := ih fun x hx => h x (by simp [hx])
    rw [ofDigits_append, List.length_append, List.length_singleton, pow_succ]
    omega

theorem spanDigits_lt (s : Str) : ∀ d ∈ (spanDigits s).1, d < 10 := by
  induction s with
  | nil => exact List.forall_mem_nil _
  | cons c s ih =>
    unfold spanDigits
    split_ifs with hc
    · simp only [isDigit, Bool.and_eq_true, decide_eq_true_eq] at hc
      exact List.forall_mem_cons.mpr ⟨by omega, ih⟩
    · exact List.forall_mem_nil _

theorem scanWhole_lt {s r : Str} {w : List Nat} (h : scanWhole s = some (w, r)) : w ≠ [] ∧ ∀ d ∈ w, d < 10 := by
  cases s with
  | nil => cases h
  | cons c s =>
    simp only [scanWhole] at h
    split_ifs at h with h0 hd
    · cases h
      simp
    · have hlt := spanDigits_lt (c :: s)
      rw [Option.some.inj h] at hlt
      refine ⟨?_, hlt⟩
      rw [spanDigits, if_pos hd] at h
      cases h
      simp

/-- What reading a value from `s` up to `r` tells. -/
def Tells (v : Json) (s r : Str) : Prop := IsPlain v ∧ (Sayable s ↔ HasText v ∧ Sayable r)

/-- Reading an integer's digits and writing them again makes them no more. -/
theorem length_scanned {s r : Str} {l : Literal} (h : scanLiteral s = some (l, r)) :
    (natText (ofDigits l.whole)).length ≤ l.whole.length := by
  obtain ⟨⟨w, q⟩, hw, h⟩ := Option.map_eq_some_iff.mp h
  obtain ⟨rfl, -⟩ := Prod.mk.inj h
  obtain ⟨hne, hlt⟩ := scanWhole_lt hw
  exact length_natText_le_of_lt (by simpa using hne) (ofDigits_lt hlt)

theorem tells_number {c : Nat} {s r : Str} {v : Json} (hc : c = 45 ∨ isDigit c = true) (h : scanNumber (c :: s) = some (v, r)) :
    Tells v (c :: s) r := by
  obtain ⟨⟨l, q⟩, hl, h⟩ := Option.bind_eq_some_iff.mp h
  have hsay := sayable_cons (lexemes_number hc hl)
  simp only at h
  by_cases hfloat : l.isFloat = true
  · rw [if_pos hfloat] at h
    obtain ⟨rfl, rfl⟩ := Prod.mk.inj (Option.some.inj h)
    refine ⟨rfl, hsay.trans (and_congr_left' ?_)⟩
    rw [hasText_float_iff, Lexeme.isSayable, hfloat]
    rfl
  · rw [if_neg hfloat] at h
    by_cases hlen : l.whole.length ≤ maxIntDigits
    · rw [if_pos hlen] at h
      obtain ⟨rfl, rfl⟩ := Prod.mk.inj (Option.some.inj h)
      refine ⟨rfl, hsay.trans (and_congr_left' ?_)⟩
      have habs : (if l.neg = true then -(ofDigits l.whole : ℤ) else ofDigits l.whole).natAbs = ofDigits l.whole := by
        split_ifs <;> simp
      have hdigits := (length_scanned hl).trans hlen
      rw [hasText_int_iff, habs, Lexeme.isSayable, eq_false_of_ne_true hfloat]
      exact iff_of_true rfl hdigits
    · rw [if_neg hlen] at h
      cases h

/-- An empty container, the space inside it skipped. -/
theorem sayable_empty {c : Nat} {s : Str} (hc : c ≠ 34 ∧ c ≠ 45 ∧ isDigit c = false) (h : (skipSpace s).head? = some c) :
    Sayable s ↔ Sayable (skipSpace s).tail := by
  rw [← sayable_skip s]
  obtain ⟨r, hr⟩ : ∃ r, skipSpace s = c :: r := by
    cases hs : skipSpace s with
    | nil => simp [hs] at h
    | cons d r => exact ⟨r, by rw [hs] at h; cases h; rfl⟩
  rw [hr]
  exact sayable_other r hc

/-- A separator between spaces. -/
theorem sayable_separator {c : Nat} {s r : Str} (hc : c ≠ 34 ∧ c ≠ 45 ∧ isDigit c = false) (h : skipSpace s = c :: r) :
    Sayable s ↔ Sayable r := by
  rw [← sayable_skip s, h]
  exact sayable_other r hc

/-- The value of a keyword. -/
theorem tells_word {c : Nat} {p s r : Str} {v : Json} (hc : c ≠ 34 ∧ c ≠ 45 ∧ isDigit c = false)
    (hp : ∀ d ∈ p, d ≠ 34 ∧ d ≠ 45 ∧ isDigit d = false) (hv : IsPlain v ∧ HasText v) (h : dropPrefix? p s = some r) :
    Tells v (c :: s) r :=
  ⟨hv.1, (sayable_other s hc).trans ((sayable_congr (lexemes_dropPrefix hp h)).trans (iff_and_self.mpr fun _ => hv.2))⟩

theorem tells_items {n : Nat} (ihvalue : ∀ {s v r}, parseValue n s = some (v, r) → Tells v s r)
    (ihitems : ∀ {s l r}, parseItems n s = some (l, r) →
      (∀ v ∈ l, IsPlain v) ∧ (Sayable s ↔ (∀ v ∈ l, HasText v) ∧ Sayable r)) {s r : Str} {l : List Json}
    (h : parseItems (n + 1) s = some (l, r)) :
    (∀ v ∈ l, IsPlain v) ∧ (Sayable s ↔ (∀ v ∈ l, HasText v) ∧ Sayable r) := by
  obtain ⟨⟨v, q⟩, hv, h⟩ := Option.bind_eq_some_iff.mp h
  obtain ⟨hplain, hsay⟩ := ihvalue hv
  simp only at h
  split at h
  · next q' hq =>
    obtain ⟨⟨l', r'⟩, hl, h⟩ := Option.map_eq_some_iff.mp h
    obtain ⟨rfl, rfl⟩ := Prod.mk.inj h
    obtain ⟨hplains, hsays⟩ := ihitems hl
    have hrest := (sayable_separator (by decide) hq).trans ((sayable_skip q').symm.trans hsays)
    rw [List.forall_mem_cons, List.forall_mem_cons, hsay, hrest]
    exact ⟨⟨hplain, hplains⟩, by simp only [and_assoc]⟩
  · next q' hq =>
    obtain ⟨rfl, rfl⟩ := Prod.mk.inj (Option.some.inj h)
    rw [List.forall_mem_singleton, List.forall_mem_singleton, hsay, sayable_separator (by decide) hq]
    exact ⟨hplain, Iff.rfl⟩
  · cases h

theorem tells_fields {n : Nat} (ihvalue : ∀ {s v r}, parseValue n s = some (v, r) → Tells v s r)
    (ihfields : ∀ {s f r}, parseFields n s = some (f, r) →
      (∀ p ∈ f, IsPlain p.2) ∧ (Sayable s ↔ (∀ p ∈ f, p.1.all Str.isScalar = true ∧ HasText p.2) ∧ Sayable r))
    {s r : Str} {f : List (Str × Json)} (h : parseFields (n + 1) s = some (f, r)) :
    (∀ p ∈ f, IsPlain p.2) ∧ (Sayable s ↔ (∀ p ∈ f, p.1.all Str.isScalar = true ∧ HasText p.2) ∧ Sayable r) := by
  cases s with
  | nil => cases h
  | cons c s =>
    rw [parseFields] at h
    split_ifs at h with hquote
    subst hquote
    obtain ⟨⟨k, q⟩, hk, h⟩ := Option.bind_eq_some_iff.mp h
    have hkey : Sayable (34 :: s) ↔ k.all Str.isScalar = true ∧ Sayable q := sayable_cons (lexemes_string hk)
    simp only at h
    split at h
    · next q1 hq1 =>
      obtain ⟨⟨v, q2⟩, hv, h⟩ := Option.bind_eq_some_iff.mp h
      obtain ⟨hplain, hsay⟩ := ihvalue hv
      have hvalue := (sayable_separator (by decide) hq1).trans ((sayable_skip q1).symm.trans hsay)
      simp only at h
      split at h
      · next q3 hq3 =>
        obtain ⟨⟨f', r'⟩, hf, h⟩ := Option.map_eq_some_iff.mp h
        obtain ⟨rfl, rfl⟩ := Prod.mk.inj h
        obtain ⟨hplains, hsays⟩ := ihfields hf
        have hrest := (sayable_separator (by decide) hq3).trans ((sayable_skip q3).symm.trans hsays)
        rw [List.forall_mem_cons, List.forall_mem_cons, hkey, hvalue, hrest]
        exact ⟨⟨hplain, hplains⟩, by simp only [and_assoc]⟩
      · next q3 hq3 =>
        obtain ⟨rfl, rfl⟩ := Prod.mk.inj (Option.some.inj h)
        rw [List.forall_mem_singleton, List.forall_mem_singleton, hkey, hvalue, sayable_separator (by decide) hq3]
        exact ⟨hplain, by simp only [and_assoc]⟩
      · cases h
    · cases h

/-- What the parser reads is plain, and has a text exactly when what was read can be said in JSON. -/
theorem tells_parse (n : Nat) :
    (∀ {s v r}, parseValue n s = some (v, r) → Tells v s r) ∧
      (∀ {s l r}, parseItems n s = some (l, r) →
        (∀ v ∈ l, IsPlain v) ∧ (Sayable s ↔ (∀ v ∈ l, HasText v) ∧ Sayable r)) ∧
      ∀ {s f r}, parseFields n s = some (f, r) →
        (∀ p ∈ f, IsPlain p.2) ∧ (Sayable s ↔ (∀ p ∈ f, p.1.all Str.isScalar = true ∧ HasText p.2) ∧ Sayable r) := by
  induction n with
  | zero => refine ⟨?_, ?_, ?_⟩ <;> rintro _ _ _ ⟨⟩
  | succ n ih =>
    obtain ⟨ihvalue, ihitems, ihfields⟩ := ih
    refine ⟨?_, tells_items ihvalue ihitems, tells_fields ihvalue ihfields⟩
    intro s v r h
    cases s with
    | nil => cases h
    | cons c s =>
      simp only [parseValue] at h
      by_cases hquote : c = 34
      · rw [if_pos hquote] at h
        obtain ⟨⟨t, q⟩, hs, h⟩ := Option.map_eq_some_iff.mp h
        obtain ⟨rfl, rfl⟩ := Prod.mk.inj h
        subst hquote
        exact ⟨rfl, (sayable_cons (lexemes_string hs)).trans (and_congr_left' hasText_str_iff.symm)⟩
      rw [if_neg hquote] at h
      by_cases hbracket : c = 91
      · rw [if_pos hbracket] at h
        subst hbracket
        by_cases hempty : (skipSpace s).head? = some 93
        · rw [if_pos hempty] at h
          obtain ⟨rfl, rfl⟩ := Prod.mk.inj (Option.some.inj h)
          refine ⟨rfl, (sayable_other s (by decide)).trans ((sayable_empty (by decide) hempty).trans ?_)⟩
          exact iff_and_self.mpr fun _ => hasText_arr (List.forall_mem_nil _)
        · rw [if_neg hempty] at h
          obtain ⟨⟨l, q⟩, hl, h⟩ := Option.map_eq_some_iff.mp h
          obtain ⟨rfl, rfl⟩ := Prod.mk.inj h
          obtain ⟨hplain, hsay⟩ := ihitems hl
          refine ⟨isPlain_arr hplain, (sayable_other s (by decide)).trans ((sayable_skip s).symm.trans ?_)⟩
          rw [hsay, hasText_arr_iff]
      rw [if_neg hbracket] at h
      by_cases hbrace : c = 123
      · rw [if_pos hbrace] at h
        subst hbrace
        by_cases hempty : (skipSpace s).head? = some 125
        · rw [if_pos hempty] at h
          obtain ⟨rfl, rfl⟩ := Prod.mk.inj (Option.some.inj h)
          refine ⟨rfl, (sayable_other s (by decide)).trans ((sayable_empty (by decide) hempty).trans ?_)⟩
          exact iff_and_self.mpr fun _ => hasText_obj (List.forall_mem_nil _)
        · rw [if_neg hempty] at h
          obtain ⟨⟨f, q⟩, hf, h⟩ := Option.bind_eq_some_iff.mp h
          simp only at h
          split_ifs at h with hnodup
          obtain ⟨rfl, rfl⟩ := Prod.mk.inj (Option.some.inj h)
          obtain ⟨hplain, hsay⟩ := ihfields hf
          refine ⟨isPlain_sortFields hplain, (sayable_other s (by decide)).trans ((sayable_skip s).symm.trans ?_)⟩
          rw [hsay, hasText_obj_iff]
          simp only [(perm_sortFields hnodup).mem_iff]
      rw [if_neg hbrace] at h
      split_ifs at h with hn ht hf
      · obtain ⟨q, hq, h⟩ := Option.map_eq_some_iff.mp h
        obtain ⟨rfl, rfl⟩ := Prod.mk.inj h
        exact tells_word (by subst hn; decide) (by decide) ⟨rfl, writable_iff.mp writable_null⟩ hq
      · obtain ⟨q, hq, h⟩ := Option.map_eq_some_iff.mp h
        obtain ⟨rfl, rfl⟩ := Prod.mk.inj h
        exact tells_word (by subst ht; decide) (by decide) ⟨rfl, writable_iff.mp (writable_bool true)⟩ hq
      · obtain ⟨q, hq, h⟩ := Option.map_eq_some_iff.mp h
        obtain ⟨rfl, rfl⟩ := Prod.mk.inj h
        exact tells_word (by subst hf; decide) (by decide) ⟨rfl, writable_iff.mp (writable_bool false)⟩ hq
      · obtain ⟨⟨l, q⟩, hl, -⟩ := Option.bind_eq_some_iff.mp h
        obtain ⟨d, u, hd, hhead⟩ := scanLiteral_head hl
        cases hd
        exact tells_number hhead h

/-! ### Documents -/

/-- An accepted document is plain, and has canonical bytes exactly when its text can be said in JSON. -/
theorem tells_loads {data : Bytes} {v : Json} {t : Str} (h : strictLoads? data = some v) (ht : decodeText? data = some t) :
    IsPlain v ∧ (Sayable t ↔ Writable v) := by
  obtain ⟨t', ht', h⟩ := Option.bind_eq_some_iff.mp h
  cases ht.symm.trans ht'
  obtain ⟨w, hw, h⟩ := Option.bind_eq_some_iff.mp h
  have hv : w = v := by
    cases w with
    | obj f => exact Option.some.inj h
    | _ => cases h
  subst hv
  unfold parse? at hw
  cases hparse : parseValue t.length (skipSpace t) with
  | none => simp [hparse] at hw
  | some p =>
    obtain ⟨v, r⟩ := p
    simp only [hparse] at hw
    split_ifs at hw with hend
    cases hw
    obtain ⟨hplain, hsay⟩ := (tells_parse t.length).1 hparse
    have hrest : Sayable r := (sayable_skip r).mp (by rw [hend]; exact nofun)
    refine ⟨hplain, ?_⟩
    rw [← sayable_skip, hsay, writable_iff, show w.plain = w from hplain]
    exact and_iff_left hrest

/-- What the canonical bytes of a value decode to, as a document, is the value. -/
theorem eq_plain_of_loads {v w : Json} {b : Bytes} (h : canonicalBytes? v = some b) (hw : strictLoads? b = some w) :
    w = v.plain := by
  obtain ⟨t, ht, hb⟩ := Option.bind_eq_some_iff.mp h
  have hutf := hb
  unfold Str.utf8? at hutf
  split_ifs at hutf with hscalar
  cases hutf
  have hdecode : decodeText? (t.flatMap Str.encodePoint) = some t := by
    rw [decodeText?_ascii ?_ ?_, Str.decodeUtf8?_utf8 hb]
    · intro x hx
      obtain ⟨c, hc, hx⟩ := List.mem_flatMap.mp hx
      have hlt := List.all_eq_true.mp hscalar c hc
      refine encodePoint_ne_zero (printable_text _ ht c hc) ?_ x hx
      simp only [Str.isScalar, Bool.or_eq_true, Bool.and_eq_true, decide_eq_true_eq] at hlt
      omega
    · intro x hx
      cases t with
      | nil => cases hx
      | cons c t =>
        have hc := text_head_lt ht c rfl
        simp only [List.flatMap_cons, Str.encodePoint, if_pos hc, List.singleton_append, List.head?_cons, Option.mem_some] at hx
        rw [← hx, Str.toNat_ofNat_lt (by omega)]
        exact hc
  rw [strictLoads?, hdecode, Option.bind_some, parse?_text (isPlain_plain v) ht] at hw
  simp only [Option.bind_some] at hw
  split at hw
  · next f hf =>
    cases hw
    exact hf.symm
  · cases hw

/-- Decoding and encoding fit together on a document: what it decodes to has canonical bytes, these decode to
    the same value, and encoding that gives the same bytes. -/
def FitsTogether (data : Bytes) : Prop :=
  ∀ v, strictLoads? data = some v →
    ∃ b, canonicalBytes? v = some b ∧ strictLoads? b = some v ∧ ∀ w, strictLoads? b = some w → canonicalBytes? w = some b

/-- Decoding and encoding fit together on a document exactly when it is refused, or no string of its text
    decodes to a lone surrogate and no number of it overflows. -/
theorem fitsTogether_iff (data : Bytes) :
    FitsTogether data ↔ ∀ t, decodeText? data = some t → (strictLoads? data).isSome → Sayable t := by
  constructor
  · intro h t ht hsome
    obtain ⟨v, hv⟩ := Option.isSome_iff_exists.mp hsome
    obtain ⟨b, hb, -⟩ := h v hv
    exact (tells_loads hv ht).2.mpr ⟨b, hb⟩
  · intro h v hv
    obtain ⟨t, ht, -⟩ := Option.bind_eq_some_iff.mp hv
    obtain ⟨hplain, hsay⟩ := tells_loads hv ht
    obtain ⟨b, hb⟩ := hsay.mp (h t ht (by rw [hv]; rfl))
    have hloads : strictLoads? b = some v := by
      obtain ⟨f, rfl⟩ : ∃ f, v = .obj f := by
        obtain ⟨_, -, h⟩ := Option.bind_eq_some_iff.mp hv
        obtain ⟨w, -, h⟩ := Option.bind_eq_some_iff.mp h
        cases w with
        | obj f => exact ⟨f, (Option.some.inj h).symm⟩
        | _ => cases h
      rw [strictLoads?_canonical hb, hplain]
    refine ⟨b, hb, hloads, fun w hw => ?_⟩
    rw [← Option.some.inj (hloads.symm.trans hw)]
    exact hb

/-- The document `{"a":1e999}` decodes to an infinity, which has no canonical bytes. -/
theorem not_fitsTogether : ¬ FitsTogether [123, 34, 97, 34, 58, 49, 101, 57, 57, 57, 125] := by
  rw [fitsTogether_iff]
  intro h
  have := h (Str.lit "\x7b\"a\":1e999\x7d") (by decide +kernel) (by decide +kernel)
  revert this
  decide +kernel

end LeanCtx.Json
