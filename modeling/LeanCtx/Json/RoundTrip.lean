import LeanCtx.Json.Codec

/-! Reading back what was written. Before a comma or a closing bracket the parser takes exactly the text of a
    value (`parseValue_text`), so the canonical bytes of an object read back as the object with its keys in
    order (`strictLoads?_canonical`), and the bytes determine it (`canonicalBytes?_inj`). -/

namespace LeanCtx.Json

/-- What may follow the text of a value: nothing, a comma or a closing bracket. -/
def Stops (r : Str) : Prop := ∀ c ∈ r.head?, c = 44 ∨ c = 93 ∨ c = 125

theorem stops_nil : Stops [] := nofun
theorem stops_cons {c : Nat} (r : Str) (h : c = 44 ∨ c = 93 ∨ c = 125) : Stops (c :: r) := by
  intro d hd
  cases hd
  exact h

/-! ### Numbers -/

theorem spanDigits_append {r : Str} (hr : Stops r) (t : Str) :
    spanDigits (t ++ r) = ((spanDigits t).1, (spanDigits t).2 ++ r) := by
  induction t with
  | nil =>
    cases r with
    | nil => rfl
    | cons c r =>
      have : isDigit c = false := by rcases hr c rfl with rfl | rfl | rfl <;> rfl
      simp [spanDigits, this]
  | cons c t ih => by_cases h : isDigit c <;> simp [spanDigits, h, ih]

theorem spanDigits_digitsText {ds : List Nat} (h : ∀ d ∈ ds, d < 10) : spanDigits (digitsText ds) = (ds, []) := by
  induction ds with
  | nil => rfl
  | cons d ds ih =>
    have hd : d < 10 := h d (by simp)
    have hdigit : isDigit (48 + d) = true := by simp [isDigit]; omega
    have ih := ih fun x hx => h x (by simp [hx])
    simp only [digitsText, List.map_cons] at ih ⊢
    simp [spanDigits, hdigit, ih]

/-- The decimal digits of a number, the first one first. -/
def decimal (n : Nat) : List Nat := if n = 0 then [0] else (Nat.digits 10 n).reverse

theorem natText_eq (n : Nat) : natText n = digitsText (decimal n) := by
  unfold natText decimal
  split_ifs <;> rfl

theorem decimal_lt (n : Nat) : ∀ d ∈ decimal n, d < 10 := by
  intro d hd
  unfold decimal at hd
  split_ifs at hd with h
  · simp_all
  · exact Nat.digits_lt_base (by decide) (List.mem_reverse.mp hd)

theorem ofDigits_append (a : List Nat) (d : Nat) : ofDigits (a ++ [d]) = ofDigits a * 10 + d := by
  simp [ofDigits]

theorem ofDigits_reverse (l : List Nat) : ofDigits l.reverse = Nat.ofDigits 10 l := by
  induction l with
  | nil => rfl
  | cons d l ih =>
    rw [List.reverse_cons, ofDigits_append, ih, Nat.ofDigits_cons]
    ring

theorem ofDigits_decimal (n : Nat) : ofDigits (decimal n) = n := by
  unfold decimal
  split_ifs with h
  · exact h.symm
  · rw [ofDigits_reverse, Nat.ofDigits_digits]

/-- A number starts with zero only if it is zero. -/
theorem decimal_head (n : Nat) : (∃ d l, decimal n = d :: l ∧ d ≠ 0) ∨ decimal n = [0] := by
  unfold decimal
  split_ifs with h
  · exact Or.inr rfl
  · left
    have hne : Nat.digits 10 n ≠ [] := Nat.digits_ne_nil_iff_ne_zero.mpr h
    have hlast := Nat.getLast_digit_ne_zero 10 h
    refine ⟨(Nat.digits 10 n).getLast hne, ((Nat.digits 10 n).dropLast).reverse, ?_, hlast⟩
    conv_lhs => rw [← List.dropLast_append_getLast hne]
    simp

theorem scanWhole_natText {r : Str} (hr : Stops r) (n : Nat) :
    PyFloat.scanWhole (natText n ++ r) = some (decimal n, r) := by
  have hspan : spanDigits (digitsText (decimal n) ++ r) = (decimal n, r) := by
    rw [spanDigits_append hr, spanDigits_digitsText (decimal_lt n)]
    rfl
  rw [natText_eq]
  rcases decimal_head n with ⟨d, l, hd, hne⟩ | h0
  · have hlt := decimal_lt n d (by simp [hd])
    have hdigit : isDigit (48 + d) = true := by simp [isDigit]; omega
    rw [← hspan]
    simp only [hd, digitsText, List.map_cons, List.cons_append, PyFloat.scanWhole]
    rw [if_neg (by omega), if_pos hdigit]
  · simp [h0, digitsText, PyFloat.scanWhole]

theorem scanFraction_append {r : Str} (hr : Stops r) (t : Str) :
    PyFloat.scanFraction (t ++ r) = ((PyFloat.scanFraction t).1, (PyFloat.scanFraction t).2 ++ r) := by
  cases t with
  | nil =>
    cases r with
    | nil => rfl
    | cons c r =>
      have : c ≠ 46 := by rcases hr c rfl with rfl | rfl | rfl <;> decide
      simp [PyFloat.scanFraction, this]
  | cons c t =>
    simp only [List.cons_append, PyFloat.scanFraction, spanDigits_append hr]
    split_ifs <;> simp

theorem scanExponentSign_append {r : Str} (hr : Stops r) (t : Str) :
    PyFloat.scanExponentSign (t ++ r) = ((PyFloat.scanExponentSign t).1, (PyFloat.scanExponentSign t).2 ++ r) := by
  cases t with
  | nil =>
    cases r with
    | nil => rfl
    | cons c r =>
      have h : c ≠ 45 ∧ c ≠ 43 := by rcases hr c rfl with rfl | rfl | rfl <;> decide
      simp [PyFloat.scanExponentSign, h.1, h.2]
  | cons c t =>
    simp only [List.cons_append, PyFloat.scanExponentSign]
    split_ifs <;> simp

theorem scanExponent_append {r : Str} (hr : Stops r) (t : Str) :
    PyFloat.scanExponent (t ++ r) = ((PyFloat.scanExponent t).1, (PyFloat.scanExponent t).2 ++ r) := by
  cases t with
  | nil =>
    cases r with
    | nil => rfl
    | cons c r =>
      have h : c ≠ 101 ∧ c ≠ 69 := by rcases hr c rfl with rfl | rfl | rfl <;> decide
      simp [PyFloat.scanExponent, h.1, h.2]
  | cons c t =>
    simp only [List.cons_append, PyFloat.scanExponent, scanExponentSign_append hr, spanDigits_append hr]
    split_ifs <;> simp

theorem scanWhole_append {r : Str} (hr : Stops r) {t : Str} {w : List Nat} {u : Str}
    (h : PyFloat.scanWhole t = some (w, u)) : PyFloat.scanWhole (t ++ r) = some (w, u ++ r) := by
  cases t with
  | nil => cases h
  | cons c t =>
    simp only [List.cons_append, PyFloat.scanWhole] at h ⊢
    rw [← List.cons_append, spanDigits_append hr]
    by_cases h0 : c = 48
    · rw [if_pos h0] at h ⊢
      cases h
      rfl
    · rw [if_neg h0] at h ⊢
      by_cases hd : isDigit c = true
      · rw [if_pos hd] at h ⊢
        rw [Option.some.inj h]
      · rw [if_neg hd] at h
        cases h

theorem scanSign_of_ne {c : Nat} (t : Str) (h : c ≠ 45) : PyFloat.scanSign (c :: t) = (false, c :: t) := by
  unfold PyFloat.scanSign
  split
  · next heq => exact absurd (List.cons.inj heq).1 h
  · rfl

/-- Scanning a literal stops where a value's text may stop. -/
theorem scanLiteral_append {r : Str} (hr : Stops r) {t : Str} {l : PyFloat.Literal} {u : Str}
    (h : PyFloat.scanLiteral t = some (l, u)) : PyFloat.scanLiteral (t ++ r) = some (l, u ++ r) := by
  unfold PyFloat.scanLiteral at h ⊢
  have hsign : PyFloat.scanSign (t ++ r) = ((PyFloat.scanSign t).1, (PyFloat.scanSign t).2 ++ r) := by
    cases t with
    | nil => cases h
    | cons c t =>
      by_cases hc : c = 45
      · subst hc
        rfl
      · rw [List.cons_append, scanSign_of_ne _ hc, scanSign_of_ne _ hc, List.cons_append]
  simp only [hsign] at h ⊢
  obtain ⟨⟨w, u'⟩, hw, h⟩ := Option.map_eq_some_iff.mp h
  rw [scanWhole_append hr hw]
  simp only [Prod.mk.injEq] at h
  obtain ⟨rfl, rfl⟩ := h
  simp [scanFraction_append hr, scanExponent_append hr]

/-- The head of a number's text. -/
theorem scanLiteral_head {t : Str} {l : PyFloat.Literal} {u : Str} (h : PyFloat.scanLiteral t = some (l, u)) :
    ∃ c t', t = c :: t' ∧ (c = 45 ∨ isDigit c = true) := by
  cases t with
  | nil => cases h
  | cons c t =>
    refine ⟨c, t, rfl, ?_⟩
    by_cases hc : c = 45
    · exact Or.inl hc
    · right
      simp only [PyFloat.scanLiteral, scanSign_of_ne _ hc, PyFloat.scanWhole, Option.map_eq_some_iff] at h
      obtain ⟨p, hp, -⟩ := h
      split_ifs at hp with h0 h1
      · subst h0
        rfl
      · exact h1

theorem scanLiteral_intText {r : Str} (hr : Stops r) (n : Int) :
    PyFloat.scanLiteral (intText n ++ r) = some (⟨n < 0, decimal n.natAbs, none, none⟩, r) := by
  have hfrac : PyFloat.scanFraction r = (none, r) := by simpa [PyFloat.scanFraction] using scanFraction_append hr []
  have hexp : PyFloat.scanExponent r = (none, r) := by simpa [PyFloat.scanExponent] using scanExponent_append hr []
  cases n with
  | ofNat n =>
    have hsign : PyFloat.scanSign (natText n ++ r) = (false, natText n ++ r) := by
      rw [natText_eq]
      rcases decimal_head n with ⟨d, l, hd, -⟩ | h0
      · simp only [hd, digitsText, List.map_cons, List.cons_append]
        exact scanSign_of_ne _ (by omega)
      · simp [h0, digitsText, PyFloat.scanSign]
    simp [PyFloat.scanLiteral, intText, hsign, scanWhole_natText hr, hfrac, hexp]
  | negSucc n =>
    simp [PyFloat.scanLiteral, intText, PyFloat.scanSign, scanWhole_natText hr, hfrac, hexp,
      Int.negSucc_lt_zero, Int.natAbs_negSucc]

theorem scanNumber_intText {r : Str} (hr : Stops r) {n : Int} (h : (natText n.natAbs).length ≤ maxIntDigits) :
    scanNumber (intText n ++ r) = some (.int n, r) := by
  have hlen : (decimal n.natAbs).length ≤ maxIntDigits := by simpa [natText_eq, digitsText] using h
  simp only [scanNumber, scanLiteral_intText hr, Option.bind_some, PyFloat.Literal.isFloat, Option.isSome_none,
    Bool.or_self, if_pos hlen, ofDigits_decimal]
  by_cases hn : n < 0
  · simp [hn, abs_of_neg hn]
  · simp [hn, abs_of_nonneg (not_lt.mp hn)]

theorem reads_of_repr {x : PyFloat} {t : Str} (h : x.repr? = some t) :
    ∃ l, PyFloat.scanLiteral t = some (l, []) ∧ l.isFloat = true ∧ PyFloat.ofLiteral l = x := by
  have hreads : x.reads t = true := List.find?_some h
  unfold PyFloat.reads at hreads
  split at hreads
  · next l heq =>
    simp only [Bool.and_eq_true, beq_iff_eq] at hreads
    exact ⟨l, heq, hreads⟩
  · cases hreads

theorem scanNumber_repr {r : Str} (hr : Stops r) {x : PyFloat} {t : Str} (h : x.repr? = some t) :
    scanNumber (t ++ r) = some (.float x, r) := by
  obtain ⟨l, hscan, hfloat, hx⟩ := reads_of_repr h
  simp [scanNumber, scanLiteral_append hr hscan, hfloat, hx]

/-! ### Strings -/

theorem hexValue_hexDigit {n : Nat} (h : n < 16) : hexValue? (hexDigit n) = some n := by
  interval_cases n <;> rfl

theorem scanEscape_control {c : Nat} (h : c < 32) (r : Str) :
    scanEscape ([117, 48, 48, hexDigit (c / 16), hexDigit (c % 16)] ++ r) = some (c, r) := by
  have h0 : hexValue? 48 = some 0 := rfl
  have h1 := hexValue_hexDigit (show c / 16 < 16 by omega)
  have h2 := hexValue_hexDigit (show c % 16 < 16 by omega)
  have hhex : scanHex4 (48 :: 48 :: hexDigit (c / 16) :: hexDigit (c % 16) :: r) = some (c, r) := by
    simp only [scanHex4, h0, h1, h2, Option.bind_eq_bind, Option.bind_some, Option.pure_def]
    rw [show ((0 * 16 + 0) * 16 + c / 16) * 16 + c % 16 = c by omega]
  simp only [List.cons_append, List.nil_append, scanEscape, hhex]
  rw [if_neg (by omega), if_neg (by omega), if_neg (by omega), if_neg (by omega), if_neg (by omega),
    if_neg (by omega), if_pos trivial, if_neg (by omega)]

/-- One written character reads back. -/
theorem scanString_escape (c : Nat) (n : Nat) (r : Str) :
    scanString (n + 1) (escape c ++ r) = (scanString n r).map fun p => (c :: p.1, p.2) := by
  -- an escape is a backslash and what `scanEscape` reads
  have hescape : ∀ e, scanEscape (e ++ r) = some (c, r) →
      scanString (n + 1) (92 :: e ++ r) = (scanString n r).map fun p => (c :: p.1, p.2) := by
    intro e he
    simp only [List.cons_append, scanString, he, Option.bind_some]
    rfl
  unfold escape
  split_ifs with h1 h2 h3 h4 h5 h6 h7 h8
  · exact hescape [34] (by subst h1; rfl)
  · exact hescape [92] (by subst h2; rfl)
  · exact hescape [110] (by subst h3; rfl)
  · exact hescape [114] (by subst h4; rfl)
  · exact hescape [116] (by subst h5; rfl)
  · exact hescape [102] (by subst h6; rfl)
  · exact hescape [98] (by subst h7; rfl)
  · exact hescape _ (scanEscape_control h8 r)
  · simp only [List.singleton_append, scanString, if_neg h1, if_neg h2, if_neg h8]

theorem scanString_quoted (s : Str) (r : Str) {n : Nat} (h : s.length < n) :
    scanString n (s.flatMap escape ++ 34 :: r) = some (s, r) := by
  induction s generalizing n with
  | nil =>
    obtain ⟨m, rfl⟩ : ∃ m, n = m + 1 := ⟨n - 1, by simp at h; omega⟩
    rfl
  | cons c s ih =>
    obtain ⟨m, rfl⟩ : ∃ m, n = m + 1 := ⟨n - 1, by simp at h; omega⟩
    rw [List.flatMap_cons, List.append_assoc, scanString_escape, ih (by simp at h; omega)]
    rfl

theorem length_le_escape (s : Str) : s.length ≤ (s.flatMap escape).length := by
  induction s with
  | nil => simp
  | cons c s ih =>
    have : 1 ≤ (escape c).length := by unfold escape; split_ifs <;> simp
    simp only [List.flatMap_cons, List.length_cons, List.length_append]
    omega

/-- A quoted string reads back, its opening quote gone. -/
theorem scanString_quote (s r : Str) :
    scanString ((s.flatMap escape ++ 34 :: r).length + 1) (s.flatMap escape ++ 34 :: r) = some (s, r) :=
  scanString_quoted s r (by have := length_le_escape s; rw [List.length_append, List.length_cons]; omega)

/-! ### Values -/

theorem skipSpace_cons {c : Nat} (r : Str) (h : isSpace c = false) : skipSpace (c :: r) = c :: r := by
  simp [skipSpace, List.dropWhile, h]

/-- The head of a value's text, which is no space and closes no bracket. -/
theorem text_head {v : Json} {t : Str} (h : v.text? = some t) :
    ∃ c u, t = c :: u ∧ isSpace c = false ∧ c ≠ 93 ∧ c ≠ 125 := by
  have hnumber : ∀ l u, PyFloat.scanLiteral t = some (l, u) →
      ∃ c u, t = c :: u ∧ isSpace c = false ∧ c ≠ 93 ∧ c ≠ 125 := by
    intro l u hl
    obtain ⟨c, u, rfl, hc⟩ := scanLiteral_head hl
    refine ⟨c, u, rfl, ?_⟩
    rcases hc with rfl | hc
    · decide
    · simp only [isDigit, Bool.and_eq_true, decide_eq_true_eq] at hc
      refine ⟨?_, by omega, by omega⟩
      simp [isSpace]
      omega
  cases v with
  | null => cases h; exact ⟨_, _, rfl, by decide⟩
  | bool b => cases h; cases b <;> exact ⟨_, _, rfl, by decide⟩
  | int n =>
    unfold text? at h
    split_ifs at h
    cases h
    exact hnumber _ _ (by simpa using scanLiteral_intText stops_nil n)
  | float x =>
    obtain ⟨l, hl, -⟩ := reads_of_repr h
    exact hnumber _ _ hl
  | str s => cases h; exact ⟨_, _, rfl, by decide⟩
  | arr l =>
    obtain ⟨ts, -, rfl⟩ := Option.map_eq_some_iff.mp h
    exact ⟨_, _, rfl, by decide⟩
  | obj f =>
    obtain ⟨ts, -, rfl⟩ := Option.map_eq_some_iff.mp h
    exact ⟨_, _, rfl, by decide⟩

theorem skipSpace_text {v : Json} {t : Str} (h : v.text? = some t) (r : Str) : skipSpace (t ++ r) = t ++ r := by
  obtain ⟨c, u, rfl, hc, -⟩ := text_head h
  exact skipSpace_cons _ hc

/-- What the parser makes of a value's text. -/
def Parses (v : Json) : Prop :=
  ∀ t, v.text? = some t → ∀ n r, t.length ≤ n → Stops r → parseValue n (t ++ r) = some (v, r)

theorem parseValue_number {v : Json} {t r : Str} (hv : v.text? = some t) {l : PyFloat.Literal}
    (hl : PyFloat.scanLiteral t = some (l, [])) {n : Nat} (hn : t.length ≤ n)
    (h : scanNumber (t ++ r) = some (v, r)) : parseValue n (t ++ r) = some (v, r) := by
  obtain ⟨c, u, rfl, hc⟩ := scanLiteral_head hl
  obtain ⟨m, rfl⟩ : ∃ m, n = m + 1 := ⟨n - 1, by simp at hn; omega⟩
  have hc : c = 45 ∨ 48 ≤ c ∧ c ≤ 57 := by simpa [isDigit] using hc
  simp only [List.cons_append, parseValue] at h ⊢
  rw [if_neg (by omega), if_neg (by omega), if_neg (by omega), if_neg (by omega), if_neg (by omega),
    if_neg (by omega), h]

theorem parseItems_text {l : List Json} (hl : l ≠ []) (ih : ∀ v ∈ l, Parses v) {ts : List Str}
    (h : itemTexts? l = some ts) (r : Str) {n : Nat} (hn : (joinComma ts).length < n) :
    parseItems n (joinComma ts ++ 93 :: r) = some (l, r) := by
  induction l generalizing ts n with
  | nil => exact absurd rfl hl
  | cons v l ihl =>
    obtain ⟨m, rfl⟩ : ∃ m, n = m + 1 := ⟨n - 1, by omega⟩
    obtain ⟨t, ht, h⟩ := Option.bind_eq_some_iff.mp h
    obtain ⟨us, hus, rfl⟩ := Option.map_eq_some_iff.mp h
    have hv := ih v (by simp) t ht
    cases l with
    | nil =>
      cases hus
      simp only [joinComma] at hn ⊢
      rw [parseItems, hv m _ (by omega) (stops_cons r (by simp)), Option.bind_some]
      simp only [skipSpace_cons r (show isSpace 93 = false from rfl)]
    | cons w l =>
      obtain ⟨u, hu, hus'⟩ := Option.bind_eq_some_iff.mp hus
      obtain ⟨us, hus', rfl⟩ := Option.map_eq_some_iff.mp hus'
      simp only [joinComma, List.append_assoc, List.cons_append, List.length_append, List.length_cons] at hn ⊢
      have hrest := ihl (by simp) (fun x hx => ih x (by simp [hx])) hus (n := m) (by omega)
      have hskip : skipSpace (joinComma (u :: us) ++ 93 :: r) = joinComma (u :: us) ++ 93 :: r := by
        cases us with
        | nil => exact skipSpace_text hu _
        | cons x us => rw [joinComma, List.append_assoc]; exact skipSpace_text hu _
      rw [parseItems, hv m _ (by omega) (stops_cons _ (by simp)), Option.bind_some]
      simp only [skipSpace_cons _ (show isSpace 44 = false from rfl), hskip, hrest]
      rfl

theorem parseFields_text {f : List (Str × Json)} (hf : f ≠ []) (ih : ∀ p ∈ f, Parses p.2) {ts : List Str}
    (h : fieldTexts? f = some ts) (r : Str) {n : Nat} (hn : (joinComma ts).length < n) :
    parseFields n (joinComma ts ++ 125 :: r) = some (f, r) := by
  induction f generalizing ts n with
  | nil => exact absurd rfl hf
  | cons p f ihf =>
    obtain ⟨k, v⟩ := p
    obtain ⟨m, rfl⟩ : ∃ m, n = m + 1 := ⟨n - 1, by omega⟩
    obtain ⟨t, ht, h⟩ := Option.bind_eq_some_iff.mp h
    obtain ⟨us, hus, rfl⟩ := Option.map_eq_some_iff.mp h
    have hv := ih (k, v) (by simp) t ht
    cases f with
    | nil =>
      cases hus
      simp only [joinComma, quote, List.length_append, List.length_cons, List.append_assoc, List.cons_append,
        List.nil_append] at hn ⊢
      have hval := hv m (125 :: r) (by omega) (stops_cons r (by simp))
      rw [parseFields, if_pos rfl, scanString_quote, Option.bind_some]
      simp only [skipSpace_cons _ (show isSpace 58 = false from rfl), skipSpace_text ht, hval, Option.bind_some,
        skipSpace_cons _ (show isSpace 125 = false from rfl)]
    | cons q f =>
      obtain ⟨j, w⟩ := q
      obtain ⟨u, hu, hus'⟩ := Option.bind_eq_some_iff.mp hus
      obtain ⟨us, hus', rfl⟩ := Option.map_eq_some_iff.mp hus'
      have hrest := ihf (by simp) (fun x hx => ih x (by simp [hx])) hus (n := m)
      have hskip : skipSpace (joinComma ((quote j ++ 58 :: u) :: us) ++ 125 :: r) =
          joinComma ((quote j ++ 58 :: u) :: us) ++ 125 :: r := by
        cases us <;> exact skipSpace_cons _ rfl
      simp only [joinComma, quote, List.length_append, List.length_cons, List.append_assoc, List.cons_append,
        List.nil_append] at hn hrest hskip ⊢
      have hval := fun q => hv m (44 :: q) (by omega) (stops_cons q (by simp))
      rw [parseFields, if_pos rfl, scanString_quote, Option.bind_some]
      simp only [skipSpace_cons _ (show isSpace 58 = false from rfl), skipSpace_text ht, hval, Option.bind_some,
        skipSpace_cons _ (show isSpace 44 = false from rfl), hskip, hrest (by omega)]
      rfl

/-- The fields of a plain object are in order, and plain themselves. -/
theorem isPlain_obj {f : List (Str × Json)} (h : IsPlain (.obj f)) : Ordered f ∧ ∀ p ∈ f, IsPlain p.2 := by
  have h : sortFields (f.map fun p => (p.1, p.2.plain)) = f := by
    simpa only [IsPlain, plain, plainFields_eq, Json.obj.injEq] using h
  have hord : Ordered f := by
    rw [← h]
    exact ordered_sortFields _
  have hmap : f.map (fun p => (p.1, p.2.plain)) = f := by
    rwa [sortFields_eq_self (by simpa only [Ordered, List.map_map, Function.comp_def] using hord)] at h
  refine ⟨hord, fun p hp => ?_⟩
  have hid := List.map_inj_left.mp (hmap.trans (List.map_id f).symm) p hp
  exact (Prod.mk.inj hid).2

theorem isPlain_items {l : List Json} (h : IsPlain (.arr l)) : ∀ v ∈ l, IsPlain v := by
  have h : l.map plain = l := by simpa only [IsPlain, plain, plainList_eq, Json.arr.injEq] using h
  exact List.map_inj_left.mp (h.trans (List.map_id l).symm)

theorem Ordered.nodup {f : List (Str × Json)} (h : Ordered f) : (f.map (·.1)).Nodup :=
  List.Pairwise.imp (fun {_ _} hlt => ne_of_lt hlt) h

/-- A plain value's text reads back as the value, up to where the text stops. -/
theorem parseValue_text (v : Json) (hv : IsPlain v) : Parses v := by
  induction v using induct with
  | null =>
    rintro t ⟨⟩ n r hn -
    obtain ⟨m, rfl⟩ : ∃ m, n = m + 1 := ⟨n - 1, by have : 4 ≤ n := hn; omega⟩
    rfl
  | bool b =>
    rintro t ⟨⟩ n r hn -
    obtain ⟨m, rfl⟩ : ∃ m, n = m + 1 := ⟨n - 1, by cases b <;> simp [Str.lit] at hn <;> omega⟩
    cases b <;> rfl
  | int i =>
    intro t ht n r hn hr
    have hint := ht
    unfold text? at hint
    split_ifs at hint with hlen
    cases hint
    exact parseValue_number ht (by simpa using scanLiteral_intText stops_nil i) hn (scanNumber_intText hr hlen)
  | float x =>
    intro t ht n r hn hr
    obtain ⟨l, hl, -⟩ := reads_of_repr ht
    exact parseValue_number ht hl hn (scanNumber_repr hr ht)
  | str s =>
    rintro t ⟨⟩ n r hn -
    obtain ⟨m, rfl⟩ : ∃ m, n = m + 1 := ⟨n - 1, by simp [quote] at hn; omega⟩
    simp only [quote, List.cons_append, List.append_assoc, List.nil_append, parseValue, if_pos, scanString_quote]
    rfl
  | arr l ih =>
    intro t ht n r hn hr
    obtain ⟨ts, hts, rfl⟩ := Option.map_eq_some_iff.mp ht
    obtain ⟨m, rfl⟩ : ∃ m, n = m + 1 := ⟨n - 1, by simp at hn; omega⟩
    cases l with
    | nil => cases hts; rfl
    | cons v l =>
      have hitems := parseItems_text (by simp) (fun v h => ih v h (isPlain_items hv v h)) hts r
        (n := m) (by simp at hn; omega)
      obtain ⟨u, hu, h⟩ := Option.bind_eq_some_iff.mp hts
      obtain ⟨us, -, rfl⟩ := Option.map_eq_some_iff.mp h
      obtain ⟨c, u', rfl, hc, hne, -⟩ := text_head hu
      obtain ⟨q, hq⟩ : ∃ q, joinComma ((c :: u') :: us) ++ 93 :: r = c :: q := by
        cases us <;> exact ⟨_, rfl⟩
      simp only [List.cons_append, List.append_assoc, List.nil_append, parseValue, hq, skipSpace_cons q hc] at hitems ⊢
      simp [hne, hitems]
  | obj f ih =>
    intro t ht n r hn hr
    obtain ⟨ts, hts, rfl⟩ := Option.map_eq_some_iff.mp ht
    obtain ⟨m, rfl⟩ : ∃ m, n = m + 1 := ⟨n - 1, by simp at hn; omega⟩
    obtain ⟨hord, hplain⟩ := isPlain_obj hv
    cases f with
    | nil => cases hts; rfl
    | cons p f =>
      have hfields := parseFields_text (by simp) (fun p hp => ih p hp (hplain p hp)) hts r
        (n := m) (by simp at hn; omega)
      obtain ⟨u, -, h⟩ := Option.bind_eq_some_iff.mp hts
      obtain ⟨us, -, rfl⟩ := Option.map_eq_some_iff.mp h
      obtain ⟨q, hq⟩ : ∃ q, joinComma ((quote p.1 ++ 58 :: u) :: us) ++ 125 :: r = 34 :: q := by
        cases us <;> exact ⟨_, rfl⟩
      simp only [List.cons_append, List.append_assoc, List.nil_append, parseValue, hq,
        skipSpace_cons q (show isSpace 34 = false from rfl)] at hfields ⊢
      simp only [hfields, Option.bind_some, if_pos hord.nodup, sortFields_eq_self hord]
      simp

/-! ### Documents -/

theorem parse?_text {v : Json} (hp : IsPlain v) {t : Str} (h : v.text? = some t) : parse? t = some v := by
  have hparse := parseValue_text v hp t h t.length [] le_rfl stops_nil
  have hskip := skipSpace_text h []
  simp only [List.append_nil] at hparse hskip
  rw [parse?, hskip, hparse]
  rfl

/-- Bytes that start with an ASCII brace and another nonzero ASCII byte are read as UTF-8. -/
theorem decodeText?_utf8 {a b : UInt8} {r : Bytes} (ha : a = 123) (hb : b = 34 ∨ b = 125) :
    decodeText? (a :: b :: r) = Str.decodeUtf8? (a :: b :: r) := by
  subst ha
  rcases hb with rfl | rfl <;> rcases r with _ | ⟨c, _ | ⟨d, r⟩⟩ <;> simp [decodeText?]

theorem utf8?_obj_head {f : List (Str × Json)} {t : Str} (h : (Json.obj f).text? = some t) {data : Bytes}
    (hb : t.utf8? = some data) : ∃ b r, data = 123 :: b :: r ∧ (b = 34 ∨ b = 125) := by
  obtain ⟨ts, hts, rfl⟩ := Option.map_eq_some_iff.mp h
  obtain ⟨c, q, hq, hc⟩ : ∃ c q, joinComma ts ++ [125] = c :: q ∧ (c = 34 ∨ c = 125) := by
    cases f with
    | nil => cases hts; exact ⟨_, _, rfl, Or.inr rfl⟩
    | cons p f =>
      obtain ⟨u, -, h⟩ := Option.bind_eq_some_iff.mp hts
      obtain ⟨us, -, rfl⟩ := Option.map_eq_some_iff.mp h
      cases us <;> exact ⟨_, _, rfl, Or.inl rfl⟩
  simp only [List.cons_append, hq, Str.utf8?] at hb
  split_ifs at hb
  cases hb
  rcases hc with rfl | rfl <;> exact ⟨_, _, rfl, by decide⟩

/-- The canonical bytes of an object read back as the object with its keys in order. -/
theorem strictLoads?_canonical {f : List (Str × Json)} {data : Bytes} (h : canonicalBytes? (.obj f) = some data) :
    strictLoads? data = some (Json.obj f).plain := by
  obtain ⟨t, ht, hdata⟩ := Option.bind_eq_some_iff.mp h
  have hobj : (Json.obj f).plain = .obj (plainFields f) := rfl
  rw [hobj] at ht ⊢
  obtain ⟨b, r, rfl, hb⟩ := utf8?_obj_head ht hdata
  rw [strictLoads?, decodeText?_utf8 rfl hb, Str.decodeUtf8?_utf8 hdata, Option.bind_some,
    parse?_text (isPlain_plain (.obj f)) ht]
  rfl

/-- Equal canonical bytes come from equal values. -/
theorem canonicalBytes?_inj {f g : List (Str × Json)} {data : Bytes} (hf : canonicalBytes? (.obj f) = some data)
    (hg : canonicalBytes? (.obj g) = some data) : (Json.obj f).plain = (Json.obj g).plain :=
  Option.some.inj ((strictLoads?_canonical hf).symm.trans (strictLoads?_canonical hg))

@[simp] theorem canonicalBytes?_plain (v : Json) : canonicalBytes? v.plain = canonicalBytes? v := by
  rw [canonicalBytes?, canonicalBytes?, plain_plain]

end LeanCtx.Json
