import LeanCtx.Json.Length

/-! A canonical text holds no control character, whatever the strings of its value hold, and is at most six times as long when it
    is quoted again. -/

namespace LeanCtx.Json

/-- No character of the text is a control character below the space. -/
def Printable (t : Str) : Prop := ∀ c ∈ t, 32 ≤ c

instance (t : Str) : Decidable (Printable t) := inferInstanceAs (Decidable (∀ c ∈ t, 32 ≤ c))

theorem Printable.append {s t : Str} (hs : Printable s) (ht : Printable t) : Printable (s ++ t) := fun c hc => by
  rcases List.mem_append.mp hc with hc | hc
  · exact hs c hc
  · exact ht c hc

theorem printable_cons {c : Nat} {t : Str} (hc : 32 ≤ c) (ht : Printable t) : Printable (c :: t) :=
  List.forall_mem_cons.mpr ⟨hc, ht⟩

theorem printable_digitsText (ds : List Nat) : Printable (digitsText ds) := fun c hc => by
  obtain ⟨d, -, rfl⟩ := List.mem_map.mp hc
  omega

theorem printable_natText (n : Nat) : Printable (natText n) := by
  rw [natText_eq]
  exact printable_digitsText _

theorem printable_intText (n : Int) : Printable (intText n) := by
  cases n with
  | ofNat n => exact printable_natText n
  | negSucc n => exact printable_cons (by decide) (printable_natText _)

/-! ### Numbers -/

/-- A character that a number literal may hold. -/
def IsNumeral (c : Nat) : Prop := isDigit c = true ∨ c = 43 ∨ c = 45 ∨ c = 46 ∨ c = 69 ∨ c = 101

theorem numeral_spanDigits {t : Str} (h : ∀ c ∈ (spanDigits t).2, IsNumeral c) : ∀ c ∈ t, IsNumeral c := by
  induction t with
  | nil => nofun
  | cons c t ih =>
    unfold spanDigits at h
    split_ifs at h with hc
    · exact List.forall_mem_cons.mpr ⟨Or.inl hc, ih h⟩
    · exact h

theorem numeral_scanExponent {t : Str} (h : ∀ c ∈ (PyFloat.scanExponent t).2, IsNumeral c) : ∀ c ∈ t, IsNumeral c := by
  cases t with
  | nil => exact List.forall_mem_nil _
  | cons c t =>
    simp only [PyFloat.scanExponent] at h
    split_ifs at h with hc
    · refine List.forall_mem_cons.mpr ⟨by unfold IsNumeral; omega, ?_⟩
      have hspan := numeral_spanDigits h
      cases t with
      | nil => exact List.forall_mem_nil _
      | cons d t =>
        simp only [PyFloat.scanExponentSign] at hspan
        split_ifs at hspan with hminus hplus
        · exact List.forall_mem_cons.mpr ⟨by unfold IsNumeral; omega, hspan⟩
        · exact List.forall_mem_cons.mpr ⟨by unfold IsNumeral; omega, hspan⟩
        · exact hspan
    · exact h

theorem numeral_scanFraction {t : Str} (h : ∀ c ∈ (PyFloat.scanFraction t).2, IsNumeral c) : ∀ c ∈ t, IsNumeral c := by
  cases t with
  | nil => nofun
  | cons c t =>
    simp only [PyFloat.scanFraction] at h
    split_ifs at h with hc
    · exact List.forall_mem_cons.mpr ⟨by unfold IsNumeral; omega, numeral_spanDigits h⟩
    · exact h

/-- A text that is a number literal holds digits, signs, a point and an exponent letter only. -/
theorem numeral_scanLiteral {t : Str} {l : PyFloat.Literal} (h : PyFloat.scanLiteral t = some (l, [])) : ∀ c ∈ t, IsNumeral c := by
  unfold PyFloat.scanLiteral at h
  obtain ⟨⟨whole, r⟩, hwhole, h⟩ := Option.map_eq_some_iff.mp h
  have hrest : (PyFloat.scanExponent (PyFloat.scanFraction r).2).2 = [] := congrArg Prod.snd h
  have hr : ∀ c ∈ r, IsNumeral c := numeral_scanFraction (numeral_scanExponent (by rw [hrest]; nofun))
  have hsign : ∀ c ∈ (PyFloat.scanSign t).2, IsNumeral c := by
    have hwhole : PyFloat.scanWhole (PyFloat.scanSign t).2 = some (whole, r) := hwhole
    generalize (PyFloat.scanSign t).2 = s at hwhole
    cases s with
    | nil => nofun
    | cons c s =>
      simp only [PyFloat.scanWhole] at hwhole
      split_ifs at hwhole with hzero hdigit
      · cases hwhole
        exact List.forall_mem_cons.mpr ⟨Or.inl (by rw [hzero]; rfl), hr⟩
      · refine numeral_spanDigits ?_
        rw [Option.some.inj hwhole]
        exact hr
  unfold PyFloat.scanSign at hsign
  split at hsign
  · exact List.forall_mem_cons.mpr ⟨by unfold IsNumeral; omega, hsign⟩
  · exact hsign

theorem printable_scanLiteral {t : Str} {l : PyFloat.Literal} (h : PyFloat.scanLiteral t = some (l, [])) : Printable t := by
  intro c hc
  have hnumeral := numeral_scanLiteral h c hc
  simp only [IsNumeral, isDigit, Bool.and_eq_true, decide_eq_true_eq] at hnumeral
  omega

/-! ### Values -/

theorem printable_escape (c : Nat) : Printable (escape c) := by
  have hhex : ∀ n, 32 ≤ hexDigit n := fun n => by unfold hexDigit; split_ifs <;> omega
  unfold escape
  split_ifs <;> intro d hd <;> simp only [List.mem_cons, List.not_mem_nil, or_false] at hd
  · omega
  · omega
  · omega
  · omega
  · omega
  · omega
  · omega
  · rcases hd with rfl | rfl | rfl | rfl | rfl | rfl
    · decide
    · decide
    · decide
    · decide
    · exact hhex _
    · exact hhex _
  · omega

theorem printable_quote (s : Str) : Printable (quote s) := by
  refine printable_cons (by decide) (Printable.append (fun c hc => ?_) (by decide))
  obtain ⟨d, -, hc⟩ := List.mem_flatMap.mp hc
  exact printable_escape d c hc

theorem printable_joinComma {l : List Str} (h : ∀ t ∈ l, Printable t) : Printable (joinComma l) := by
  induction l with
  | nil => nofun
  | cons t l ih =>
    cases l with
    | nil => exact h t (by simp)
    | cons u l => exact (h t (by simp)).append (printable_cons (by decide) (ih fun x hx => h x (by simp [hx])))

theorem printable_text (v : Json) : ∀ {t : Str}, v.text? = some t → Printable t := by
  induction v using induct with
  | null =>
    rintro t ⟨⟩
    decide
  | bool b =>
    rintro t ⟨⟩
    cases b <;> decide
  | int n =>
    intro t h
    unfold text? at h
    split_ifs at h
    cases h
    exact printable_intText n
  | float x =>
    intro t h
    obtain ⟨l, hl, -, -⟩ := reads_of_repr h
    exact printable_scanLiteral hl
  | str s =>
    rintro t ⟨⟩
    exact printable_quote s
  | arr l ih =>
    intro t h
    obtain ⟨ts, hts, rfl⟩ := Option.map_eq_some_iff.mp h
    refine printable_cons (by decide) ((printable_joinComma ?_).append (by decide))
    clear h
    induction l generalizing ts with
    | nil =>
      cases hts
      exact List.forall_mem_nil _
    | cons v l ihl =>
      obtain ⟨t, ht, h⟩ := Option.bind_eq_some_iff.mp hts
      obtain ⟨us, hus, rfl⟩ := Option.map_eq_some_iff.mp h
      exact List.forall_mem_cons.mpr ⟨ih v (by simp) ht, ihl (fun w hw => ih w (by simp [hw])) us hus⟩
  | obj f ih =>
    intro t h
    obtain ⟨ts, hts, rfl⟩ := Option.map_eq_some_iff.mp h
    refine printable_cons (by decide) ((printable_joinComma ?_).append (by decide))
    clear h
    induction f generalizing ts with
    | nil =>
      cases hts
      exact List.forall_mem_nil _
    | cons p f ihf =>
      obtain ⟨k, v⟩ := p
      obtain ⟨t, ht, h⟩ := Option.bind_eq_some_iff.mp hts
      obtain ⟨us, hus, rfl⟩ := Option.map_eq_some_iff.mp h
      refine List.forall_mem_cons.mpr ⟨?_, ihf (fun w hw => ih w (by simp [hw])) us hus⟩
      exact (printable_quote k).append (printable_cons (by decide) (ih (k, v) (by simp) ht))

/-! ### Quoting -/

theorem utf8Length_escape (c : Nat) : (escape c).utf8Length ≤ 6 * Str.pointLength c := by
  have hpoint : 1 ≤ Str.pointLength c := by unfold Str.pointLength; split_ifs <;> omega
  have hsmall : ∀ {n : Nat}, n < 128 → Str.pointLength n = 1 := fun h => if_pos h
  have hhex : ∀ n, n < 16 → hexDigit n < 128 := fun n hn => by unfold hexDigit; split_ifs <;> omega
  unfold escape
  split_ifs with _ _ _ _ _ _ _ hlow
  · exact (show Str.utf8Length [92, 34] ≤ 6 by decide).trans (by omega)
  · exact (show Str.utf8Length [92, 92] ≤ 6 by decide).trans (by omega)
  · exact (show Str.utf8Length [92, 110] ≤ 6 by decide).trans (by omega)
  · exact (show Str.utf8Length [92, 114] ≤ 6 by decide).trans (by omega)
  · exact (show Str.utf8Length [92, 116] ≤ 6 by decide).trans (by omega)
  · exact (show Str.utf8Length [92, 102] ≤ 6 by decide).trans (by omega)
  · exact (show Str.utf8Length [92, 98] ≤ 6 by decide).trans (by omega)
  · have hhi := hsmall (hhex (c / 16) (by omega))
    have hlo := hsmall (hhex (c % 16) (by omega))
    simp only [Str.utf8Length, List.map_cons, List.map_nil, List.sum_cons, List.sum_nil, hhi, hlo]
    have h92 : Str.pointLength 92 = 1 := rfl
    have h117 : Str.pointLength 117 = 1 := rfl
    have h48 : Str.pointLength 48 = 1 := rfl
    omega
  · simp only [Str.utf8Length, List.map_cons, List.map_nil, List.sum_cons, List.sum_nil]
    omega

/-- A string is written in at most six bytes for each of its own. -/
theorem utf8Length_quote_le (s : Str) : (quote s).utf8Length ≤ 6 * s.utf8Length + 2 := by
  have hbody : Str.utf8Length (s.flatMap escape) ≤ 6 * s.utf8Length := by
    induction s with
    | nil => exact Nat.zero_le _
    | cons c s ih =>
      have hcons : Str.utf8Length (c :: s) = Str.pointLength c + Str.utf8Length s := by
        simp [Str.utf8Length]
      have hc := utf8Length_escape c
      rw [List.flatMap_cons, Str.utf8Length_append, hcons]
      omega
  have hopen : Str.utf8Length [34] = 1 := rfl
  rw [quote, ← List.singleton_append, List.append_assoc, Str.utf8Length_append, Str.utf8Length_append, hopen]
  omega

theorem fits_text {s : Str} {n : Nat} (h : s.all Str.isScalar = true) (hlength : s.utf8Length ≤ n) : Fits (6 * n + 2) (.str s) := by
  refine ⟨writable_str h, ?_⟩
  have hquote := utf8Length_quote_le s
  rw [byteLength_eq_textLength (writable_str h)]
  show (quote s).utf8Length ≤ 6 * n + 2
  omega

end LeanCtx.Json
