import LeanCtx.Json.Float
import LeanCtx.Json.Printable

/-! The strings and the number literals of a JSON text, as they stand in the text, and what the parser makes of
    them: an accepted text has a canonical form exactly when its strings hold no lone surrogate and its numbers
    do not overflow (`fitsTogether_iff`). -/

namespace LeanCtx.Json
open PyFloat

/-- A string, its escapes read, or a number literal. -/
inductive Lexeme
  | string (s : Str)
  | number (l : Literal)

/-- The strings and number literals of a text, in their order. The fuel bounds the length of the text. -/
def scanLexemes : Nat → Str → List Lexeme
  | 0, _ => []
  | _ + 1, [] => []
  | n + 1, c :: r =>
    if c = 34 then
      match scanString (r.length + 1) r with
      | some (s, q) => .string s :: scanLexemes n q
      | none => []
    else if c = 45 ∨ isDigit c = true then
      match scanLiteral (c :: r) with
      | some (l, q) => .number l :: scanLexemes n q
      | none => []
    else scanLexemes n r

def lexemes (s : Str) : List Lexeme := scanLexemes s.length s

/-- A float that is no infinity. -/
def isFinite : PyFloat → Bool
  | .finite .. => true
  | .inf _ => false

/-- A string without a lone surrogate, or a literal that is an integer or no larger than a float can be. -/
def Lexeme.isSayable : Lexeme → Bool
  | .string s => s.all Str.isScalar
  | .number l => !l.isFloat || isFinite (ofLiteral l)

/-! ### Scanning shortens a text -/

theorem length_spanDigits (s : Str) : (spanDigits s).1.length + (spanDigits s).2.length = s.length := by
  induction s with
  | nil => rfl
  | cons c s ih =>
    unfold spanDigits
    split_ifs
    · simp only [List.length_cons]
      omega
    · simp

theorem length_scanWhole {s r : Str} {w : List Nat} (h : scanWhole s = some (w, r)) : r.length < s.length := by
  cases s with
  | nil => cases h
  | cons c s =>
    simp only [scanWhole] at h
    split_ifs at h with h0 hd
    · cases h
      simp
    · have hlen := length_spanDigits s
      rw [spanDigits, if_pos hd] at h
      cases h
      simp only [List.length_cons]
      omega

theorem length_scanFraction (s : Str) : (scanFraction s).2.length ≤ s.length := by
  cases s with
  | nil => simp [scanFraction]
  | cons c s =>
    have hlen := length_spanDigits s
    simp only [scanFraction]
    split_ifs <;> simp only [List.length_cons] <;> omega

theorem length_scanExponent (s : Str) : (scanExponent s).2.length ≤ s.length := by
  cases s with
  | nil => simp [scanExponent]
  | cons c s =>
    have hsign : (scanExponentSign s).2.length ≤ s.length := by
      cases s with
      | nil => simp [scanExponentSign]
      | cons d s =>
        simp only [scanExponentSign]
        split_ifs <;> simp
    have hlen := length_spanDigits (scanExponentSign s).2
    simp only [scanExponent]
    split_ifs <;> simp only [List.length_cons] <;> omega

theorem length_scanLiteral {s r : Str} {l : Literal} (h : scanLiteral s = some (l, r)) : r.length < s.length := by
  unfold scanLiteral at h
  obtain ⟨⟨w, q⟩, hw, h⟩ := Option.map_eq_some_iff.mp h
  obtain ⟨-, rfl⟩ := Prod.mk.inj h
  have hwhole : q.length < (scanSign s).2.length := length_scanWhole hw
  have hfraction := length_scanFraction q
  have hexponent := length_scanExponent (scanFraction q).2
  have hsign : (scanSign s).2.length ≤ s.length := by
    unfold scanSign
    split <;> simp
  omega

theorem length_scanHex4 {s r : Str} {n : Nat} (h : scanHex4 s = some (n, r)) : r.length < s.length := by
  match s, h with
  | a :: b :: c :: d :: q, h =>
    simp only [scanHex4, Option.bind_eq_bind, Option.bind_eq_some_iff, Option.pure_def, Option.some.injEq, Prod.mk.injEq] at h
    obtain ⟨_, -, _, -, _, -, _, -, -, rfl⟩ := h
    simp only [List.length_cons]
    omega

theorem length_scanEscape {s r : Str} {c : Nat} (h : scanEscape s = some (c, r)) : r.length < s.length := by
  cases s with
  | nil => cases h
  | cons e s =>
    simp only [scanEscape] at h
    split_ifs at h with h1 h2 h3 h4 h5 h6 h7
    all_goals first | (cases h; simp) | skip
    cases hhex : scanHex4 s with
    | none => simp [hhex] at h
    | some p =>
      obtain ⟨u, q⟩ := p
      have hlen := length_scanHex4 hhex
      simp only [hhex] at h
      split_ifs at h with hhigh
      · split at h
        · next q =>
          cases hlow : scanHex4 q with
          | none => simp [hlow] at h
          | some p =>
            obtain ⟨w, q'⟩ := p
            have hlen' := length_scanHex4 hlow
            simp only [hlow] at h
            split_ifs at h
            all_goals
              obtain ⟨-, rfl⟩ := Prod.mk.inj (Option.some.inj h)
              simp only [List.length_cons] at hlen ⊢
              omega
        · obtain ⟨-, rfl⟩ := Prod.mk.inj (Option.some.inj h)
          simp only [List.length_cons]
          omega
      · obtain ⟨-, rfl⟩ := Prod.mk.inj (Option.some.inj h)
        simp only [List.length_cons]
        omega

theorem length_scanString {n : Nat} {s t r : Str} (h : scanString n s = some (t, r)) : r.length < s.length := by
  induction n generalizing s t with
  | zero => cases h
  | succ n ih =>
    cases s with
    | nil => cases h
    | cons c s =>
      rw [scanString] at h
      split_ifs at h with hquote hslash hcontrol
      · cases h
        simp
      · obtain ⟨⟨d, q⟩, hescape, h⟩ := Option.bind_eq_some_iff.mp h
        obtain ⟨⟨u, q'⟩, hrest, h⟩ := Option.map_eq_some_iff.mp h
        cases h
        have h1 := length_scanEscape hescape
        have h2 := ih hrest
        simp only [List.length_cons]
        omega
      · obtain ⟨⟨u, q'⟩, hrest, h⟩ := Option.map_eq_some_iff.mp h
        cases h
        have := ih hrest
        simp only [List.length_cons]
        omega

/-- More fuel than the text is long finds nothing more. -/
theorem scanLexemes_fuel {m n : Nat} : ∀ {s : Str}, s.length ≤ m → s.length ≤ n → scanLexemes m s = scanLexemes n s := by
  induction m generalizing n with
  | zero =>
    intro s hm _
    rw [List.length_eq_zero_iff.mp (Nat.le_zero.mp hm)]
    cases n <;> rfl
  | succ m ih =>
    intro s hm hn
    cases s with
    | nil => cases n <;> rfl
    | cons c r =>
      obtain ⟨n, rfl⟩ : ∃ k, n = k + 1 := ⟨n - 1, by simp at hn; omega⟩
      simp only [List.length_cons, Nat.add_le_add_iff_right] at hm hn
      rw [scanLexemes, scanLexemes]
      split_ifs with hquote hnumber
      · cases hs : scanString (r.length + 1) r with
        | none => rfl
        | some p =>
          have := length_scanString hs
          simp only [ih (show p.2.length ≤ m by omega) (show p.2.length ≤ n by omega)]
      · cases hs : scanLiteral (c :: r) with
        | none => rfl
        | some p =>
          have := length_scanLiteral hs
          simp only [List.length_cons] at this
          simp only [ih (show p.2.length ≤ m by omega) (show p.2.length ≤ n by omega)]
      · exact ih hm hn

theorem lexemes_string {r s q : Str} (h : scanString (r.length + 1) r = some (s, q)) :
    lexemes (34 :: r) = .string s :: lexemes q := by
  have := length_scanString h
  rw [lexemes, List.length_cons, scanLexemes, if_pos rfl, h]
  simp only [lexemes]
  rw [scanLexemes_fuel (show q.length ≤ r.length by omega) le_rfl]

theorem lexemes_number {c : Nat} {r q : Str} {l : Literal} (hc : c = 45 ∨ isDigit c = true) (h : scanLiteral (c :: r) = some (l, q)) :
    lexemes (c :: r) = .number l :: lexemes q := by
  have := length_scanLiteral h
  simp only [List.length_cons] at this
  have hquote : c ≠ 34 := by
    rintro rfl
    simp [isDigit] at hc
  rw [lexemes, List.length_cons, scanLexemes, if_neg hquote, if_pos hc, h]
  simp only [lexemes]
  rw [scanLexemes_fuel (show q.length ≤ r.length by omega) le_rfl]

theorem lexemes_other {c : Nat} (r : Str) (h : c ≠ 34 ∧ c ≠ 45 ∧ isDigit c = false) : lexemes (c :: r) = lexemes r := by
  rw [lexemes, List.length_cons, scanLexemes, if_neg h.1, if_neg (by simp [h.2.1, h.2.2])]
  rfl

theorem lexemes_skipSpace (s : Str) : lexemes (skipSpace s) = lexemes s := by
  induction s with
  | nil => rfl
  | cons c s ih =>
    by_cases hc : isSpace c = true
    · have hskip : skipSpace (c :: s) = skipSpace s := by simp [skipSpace, hc]
      have hother : c ≠ 34 ∧ c ≠ 45 ∧ isDigit c = false := by
        simp only [isSpace, Bool.or_eq_true, beq_iff_eq] at hc
        rcases hc with ((rfl | rfl) | rfl) | rfl <;> decide
      rw [hskip, ih, lexemes_other s hother]
    · rw [skipSpace_cons s (by simpa using hc)]

theorem lexemes_dropPrefix {p s q : Str} (hp : ∀ c ∈ p, c ≠ 34 ∧ c ≠ 45 ∧ isDigit c = false) (h : dropPrefix? p s = some q) :
    lexemes s = lexemes q := by
  unfold dropPrefix? at h
  split_ifs at h with hprefix
  obtain ⟨r, rfl⟩ := hprefix
  rw [List.drop_left] at h
  cases h
  induction p with
  | nil => rfl
  | cons c p ih =>
    rw [List.cons_append, lexemes_other _ (hp c (by simp))]
    exact ih fun d hd => hp d (by simp [hd])

end LeanCtx.Json
