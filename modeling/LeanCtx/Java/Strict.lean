import LeanCtx.Java.Parser
import LeanCtx.Json.Float

/-! The parser of the Java package reads the grammar of JSON with the digits of every script, and nothing else. -/

namespace LeanCtx.Java
open Json (Piece Raw)
open Json.Grammar (ascii Digits Sign Whole Fraction ExponentSign Exponent Number Chars Items Fields Document Extends)
open PyFloat (Literal)

theorem extends_digit : Extends digit ascii := by
  intro c d h
  unfold ascii at h
  split_ifs at h with hc
  cases h
  obtain ⟨c, rfl⟩ : ∃ k, c = 48 + k := ⟨c - 48, by omega⟩
  have hlt : c < 10 := by omega
  interval_cases c <;> rfl

/-- A text does not go on with anything that could belong to a number before it. -/
def Ends (r : Str) : Prop := ∀ c ∈ r.head?, digit c = none ∧ c ≠ 46 ∧ c ≠ 101 ∧ c ≠ 69

namespace Parser

variable {label : Str}

/-! ### Numbers -/

theorem digits_takeDigits (s : Str) : Digits digit s (takeDigits s).1 (takeDigits s).2 := by
  induction s with
  | nil => exact .nil _
  | cons c r ih =>
    rw [takeDigits]
    cases hc : digit c with
    | none => exact .nil _
    | some d => exact .cons hc ih

theorem takeDigits_eq {s r : Str} {l : List Nat} (h : Digits digit s l r) (hend : startsDigit r = false) : takeDigits s = (l, r) := by
  induction h with
  | nil r =>
    cases r with
    | nil => rfl
    | cons c r =>
      have hc : digit c = none := by simpa [startsDigit] using hend
      rw [takeDigits, hc]
  | cons digit _ ih => rw [takeDigits, digit, ih hend]

theorem sign_takeSign (s : Str) : Sign s (takeSign s).1 (takeSign s).2 := by
  unfold takeSign
  split
  · exact .minus _
  · exact .none _

theorem takeSign_eq {s t u : Str} {neg : Bool} {w : List Nat} (h : Sign s neg t) (hwhole : Whole digit t w u) : takeSign s = (neg, t) := by
  cases h with
  | minus => rfl
  | none =>
    cases hwhole with
    | zero => rfl
    | @digits c _ _ _ first _ =>
      have hc : c ≠ 45 := by omega
      simp [takeSign, hc]

theorem whole_of_parseWhole {s u : Str} {w : List Nat} (h : parseWhole label s = .ok (w, u)) : Whole digit s w u := by
  cases s with
  | nil => cases h
  | cons c r =>
    rw [parseWhole] at h
    split_ifs at h with hzero hstart hfirst
    · cases h
      rw [hzero]
      exact .zero _
    · cases h
      exact .digits hfirst (digits_takeDigits r)

theorem parseWhole_eq {s u : Str} {w : List Nat} (h : Whole digit s w u) (hend : startsDigit u = false) : parseWhole label s = .ok (w, u) := by
  cases h with
  | zero => rw [parseWhole, if_pos rfl, hend, if_neg Bool.false_ne_true]
  | digits first rest => rw [parseWhole, if_neg (by omega), if_pos first, takeDigits_eq rest hend]

theorem fraction_of_parseFraction {s v : Str} {f : Option (List Nat)} (h : parseFraction label s = .ok (f, v)) : Fraction digit s f v := by
  unfold parseFraction at h
  split at h
  · split_ifs at h with hnil
    cases h
    exact .some (digits_takeDigits _) hnil
  · cases h
    exact .none _

theorem parseFraction_eq {s v : Str} {f : Option (List Nat)} (h : Fraction digit s f v) (hend : startsDigit v = false) (hpoint : v.head? ≠ some 46) :
    parseFraction label s = .ok (f, v) := by
  cases h with
  | none =>
    unfold parseFraction
    split
    · exact absurd rfl hpoint
    · rfl
  | some digits nonempty => rw [parseFraction, takeDigits_eq digits hend, if_neg nonempty]

theorem exponent_of_parseExponent {s r : Str} {e : Option Int} (h : parseExponent label s = .ok (e, r)) : Exponent digit s e r := by
  cases s with
  | nil =>
    cases h
    exact .none _
  | cons c t =>
    rw [parseExponent] at h
    split_ifs at h with hletter
    · simp only at h
      split_ifs at h with hnil
      cases h
      refine .some hletter ?_ (digits_takeDigits _) hnil
      unfold takeExponentSign
      split
      · exact .plus _
      · exact .minus _
      · exact .none _
    · cases h
      exact .none _

theorem takeExponentSign_eq {s t r : Str} {k : Int} {l : List Nat} (h : ExponentSign s k t) (hdigits : Digits digit t l r) (hne : l ≠ []) :
    takeExponentSign s = (k, t) := by
  cases h with
  | plus => rfl
  | minus => rfl
  | none =>
    cases hdigits with
    | nil => exact absurd rfl hne
    | @cons c d _ _ _ hdigit _ =>
      have hplus : c ≠ 43 := by rintro rfl; cases hdigit
      have hminus : c ≠ 45 := by rintro rfl; cases hdigit
      simp [takeExponentSign, hplus, hminus]

theorem parseExponent_eq {s r : Str} {e : Option Int} (h : Exponent digit s e r) (hend : Ends r) : parseExponent label s = .ok (e, r) := by
  cases h with
  | none =>
    cases s with
    | nil => rfl
    | cons c t =>
      obtain ⟨-, -, hlower, hupper⟩ := hend c rfl
      rw [parseExponent, if_neg (not_or.mpr ⟨hlower, hupper⟩)]
  | some letter sign digits nonempty =>
    have hstart : startsDigit r = false := by
      cases r with
      | nil => rfl
      | cons c r => simp [startsDigit, (hend c rfl).1]
    rw [parseExponent, if_pos letter, takeExponentSign_eq sign digits nonempty]
    simp only
    rw [takeDigits_eq digits hstart, if_neg nonempty]

/-- Where a number ends, no digit and no point stands before its exponent. -/
theorem starts_exponent {v r : Str} {e : Option Int} (h : Exponent digit v e r) (hend : Ends r) : startsDigit v = false ∧ v.head? ≠ some 46 := by
  cases h with
  | none =>
    cases v with
    | nil => exact ⟨rfl, nofun⟩
    | cons c v =>
      obtain ⟨hdigit, hpoint, -, -⟩ := hend c rfl
      exact ⟨by simp [startsDigit, hdigit], by simpa using hpoint⟩
  | @some c _ _ _ _ _ letter _ _ _ =>
    rcases letter with rfl | rfl
    · exact ⟨rfl, by simp⟩
    · exact ⟨rfl, by simp⟩

theorem starts_fraction {u v : Str} {f : Option (List Nat)} (h : Fraction digit u f v) (hend : startsDigit v = false) : startsDigit u = false := by
  cases h with
  | none => exact hend
  | some => rfl

theorem number_of_parseNumber {s r : Str} {v : Value} (h : parseNumber label s = .ok (v, r)) :
    ∃ l, Number digit s l r ∧ number l = some v := by
  simp only [parseNumber, bind_eq_ok] at h
  obtain ⟨⟨w, t⟩, hwhole, ⟨f, u⟩, hfraction, ⟨e, r'⟩, hexponent, h⟩ := h
  simp only at hfraction hexponent h
  split at h
  · next v' hv =>
    cases h
    exact ⟨_, ⟨sign_takeSign s, whole_of_parseWhole hwhole, fraction_of_parseFraction hfraction, exponent_of_parseExponent hexponent⟩, hv⟩
  · cases h

theorem parseNumber_eq {s r : Str} {l : Literal} {v : Value} (h : Number digit s l r) (hend : Ends r) (hv : number l = some v) :
    parseNumber label s = .ok (v, r) := by
  obtain ⟨hsign, hwhole, hfraction, hexponent⟩ := h
  obtain ⟨hdigit, hpoint⟩ := starts_exponent hexponent hend
  have hdigit' := starts_fraction hfraction hdigit
  rw [parseNumber, takeSign_eq hsign hwhole]
  simp only [parseWhole_eq hwhole hdigit', parseFraction_eq hfraction hdigit hpoint, parseExponent_eq hexponent hend, ok_bind, hv]

/-! ### Strings -/

theorem chars_of_parseChars {n : Nat} {s r : Str} {l : List Piece} (h : parseChars label n s = .ok (l, r)) : Chars s l r := by
  induction n generalizing s r l with
  | zero => cases h
  | succ n ih =>
    cases s with
    | nil => cases h
    | cons c s =>
      rw [parseChars] at h
      split_ifs at h with hquote hbackslash hcontrol
      · cases h
        rw [hquote]
        exact .close _
      · split at h
        · next p t hp =>
          simp only [bind_eq_ok, pure_eq_ok] at h
          obtain ⟨⟨l', r'⟩, hrest, ⟨⟩⟩ := h
          rw [hbackslash]
          exact .escape hp (ih hrest)
        · cases h
      · simp only [bind_eq_ok, pure_eq_ok] at h
        obtain ⟨⟨l', r'⟩, hrest, ⟨⟩⟩ := h
        exact .char (by omega) hquote hbackslash (ih hrest)

theorem parseChars_eq {s r : Str} {l : List Piece} (h : Chars s l r) : ∀ {n : Nat}, s.length < n → parseChars label n s = .ok (l, r) := by
  induction h with
  | close r =>
    intro n hn
    obtain ⟨n, rfl⟩ := Nat.exists_eq_succ_of_ne_zero (Nat.ne_zero_of_lt hn)
    rw [parseChars, if_pos rfl]
  | escape piece rest ih =>
    intro n hn
    obtain ⟨n, rfl⟩ := Nat.exists_eq_succ_of_ne_zero (Nat.ne_zero_of_lt hn)
    have hshort := Json.Grammar.length_scanEscape piece
    simp only [List.length_cons] at hn
    rw [parseChars, if_neg (by decide), if_pos rfl, piece]
    simp only [ih (show _ < n by omega), ok_bind]
    rfl
  | char printable quote backslash rest ih =>
    intro n hn
    obtain ⟨n, rfl⟩ := Nat.exists_eq_succ_of_ne_zero (Nat.ne_zero_of_lt hn)
    simp only [List.length_cons] at hn
    rw [parseChars, if_neg quote, if_neg backslash, if_neg (by omega)]
    simp only [ih (show _ < n by omega), ok_bind]
    rfl

theorem parseString_eq_ok {s t r : Str} : parseString label s = .ok (t, r) ↔ ∃ l, Chars s l r ∧ stringOf l = some t := by
  simp only [parseString, bind_eq_ok]
  constructor
  · rintro ⟨⟨l, r'⟩, hchars, h⟩
    split at h
    · next t' ht =>
      simp only [pure_eq_ok, Prod.mk.injEq] at h
      obtain ⟨rfl, rfl⟩ := h
      exact ⟨l, chars_of_parseChars hchars, ht⟩
    · cases h
  · rintro ⟨l, hchars, ht⟩
    refine ⟨(l, r), parseChars_eq hchars (Nat.lt_succ_self _), ?_⟩
    simp only [ht]
    rfl

end Parser

/-! ### Values -/

mutual
/-- What the parser gives for a document, none where it refuses a string, a number or a second member of one name. -/
def value? : Raw → Option Value
  | .null => some .null
  | .bool b => some (.bool b)
  | .number l => number l
  | .string l => (Parser.stringOf l).map .str
  | .arr l => (values? l).map .list
  | .obj f => (entries? [] f).map .map

def values? : List Raw → Option (List Value)
  | [] => some []
  | v :: l => (value? v).bind fun x => (values? l).map (x :: ·)

/-- The entries of the members of an object, given the names before them. -/
def entries? : List Str → List (List Piece × Raw) → Option (List (Str × Value))
  | _, [] => some []
  | seen, (k, v) :: f =>
    (Parser.stringOf k).bind fun s =>
      if s ∈ seen then none else (value? v).bind fun x => (entries? (s :: seen) f).map ((s, x) :: ·)
end

namespace Parser
variable {label : Str}

theorem take_eq_ok {rest s r : Str} {v w : Value} : take label rest v s = .ok (w, r) ↔ s = rest ++ r ∧ w = v := by
  unfold take
  split_ifs with h
  · obtain ⟨t, rfl⟩ := h
    simp only [List.drop_left, Except.ok.injEq, Prod.mk.injEq, List.append_cancel_left_eq]
    constructor
    · rintro ⟨rfl, rfl⟩
      exact ⟨rfl, rfl⟩
    · rintro ⟨rfl, rfl⟩
      exact ⟨rfl, rfl⟩
  · refine iff_of_false nofun ?_
    rintro ⟨rfl, -⟩
    exact h (List.prefix_append _ _)

theorem values?_cons {a : Raw} {l : List Raw} {x : Value} {k : List Value} (ha : value? a = some x) (hl : values? l = some k) :
    values? (a :: l) = some (x :: k) := by
  rw [values?, ha, Option.bind_some, hl]
  rfl

theorem entries?_cons {seen : List Str} {k : List Piece} {a : Raw} {f : List (List Piece × Raw)} {s : Str} {x : Value}
    {g : List (Str × Value)} (hk : stringOf k = some s) (hs : s ∉ seen) (ha : value? a = some x) (hf : entries? (s :: seen) f = some g) :
    entries? seen ((k, a) :: f) = some ((s, x) :: g) := by
  rw [entries?, hk, Option.bind_some, if_neg hs, ha, Option.bind_some, hf]
  rfl

/-- Whatever the parser gives, a document of the grammar stands there. -/
theorem parses_document (n : Nat) :
    (∀ {s r x}, parseValue label n s = .ok (x, r) → ∃ a, Json.Grammar.Value digit s a r ∧ value? a = some x) ∧
    (∀ {s r k}, parseItems label n s = .ok (k, r) → ∃ l, Items digit s l r ∧ values? l = some k) ∧
    (∀ {seen s r g}, parseFields label n seen s = .ok (g, r) → ∃ f, Fields digit s f r ∧ entries? seen f = some g) := by
  induction n with
  | zero => exact ⟨nofun, nofun, nofun⟩
  | succ n ih =>
    obtain ⟨ihvalue, ihitems, ihfields⟩ := ih
    refine ⟨?_, ?_, ?_⟩
    · intro s r x h
      cases s with
      | nil => cases h
      | cons c s =>
        rw [parseValue] at h
        split_ifs at h with hobj harr hstr htrue hfalse hnull hnumber
        · subst hobj
          split at h
          · next t ht =>
            cases h
            exact ⟨_, .emptyObj ht, rfl⟩
          · simp only [bind_eq_ok, pure_eq_ok] at h
            obtain ⟨⟨g, t⟩, hg, ⟨⟩⟩ := h
            obtain ⟨f, hf, hvalue⟩ := ihfields hg
            exact ⟨_, .obj hf, by rw [value?, hvalue]; rfl⟩
        · subst harr
          split at h
          · next t ht =>
            cases h
            exact ⟨_, .emptyArr ht, rfl⟩
          · simp only [bind_eq_ok, pure_eq_ok] at h
            obtain ⟨⟨k, t⟩, hk, ⟨⟩⟩ := h
            obtain ⟨l, hl, hvalue⟩ := ihitems hk
            exact ⟨_, .arr hl, by rw [value?, hvalue]; rfl⟩
        · subst hstr
          simp only [bind_eq_ok, pure_eq_ok] at h
          obtain ⟨⟨t, u⟩, ht, ⟨⟩⟩ := h
          obtain ⟨l, hl, hvalue⟩ := parseString_eq_ok.mp ht
          exact ⟨_, .string hl, by rw [value?, hvalue]; rfl⟩
        · obtain ⟨rfl, rfl⟩ := take_eq_ok.mp h
          subst htrue
          exact ⟨_, .true r, rfl⟩
        · obtain ⟨rfl, rfl⟩ := take_eq_ok.mp h
          subst hfalse
          exact ⟨_, .false r, rfl⟩
        · obtain ⟨rfl, rfl⟩ := take_eq_ok.mp h
          subst hnull
          exact ⟨_, .null r, rfl⟩
        · obtain ⟨l, hl, hvalue⟩ := number_of_parseNumber h
          exact ⟨_, .number hl, hvalue⟩
    · intro s r k h
      simp only [parseItems, bind_eq_ok] at h
      obtain ⟨⟨x, t⟩, hx, h⟩ := h
      obtain ⟨a, ha, hvalue⟩ := ihvalue hx
      simp only at h
      split at h
      · next r' hr =>
        cases h
        exact ⟨_, .last ha hr, values?_cons hvalue rfl⟩
      · next u hu =>
        simp only [bind_eq_ok, pure_eq_ok] at h
        obtain ⟨⟨k', r'⟩, hk, ⟨⟩⟩ := h
        obtain ⟨l, hl, hvalues⟩ := ihitems hk
        exact ⟨_, .cons ha hu hl, values?_cons hvalue hvalues⟩
      · cases h
    · intro seen s r g h
      cases s with
      | nil => cases h
      | cons c s =>
        rw [parseFields] at h
        split_ifs at h with hc
        subst hc
        simp only [bind_eq_ok] at h
        obtain ⟨⟨key, t⟩, hkey, h⟩ := h
        obtain ⟨k, hk, hstring⟩ := parseString_eq_ok.mp hkey
        simp only at h
        split_ifs at h with hseen
        split at h
        · next u hu =>
          simp only [bind_eq_ok] at h
          obtain ⟨⟨x, w⟩, hx, h⟩ := h
          obtain ⟨a, ha, hvalue⟩ := ihvalue hx
          simp only at h
          split at h
          · next r' hr =>
            cases h
            exact ⟨_, .last hk hu ha hr, entries?_cons hstring hseen hvalue rfl⟩
          · next y hy =>
            simp only [bind_eq_ok, pure_eq_ok] at h
            obtain ⟨⟨g', r'⟩, hg, ⟨⟩⟩ := h
            obtain ⟨f, hf, hentries⟩ := ihfields hg
            exact ⟨_, .cons hk hu ha hy hf, entries?_cons hstring hseen hvalue hentries⟩
          · cases h
        · cases h

/-! ### Every document of the grammar is read -/

theorem ends_of_skipSpace {t r : Str} {c : Nat} (h : Json.skipSpace t = c :: r) (hc : c = 44 ∨ c = 93 ∨ c = 125) : Ends t := by
  cases t with
  | nil => nofun
  | cons d t =>
    rintro _ ⟨⟩
    by_cases hspace : Json.isSpace d = true
    · simp only [Json.isSpace, Bool.or_eq_true, beq_iff_eq] at hspace
      rcases hspace with ((rfl | rfl) | rfl) | rfl <;> exact ⟨rfl, by decide, by decide, by decide⟩
    · rw [Json.skipSpace_cons t (by simpa using hspace)] at h
      cases h
      rcases hc with rfl | rfl | rfl <;> exact ⟨rfl, by decide, by decide, by decide⟩

theorem ends_of_skipSpace_nil {t : Str} (h : Json.skipSpace t = []) : Ends t := by
  cases t with
  | nil => nofun
  | cons d t =>
    rintro _ ⟨⟩
    by_cases hspace : Json.isSpace d = true
    · simp only [Json.isSpace, Bool.or_eq_true, beq_iff_eq] at hspace
      rcases hspace with ((rfl | rfl) | rfl) | rfl <;> exact ⟨rfl, by decide, by decide, by decide⟩
    · rw [Json.skipSpace_cons t (by simpa using hspace)] at h
      cases h

theorem head_number {s r : Str} {l : Literal} (h : Number digit s l r) : ∃ c t, s = c :: t ∧ (c = 45 ∨ 48 ≤ c ∧ c ≤ 57) := by
  obtain ⟨hsign, hwhole, -, -⟩ := h
  cases hsign with
  | minus => exact ⟨_, _, rfl, .inl rfl⟩
  | none =>
    cases hwhole with
    | zero => exact ⟨_, _, rfl, .inr (by decide)⟩
    | digits first _ => exact ⟨_, _, rfl, .inr (by omega)⟩

theorem head_value {s r : Str} {a : Raw} (h : Json.Grammar.Value digit s a r) : s.head? ≠ some 93 := by
  cases h with
  | number literal =>
    obtain ⟨c, t, rfl, hc⟩ := head_number literal
    rintro ⟨⟩
    omega
  | _ => nofun

theorem head_items {s r : Str} {l : List Raw} (h : Items digit s l r) : s.head? ≠ some 93 := by
  cases h with
  | last value _ => exact head_value value
  | cons value _ _ => exact head_value value

theorem head_fields {s r : Str} {f : List (List Piece × Raw)} (h : Fields digit s f r) : s.head? ≠ some 125 := by
  cases h <;> nofun

theorem parseValue_number {n : Nat} {s r : Str} {l : Literal} (h : Number digit s l r) : parseValue label (n + 1) s = parseNumber label s := by
  obtain ⟨c, t, rfl, hc⟩ := head_number h
  have hdigit : c = 45 ∨ (digit c).isSome := by
    refine hc.imp_right fun hc => ?_
    rw [extends_digit c (c - 48) (if_pos hc)]
    rfl
  rw [parseValue, if_neg (by omega), if_neg (by omega), if_neg (by omega), if_neg (by omega), if_neg (by omega), if_neg (by omega),
    if_pos hdigit]

theorem parseValue_arr {n : Nat} {s : Str} (h : (Json.skipSpace s).head? ≠ some 93) :
    parseValue label (n + 1) (91 :: s) = (do
      let (l, t) ← parseItems label n (Json.skipSpace s)
      return (.list l, t)) := by
  rw [parseValue, if_neg (by decide), if_pos rfl]
  split
  · next t ht => exact absurd (by rw [ht]; rfl) h
  · rfl

theorem parseValue_obj {n : Nat} {s : Str} (h : (Json.skipSpace s).head? ≠ some 125) :
    parseValue label (n + 1) (123 :: s) = (do
      let (f, t) ← parseFields label n [] (Json.skipSpace s)
      return (.map f, t)) := by
  rw [parseValue, if_pos rfl]
  split
  · next t ht => exact absurd (by rw [ht]; rfl) h
  · rfl

mutual
theorem parseValue_eq : ∀ {s : Str} {a : Raw} {r : Str}, Json.Grammar.Value digit s a r → Ends r → ∀ {x : Value} {n : Nat},
    value? a = some x → 2 * s.length ≤ n + 2 * r.length → parseValue label n s = .ok (x, r)
  | _, _, r, .null _, _, x, n, hx, hn => by
    simp only [List.length_cons] at hn
    obtain ⟨n, rfl⟩ : ∃ m, n = m + 1 := Nat.exists_eq_succ_of_ne_zero (by omega)
    cases hx
    rw [parseValue, if_neg (by decide), if_neg (by decide), if_neg (by decide), if_neg (by decide), if_neg (by decide), if_pos rfl]
    exact take_eq_ok.mpr ⟨rfl, rfl⟩
  | _, _, r, .true _, _, x, n, hx, hn => by
    simp only [List.length_cons] at hn
    obtain ⟨n, rfl⟩ : ∃ m, n = m + 1 := Nat.exists_eq_succ_of_ne_zero (by omega)
    cases hx
    rw [parseValue, if_neg (by decide), if_neg (by decide), if_neg (by decide), if_pos rfl]
    exact take_eq_ok.mpr ⟨rfl, rfl⟩
  | _, _, r, .false _, _, x, n, hx, hn => by
    simp only [List.length_cons] at hn
    obtain ⟨n, rfl⟩ : ∃ m, n = m + 1 := Nat.exists_eq_succ_of_ne_zero (by omega)
    cases hx
    rw [parseValue, if_neg (by decide), if_neg (by decide), if_neg (by decide), if_neg (by decide), if_pos rfl]
    exact take_eq_ok.mpr ⟨rfl, rfl⟩
  | _, _, r, .number literal, hend, x, n, hx, hn => by
    have hlength := literal.length
    obtain ⟨n, rfl⟩ : ∃ m, n = m + 1 := Nat.exists_eq_succ_of_ne_zero (by omega)
    rw [parseValue_number literal, parseNumber_eq literal hend hx]
  | _, _, r, .string chars, _, x, n, hx, hn => by
    have hlength := chars.length
    simp only [List.length_cons] at hn
    obtain ⟨n, rfl⟩ : ∃ m, n = m + 1 := Nat.exists_eq_succ_of_ne_zero (by omega)
    obtain ⟨t, ht, rfl⟩ := Option.map_eq_some_iff.mp hx
    have hstring : parseString label _ = .ok (t, r) := parseString_eq_ok.mpr ⟨_, chars, ht⟩
    rw [parseValue, if_neg (by decide), if_neg (by decide), if_pos rfl, hstring]
    rfl
  | _, _, r, .emptyArr close, _, x, n, hx, hn => by
    have hlength := Json.Grammar.length_of_skipSpace close
    simp only [List.length_cons] at hn
    obtain ⟨n, rfl⟩ : ∃ m, n = m + 1 := Nat.exists_eq_succ_of_ne_zero (by omega)
    cases hx
    rw [parseValue, if_neg (by decide), if_pos rfl, close]
    rfl
  | _, _, r, .arr (s := s) items, _, x, n, hx, hn => by
    have hlength := items.length
    have hskip := Json.Grammar.length_skipSpace_le s
    simp only [List.length_cons] at hn
    obtain ⟨n, rfl⟩ : ∃ m, n = m + 1 := Nat.exists_eq_succ_of_ne_zero (by omega)
    obtain ⟨k, hk, rfl⟩ := Option.map_eq_some_iff.mp hx
    have hitems := parseItems_eq items hk (show 2 * (Json.skipSpace s).length + 1 ≤ n + 2 * r.length by omega)
    rw [parseValue_arr (head_items items), hitems]
    rfl
  | _, _, r, .emptyObj close, _, x, n, hx, hn => by
    have hlength := Json.Grammar.length_of_skipSpace close
    simp only [List.length_cons] at hn
    obtain ⟨n, rfl⟩ : ∃ m, n = m + 1 := Nat.exists_eq_succ_of_ne_zero (by omega)
    cases hx
    rw [parseValue, if_pos rfl, close]
    rfl
  | _, _, r, .obj (s := s) fields, _, x, n, hx, hn => by
    have hlength := fields.length
    have hskip := Json.Grammar.length_skipSpace_le s
    simp only [List.length_cons] at hn
    obtain ⟨n, rfl⟩ : ∃ m, n = m + 1 := Nat.exists_eq_succ_of_ne_zero (by omega)
    obtain ⟨g, hg, rfl⟩ := Option.map_eq_some_iff.mp hx
    have hfields := parseFields_eq fields hg (show 2 * (Json.skipSpace s).length + 1 ≤ n + 2 * r.length by omega)
    rw [parseValue_obj (head_fields fields), hfields]
    rfl

theorem parseItems_eq : ∀ {s : Str} {l : List Raw} {r : Str}, Items digit s l r → ∀ {k : List Value} {n : Nat},
    values? l = some k → 2 * s.length + 1 ≤ n + 2 * r.length → parseItems label n s = .ok (k, r)
  | _, _, r, .last value close, k, n, hk, hn => by
    have hlength := value.length
    have hclose := Json.Grammar.length_of_skipSpace close
    obtain ⟨n, rfl⟩ : ∃ m, n = m + 1 := Nat.exists_eq_succ_of_ne_zero (by omega)
    obtain ⟨x, hx, hk⟩ := Option.bind_eq_some_iff.mp hk
    obtain ⟨-, ⟨⟩, rfl⟩ := Option.map_eq_some_iff.mp hk
    have hvalue := parseValue_eq value (ends_of_skipSpace close (by decide)) hx (n := n) (by omega)
    simp only [parseItems, hvalue, ok_bind, close]
    rfl
  | _, _, r, .cons (u := u) value comma rest, k, n, hk, hn => by
    have hlength := value.length
    have hcomma := Json.Grammar.length_of_skipSpace comma
    have hskip := Json.Grammar.length_skipSpace_le u
    have hrest := rest.length
    obtain ⟨n, rfl⟩ : ∃ m, n = m + 1 := Nat.exists_eq_succ_of_ne_zero (by omega)
    obtain ⟨x, hx, hrestValues⟩ := Option.bind_eq_some_iff.mp hk
    obtain ⟨k', hk', rfl⟩ := Option.map_eq_some_iff.mp hrestValues
    have hvalue := parseValue_eq value (ends_of_skipSpace comma (by decide)) hx (n := n) (by omega)
    have hitems := parseItems_eq rest hk' (n := n) (by omega)
    simp only [parseItems, hvalue, ok_bind, comma, hitems]
    rfl

theorem parseFields_eq : ∀ {s : Str} {f : List (List Piece × Raw)} {r : Str}, Fields digit s f r → ∀ {seen : List Str}
    {g : List (Str × Value)} {n : Nat}, entries? seen f = some g → 2 * s.length + 1 ≤ n + 2 * r.length →
      parseFields label n seen s = .ok (g, r)
  | _, _, r, .last (u := u) key colon value close, seen, g, n, hg, hn => by
    have hkey := key.length
    have hcolon := Json.Grammar.length_of_skipSpace colon
    have hskip := Json.Grammar.length_skipSpace_le u
    have hlength := value.length
    have hclose := Json.Grammar.length_of_skipSpace close
    simp only [List.length_cons] at hn
    obtain ⟨n, rfl⟩ : ∃ m, n = m + 1 := Nat.exists_eq_succ_of_ne_zero (by omega)
    obtain ⟨k, hk, hrest⟩ := Option.bind_eq_some_iff.mp hg
    split_ifs at hrest with hseen
    obtain ⟨x, hx, hrest⟩ := Option.bind_eq_some_iff.mp hrest
    obtain ⟨-, ⟨⟩, rfl⟩ := Option.map_eq_some_iff.mp hrest
    have hstring : parseString label _ = .ok (k, _) := parseString_eq_ok.mpr ⟨_, key, hk⟩
    have hvalue := parseValue_eq value (ends_of_skipSpace close (by decide)) hx (n := n) (by omega)
    rw [parseFields, if_pos rfl, hstring]
    simp only [ok_bind, if_neg hseen, colon, hvalue, close]
    rfl
  | _, _, r, .cons (u := u) (x := y) key colon value comma rest, seen, g, n, hg, hn => by
    have hkey := key.length
    have hcolon := Json.Grammar.length_of_skipSpace colon
    have hskip := Json.Grammar.length_skipSpace_le u
    have hlength := value.length
    have hcomma := Json.Grammar.length_of_skipSpace comma
    have hskip' := Json.Grammar.length_skipSpace_le y
    have hrestLength := rest.length
    simp only [List.length_cons] at hn
    obtain ⟨n, rfl⟩ : ∃ m, n = m + 1 := Nat.exists_eq_succ_of_ne_zero (by omega)
    obtain ⟨k, hk, hrest⟩ := Option.bind_eq_some_iff.mp hg
    split_ifs at hrest with hseen
    obtain ⟨x, hx, hrest⟩ := Option.bind_eq_some_iff.mp hrest
    obtain ⟨g', hg', rfl⟩ := Option.map_eq_some_iff.mp hrest
    have hstring : parseString label _ = .ok (k, _) := parseString_eq_ok.mpr ⟨_, key, hk⟩
    have hvalue := parseValue_eq value (ends_of_skipSpace comma (by decide)) hx (n := n) (by omega)
    have hfields := parseFields_eq rest hg' (n := n) (by omega)
    rw [parseFields, if_pos rfl, hstring]
    simp only [ok_bind, if_neg hseen, colon, hvalue, comma, hfields]
    rfl
end

/-- The parser gives a value exactly if the text is a document of the grammar, and then what the document reads as. -/
theorem parse_eq_ok {s : Str} {x : Value} : parse label s = .ok x ↔ ∃ a, Document digit s a ∧ value? a = some x := by
  simp only [parse, bind_eq_ok]
  constructor
  · rintro ⟨⟨x', r⟩, hx, h⟩
    simp only at h
    split_ifs at h with hend
    cases h
    obtain ⟨a, ha, hvalue⟩ := (parses_document _).1 hx
    exact ⟨a, ⟨r, ha, hend⟩, hvalue⟩
  · rintro ⟨a, ⟨r, ha, hend⟩, hvalue⟩
    have hskip := Json.Grammar.length_skipSpace_le s
    refine ⟨(x, r), parseValue_eq ha (ends_of_skipSpace_nil hend) hvalue (by omega), ?_⟩
    simp only [hend, if_true]
    rfl

end Parser
end LeanCtx.Java
