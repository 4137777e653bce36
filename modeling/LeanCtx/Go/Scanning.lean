import LeanCtx.Go.Decoder
import LeanCtx.Go.Number

/-! The values that the decoder of Go takes in one piece. It reads a number, a string and a name as the grammar of JSON has them, and
    nothing else, and it keeps the text of a number. -/

namespace LeanCtx.Go
open Json (Piece Raw dropPrefix?)
open Json.Grammar (ascii Digits Sign Whole Fraction ExponentSign Exponent Number Chars)
open PyFloat (Literal)

/-- A text does not go on with anything that could belong to a number before it. -/
def Ends (r : Str) : Prop := ∀ c ∈ r.head?, isDigit c = false ∧ c ≠ 46 ∧ c ≠ 101 ∧ c ≠ 69

/-- No digit comes first. -/
def NoDigit (r : Str) : Prop := ∀ c ∈ r.head?, isDigit c = false

namespace Scanner

/-! ### What is scanned is a number -/

theorem digits_of_all {t : Str} (h : t.all isDigit = true) (r : Str) : Digits ascii (t ++ r) (t.map (· - 48)) r := by
  induction t with
  | nil => exact .nil r
  | cons c t ih =>
    rw [List.all_cons, Bool.and_eq_true] at h
    refine .cons ?_ (ih h.2)
    have hc := h.1
    simp only [isDigit, Bool.and_eq_true, decide_eq_true_eq] at hc
    exact if_pos hc

theorem digits_sound {s t r : Str} (h : digits s = some (t, r)) : s = t ++ r ∧ t ≠ [] ∧ Digits ascii s (t.map (· - 48)) r := by
  unfold digits at h
  split_ifs at h with hnil
  cases h
  have hsplit := (List.takeWhile_append_dropWhile (p := isDigit) (l := s)).symm
  refine ⟨hsplit, hnil, ?_⟩
  have hdigits := digits_of_all (List.all_takeWhile (l := s)) (s.dropWhile isDigit)
  rwa [← hsplit] at hdigits

theorem sign_sound (s : Str) : s = (sign s).1 ++ (sign s).2 ∧ ∃ neg, Sign s neg (sign s).2 := by
  unfold sign
  split
  · exact ⟨rfl, _, .minus _⟩
  · exact ⟨rfl, _, .none _⟩

theorem integer_sound {s t r : Str} (h : integer s = some (t, r)) : s = t ++ r ∧ ∃ l, Whole ascii s l r := by
  cases s with
  | nil => cases h
  | cons c s =>
    rw [integer] at h
    split_ifs at h with hzero hdigit
    · cases h
      rw [hzero]
      exact ⟨rfl, _, .zero _⟩
    · cases h
      have hsplit := (List.takeWhile_append_dropWhile (p := isDigit) (l := s)).symm
      have hdigits := digits_of_all (List.all_takeWhile (l := s)) (s.dropWhile isDigit)
      rw [← hsplit] at hdigits
      simp only [isDigit, Bool.and_eq_true, decide_eq_true_eq] at hdigit
      exact ⟨congrArg (c :: ·) hsplit, _, .digits (by omega) hdigits⟩

theorem fraction_sound {s t r : Str} (h : fraction s = some (t, r)) : s = t ++ r ∧ ∃ f, Fraction ascii s f r := by
  unfold fraction at h
  split at h
  · obtain ⟨⟨d, u⟩, hd, heq⟩ := Option.map_eq_some_iff.mp h
    cases heq
    obtain ⟨hsplit, hne, hdigits⟩ := digits_sound hd
    exact ⟨congrArg (46 :: ·) hsplit, _, .some hdigits (by simpa using hne)⟩
  · cases h
    exact ⟨rfl, _, .none _⟩

theorem exponentSign_sound (s : Str) : s = (exponentSign s).1 ++ (exponentSign s).2 ∧ ∃ k, ExponentSign s k (exponentSign s).2 := by
  unfold exponentSign
  split
  · exact ⟨rfl, _, .plus _⟩
  · exact ⟨rfl, _, .minus _⟩
  · exact ⟨rfl, _, .none _⟩

theorem exponent_sound {s t r : Str} (h : exponent s = some (t, r)) : s = t ++ r ∧ ∃ e, Exponent ascii s e r := by
  cases s with
  | nil =>
    cases h
    exact ⟨rfl, _, .none _⟩
  | cons c s =>
    rw [exponent] at h
    split_ifs at h with hletter
    · obtain ⟨⟨d, u⟩, hd, heq⟩ := Option.map_eq_some_iff.mp h
      cases heq
      obtain ⟨hsplit, hne, hdigits⟩ := digits_sound hd
      obtain ⟨hsign, k, hk⟩ := exponentSign_sound s
      refine ⟨?_, _, .some hletter hk hdigits (by simpa using hne)⟩
      change c :: s = c :: (((exponentSign s).1 ++ d) ++ r)
      rw [List.append_assoc, ← hsplit, ← hsign]
    · cases h
      exact ⟨rfl, _, .none _⟩

theorem number_sound {s t r : Str} (h : number s = some (t, r)) : s = t ++ r ∧ ∃ l, Number ascii s l r := by
  simp only [number, Option.bind_eq_bind, Option.bind_eq_some_iff, Option.pure_def, Option.some.injEq, Prod.mk.injEq] at h
  obtain ⟨⟨w, u⟩, hw, ⟨f, v⟩, hf, ⟨e, x⟩, he, rfl, rfl⟩ := h
  obtain ⟨hsplit, neg, hsign⟩ := sign_sound s
  obtain ⟨hsplitw, whole, hwhole⟩ := integer_sound hw
  obtain ⟨hsplitf, fraction, hfraction⟩ := fraction_sound hf
  obtain ⟨hsplite, exponent, hexponent⟩ := exponent_sound he
  refine ⟨?_, _, .intro hsign hwhole hfraction hexponent⟩
  simp only at hsplitf hsplite
  rw [List.append_assoc, List.append_assoc, List.append_assoc, ← hsplite, ← hsplitf, ← hsplitw, ← hsplit]

/-! ### A number is scanned -/

theorem takeWhile_digits {t r : Str} (h : t.all isDigit = true) (hend : NoDigit r) :
    (t ++ r).takeWhile isDigit = t ∧ (t ++ r).dropWhile isDigit = r := by
  have hr : r.takeWhile isDigit = [] ∧ r.dropWhile isDigit = r := by
    cases r with
    | nil => exact ⟨rfl, rfl⟩
    | cons c r => simp [hend c rfl]
  have hall := List.all_eq_true.mp h
  rw [List.takeWhile_append_of_pos hall, List.dropWhile_append_of_pos hall, hr.1, hr.2, List.append_nil]
  exact ⟨rfl, rfl⟩

theorem digits_complete {s r : Str} {l : List Nat} (h : Digits ascii s l r) (hne : l ≠ []) (hend : NoDigit r) :
    ∃ t, digits s = some (t, r) := by
  obtain ⟨t, rfl, ht, rfl⟩ := digits_text h
  obtain ⟨htake, hdrop⟩ := takeWhile_digits ht hend
  refine ⟨t, ?_⟩
  rw [digits, htake, hdrop, if_neg fun hnil => hne (by rw [hnil]; rfl)]

/-- A number that goes on with an exponent, or not at all, has no digit and no point there. -/
theorem noDigit_exponent {v r : Str} {e : Option Int} (h : Exponent ascii v e r) (hend : Ends r) : NoDigit v ∧ v.head? ≠ some 46 := by
  cases h with
  | none => exact ⟨fun c hc => (hend c hc).1, fun hpoint => (hend 46 hpoint).2.1 rfl⟩
  | some letter =>
    rcases letter with rfl | rfl
    · exact ⟨by rintro c ⟨⟩; rfl, nofun⟩
    · exact ⟨by rintro c ⟨⟩; rfl, nofun⟩

theorem noDigit_fraction {u v : Str} {f : Option (List Nat)} (h : Fraction ascii u f v) (hend : NoDigit v) : NoDigit u := by
  cases h with
  | none => exact hend
  | some => rintro c ⟨⟩; rfl

theorem sign_complete {s t u : Str} {neg : Bool} {w : List Nat} (h : Sign s neg t) (hwhole : Whole ascii t w u) : (sign s).2 = t := by
  cases h with
  | minus => rfl
  | none =>
    cases hwhole with
    | zero => rfl
    | @digits c _ _ _ first =>
      have hminus : c ≠ 45 := by omega
      simp [sign, hminus]

theorem integer_complete {s r : Str} {l : List Nat} (h : Whole ascii s l r) (hend : NoDigit r) : ∃ t, integer s = some (t, r) := by
  cases h with
  | zero => exact ⟨[48], rfl⟩
  | @digits c s r l first rest =>
    obtain ⟨t, rfl, ht, rfl⟩ := digits_text rest
    obtain ⟨htake, hdrop⟩ := takeWhile_digits ht hend
    have hdigit : isDigit c = true := by
      simp only [isDigit, Bool.and_eq_true, decide_eq_true_eq]
      omega
    exact ⟨c :: t, by rw [integer, if_neg (by omega), if_pos hdigit, htake, hdrop]⟩

theorem fraction_complete {s r : Str} {f : Option (List Nat)} (h : Fraction ascii s f r) (hend : NoDigit r) (hpoint : r.head? ≠ some 46) :
    ∃ t, fraction s = some (t, r) := by
  cases h with
  | none =>
    unfold fraction
    split
    · exact absurd rfl hpoint
    · exact ⟨[], rfl⟩
  | some digits nonempty =>
    obtain ⟨t, ht⟩ := digits_complete digits nonempty hend
    exact ⟨46 :: t, by rw [fraction, ht]; rfl⟩

theorem exponentSign_complete {s t r : Str} {k : Int} {l : List Nat} (h : ExponentSign s k t) (hdigits : Digits ascii t l r) (hne : l ≠ []) :
    (exponentSign s).2 = t := by
  cases h with
  | plus => rfl
  | minus => rfl
  | none =>
    cases hdigits with
    | nil => exact absurd rfl hne
    | @cons c _ _ _ _ digit =>
      have hplus : c ≠ 43 := by
        rintro rfl
        simp [ascii] at digit
      have hminus : c ≠ 45 := by
        rintro rfl
        simp [ascii] at digit
      simp [exponentSign, hplus, hminus]

theorem exponent_complete {s r : Str} {e : Option Int} (h : Exponent ascii s e r) (hend : Ends r) : ∃ t, exponent s = some (t, r) := by
  cases h with
  | none =>
    cases s with
    | nil => exact ⟨[], rfl⟩
    | cons c s =>
      obtain ⟨-, -, hlower, hupper⟩ := hend c rfl
      exact ⟨[], by rw [exponent, if_neg (not_or.mpr ⟨hlower, hupper⟩)]⟩
  | @some c s _ _ k l letter sign digits nonempty =>
    obtain ⟨t, ht⟩ := digits_complete digits nonempty fun c hc => (hend c hc).1
    rw [← exponentSign_complete sign digits nonempty] at ht
    exact ⟨_, by rw [exponent, if_pos letter, ht]; rfl⟩

theorem number_complete {s r : Str} {l : Literal} (h : Number ascii s l r) (hend : Ends r) : ∃ t, number s = some (t, r) := by
  obtain ⟨sign, whole, fraction, exponent⟩ := h
  obtain ⟨hdigit, hpoint⟩ := noDigit_exponent exponent hend
  obtain ⟨w, hw⟩ := integer_complete whole (noDigit_fraction fraction hdigit)
  obtain ⟨f, hf⟩ := fraction_complete fraction hdigit hpoint
  obtain ⟨e, he⟩ := exponent_complete exponent hend
  rw [← sign_complete sign whole] at hw
  refine ⟨(Scanner.sign s).1 ++ w ++ f ++ e, ?_⟩
  simp only [number, hw, hf, he, Option.bind_eq_bind, Option.bind_some, Option.pure_def]

end Scanner

/-! ### Strings -/

theorem chars_of_scanString {n : Nat} {s r : Str} {l : List Piece} (h : Raw.scanString n s = some (l, r)) : Chars s l r := by
  induction n generalizing s r l with
  | zero => cases h
  | succ n ih =>
    cases s with
    | nil => cases h
    | cons c s =>
      rw [Raw.scanString] at h
      split_ifs at h with hquote hbackslash hcontrol
      · cases h
        rw [hquote]
        exact .close _
      · obtain ⟨⟨p, t⟩, hescape, h⟩ := Option.bind_eq_some_iff.mp h
        obtain ⟨⟨m, u⟩, hm, heq⟩ := Option.map_eq_some_iff.mp h
        cases heq
        rw [hbackslash]
        exact .escape hescape (ih hm)
      · obtain ⟨⟨m, u⟩, hm, heq⟩ := Option.map_eq_some_iff.mp h
        cases heq
        exact .char (not_lt.mp hcontrol) hquote hbackslash (ih hm)

theorem scanString_of_chars {n : Nat} {s r : Str} {l : List Piece} (h : Chars s l r) (hn : s.length < n) :
    Raw.scanString n s = some (l, r) := by
  induction h generalizing n with
  | close r =>
    obtain ⟨n, rfl⟩ := Nat.exists_eq_add_of_lt hn
    rfl
  | @escape s t r p l piece rest ih =>
    cases n with
    | zero => cases hn
    | succ n =>
      have hlength := Json.Grammar.length_scanEscape piece
      rw [List.length_cons] at hn
      rw [Raw.scanString, if_neg (by decide), if_pos rfl, piece, Option.bind_some]
      change (Raw.scanString n t).map _ = _
      rw [ih (by omega)]
      rfl
  | @char c s r l printable quote backslash rest ih =>
    cases n with
    | zero => cases hn
    | succ n =>
      rw [List.length_cons] at hn
      rw [Raw.scanString, if_neg quote, if_neg backslash, if_neg (not_lt.mpr printable), ih (by omega)]
      rfl

theorem dropPrefix?_eq_some {p s r : Str} : dropPrefix? p s = some r ↔ s = p ++ r := by
  unfold dropPrefix?
  constructor
  · intro h
    split_ifs at h with hp
    obtain ⟨t, rfl⟩ := hp
    rw [List.drop_left] at h
    rw [Option.some.inj h]
  · rintro rfl
    rw [if_pos (List.prefix_append p r), List.drop_left]

end LeanCtx.Go
