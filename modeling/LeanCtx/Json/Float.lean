import LeanCtx.Json.RoundTrip
import LeanCtx.Python.Rounding

/-! Every finite float has a text. Seventeen significant digits of a float differ from it by too little to
    round elsewhere (`candidate_near`), and the text they are laid out as spells them (`scanLiteral_layout`). -/

namespace LeanCtx.Json
open PyFloat

/-! ### The digits of a text -/

theorem spanDigits_digits {ds : List Nat} (h : ∀ d ∈ ds, d < 10) {r : Str} (hr : ∀ c ∈ r.head?, isDigit c = false) :
    spanDigits (digitsText ds ++ r) = (ds, r) := by
  induction ds with
  | nil =>
    cases r with
    | nil => rfl
    | cons c r => simp [digitsText, spanDigits, hr c rfl]
  | cons d ds ih =>
    have hd : d < 10 := h d (by simp)
    have hdigit : isDigit (48 + d) = true := by simp [isDigit]; omega
    have ih := ih fun x hx => h x (by simp [hx])
    simp only [digitsText, List.map_cons, List.cons_append] at ih ⊢
    simp [spanDigits, hdigit, ih]

theorem ofDigits_cons (d : Nat) (b : List Nat) : ofDigits (d :: b) = d * 10 ^ b.length + ofDigits b := by
  induction b using List.reverseRecOn with
  | nil => simp [ofDigits]
  | append_singleton b x ih =>
    rw [← List.cons_append, ofDigits_append, ofDigits_append, ih, List.length_append, List.length_singleton, pow_succ]
    ring

theorem ofDigits_append_list (a b : List Nat) : ofDigits (a ++ b) = ofDigits a * 10 ^ b.length + ofDigits b := by
  induction a with
  | nil => simp [ofDigits]
  | cons d a ih =>
    rw [List.cons_append, ofDigits_cons, ih, ofDigits_cons, List.length_append, pow_add]
    ring

theorem ofDigits_zeros (n : Nat) (b : List Nat) : ofDigits (List.replicate n 0 ++ b) = ofDigits b := by
  induction n with
  | zero => rfl
  | succ n ih => rw [List.replicate_succ, List.cons_append, ofDigits_cons, ih, Nat.zero_mul, Nat.zero_add]

theorem digitsText_append (a b : List Nat) : digitsText (a ++ b) = digitsText a ++ digitsText b := List.map_append

theorem digitsText_zeros (n : Nat) : digitsText (List.replicate n 0) = List.replicate n 48 := by simp [digitsText]

theorem decimal_ne_nil (n : Nat) : decimal n ≠ [] := by
  rcases decimal_head n with ⟨d, l, h, -⟩ | h <;> simp [h]

theorem length_decimal (n : Nat) : (decimal n).length = (natText n).length := by
  rw [natText_eq, digitsText, List.length_map]

theorem length_natText {n : Nat} (h : n ≠ 0) : (natText n).length = (Nat.digits 10 n).length := by
  simp [natText, h, digitsText]

theorem length_natText_le_of_lt {n k : Nat} (hk : k ≠ 0) (h : n < 10 ^ k) : (natText n).length ≤ k := by
  rcases Nat.eq_zero_or_pos n with rfl | hn
  · simp [natText]
    omega
  · rw [length_natText hn.ne']
    exact (Nat.digits_length_le_iff (by decide) n).mpr h

theorem natText_bounds {n : Nat} (h : n ≠ 0) : 10 ^ ((natText n).length - 1) ≤ n ∧ n < 10 ^ (natText n).length := by
  rw [length_natText h]
  refine ⟨?_, Nat.lt_base_pow_length_digits (by decide)⟩
  have hpos : 0 < (Nat.digits 10 n).length := List.length_pos_of_ne_nil (Nat.digits_ne_nil_iff_ne_zero.mpr h)
  have := Nat.base_pow_length_digits_le' 8 n h
  rw [show (Nat.digits 10 n).length = (Nat.digits 10 n).length - 1 + 1 by omega, pow_succ] at this
  have h10 : (8 + 2) = 10 := rfl
  simp only [h10] at this
  omega

/-! ### A laid out number -/

/-- A number as it is written: its digits, the fraction after a point, and the exponent after its letter. -/
def spell (whole : List Nat) (fraction : Option (List Nat)) (exponent : Option (Bool × List Nat)) : Str :=
  digitsText whole ++ (fraction.elim [] fun f => 46 :: digitsText f) ++
    exponent.elim [] fun e => 101 :: (if e.1 then 45 else 43) :: digitsText e.2

/-- The exponent that a sign and digits spell. -/
def exponentOf (e : Bool × List Nat) : ℤ := (if e.1 then -1 else 1) * ofDigits e.2

theorem scanWhole_spell {whole : List Nat} (hlt : ∀ d ∈ whole, d < 10)
    (hw : whole = [0] ∨ ∃ d l, whole = d :: l ∧ d ≠ 0) {r : Str} (hr : ∀ c ∈ r.head?, isDigit c = false) :
    scanWhole (digitsText whole ++ r) = some (whole, r) := by
  rcases hw with rfl | ⟨d, l, rfl, hd⟩
  · simp [digitsText, scanWhole]
  · have hspan := spanDigits_digits hlt hr
    have hd10 : d < 10 := hlt d (by simp)
    have hdigit : isDigit (48 + d) = true := by simp [isDigit]; omega
    simp only [digitsText, List.map_cons, List.cons_append] at hspan ⊢
    rw [scanWhole, if_neg (by omega), if_pos hdigit, hspan]

theorem scanFraction_spell {f : List Nat} (hlt : ∀ d ∈ f, d < 10) (hf : f ≠ []) {r : Str}
    (hr : ∀ c ∈ r.head?, isDigit c = false) : scanFraction (46 :: (digitsText f ++ r)) = (some f, r) := by
  rw [scanFraction, spanDigits_digits hlt hr, if_pos ⟨rfl, hf⟩]

theorem scanExponent_spell {neg : Bool} {e : List Nat} (hlt : ∀ d ∈ e, d < 10) (he : e ≠ []) :
    scanExponent (101 :: (if neg then 45 else 43) :: digitsText e) = (some (exponentOf (neg, e)), []) := by
  have hspan := spanDigits_digits hlt (r := []) (by simp)
  rw [List.append_nil] at hspan
  cases neg <;> simp [scanExponent, scanExponentSign, hspan, he, exponentOf]

theorem scanLiteral_spell (neg : Bool) {whole : List Nat} {fraction : Option (List Nat)}
    {exponent : Option (Bool × List Nat)} (hw : whole = [0] ∨ ∃ d l, whole = d :: l ∧ d ≠ 0)
    (hwhole : ∀ d ∈ whole, d < 10) (hfrac : ∀ f ∈ fraction, f ≠ [] ∧ ∀ d ∈ f, d < 10)
    (hexp : ∀ e ∈ exponent, e.2 ≠ [] ∧ ∀ d ∈ e.2, d < 10) :
    scanLiteral (if neg then 45 :: spell whole fraction exponent else spell whole fraction exponent) =
      some (⟨neg, whole, fraction, exponent.map exponentOf⟩, []) := by
  have hexponent : scanExponent (exponent.elim [] fun e => 101 :: (if e.1 then 45 else 43) :: digitsText e.2) =
      (exponent.map exponentOf, []) := by
    cases exponent with
    | none => rfl
    | some e => exact scanExponent_spell (hexp e rfl).2 (hexp e rfl).1
  have hhead : ∀ c ∈ (exponent.elim ([] : Str) fun e => 101 :: (if e.1 then 45 else 43) :: digitsText e.2).head?,
      isDigit c = false := by
    cases exponent <;> simp [isDigit]
  have hrest : ∀ r : Str, (∀ c ∈ r.head?, isDigit c = false ∧ c ≠ 46) →
      scanFraction ((fraction.elim [] fun f => 46 :: digitsText f) ++ r) = (fraction, r) := by
    intro r hr
    cases fraction with
    | none =>
      cases r with
      | nil => rfl
      | cons c r => simp [scanFraction, (hr c rfl).2]
    | some f => exact scanFraction_spell (hfrac f rfl).2 (hfrac f rfl).1 fun c hc => (hr c hc).1
  have hbody : ∀ s, s = spell whole fraction exponent → scanSign s = (false, s) := by
    rintro s rfl
    rcases hw with rfl | ⟨d, l, rfl, -⟩
    · exact scanSign_of_ne _ (by decide)
    · exact scanSign_of_ne _ (show 48 + d ≠ 45 by omega)
  have hscan : (scanWhole (spell whole fraction exponent)).map (fun p =>
      ((⟨neg, p.1, (scanFraction p.2).1, (scanExponent (scanFraction p.2).2).1⟩ : Literal), (scanExponent (scanFraction p.2).2).2)) =
      some (⟨neg, whole, fraction, exponent.map exponentOf⟩, []) := by
    rw [spell, List.append_assoc, scanWhole_spell hwhole hw]
    · simp only [Option.map_some]
      rw [hrest _ (by cases exponent <;> simp [isDigit]), hexponent]
    · cases fraction with
      | none => simpa using hhead
      | some f => simp [isDigit]
  cases neg with
  | false =>
    simp only [scanLiteral, Bool.false_eq_true, if_false, hbody _ rfl]
    exact hscan
  | true => exact hscan

/-- The number that a literal spells. -/
def literalValue (l : Literal) : ℚ :=
  ofDigits (l.whole ++ l.fraction.getD []) * 10 ^ (l.exponent.getD 0 - (l.fraction.getD []).length)

theorem value_eq {neg : Bool} {whole : List Nat} (frac : List Nat) {exponent : Option ℤ} {e : ℤ} {n : Nat}
    (hn : ofDigits (whole ++ frac) = n) (he : exponent.getD 0 - frac.length = e) {fraction : Option (List Nat)}
    (hf : fraction.getD [] = frac) : literalValue ⟨neg, whole, fraction, exponent⟩ = n * 10 ^ e := by
  rw [literalValue, hf, hn, he]

theorem mem_take_lt {d n x : Nat} (h : x ∈ (decimal d).take n) : x < 10 := decimal_lt d x (List.mem_of_mem_take h)

theorem mem_drop_lt {d n x : Nat} (h : x ∈ (decimal d).drop n) : x < 10 := decimal_lt d x (List.mem_of_mem_drop h)

theorem mem_zeros_lt {k d x : Nat} (h : x ∈ List.replicate k 0 ++ decimal d) : x < 10 := by
  rcases List.mem_append.mp h with h | h
  · rw [List.eq_of_mem_replicate h]
    decide
  · exact decimal_lt d x h

/-- A laid out number reads as a float literal that spells it. -/
theorem scanLiteral_layout (neg : Bool) {d : Nat} (hd : d ≠ 0) (e : ℤ) :
    ∃ l, scanLiteral (layout neg d e) = some (l, []) ∧ l.isFloat = true ∧ l.neg = neg ∧
      literalValue l = d * 10 ^ e := by
  obtain ⟨x, xs, hdec, hx⟩ : ∃ x xs, decimal d = x :: xs ∧ x ≠ 0 := by
    rcases decimal_head d with h | h
    · exact h
    · have := ofDigits_decimal d
      rw [h] at this
      exact absurd this.symm hd
  have hlen : (natText d).length = xs.length + 1 := by rw [← length_decimal, hdec, List.length_cons]
  have hval : ofDigits (x :: xs) = d := by rw [← hdec, ofDigits_decimal]
  have hxs : ∀ y ∈ x :: xs, y < 10 := by rw [← hdec]; exact decimal_lt d
  -- it is enough to name the parts that the layout spells
  have hparts : ∀ (whole : List Nat) (fraction : Option (List Nat)) (exponent : Option (Bool × List Nat)),
      layout neg d e = (if neg then 45 :: spell whole fraction exponent else spell whole fraction exponent) →
      (whole = [0] ∨ ∃ y l, whole = y :: l ∧ y ≠ 0) → (∀ y ∈ whole, y < 10) →
      (∀ f ∈ fraction, f ≠ [] ∧ ∀ y ∈ f, y < 10) → (∀ p ∈ exponent, p.2 ≠ [] ∧ ∀ y ∈ p.2, y < 10) →
      (fraction.isSome || exponent.isSome) = true →
      literalValue ⟨neg, whole, fraction, exponent.map exponentOf⟩ = d * 10 ^ e →
      ∃ l, scanLiteral (layout neg d e) = some (l, []) ∧ l.isFloat = true ∧ l.neg = neg ∧
        literalValue l = d * 10 ^ e := by
    intro whole fraction exponent hlay hw hwhole hfrac hexp hfloat hvalue
    refine ⟨_, hlay ▸ scanLiteral_spell neg hw hwhole hfrac hexp, ?_, rfl, hvalue⟩
    simpa [Literal.isFloat] using hfloat
  by_cases hpos : -4 < ((natText d).length : ℤ) + e ∧ ((natText d).length : ℤ) + e ≤ 16
  · by_cases hsmall : ((natText d).length : ℤ) + e ≤ 0
    · -- `0.000ddd`
      refine hparts [0] (some (List.replicate (-(((natText d).length : ℤ) + e)).toNat 0 ++ x :: xs)) none ?_ (Or.inl rfl)
        (by simp) ?_ (by simp) rfl ?_
      · simp only [layout]
        rw [if_pos hpos, if_pos hsmall]
        simp only [spell, Option.elim, digitsText_append, digitsText_zeros, natText_eq d, hdec]
        simp [digitsText]
      · rintro f ⟨⟩
        refine ⟨by simp, fun y hy => ?_⟩
        rw [← hdec] at hy
        exact mem_zeros_lt hy
      · refine value_eq (List.replicate (-(((natText d).length : ℤ) + e)).toNat 0 ++ x :: xs) (n := d) ?_ ?_ rfl
        · rw [ofDigits_append_list, ofDigits_zeros, hval]
          simp [ofDigits]
        · simp only [Option.map_none, Option.getD_none, List.length_append, List.length_replicate, List.length_cons]
          omega
    · by_cases hwide : ((natText d).length : ℤ) ≤ ((natText d).length : ℤ) + e
      · -- `ddd000.0`
        refine hparts (x :: xs ++ List.replicate e.toNat 0) (some [0]) none ?_ (Or.inr ⟨x, _, rfl, hx⟩) ?_ (by simp)
          (by simp) rfl ?_
        · simp only [layout]
          rw [if_pos hpos, if_neg hsmall, if_pos hwide,
            show (((natText d).length : ℤ) + e).toNat - (natText d).length = e.toNat by omega]
          simp only [spell, Option.elim, digitsText_append, digitsText_zeros, natText_eq d, hdec]
          simp [digitsText]
        · intro y hy
          rcases List.mem_append.mp hy with hy | hy
          · exact hxs y hy
          · rw [List.eq_of_mem_replicate hy]
            decide
        · rw [literalValue]
          have h0 : ofDigits (List.replicate e.toNat 0 ++ [0]) = 0 := by rw [ofDigits_zeros]; rfl
          obtain ⟨n, rfl⟩ := Int.eq_ofNat_of_zero_le (show 0 ≤ e by omega)
          simp only [Option.getD_some, List.append_assoc, ofDigits_append_list (x :: xs), h0, hval]
          simp only [pow_succ, Int.toNat_natCast, List.length_append, List.length_replicate, List.length_cons,
            List.length_nil, Option.map_none, Option.getD_none, zpow_natCast]
          norm_num
          ring
      · -- `d.dd`
        obtain ⟨n, hn⟩ := Int.eq_ofNat_of_zero_le (show 0 ≤ ((natText d).length : ℤ) + e by omega)
        have hn0 : n ≠ 0 := by omega
        have hnlt : n < (decimal d).length := by rw [length_decimal]; omega
        refine hparts ((decimal d).take n) (some ((decimal d).drop n)) none ?_ (Or.inr ?_) (fun y => mem_take_lt) ?_
          (by simp) rfl ?_
        · simp only [layout]
          rw [if_pos hpos, if_neg hsmall, if_neg hwide, hn, Int.toNat_natCast]
          simp [spell, natText_eq d, digitsText]
        · obtain ⟨m, rfl⟩ := Nat.exists_eq_succ_of_ne_zero hn0
          exact ⟨x, xs.take m, by rw [hdec, List.take_succ_cons], hx⟩
        · rintro f ⟨⟩
          exact ⟨by simpa using hnlt, fun y => mem_drop_lt⟩
        · refine value_eq ((decimal d).drop n) (n := d) ?_ ?_ rfl
          · rw [List.take_append_drop, ofDigits_decimal]
          · simp only [Option.map_none, Option.getD_none, List.length_drop, length_decimal] at hnlt ⊢
            omega
  · -- `d.dde±xx`
    generalize hlead : ((natText d).length : ℤ) + e - 1 = lead
    refine hparts [x] (if xs = [] then none else some xs)
      (some (decide (lead < 0), List.replicate (2 - (natText lead.natAbs).length) 0 ++ decimal lead.natAbs)) ?_
      (Or.inr ⟨x, [], rfl, hx⟩) (by simpa using hxs x (by simp)) ?_ ?_ (by simp) ?_
    · simp only [layout]
      rw [if_neg hpos, hlead]
      simp only [spell, Option.elim, digitsText_append, digitsText_zeros, paddedText, natText_eq d, hdec]
      by_cases h0 : lead < 0
      · cases xs <;> simp [digitsText, h0, natText_eq, not_le.mpr h0]
      · cases xs <;> simp [digitsText, h0, natText_eq, not_lt.mp h0]
    · intro f hf
      split_ifs at hf with h0
      · cases hf
      · cases hf
        exact ⟨h0, fun y hy => hxs y (by simp [hy])⟩
    · rintro p ⟨⟩
      exact ⟨by simp [decimal_ne_nil], fun y => mem_zeros_lt⟩
    · refine value_eq xs (n := d) hval ?_ (by split_ifs with h0 <;> simp [h0])
      simp only [Option.map_some, Option.getD_some, exponentOf, ofDigits_zeros, ofDigits_decimal]
      by_cases h0 : lead < 0
      · rw [decide_eq_true h0]
        simp only [if_true]
        omega
      · rw [decide_eq_false h0]
        simp only [Bool.false_eq_true, if_false]
        omega

/-! ### The digits that `repr` tries -/

theorem stripZeros_eq (n fuel : Nat) : n = (stripZeros n fuel).1 * 10 ^ (stripZeros n fuel).2 := by
  induction fuel generalizing n with
  | zero => simp [stripZeros]
  | succ fuel ih =>
    rw [stripZeros]
    split_ifs with h
    · have := ih (n / 10)
      simp only [pow_succ, ← Nat.mul_assoc]
      omega
    · simp

/-- A number of at most seventeen digits, or the next power of ten, has at most seventeen before its zeros. -/
theorem stripZeros_length {n : Nat} (h : n ≤ 10 ^ 17) : (natText (stripZeros n 20).1).length ≤ 17 := by
  rcases h.lt_or_eq with hlt | rfl
  · refine length_natText_le_of_lt (by decide) (lt_of_le_of_lt ?_ hlt)
    conv_rhs => rw [stripZeros_eq n 20]
    exact Nat.le_mul_of_pos_right _ (by positivity)
  · decide +kernel

theorem roundHalfEven_close {a b : Nat} (hb : 0 < b) : |(roundHalfEven a b : ℚ) - a / b| ≤ 1 / 2 := by
  have hbq : (0 : ℚ) < b := by exact_mod_cast hb
  have hdiv : b * (a / b) + a % b = a := Nat.div_add_mod a b
  have hmod : a % b < b := Nat.mod_lt a hb
  have hround : 2 * a ≤ 2 * roundHalfEven a b * b + b ∧ 2 * roundHalfEven a b * b ≤ 2 * a + b := by
    unfold roundHalfEven
    generalize a / b = q at hdiv ⊢
    generalize a % b = r at hdiv hmod ⊢
    subst hdiv
    simp only
    split_ifs <;> constructor <;> nlinarith
  have hup : (2 * a : ℚ) ≤ 2 * roundHalfEven a b * b + b := by exact_mod_cast hround.1
  have hdown : (2 * roundHalfEven a b * b : ℚ) ≤ 2 * a + b := by exact_mod_cast hround.2
  rw [abs_le]
  constructor
  · have : (a / b : ℚ) ≤ roundHalfEven a b + 1 / 2 := by rw [div_le_iff₀ hbq]; linarith
    linarith
  · have : (roundHalfEven a b : ℚ) - 1 / 2 ≤ a / b := by rw [le_div_iff₀ hbq]; linarith
    linarith

/-- `num·10^s / den` as `candidates` scales it. -/
theorem scaled_div (num den : Nat) (hd : 0 < den) (s : ℤ) :
    let p := if 0 ≤ s then (num * 10 ^ s.toNat, den) else (num, den * 10 ^ (-s).toNat)
    0 < p.2 ∧ (p.1 / p.2 : ℚ) = num / den * 10 ^ s := by
  simp only
  split_ifs with hs
  · obtain ⟨n, rfl⟩ := Int.eq_ofNat_of_zero_le hs
    refine ⟨hd, ?_⟩
    push_cast
    simp only [Int.toNat_natCast, zpow_natCast]
    ring
  · obtain ⟨n, rfl⟩ : ∃ n : ℕ, s = -n := ⟨(-s).toNat, by omega⟩
    simp only [neg_neg, Int.toNat_natCast]
    refine ⟨by positivity, ?_⟩
    push_cast
    rw [zpow_neg, zpow_natCast, div_mul_eq_div_div]
    rfl

/-- One of the scales that `candidates` tries puts seventeen digits before the point. -/
theorem scale_exists {num den : Nat} (hn : 0 < num) (hd : 0 < den) :
    ∃ i < 3, ∀ s : ℤ, s = (17 : ℕ) - (if num / den = 0 then -((natText (den / num)).length : ℤ)
        else ((natText (num / den)).length : ℤ)) - 1 + (i : ℕ) →
      (10 : ℚ) ^ 16 ≤ num / den * 10 ^ s ∧ (num / den * 10 ^ s : ℚ) ≤ 10 ^ 17 := by
  have hdq : (0 : ℚ) < den := by exact_mod_cast hd
  have hnq : (0 : ℚ) < num := by exact_mod_cast hn
  by_cases hq : num / den = 0
  · refine ⟨0, by decide, ?_⟩
    rintro s rfl
    have hlt : num < den := by rwa [Nat.div_eq_zero_iff_lt hd] at hq
    have hinv : den / num ≠ 0 := (Nat.div_pos hlt.le hn).ne'
    obtain ⟨hlo, hhi⟩ := natText_bounds hinv
    have hpos : 0 < (natText (den / num)).length := List.length_pos_of_ne_nil (by
      rw [natText_eq]; simp [digitsText, decimal_ne_nil])
    obtain ⟨k, hk⟩ : ∃ k, (natText (den / num)).length = k + 1 := ⟨_, (Nat.succ_pred_eq_of_pos hpos).symm⟩
    rw [hk] at hlo hhi
    rw [if_pos hq, hk]
    have h1 : 10 ^ k * num ≤ den := (Nat.le_div_iff_mul_le hn).mp (by simpa using hlo)
    have h2 : den < 10 ^ (k + 1) * num := (Nat.div_lt_iff_lt_mul hn).mp hhi
    have h1 : (10 : ℚ) ^ k * num ≤ den := by exact_mod_cast h1
    have h2 : (den : ℚ) < 10 ^ (k + 1) * num := by exact_mod_cast h2
    have hs : (10 : ℚ) ^ ((17 : ℕ) - -((k + 1 : ℕ) : ℤ) - 1 + (0 : ℕ)) = 10 ^ 17 * 10 ^ k := by
      rw [← pow_add, ← zpow_natCast]
      congr 1
      push_cast
      ring
    rw [hs, div_mul_eq_mul_div, le_div_iff₀ hdq, div_le_iff₀ hdq]
    rw [pow_succ] at h2
    constructor <;> nlinarith
  · refine ⟨1, by decide, ?_⟩
    rintro s rfl
    obtain ⟨hlo, hhi⟩ := natText_bounds hq
    have hpos : 0 < (natText (num / den)).length := List.length_pos_of_ne_nil (by
      rw [natText_eq]; simp [digitsText, decimal_ne_nil])
    obtain ⟨k, hk⟩ : ∃ k, (natText (num / den)).length = k + 1 := ⟨_, (Nat.succ_pred_eq_of_pos hpos).symm⟩
    rw [hk] at hlo hhi
    rw [if_neg hq, hk]
    have h1 : 10 ^ k * den ≤ num := (Nat.le_div_iff_mul_le hd).mp (by simpa using hlo)
    have h2 : num < 10 ^ (k + 1) * den := (Nat.div_lt_iff_lt_mul hd).mp hhi
    have h1 : (10 : ℚ) ^ k * den ≤ num := by exact_mod_cast h1
    have h2 : (num : ℚ) < 10 ^ (k + 1) * den := by exact_mod_cast h2
    have hs : (10 : ℚ) ^ ((17 : ℕ) - ((k + 1 : ℕ) : ℤ) - 1 + (1 : ℕ)) = 10 ^ 16 / 10 ^ k := by
      rw [← zpow_natCast, ← zpow_natCast, ← zpow_sub₀ (by norm_num)]
      congr 1
      push_cast
      ring
    have hk0 : (0 : ℚ) < 10 ^ k := by positivity
    rw [hs, div_mul_div_comm, le_div_iff₀ (by positivity), div_le_iff₀ (by positivity)]
    rw [pow_succ] at h2
    constructor <;> nlinarith

/-- Among the texts of seventeen digits one spells a number that differs from the float by less than it takes
    to round elsewhere. -/
theorem candidate_near (neg : Bool) {num den : Nat} (hn : 0 < num) (hd : 0 < den) :
    ∃ d e, d ≠ 0 ∧ layout neg d e ∈ candidates neg num den 17 ∧
      2 * 10 ^ 16 * |(d * 10 ^ e : ℚ) - num / den| ≤ num / den := by
  obtain ⟨i, hi, hscale⟩ := scale_exists hn hd
  generalize hs : ((17 : ℕ) : ℤ) - (if num / den = 0 then -((natText (den / num)).length : ℤ)
      else ((natText (num / den)).length : ℤ)) - 1 + (i : ℕ) = s at hscale
  obtain ⟨hlo, hhi⟩ := hscale s rfl
  obtain ⟨hb, hab⟩ := scaled_div num den hd s
  generalize hp : (if 0 ≤ s then (num * 10 ^ s.toNat, den) else (num, den * 10 ^ (-s).toNat)) = p at hb hab
  obtain ⟨a, b⟩ := p
  simp only at hb hab
  have hclose := abs_le.mp (roundHalfEven_close (a := a) hb)
  rw [hab] at hclose
  generalize hd' : roundHalfEven a b = d at hclose
  have hlow : 10 ^ 16 ≤ d := by
    have : (10 : ℚ) ^ 16 < d + 1 := by linarith
    have : 10 ^ 16 < d + 1 := by exact_mod_cast this
    omega
  have hhigh : d ≤ 10 ^ 17 := by
    have : (d : ℚ) < 10 ^ 17 + 1 := by linarith
    have : d < 10 ^ 17 + 1 := by exact_mod_cast this
    omega
  have hstrip := stripZeros_eq d 20
  refine ⟨(stripZeros d 20).1, (stripZeros d 20).2 - s, ?_, ?_, ?_⟩
  · intro h0
    rw [h0] at hstrip
    omega
  · simp only [candidates, List.mem_flatten, List.mem_map]
    refine ⟨_, ⟨i, List.mem_flatMap.mpr ⟨i, List.mem_range.mpr hi, List.mem_singleton.mpr rfl⟩, rfl⟩, ?_⟩
    simp only [hs, hp, hd', List.mem_filterMap]
    refine ⟨d, by simp, ?_⟩
    rw [if_pos ⟨stripZeros_length hhigh, by omega⟩]
  · have hvalue : ((stripZeros d 20).1 * 10 ^ (((stripZeros d 20).2 : ℤ) - s) : ℚ) = d / 10 ^ s := by
      conv_rhs => rw [hstrip]
      push_cast
      rw [zpow_sub₀ (by norm_num), zpow_natCast]
      ring
    have hs0 : (0 : ℚ) < 10 ^ s := by positivity
    have hsplit : (d / 10 ^ s - num / den : ℚ) = (d - num / den * 10 ^ s) / 10 ^ s := by
      field_simp
    rw [hvalue, hsplit, abs_div, abs_of_pos hs0, mul_div_assoc', div_le_iff₀ hs0]
    have := abs_le.mpr hclose
    linarith

/-! ### Every finite float has a text -/

theorem literal_ofDecimal (l : Literal) : ∃ num den : Nat, 0 < den ∧ ofLiteral l = ofFraction l.neg num den ∧
    (num / den : ℚ) = literalValue l := by
  unfold ofLiteral ofDecimal literalValue
  simp only
  generalize l.exponent.getD 0 - ((l.fraction.getD []).length : ℤ) = e
  split_ifs with he
  · obtain ⟨n, rfl⟩ := Int.eq_ofNat_of_zero_le he
    refine ⟨_, 1, Nat.one_pos, rfl, ?_⟩
    push_cast
    simp
  · obtain ⟨n, rfl⟩ : ∃ n : ℕ, e = -n := ⟨(-e).toNat, by omega⟩
    refine ⟨_, _, by positivity, rfl, ?_⟩
    simp only [neg_neg, Int.toNat_natCast, zpow_neg, zpow_natCast]
    push_cast
    rfl

theorem repr_finite (neg : Bool) (m : Nat) (e : ℤ) (hv : isBinary64 m e = true) :
    ((PyFloat.finite neg m e hv).repr?).isSome := by
  rw [repr?, List.find?_isSome]
  rcases Nat.eq_zero_or_pos m with rfl | hm
  · have he : (-1074 ≤ e ∧ e ≤ 971) ∧ e = -1074 := by simpa [isBinary64] using hv
    obtain rfl := he.2
    exact ⟨if neg then "-0.0" else "0.0", by simp [texts], by cases neg <;> decide +kernel +revert⟩
  · obtain ⟨num, den, hpair, hd, hvalue⟩ : ∃ num den : Nat,
        (if 0 ≤ e then (m * 2 ^ e.toNat, 1) else (m, 2 ^ (-e).toNat)) = (num, den) ∧ 0 < den ∧
          (num / den : ℚ) = m * 2 ^ e := by
      split_ifs with he
      · obtain ⟨n, rfl⟩ := Int.eq_ofNat_of_zero_le he
        exact ⟨_, _, rfl, Nat.one_pos, by push_cast; simp⟩
      · obtain ⟨n, rfl⟩ : ∃ n : ℕ, e = -n := ⟨(-e).toNat, by omega⟩
        refine ⟨_, _, rfl, by positivity, ?_⟩
        simp only [neg_neg, Int.toNat_natCast, zpow_neg, zpow_natCast]
        push_cast
        rfl
    have hpos : (0 : ℚ) < m * 2 ^ e := by
      have : (0 : ℚ) < m := by exact_mod_cast hm
      positivity
    have hn : 0 < num := by
      rcases Nat.eq_zero_or_pos num with rfl | hn
      · rw [← hvalue] at hpos
        simp at hpos
      · exact hn
    obtain ⟨d, k, hd0, hmem, hnear⟩ := candidate_near neg hn hd
    rw [hvalue] at hnear
    obtain ⟨l, hscan, hfloat, rfl, hspell⟩ := scanLiteral_layout neg hd0 k
    refine ⟨layout l.neg d k, ?_, ?_⟩
    · simp only [texts, if_neg hm.ne', hpair, List.mem_flatten, List.mem_map, List.mem_range]
      exact ⟨candidates l.neg num den 17, ⟨16, by decide, rfl⟩, hmem⟩
    · obtain ⟨num', den', hd', hread, hvalue'⟩ := literal_ofDecimal l
      simp only [reads, hscan, hfloat, Bool.true_and, beq_iff_eq]
      rw [hread]
      refine ofFraction_of_close hv hm hd' ?_
      rwa [hvalue', hspell]

/-- Exactly the finite floats have a text. -/
theorem repr?_isSome_iff (x : PyFloat) : x.repr?.isSome ↔ ∃ neg m e hv, x = .finite neg m e hv := by
  constructor
  · intro h
    cases x with
    | finite neg m e hv => exact ⟨neg, m, e, hv, rfl⟩
    | inf neg => simp [repr?, texts] at h
  · rintro ⟨neg, m, e, hv, rfl⟩
    exact repr_finite neg m e hv

end LeanCtx.Json
