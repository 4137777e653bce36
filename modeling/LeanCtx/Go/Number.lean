import LeanCtx.Json.Float
import LeanCtx.Json.Grammar
import LeanCtx.Python.Padded
import LeanCtx.Python.Regex
import LeanCtx.Workspace.Error

/-! The numbers of the Go package. `normalizeNumber` makes an integer of a number literal by moving its digits as text: it trims zeros,
    cuts them off or appends them. What it makes is the number that the literal denotes, with no rounding (`normalizeNumber_iff`). -/

namespace LeanCtx

namespace Regex

/-- The pattern matches from a text up to the rest of it. -/
def Reads (r : Regex) (s t : Str) : Prop := ∀ c, ∃ d, (d, t) ∈ r.ends (c, s)

section
variable {p : Nat → Bool} {r r' : Regex} {s t u : Str}

theorem reads_one {c : Nat} (h : p c = true) (s : Str) : Reads (one p) (c :: s) s := fun _ => ⟨some c, by simp [ends, h]⟩

theorem reads_empty (s : Str) : Reads empty s s := fun c => ⟨c, List.mem_singleton_self _⟩

theorem Reads.seq (h : Reads r s t) (h' : Reads r' t u) : Reads (.seq r r') s u := by
  intro c
  obtain ⟨d, hd⟩ := h c
  obtain ⟨e, he⟩ := h' d
  exact ⟨e, List.mem_flatMap.mpr ⟨_, hd, he⟩⟩

theorem Reads.left (h : Reads r s t) : Reads (.alt r r') s t := fun c => (h c).imp fun _ hd => List.mem_append_left _ hd

theorem Reads.right (h : Reads r' s t) : Reads (.alt r r') s t := fun c => (h c).imp fun _ hd => List.mem_append_right _ hd

theorem Reads.opt (h : Reads r s t) : Reads r.opt s t := h.left

theorem reads_opt (s : Str) : Reads r.opt s s := (reads_empty s).right

/-- A repeated character reads any text of such characters. -/
theorem reads_star (h : s.all p = true) (t : Str) : Reads (star (one p)) (s ++ t) t := by
  have hfuel : ∀ n, s.length ≤ n → ∀ c, ∃ d, (d, t) ∈ starEnds (one p).ends n (c, s ++ t) := by
    induction s with
    | nil =>
      intro n _ c
      cases n <;> exact ⟨c, by simp [starEnds]⟩
    | cons a s ih =>
      intro n hn c
      rw [List.all_cons, Bool.and_eq_true] at h
      obtain ⟨n, rfl⟩ := Nat.exists_eq_add_of_lt hn
      obtain ⟨d, hd⟩ := ih h.2 (s.length + n) (Nat.le_add_right _ _) (some a)
      refine ⟨d, List.mem_cons_of_mem _ (List.mem_flatMap.mpr ⟨_, ?_, hd⟩)⟩
      simp [ends, h.1]
  intro c
  refine hfuel _ ?_ c
  rw [List.length_append]
  exact Nat.le_add_right _ _

theorem reads_plus (h : s.all p = true) (hs : s ≠ []) (t : Str) : Reads (plus (one p)) (s ++ t) t := by
  obtain ⟨a, s, rfl⟩ := List.exists_cons_of_ne_nil hs
  rw [List.all_cons, Bool.and_eq_true] at h
  exact (reads_one h.1 _).seq (reads_star h.2 t)

end

end Regex

namespace Go
open Regex
open Json.Grammar (ascii Digits Sign Whole Fraction ExponentSign Exponent Number)
open PyFloat (Literal)

/-! ### Normalizing -/

/-- `jsonNumberPattern`, between its anchors. -/
def jsonNumberPattern : Regex :=
  seq (opt (one (· == 45)))
    (seq (alt (one (· == 48)) (seq (one fun c => 49 ≤ c && c ≤ 57) (star (one isDigit))))
      (seq (opt (seq (one (· == 46)) (plus (one isDigit))))
        (opt (seq (one fun c => c == 101 || c == 69) (seq (opt (one fun c => c == 43 || c == 45)) (plus (one isDigit)))))))

/-- `pattern.MatchString(s)` of a pattern that is anchored on both sides. -/
def matchString (r : Regex) (s : Str) : Bool := (r.ends (none, s)).any fun p => p.2.isEmpty

def maxSafeInteger : Int := 9007199254740991

/-- `strconv.ParseInt(s, 10, 64)`, and `strconv.Atoi(s)`: a sign, which may be left out, and digits. -/
def parseInt (s : Str) : Option Int :=
  let digits := if s.head? = some 45 ∨ s.head? = some 43 then s.tail else s
  if digits ≠ [] ∧ digits.all isDigit = true then
    let n : Int := if s.head? = some 45 then -decimalValue digits else decimalValue digits
    if -2 ^ 63 ≤ n ∧ n < 2 ^ 63 then some n else none
  else none

/-- The text before and after the first character of a kind. -/
def cutAt (p : Nat → Bool) : Str → Option (Str × Str)
  | [] => none
  | c :: r => if p c then some ([], r) else (cutAt p r).map fun (a, b) => (c :: a, b)

/-- `strings.TrimLeft(s, "0")`. -/
def trimLeft (s : Str) : Str := s.dropWhile (· == 48)

/-- The mantissa and the exponent. -/
def splitExponent (value : Str) : Except String (Str × Int) :=
  match cutAt (fun c => c == 101 || c == 69) value with
  | none => .ok (value, 0)
  | some (mantissa, exponentText) =>
    match parseInt exponentText with
    | none => .error "unsafe number"
    | some parsed => if parsed < -100000 ∨ parsed > 100000 then .error "unsafe number" else .ok (mantissa, parsed)

/-- The digits before and after the point. -/
def splitFraction (mantissa : Str) : Str × Str := (cutAt (· == 46) mantissa).getD (mantissa, [])

/-- What digits that are all zeros are. -/
def zero (negative : Bool) : Except String Int := if negative then .error "negative zero" else .ok 0

/-- What the digits of an integer are. -/
def integer (negative : Bool) (digits : Str) : Except String Int :=
  if digits.length > 16 then .error "unsafe number"
  else
    match parseInt digits with
    | none => .error "unsafe number"
    | some parsed => if parsed > maxSafeInteger then .error "unsafe number" else .ok (if negative then -parsed else parsed)

/-- What digits are of which the last `scale` are a fraction, or which `-scale` zeros follow. -/
def scaled (negative : Bool) (digits : Str) (scale : Int) : Except String Int :=
  if scale > 0 then
    let cut := digits.length - scale
    if cut ≤ 0 then .error "unsafe number"
    else if (digits.drop cut.toNat).any (· != 48) then .error "non-integer number"
    else
      let digits := trimLeft (digits.take cut.toNat)
      if digits = [] then zero negative else integer negative digits
  else if -scale > 16 - digits.length then .error "unsafe number"
  else if scale < 0 then integer negative (digits ++ List.replicate (-scale).toNat 48)
  else integer negative digits

/-- `normalizeNumber(value)`. -/
def normalizeNumber (value : Str) : Except String Int := do
  ensure (matchString jsonNumberPattern value = true) "empty number"
  let negative := value.head? == some 45
  let value := if negative then value.tail else value
  let (mantissa, exponent) ← splitExponent value
  let (whole, fraction) := splitFraction mantissa
  let digits := trimLeft (whole ++ fraction)
  if digits = [] then zero negative else scaled negative digits (fraction.length - exponent)

/-! ### Digits -/

theorem decimalValue_append (s t : Str) : decimalValue (s ++ t) = decimalValue s * 10 ^ t.length + decimalValue t := by
  rw [decimalValue, List.map_append, Json.ofDigits_append_list, List.length_map]
  rfl

theorem decimalValue_cons (c : Nat) (s : Str) : decimalValue (c :: s) = (c - 48) * 10 ^ s.length + decimalValue s := by
  rw [decimalValue, List.map_cons, ofDigits_cons, List.length_map]
  rfl

/-- A text holds no value exactly where all its digits are zeros. -/
theorem decimalValue_eq_zero {s : Str} (h : s.all isDigit = true) : decimalValue s = 0 ↔ s.any (· != 48) = false := by
  induction s with
  | nil => simp [decimalValue, ofDigits]
  | cons c s ih =>
    rw [List.all_cons, Bool.and_eq_true] at h
    have hc := h.1
    simp only [isDigit, Bool.and_eq_true, decide_eq_true_eq] at hc
    have hzero : (c - 48) * 10 ^ s.length = 0 ↔ (c != 48) = false := by
      rw [bne_eq_false_iff_eq, Nat.mul_eq_zero, or_iff_left (by positivity)]
      omega
    rw [decimalValue_cons, Nat.add_eq_zero_iff, ih h.2, List.any_cons, Bool.or_eq_false_iff, hzero]

theorem decimalValue_zeros (s : Str) (k : Nat) : decimalValue (s ++ List.replicate k 48) = decimalValue s * 10 ^ k := by
  have hzeros : decimalValue (List.replicate k 48) = 0 := by
    refine (decimalValue_eq_zero ?_).mpr ?_ <;> simp [isDigit]
  rw [decimalValue_append, hzeros, List.length_replicate, Nat.add_zero]

/-- Digits of which the first is not a zero. -/
structure Trimmed (s : Str) : Prop where
  digits : s.all isDigit = true
  head : ∃ c r, s = c :: r ∧ c ≠ 48

theorem Trimmed.bounds {s : Str} (h : Trimmed s) :
    10 ^ (s.length - 1) ≤ decimalValue s ∧ decimalValue s < 10 ^ s.length ∧ 0 < s.length := by
  refine ⟨?_, decimalValue_lt h.digits, ?_⟩
  · obtain ⟨c, r, rfl, hc⟩ := h.head
    have hdigits := h.digits
    simp only [List.all_cons, isDigit, Bool.and_eq_true, decide_eq_true_eq] at hdigits
    rw [decimalValue_cons, List.length_cons, Nat.add_sub_cancel]
    exact Nat.le_add_right_of_le (Nat.le_mul_of_pos_left _ (by omega))
  · obtain ⟨c, r, rfl, -⟩ := h.head
    exact Nat.succ_pos _

theorem Trimmed.pos {s : Str} (h : Trimmed s) : 0 < decimalValue s := (by positivity : 0 < 10 ^ (s.length - 1)).trans_le h.bounds.1

theorem Trimmed.zeros {s : Str} (h : Trimmed s) (k : Nat) : Trimmed (s ++ List.replicate k 48) where
  digits := by
    rw [List.all_append, h.digits]
    simp [isDigit]
  head := by
    obtain ⟨c, r, rfl, hc⟩ := h.head
    exact ⟨c, r ++ List.replicate k 48, rfl, hc⟩

theorem Trimmed.take {s : Str} (h : Trimmed s) {k : Nat} (hk : 0 < k) : Trimmed (s.take k) where
  digits := List.all_eq_true.mpr fun c hc => List.all_eq_true.mp h.digits c (List.mem_of_mem_take hc)
  head := by
    obtain ⟨c, r, rfl, hc⟩ := h.head
    obtain ⟨k, rfl⟩ := Nat.exists_eq_succ_of_ne_zero hk.ne'
    exact ⟨c, r.take k, rfl, hc⟩

theorem Trimmed.trimLeft_eq {s : Str} (h : Trimmed s) : trimLeft s = s := by
  obtain ⟨c, r, rfl, hc⟩ := h.head
  simp [trimLeft, hc]

theorem decimalValue_trimLeft (s : Str) : decimalValue (trimLeft s) = decimalValue s := by
  induction s with
  | nil => rfl
  | cons c s ih =>
    rw [trimLeft, List.dropWhile_cons]
    split_ifs with hc
    · obtain rfl := beq_iff_eq.mp hc
      rw [decimalValue_cons, Nat.sub_self, Nat.zero_mul, Nat.zero_add]
      exact ih
    · rfl

theorem trimmed_trimLeft {s : Str} (h : s.all isDigit = true) (hs : trimLeft s ≠ []) : Trimmed (trimLeft s) where
  digits := List.all_eq_true.mpr fun c hc => List.all_eq_true.mp h c ((List.dropWhile_sublist _).subset hc)
  head := by
    obtain ⟨c, r, hcr⟩ := List.exists_cons_of_ne_nil hs
    refine ⟨c, r, hcr, fun hc => ?_⟩
    have hnot := List.head?_dropWhile_not (· == 48) s
    rw [trimLeft] at hcr
    simp [hcr, hc] at hnot

/-! ### Moving digits -/

/-- A sign that may be left out, before a text, and the factor that it stands for. -/
def SignedText (s t : Str) (k : Int) : Prop := s = t ∧ k = 1 ∨ s = 43 :: t ∧ k = 1 ∨ s = 45 :: t ∧ k = -1

theorem parseInt_signed {s t : Str} {k : Int} (h : SignedText s t k) (ht : t.all isDigit = true) (ht0 : t ≠ [])
    (hrange : -2 ^ 63 ≤ k * decimalValue t ∧ k * decimalValue t < 2 ^ 63) : parseInt s = some (k * decimalValue t) := by
  obtain ⟨c, r, rfl⟩ := List.exists_cons_of_ne_nil ht0
  have hc := List.all_eq_true.mp ht c List.mem_cons_self
  simp only [isDigit, Bool.and_eq_true, decide_eq_true_eq] at hc
  rcases h with ⟨rfl, rfl⟩ | ⟨rfl, rfl⟩ | ⟨rfl, rfl⟩
  · have h45 : c ≠ 45 := by omega
    have h43 : c ≠ 43 := by omega
    rw [one_mul] at hrange ⊢
    simp [parseInt, h45, h43, ht]
    omega
  · rw [one_mul] at hrange ⊢
    simp [parseInt, ht]
    omega
  · rw [neg_one_mul] at hrange ⊢
    simp [parseInt, ht]
    omega

theorem parseInt_digits {s : Str} (h : s.all isDigit = true) (hs : s ≠ []) (hlength : s.length ≤ 16) :
    parseInt s = some (decimalValue s : Int) := by
  have hlt : decimalValue s < 2 ^ 63 := ((decimalValue_lt h).trans_le (Nat.pow_le_pow_right (by decide) hlength)).trans (by decide)
  have hparse := parseInt_signed (.inl ⟨rfl, rfl⟩) h hs (by omega)
  rwa [one_mul] at hparse

/-- The integer with a sign and a value. -/
def signed (negative : Bool) (n : Int) : Int := if negative then -n else n

theorem abs_signed (negative : Bool) (n : Int) : |signed negative n| = |n| := by cases negative <;> simp [signed]

theorem cast_signed (negative : Bool) (n : Int) : (signed negative n : ℚ) = (if negative then -1 else 1) * n := by
  cases negative <;> simp [signed]

theorem signed_mul (negative : Bool) (m k : Nat) : signed negative (m * 10 ^ k : Nat) = signed negative m * 10 ^ k := by
  cases negative <;> simp [signed]

/-- Digits that a zero does not start spell an integer, if it is safe. -/
theorem integer_eq_ok {s : Str} (h : Trimmed s) {negative : Bool} {n : Int} :
    integer negative s = .ok n ↔ n = signed negative (decimalValue s) ∧ |n| ≤ maxSafeInteger := by
  have hsafe : n = signed negative (decimalValue s) → (|n| ≤ maxSafeInteger ↔ ¬(decimalValue s : Int) > maxSafeInteger) := by
    rintro rfl
    rw [abs_signed, abs_of_nonneg (Int.natCast_nonneg _), not_lt]
  rw [and_congr_right hsafe, integer]
  by_cases hlength : s.length > 16
  · -- Seventeen digits are more than a safe integer has.
    have hlarge : 10 ^ 16 ≤ decimalValue s := (Nat.pow_le_pow_right (by decide) (by omega)).trans h.bounds.1
    rw [if_pos hlength]
    simp only [reduceCtorEq, false_iff, not_and, not_not, maxSafeInteger]
    intro
    omega
  · obtain ⟨c, r, hs, -⟩ := h.head
    rw [if_neg hlength, parseInt_digits h.digits (hs ▸ List.cons_ne_nil c r) (not_lt.mp hlength)]
    by_cases hmax : (decimalValue s : Int) > maxSafeInteger
    · simp [hmax]
    · simp only [hmax, if_false, Except.ok.injEq, not_false_eq_true, and_true]
      exact eq_comm

/-- Zeros are appended to digits, unless they are too many. -/
theorem scaled_left {s : Str} (h : Trimmed s) {negative : Bool} {n : Int} (k : Nat) :
    scaled negative s (-k) = .ok n ↔ n = signed negative (decimalValue s * 10 ^ k : Nat) ∧ |n| ≤ maxSafeInteger := by
  obtain ⟨hlow, -, hlength⟩ := h.bounds
  have hzeros : integer negative _ = .ok n ↔ _ := integer_eq_ok (h.zeros k)
  rw [decimalValue_zeros] at hzeros
  rw [scaled, if_neg (by omega), ← hzeros]
  by_cases hlarge : -(-(k : Int)) > 16 - s.length
  · have hmany : (s ++ List.replicate k 48).length > 16 := by
      rw [List.length_append, List.length_replicate]
      omega
    rw [if_pos hlarge, integer, if_pos hmany]
  · rw [if_neg hlarge]
    by_cases hk : k = 0
    · subst hk
      rw [if_neg (by simp), List.replicate_zero, List.append_nil]
    · rw [if_pos (by omega), neg_neg, Int.toNat_natCast]

/-- Zeros are cut off digits, if there are enough and a digit is left. -/
theorem scaled_right {s : Str} (h : Trimmed s) {negative : Bool} {n : Int} {k : Nat} (hk : 0 < k) :
    scaled negative s k = .ok n ↔ n * 10 ^ k = signed negative (decimalValue s) ∧ |n| ≤ maxSafeInteger := by
  obtain ⟨-, hhigh, -⟩ := h.bounds
  have hmul : n * 10 ^ k = signed negative (decimalValue s) → n.natAbs * 10 ^ k = decimalValue s := by
    intro heq
    have habs := congrArg Int.natAbs heq
    rw [Int.natAbs_mul, Int.natAbs_pow] at habs
    rw [show n.natAbs * 10 ^ k = _ from habs]
    cases negative <;> simp [signed]
  rw [scaled, if_pos (by omega)]
  by_cases hcut : (s.length : Int) - k ≤ 0
  · -- The number lies strictly between zero and one.
    simp only [hcut, if_true, reduceCtorEq, false_iff, not_and]
    intro heq
    have hval := hmul heq
    have hle : 10 ^ s.length ≤ 10 ^ k := Nat.pow_le_pow_right (by decide) (by omega)
    have hpos := h.pos
    obtain hn | hn := Nat.eq_zero_or_pos n.natAbs
    · rw [hn, Nat.zero_mul] at hval
      omega
    · have hmany := Nat.le_mul_of_pos_left (10 ^ k) hn
      omega
  · obtain ⟨m, hm⟩ : ∃ m, s.length = m + k := ⟨s.length - k, by omega⟩
    have hto : ((s.length : Int) - k).toNat = m := by omega
    have hm0 : 0 < m := by omega
    have hsplit : decimalValue s = decimalValue (s.take m) * 10 ^ k + decimalValue (s.drop m) := by
      have happend := decimalValue_append (s.take m) (s.drop m)
      rwa [List.take_append_drop, List.length_drop, hm, Nat.add_sub_cancel_left] at happend
    have hdrop : (s.drop m).all isDigit = true := List.all_eq_true.mpr fun c hc => List.all_eq_true.mp h.digits c (List.mem_of_mem_drop hc)
    simp only [hcut, if_false, hto]
    by_cases hdigits : (s.drop m).any (· != 48) = true
    · -- A fraction is left over that is smaller than one.
      simp only [hdigits, if_true, reduceCtorEq, false_iff, not_and]
      intro heq
      have hval := hmul heq
      have hlt := decimalValue_lt hdrop
      rw [List.length_drop, hm, Nat.add_sub_cancel_left] at hlt
      have hmod : decimalValue (s.drop m) = 0 := by
        have hdvd : 10 ^ k ∣ decimalValue (s.drop m) :=
          (Nat.dvd_add_right (Dvd.intro_left _ rfl)).mp (hsplit ▸ hval ▸ Dvd.intro_left _ rfl)
        exact Nat.eq_zero_of_dvd_of_lt hdvd hlt
      rw [decimalValue_eq_zero hdrop, hdigits] at hmod
      cases hmod
    · have hzero := (decimalValue_eq_zero hdrop).mpr (Bool.not_eq_true _ ▸ hdigits)
      have htake := h.take hm0
      obtain ⟨c, r, hcr, -⟩ := htake.head
      rw [hzero, Nat.add_zero] at hsplit
      simp only [hdigits, Bool.false_eq_true, if_false, htake.trimLeft_eq, hcr ▸ List.cons_ne_nil c r, integer_eq_ok htake]
      refine and_congr_left fun _ => ?_
      rw [hsplit, signed_mul, mul_left_inj' (by positivity)]

/-- Moving digits by a power of ten is exact. -/
theorem scaled_eq_ok {s : Str} (h : Trimmed s) {negative : Bool} (scale n : Int) :
    scaled negative s scale = .ok n ↔
      (n : ℚ) = (if negative then -1 else 1) * (decimalValue s * 10 ^ (-scale)) ∧ |n| ≤ maxSafeInteger := by
  have hleft : ∀ k : Nat, scaled negative s (-k) = .ok n ↔
      (n : ℚ) = (if negative then -1 else 1) * (decimalValue s * 10 ^ k) ∧ |n| ≤ maxSafeInteger := by
    intro k
    rw [scaled_left h, ← Int.cast_inj (α := ℚ), cast_signed]
    push_cast
    rfl
  obtain ⟨k, rfl | rfl⟩ := scale.eq_nat_or_neg
  · obtain rfl | hk := Nat.eq_zero_or_pos k
    · simpa using hleft 0
    · rw [scaled_right h hk, ← Int.cast_inj (α := ℚ), cast_signed, zpow_neg, zpow_natCast, ← mul_assoc,
        eq_mul_inv_iff_mul_eq₀ (by positivity)]
      push_cast
      rfl
  · rw [hleft, neg_neg, zpow_natCast]

/-! ### Reading a literal -/

theorem digits_text {s r : Str} {l : List Nat} (h : Digits ascii s l r) :
    ∃ t, s = t ++ r ∧ t.all isDigit = true ∧ l = t.map (· - 48) := by
  induction h with
  | nil r => exact ⟨[], rfl, rfl, rfl⟩
  | @cons c d s r l digit _ ih =>
    obtain ⟨t, rfl, ht, rfl⟩ := ih
    unfold ascii at digit
    split_ifs at digit with hc
    cases digit
    refine ⟨c :: t, rfl, ?_, rfl⟩
    rw [List.all_cons, ht, Bool.and_true]
    simpa [isDigit] using hc

theorem sign_reads {s t : Str} {neg : Bool} (h : Json.Grammar.Sign s neg t) : Reads (opt (one (· == 45))) s t := by
  cases h with
  | minus => exact (reads_one rfl _).opt
  | none => exact reads_opt _

theorem whole_text {s r : Str} {l : List Nat} (h : Whole ascii s l r) :
    ∃ t, s = t ++ r ∧ t.all isDigit = true ∧ t ≠ [] ∧ l = t.map (· - 48) ∧
      Reads (alt (one (· == 48)) (seq (one fun c => 49 ≤ c && c ≤ 57) (star (one isDigit)))) s r := by
  cases h with
  | zero r => exact ⟨[48], rfl, rfl, List.cons_ne_nil _ _, rfl, (reads_one rfl r).left⟩
  | @digits c s r l first rest =>
    obtain ⟨t, rfl, ht, rfl⟩ := digits_text rest
    refine ⟨c :: t, rfl, ?_, List.cons_ne_nil _ _, rfl, ((reads_one ?_ _).seq (reads_star ht r)).right⟩
    · rw [List.all_cons, ht, Bool.and_true]
      simp only [isDigit, Bool.and_eq_true, decide_eq_true_eq]
      omega
    · simpa using first

theorem fraction_text {s r : Str} {f : Option (List Nat)} (h : Fraction ascii s f r) :
    ∃ t d, s = t ++ r ∧ (t = [] ∧ d = [] ∨ t = 46 :: d) ∧ d.all isDigit = true ∧ f.getD [] = d.map (· - 48) ∧
      Reads (opt (seq (one (· == 46)) (plus (one isDigit)))) s r := by
  cases h with
  | none => exact ⟨[], [], rfl, .inl ⟨rfl, rfl⟩, rfl, rfl, reads_opt _⟩
  | some digits nonempty =>
    obtain ⟨d, rfl, hd, rfl⟩ := digits_text digits
    have hd0 : d ≠ [] := fun hnil => nonempty (by rw [hnil]; rfl)
    exact ⟨46 :: d, d, rfl, .inr rfl, hd, rfl, ((reads_one rfl _).seq (reads_plus hd hd0 _)).opt⟩

theorem exponentSign_text {s t : Str} {k : Int} (h : ExponentSign s k t) :
    Reads (opt (one fun c => c == 43 || c == 45)) s t ∧ SignedText s t k := by
  cases h with
  | none => exact ⟨reads_opt _, .inl ⟨rfl, rfl⟩⟩
  | plus => exact ⟨(reads_one rfl _).opt, .inr (.inl ⟨rfl, rfl⟩)⟩
  | minus => exact ⟨(reads_one rfl _).opt, .inr (.inr ⟨rfl, rfl⟩)⟩

theorem cutAt_append {p : Nat → Bool} {a : Str} (ha : ∀ d ∈ a, p d = false) {c : Nat} (hc : p c = true) (b : Str) :
    cutAt p (a ++ c :: b) = some (a, b) := by
  induction a with
  | nil => simp [cutAt, hc]
  | cons d a ih =>
    rw [List.forall_mem_cons] at ha
    simp [cutAt, ha.1, ih ha.2]

theorem cutAt_eq_none {p : Nat → Bool} {a : Str} (ha : ∀ d ∈ a, p d = false) : cutAt p a = none := by
  induction a with
  | nil => rfl
  | cons d a ih =>
    rw [List.forall_mem_cons] at ha
    simp [cutAt, ha.1, ih ha.2]

/-- An exponent within the bounds is split off. -/
theorem exponent_text {v : Str} {e : Option Int} (h : Exponent ascii v e []) (hexp : ∀ k ∈ e, -100000 ≤ k ∧ k ≤ 100000) :
    Reads (opt (seq (one fun c => c == 101 || c == 69) (seq (opt (one fun c => c == 43 || c == 45)) (plus (one isDigit))))) v [] ∧
      ∀ m : Str, (∀ c ∈ m, (c == 101 || c == 69) = false) → splitExponent (m ++ v) = .ok (m, e.getD 0) := by
  cases h with
  | none =>
    refine ⟨reads_opt [], fun m hm => ?_⟩
    rw [List.append_nil, splitExponent, cutAt_eq_none hm]
    rfl
  | @some c s t _ k l letter sign digits nonempty =>
    obtain ⟨d, rfl, hd, rfl⟩ := digits_text digits
    obtain ⟨hreads, hsign⟩ := exponentSign_text sign
    have hd0 : d ≠ [] := fun hnil => nonempty (by rw [hnil]; rfl)
    have hletter : (c == 101 || c == 69) = true := by simpa using letter
    rw [List.append_nil] at hsign
    refine ⟨((reads_one hletter s).seq (hreads.seq (reads_plus hd hd0 []))).opt, fun m hm => ?_⟩
    have hbounds := hexp _ rfl
    have hparse := parseInt_signed hsign hd hd0 (by rw [decimalValue]; omega)
    rw [decimalValue] at hparse
    rw [splitExponent, cutAt_append hm hletter]
    simp only [hparse]
    rw [if_neg (by omega)]
    rfl

theorem isDigit_iff {c : Nat} : isDigit c = true ↔ 48 ≤ c ∧ c ≤ 57 := by simp [isDigit]

/-- The sign is told by the first character. -/
theorem head_sign {s w r : Str} {neg : Bool} (h : Sign s neg (w ++ r)) (hw : w.all isDigit = true) (hw0 : w ≠ []) :
    (s.head? == some 45) = neg ∧ (if neg = true then s.tail else s) = w ++ r := by
  cases h with
  | minus => exact ⟨rfl, rfl⟩
  | none =>
    obtain ⟨c, w, rfl⟩ := List.exists_cons_of_ne_nil hw0
    have hc := isDigit_iff.mp (List.all_eq_true.mp hw c List.mem_cons_self)
    refine ⟨?_, rfl⟩
    rw [List.cons_append, List.head?_cons, beq_eq_false_iff_ne, ne_eq, Option.some.injEq]
    omega

section
variable {w t d : Str} (hw : w.all isDigit = true) (ht : t = [] ∧ d = [] ∨ t = 46 :: d) (hd : d.all isDigit = true)
include hw ht

/-- The point is where the fraction starts. -/
theorem splitFraction_eq : splitFraction (w ++ t) = (w, d) := by
  have hpoint : ∀ c ∈ w, (c == 46) = false := fun c hc => by
    have hc := isDigit_iff.mp (List.all_eq_true.mp hw c hc)
    rw [beq_eq_false_iff_ne]
    omega
  rcases ht with ⟨rfl, rfl⟩ | rfl
  · rw [List.append_nil, splitFraction, cutAt_eq_none hpoint]
    rfl
  · rw [splitFraction, cutAt_append hpoint rfl]
    rfl

include hd

/-- No letter stands before the exponent. -/
theorem no_letter : ∀ c ∈ w ++ t, (c == 101 || c == 69) = false := by
  have hcases : ∀ c ∈ w ++ t, isDigit c = true ∨ c = 46 := by
    rw [List.forall_mem_append]
    refine ⟨fun c hc => .inl (List.all_eq_true.mp hw c hc), ?_⟩
    rcases ht with ⟨rfl, rfl⟩ | rfl
    · nofun
    · exact List.forall_mem_cons.mpr ⟨.inr rfl, fun c hc => .inl (List.all_eq_true.mp hd c hc)⟩
  intro c hc
  rw [Bool.or_eq_false_iff, beq_eq_false_iff_ne, beq_eq_false_iff_ne]
  rcases hcases c hc with hc | rfl
  · have hc := isDigit_iff.mp hc
    omega
  · decide

end

/-- A literal comes down to its digits and to how many of them are a fraction. -/
theorem normalizeNumber_eq {s : Str} {l : Literal} (h : Number ascii s l []) (hexp : ∀ e ∈ l.exponent, -100000 ≤ e ∧ e ≤ 100000) :
    ∃ digits scale, digits.all isDigit = true ∧ Json.literalValue l = decimalValue digits * 10 ^ (-scale) ∧
      normalizeNumber s = if trimLeft digits = [] then zero l.neg else scaled l.neg (trimLeft digits) scale := by
  obtain ⟨sign, whole, fraction, exponent⟩ := h
  rename_i neg w f e
  obtain ⟨hexponent, hsplit⟩ := exponent_text exponent hexp
  obtain ⟨t, d, rfl, ht, hd, hf, hfraction⟩ := fraction_text fraction
  obtain ⟨w, rfl, hw, hw0, rfl, hwhole⟩ := whole_text whole
  have hmatch : matchString jsonNumberPattern s = true := by
    obtain ⟨c, hc⟩ := ((sign_reads sign).seq (hwhole.seq (hfraction.seq hexponent))) none
    exact List.any_eq_true.mpr ⟨_, hc, rfl⟩
  obtain ⟨hneg, hvalue⟩ := head_sign sign hw hw0
  refine ⟨w ++ d, d.length - e.getD 0, ?_, ?_, ?_⟩
  · rw [List.all_append, hw, hd]
    rfl
  · rw [Json.literalValue, hf, ← List.map_append, List.length_map, neg_sub]
    rfl
  · rw [← List.append_assoc] at hvalue
    simp only [normalizeNumber, ensure_true hmatch, ok_bind, hneg, hvalue, hsplit _ (no_letter hw ht hd), splitFraction_eq hw ht]

/-- A literal is normalized to the number that it denotes, if that is a safe integer and no negative zero. -/
theorem normalizeNumber_iff {s : Str} {l : Literal} (h : Number ascii s l [])
    (hexp : ∀ e ∈ l.exponent, -100000 ≤ e ∧ e ≤ 100000) (n : Int) :
    normalizeNumber s = .ok n ↔
      (n : ℚ) = (if l.neg then -1 else 1) * Json.literalValue l ∧ |n| ≤ maxSafeInteger ∧ ¬(l.neg = true ∧ n = 0) := by
  obtain ⟨digits, scale, hdigits, hvalue, hnormal⟩ := normalizeNumber_eq h hexp
  rw [hnormal, hvalue, ← decimalValue_trimLeft digits]
  by_cases hzero : trimLeft digits = []
  · -- Zeros denote zero, which is an integer unless it is written with a sign.
    have hcast : ∀ x y : ℚ, (n : ℚ) = x * ((decimalValue [] : Nat) * y) ↔ n = 0 := fun x y => by simp [decimalValue, ofDigits]
    rw [if_pos hzero, hzero, hcast]
    cases l.neg with
    | true => exact iff_of_false (by rintro ⟨⟩) fun h => h.2.2 ⟨rfl, h.1⟩
    | false =>
      constructor
      · rintro ⟨⟩
        exact ⟨rfl, by decide, by simp⟩
      · rintro ⟨rfl, -⟩
        rfl
  · have htrimmed := trimmed_trimLeft hdigits hzero
    rw [if_neg hzero, scaled_eq_ok htrimmed, and_congr_right_iff]
    refine fun heq => (and_iff_left ?_).symm
    rintro ⟨-, rfl⟩
    have hpos := htrimmed.pos
    rw [Int.cast_zero, eq_comm, mul_eq_zero, mul_eq_zero, Nat.cast_eq_zero] at heq
    rcases heq with hsign | hdigits | hpower
    · revert hsign
      split_ifs <;> simp
    · omega
    · exact zpow_ne_zero _ (by decide) hpower

theorem normalizeNumber_shifted : normalizeNumber (Str.lit "-12.500e3") = .ok (-12500) := by
  have hwhole : Whole ascii (Str.lit "12.500e3") [1, 2] (Str.lit ".500e3") := .digits (by decide) (.cons rfl (.nil _))
  have hfraction : Fraction ascii (Str.lit ".500e3") (some [5, 0, 0]) (Str.lit "e3") :=
    .some (.cons rfl (.cons rfl (.cons rfl (.nil _)))) (List.cons_ne_nil _ _)
  have hexponent : Exponent ascii (Str.lit "e3") (some (1 * ofDigits [3])) [] :=
    .some (.inl rfl) (.none _) (.cons rfl (.nil _)) (List.cons_ne_nil _ _)
  refine (normalizeNumber_iff (.intro (.minus _) hwhole hfraction hexponent) ?_ _).mpr ⟨?_, by decide, by decide⟩
  · rintro e ⟨⟩
    decide
  · norm_num [Json.literalValue, ofDigits]

end Go
end LeanCtx
