import LeanCtx.Python.Rounding
import Mathlib.Algebra.Order.Floor.Ring
import Mathlib.Data.Rat.Floor

/-! Products of floats with integers, and the integer part of a float: they keep the order. -/

namespace LeanCtx
namespace PyFloat

/-- The integer and the positive natural number whose quotient a finite float is. -/
def fraction (neg : Bool) (mant : Nat) (exp : Int) : Int × Nat :=
  ((if neg then -1 else 1) * (if 0 ≤ exp then mant * 2 ^ exp.toNat else mant : Nat), if 0 ≤ exp then 1 else 2 ^ (-exp).toNat)

/-- `x <= y` of floats. -/
def le : PyFloat → PyFloat → Bool
  | .inf true, _ => true
  | .inf false, y => y = .inf false
  | .finite .., .inf neg => !neg
  | .finite neg m e _, .finite neg' m' e' _ =>
    (fraction neg m e).1 * (fraction neg' m' e').2 ≤ (fraction neg' m' e').1 * (fraction neg m e).2

/-- `x * n`. -/
def times (n : Nat) : PyFloat → PyFloat
  | .inf neg => .inf neg
  | .finite neg m e _ => ofFraction neg (if 0 ≤ e then m * 2 ^ e.toNat * n else m * n) (if 0 ≤ e then 1 else 2 ^ (-e).toNat)

/-- `int(x)`, none for an infinity. -/
def truncate? : PyFloat → Option Int
  | .inf _ => none
  | .finite neg m e _ => some ((if neg then -1 else 1) * (if 0 ≤ e then m * 2 ^ e.toNat else m / 2 ^ (-e).toNat : Nat))

/-- The number that a finite float is. -/
def toRat : PyFloat → ℚ
  | .inf _ => 0
  | .finite neg m e _ => (if neg then -1 else 1) * m * 2 ^ e

theorem fraction_eq (neg : Bool) (m : Nat) (e : Int) : ((fraction neg m e).1 / (fraction neg m e).2 : ℚ) = (if neg then -1 else 1) * m * 2 ^ e := by
  unfold fraction
  split_ifs with hneg he he
  all_goals
    first
    | (obtain ⟨n, rfl⟩ := Int.eq_ofNat_of_zero_le he
       simp)
    | (obtain ⟨n, rfl⟩ : ∃ n : ℕ, e = -n := ⟨(-e).toNat, by omega⟩
       simp [div_eq_mul_inv])

theorem fraction_pos (neg : Bool) (m : Nat) (e : Int) : 0 < (fraction neg m e).2 := by
  unfold fraction
  split_ifs <;> positivity

theorem le_finite {neg neg' : Bool} {m m' : Nat} {e e' : Int} {h : isBinary64 m e = true} {h' : isBinary64 m' e' = true} :
    le (.finite neg m e h) (.finite neg' m' e' h') = true ↔ toRat (.finite neg m e h) ≤ toRat (.finite neg' m' e' h') := by
  have hpos : (0 : ℚ) < (fraction neg m e).2 := by exact_mod_cast fraction_pos neg m e
  have hpos' : (0 : ℚ) < (fraction neg' m' e').2 := by exact_mod_cast fraction_pos neg' m' e'
  rw [toRat, toRat, ← fraction_eq, ← fraction_eq, div_le_div_iff₀ hpos hpos', le, decide_eq_true_eq]
  norm_cast

theorem le_refl (x : PyFloat) : le x x = true := by
  cases x with
  | inf neg => cases neg <;> rfl
  | finite neg m e h => exact le_finite.mpr le_rfl

theorem le_trans {x y z : PyFloat} (hxy : le x y = true) (hyz : le y z = true) : le x z = true := by
  cases x with
  | inf neg =>
    cases neg with
    | true => rfl
    | false =>
      have hy : y = .inf false := of_decide_eq_true hxy
      rw [hy] at hyz
      exact hyz
  | finite neg m e h =>
    cases y with
    | inf neg' =>
      cases neg' with
      | true => cases hxy
      | false =>
        have hz : z = .inf false := of_decide_eq_true hyz
        rw [hz]
        rfl
    | finite neg' m' e' h' =>
      cases z with
      | inf neg'' => exact hyz
      | finite neg'' m'' e'' h'' => exact le_finite.mpr ((le_finite.mp hxy).trans (le_finite.mp hyz))

/-! ### Rounding keeps the order -/

/-- The nearest integer is at most one half away, and even where it is as far as that. -/
theorem roundHalfEven_spec (a : Nat) {b : Nat} (hb : 0 < b) :
    |(a / b : ℚ) - roundHalfEven a b| < 1 / 2 ∨ |(a / b : ℚ) - roundHalfEven a b| = 1 / 2 ∧ roundHalfEven a b % 2 = 0 := by
  have hbq : (0 : ℚ) < b := by exact_mod_cast hb
  have hdiv : (a : ℚ) = b * (a / b : Nat) + (a % b : Nat) := by exact_mod_cast (Nat.div_add_mod a b).symm
  have hmod : a % b < b := Nat.mod_lt a hb
  have hquotient : (a / b : ℚ) = (a / b : Nat) + (a % b : Nat) / b := by
    rw [div_eq_iff hbq.ne', add_mul, div_mul_cancel₀ _ hbq.ne']
    linarith
  rw [hquotient]
  unfold roundHalfEven
  generalize a / b = q
  generalize a % b = r at hmod
  have hr : (0 : ℚ) ≤ r / b := by positivity
  simp only
  split_ifs with hlow hhigh heven
  · left
    have hlt : (r / b : ℚ) < 1 / 2 := by
      rw [div_lt_iff₀ hbq]
      have hcast : (2 * r : ℚ) < b := by exact_mod_cast hlow
      linarith
    rw [add_sub_cancel_left, abs_of_nonneg hr]
    exact hlt
  · left
    have hgt : (1 / 2 : ℚ) < r / b := by
      rw [lt_div_iff₀ hbq]
      have hcast : (b : ℚ) < 2 * r := by exact_mod_cast hhigh
      linarith
    have hlt : (r / b : ℚ) < 1 := by
      rw [div_lt_one hbq]
      exact_mod_cast hmod
    rw [abs_lt]
    push_cast
    constructor <;> linarith
  · right
    have htie : (r / b : ℚ) = 1 / 2 := by
      rw [div_eq_iff hbq.ne']
      have hcast : (2 * r : ℚ) = b := by exact_mod_cast (show 2 * r = b by omega)
      linarith
    refine ⟨?_, heven⟩
    rw [add_sub_cancel_left, htie]
    norm_num
  · right
    have htie : (r / b : ℚ) = 1 / 2 := by
      rw [div_eq_iff hbq.ne']
      have hcast : (2 * r : ℚ) = b := by exact_mod_cast (show 2 * r = b by omega)
      linarith
    refine ⟨?_, by omega⟩
    rw [htie]
    push_cast
    norm_num

theorem roundHalfEven_mono {a b c d : Nat} (hb : 0 < b) (hd : 0 < d) (h : (a / b : ℚ) ≤ c / d) : roundHalfEven a b ≤ roundHalfEven c d := by
  have hab := roundHalfEven_spec a hb
  have hcd := roundHalfEven_spec c hd
  by_contra hlt
  have hstep : (roundHalfEven c d : ℚ) + 1 ≤ roundHalfEven a b := by exact_mod_cast Nat.lt_of_not_le hlt
  -- both fractions are the midpoint, which rounds to one even integer
  have hab' : |(a / b : ℚ) - roundHalfEven a b| ≤ 1 / 2 := hab.elim le_of_lt fun h => h.1.le
  have hcd' : |(c / d : ℚ) - roundHalfEven c d| ≤ 1 / 2 := hcd.elim le_of_lt fun h => h.1.le
  obtain ⟨hab1, hab2⟩ := abs_le.mp hab'
  obtain ⟨hcd1, hcd2⟩ := abs_le.mp hcd'
  rcases hab with hab | ⟨-, heven⟩
  · obtain ⟨hab3, -⟩ := abs_lt.mp hab
    linarith
  · rcases hcd with hcd | ⟨-, heven'⟩
    · obtain ⟨-, hcd3⟩ := abs_lt.mp hcd
      linarith
    · have hone : (roundHalfEven a b : ℚ) = roundHalfEven c d + 1 := by linarith
      have hone' : roundHalfEven a b = roundHalfEven c d + 1 := by exact_mod_cast hone
      omega

theorem roundHalfEven_one (n : Nat) : roundHalfEven n 1 = n := by simp [roundHalfEven, Nat.mod_one]

/-- What a positive fraction that is no too small and no too large rounds to. -/
theorem toRat_ofFraction {num den : Nat} (hn : 0 < num) (hd : 0 < den) {k : ℤ} (hlo : (2 : ℚ) ^ (52 + k) ≤ num / den)
    (hhi : (num / den : ℚ) < 2 ^ (53 + k)) (hmin : -1074 ≤ k) (hmax : k ≤ 970) :
    ∃ r : Nat, r = roundHalfEven (shift num den k).1 (shift num den k).2 ∧ 2 ^ 52 ≤ r ∧ r ≤ 2 ^ 53 ∧
      ∃ m e h, ofFraction false num den = .finite false m e h ∧ (m : ℚ) * 2 ^ e = r * 2 ^ k := by
  have hpos := shift_pos num hd k
  have hk : (0 : ℚ) < 2 ^ k := by positivity
  have hlow : 2 ^ 52 ≤ roundHalfEven (shift num den k).1 (shift num den k).2 := by
    rw [← roundHalfEven_one (2 ^ 52)]
    refine roundHalfEven_mono one_pos hpos ?_
    have hsplit : ((2 ^ 52 : Nat) : ℚ) / (1 : Nat) * 2 ^ k = 2 ^ (52 + k) := by
      rw [zpow_add₀ two_ne_zero]
      norm_num
    rw [shift_div, le_div_iff₀ hk, hsplit]
    exact hlo
  have hhigh : roundHalfEven (shift num den k).1 (shift num den k).2 ≤ 2 ^ 53 := by
    rw [← roundHalfEven_one (2 ^ 53)]
    refine roundHalfEven_mono hpos one_pos ?_
    have hsplit : ((2 ^ 53 : Nat) : ℚ) / (1 : Nat) * 2 ^ k = 2 ^ (53 + k) := by
      rw [zpow_add₀ two_ne_zero]
      norm_num
    rw [shift_div, div_le_iff₀ hk, hsplit]
    exact hhi.le
  refine ⟨_, rfl, hlow, hhigh, ?_⟩
  rw [ofFraction_eq false hn hd hlo hhi, max_eq_left hmin]
  generalize roundHalfEven (shift num den k).1 (shift num den k).2 = r at hlow hhigh
  rcases hhigh.eq_or_lt with rfl | hlt
  · have hvalid : isBinary64 (2 ^ 52) (k + 1) = true := by
      simp only [isBinary64, Bool.and_eq_true, Bool.or_eq_true, decide_eq_true_eq]
      omega
    refine ⟨2 ^ 52, k + 1, hvalid, pack_carry false hvalid, ?_⟩
    rw [zpow_add₀ (by norm_num)]
    push_cast
    ring
  · have hvalid : isBinary64 r k = true := by
      simp only [isBinary64, Bool.and_eq_true, Bool.or_eq_true, decide_eq_true_eq]
      omega
    exact ⟨r, k, hvalid, pack_of_lt false hvalid, rfl⟩

/-- Rounding keeps the order of fractions between one and a million. -/
theorem ofFraction_mono {a b c d : Nat} (hb : 0 < b) (hd : 0 < d) (hone : (1 : ℚ) ≤ a / b) (h : (a / b : ℚ) ≤ c / d)
    (hmax : (c / d : ℚ) ≤ 10 ^ 6) :
    ∃ m e hv m' e' hv', ofFraction false a b = .finite false m e hv ∧ ofFraction false c d = .finite false m' e' hv' ∧
      (m : ℚ) * 2 ^ e ≤ m' * 2 ^ e' := by
  have hpos : ∀ {n k : Nat}, (1 : ℚ) ≤ n / k → 0 < n := by
    intro n k hnk
    rcases Nat.eq_zero_or_pos n with rfl | hn
    · norm_num at hnk
    · exact hn
  have ha := hpos hone
  have hc := hpos (hone.trans h)
  -- the exponents of both fractions
  have hexp : ∀ {q : ℚ}, 1 ≤ q → q ≤ 10 ^ 6 → ∃ k : ℤ, 2 ^ (52 + k) ≤ q ∧ q < 2 ^ (53 + k) ∧ -1074 ≤ k ∧ k ≤ 970 := by
    intro q hq hq'
    obtain ⟨j, hj1, hj2⟩ := exists_mem_Ico_zpow (lt_of_lt_of_le one_pos hq) (by norm_num : (1 : ℚ) < 2)
    have hlow : (0 : ℤ) < j + 1 := lt_of_two_zpow_lt (by rw [zpow_zero]; exact lt_of_le_of_lt hq hj2)
    have hhigh : j < 20 := by
      refine lt_of_two_zpow_lt (lt_of_le_of_lt (hj1.trans hq') ?_)
      norm_num
    refine ⟨j - 52, ?_, ?_, by omega, by omega⟩
    · rw [show 52 + (j - 52) = j by ring]
      exact hj1
    · rw [show 53 + (j - 52) = j + 1 by ring]
      exact hj2
  obtain ⟨k, hk1, hk2, hk3, hk4⟩ := hexp hone (h.trans hmax)
  obtain ⟨l, hl1, hl2, hl3, hl4⟩ := hexp (hone.trans h) hmax
  obtain ⟨r, hr, -, hr2, m, e, hv, hm, hvalue⟩ := toRat_ofFraction ha hb hk1 hk2 hk3 hk4
  obtain ⟨s, hs, hs1, -, m', e', hv', hm', hvalue'⟩ := toRat_ofFraction hc hd hl1 hl2 hl3 hl4
  refine ⟨m, e, hv, m', e', hv', hm, hm', ?_⟩
  rw [hvalue, hvalue']
  have hkl : k ≤ l := by
    have hlt := lt_of_two_zpow_lt (lt_of_le_of_lt (hk1.trans h) hl2)
    omega
  rcases hkl.eq_or_lt with rfl | hlt
  · -- of one exponent: the significands are rounded in order
    refine mul_le_mul_of_nonneg_right ?_ (by positivity)
    have hrs : r ≤ s := by
      rw [hr, hs]
      refine roundHalfEven_mono (shift_pos a hb k) (shift_pos c hd k) ?_
      rw [shift_div, shift_div]
      exact div_le_div_of_nonneg_right h (by positivity)
    exact_mod_cast hrs
  · calc (r : ℚ) * 2 ^ k ≤ 2 ^ 53 * 2 ^ k := mul_le_mul_of_nonneg_right (by exact_mod_cast hr2) (by positivity)
      _ = 2 ^ 52 * 2 ^ (k + 1) := by rw [zpow_add₀ (by norm_num)]; ring
      _ ≤ 2 ^ 52 * 2 ^ l := by
        refine mul_le_mul_of_nonneg_left ?_ (by norm_num)
        exact zpow_le_zpow_right₀ (by norm_num) hlt
      _ ≤ s * 2 ^ l := mul_le_mul_of_nonneg_right (by exact_mod_cast hs1) (by positivity)

/-! ### Products -/

theorem times_eq {m n : Nat} {e : Int} {h : isBinary64 m e = true} :
    ∃ a b : Nat, 0 < b ∧ (a / b : ℚ) = toRat (.finite false m e h) * n ∧ times n (.finite false m e h) = ofFraction false a b := by
  refine ⟨_, _, ?_, ?_, rfl⟩
  · split_ifs <;> positivity
  · rw [toRat, if_neg Bool.false_ne_true, one_mul]
    split_ifs with he
    · obtain ⟨k, rfl⟩ := Int.eq_ofNat_of_zero_le he
      simp
    · obtain ⟨k, rfl⟩ : ∃ k : ℕ, e = -k := ⟨(-e).toNat, by omega⟩
      simp [div_eq_mul_inv]
      ring

/-- The integer part of a float that is not negative. -/
theorem truncate?_finite {m : Nat} {e : Int} {h : isBinary64 m e = true} :
    truncate? (.finite false m e h) = some ⌊(m : ℚ) * 2 ^ e⌋ := by
  rw [truncate?, if_neg Bool.false_ne_true, one_mul]
  split_ifs with he
  · obtain ⟨k, rfl⟩ := Int.eq_ofNat_of_zero_le he
    have hcast : (m : ℚ) * 2 ^ (k : Int) = (m * 2 ^ k : Nat) := by simp
    rw [hcast, Int.floor_natCast]
    rfl
  · obtain ⟨k, rfl⟩ : ∃ k : ℕ, e = -k := ⟨(-e).toNat, by omega⟩
    have hcast : (m : ℚ) * 2 ^ (-k : Int) = m / (2 ^ k : Nat) := by simp [div_eq_mul_inv]
    rw [hcast, Rat.floor_natCast_div_natCast]
    simp

/-- A float that is at least a positive one is not negative. -/
theorem eq_finite_of_le {m m' : Nat} {e e' : Int} {h : isBinary64 m e = true} {h' : isBinary64 m' e' = true} {x : PyFloat}
    (hpos : 0 < m) (hlow : le (.finite false m e h) x = true) (hhigh : le x (.finite false m' e' h') = true) :
    ∃ n k hx, x = .finite false n k hx := by
  cases x with
  | inf neg =>
    cases neg with
    | false => cases hhigh
    | true => cases hlow
  | finite neg n k hx =>
    cases neg with
    | false => exact ⟨n, k, hx, rfl⟩
    | true =>
      have hvalue := le_finite.mp hlow
      simp only [toRat, Bool.false_eq_true, if_false, if_true, one_mul, neg_mul] at hvalue
      have hleft : (0 : ℚ) < m * 2 ^ e := by positivity
      have hright : (0 : ℚ) ≤ n * 2 ^ k := by positivity
      linarith

/-- The integer parts of the products of floats in order are in order. -/
theorem truncate?_times_mono {x y : PyFloat} {n m m' : Nat} {e e' : Int} {h : isBinary64 m e = true} {h' : isBinary64 m' e' = true}
    (hx : x = .finite false m e h) (hy : y = .finite false m' e' h') (hone : 1 ≤ toRat x * n)
    (hmax : toRat y * n ≤ 10 ^ 6) (hle : toRat x ≤ toRat y) :
    ∃ a b, (x.times n).truncate? = some a ∧ (y.times n).truncate? = some b ∧ a ≤ b := by
  subst hx hy
  obtain ⟨a, b, hb, hab, hx⟩ := times_eq (m := m) (n := n) (e := e) (h := h)
  obtain ⟨c, d, hd, hcd, hy⟩ := times_eq (m := m') (n := n) (e := e') (h := h')
  have hprod : (a / b : ℚ) ≤ c / d := by
    rw [hab, hcd]
    exact mul_le_mul_of_nonneg_right hle (by positivity)
  obtain ⟨p, i, hp, q, j, hq, hleft, hright, hvalue⟩ := ofFraction_mono hb hd (hab ▸ hone) hprod (hcd ▸ hmax)
  exact ⟨_, _, by rw [hx, hleft, truncate?_finite], by rw [hy, hright, truncate?_finite], Int.floor_le_floor hvalue⟩

end PyFloat
end LeanCtx
