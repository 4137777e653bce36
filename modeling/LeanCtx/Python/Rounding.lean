import LeanCtx.Python.Number
import Mathlib.Algebra.Order.Archimedean.Basic
import Mathlib.Algebra.Order.Field.Power
import Mathlib.Tactic.FieldSimp
import Mathlib.Tactic.Linarith
import Mathlib.Tactic.NormNum
import Mathlib.Tactic.Positivity
import Mathlib.Data.Rat.Cast.Order

/-! Rounding a fraction to the nearest binary64 value. A fraction that lies within `1 / (2·10^16)` of a float,
    relative to the float, rounds to that float (`ofFraction_of_close`): half a unit in the last place of a
    significand is a larger part of it, also just below a power of two. -/

namespace LeanCtx
namespace PyFloat

/-- The integer nearest to a fraction, when it is nearer than half. -/
theorem roundHalfEven_eq {a b m : Nat} (hb : 0 < b) (h : |(a / b : ℚ) - m| < 1 / 2) : roundHalfEven a b = m := by
  have hbq : (0 : ℚ) < b := by exact_mod_cast hb
  obtain ⟨hlo, hhi⟩ := abs_lt.mp h
  have hlt : 2 * m * b < 2 * a + b := by
    have : (m - 1 / 2 : ℚ) < a / b := by linarith
    rw [lt_div_iff₀ hbq] at this
    exact_mod_cast (show (2 * m * b : ℚ) < 2 * a + b by linarith)
  have hgt : 2 * a < 2 * m * b + b := by
    have : (a / b : ℚ) < m + 1 / 2 := by linarith
    rw [div_lt_iff₀ hbq] at this
    exact_mod_cast (show (2 * a : ℚ) < 2 * m * b + b by linarith)
  have hdiv : b * (a / b) + a % b = a := Nat.div_add_mod a b
  have hmod : a % b < b := Nat.mod_lt a hb
  unfold roundHalfEven
  generalize a / b = q at hdiv ⊢
  generalize a % b = r at hdiv hmod ⊢
  subst hdiv
  -- the nearest integer is the quotient or the one above it
  have hle : q ≤ m := by
    by_contra hlt'
    have : (m + 1) * b ≤ q * b := Nat.mul_le_mul_right b (by omega)
    nlinarith
  have hge : m ≤ q + 1 := by
    by_contra hlt'
    have : (q + 2) * b ≤ m * b := Nat.mul_le_mul_right b (by omega)
    nlinarith
  obtain rfl | rfl : m = q ∨ m = q + 1 := by omega
  · have hr : 2 * r < b := by nlinarith
    simp [hr]
  · have hr : b < 2 * r := by nlinarith
    simp [hr, Nat.lt_asymm hr]

theorem shift_pos (num : Nat) {den : Nat} (hd : 0 < den) (k : ℤ) : 0 < (shift num den k).2 := by
  unfold shift
  split_ifs
  · positivity
  · exact hd

theorem shift_div (num den : Nat) (k : ℤ) :
    ((shift num den k).1 / (shift num den k).2 : ℚ) = num / den / 2 ^ k := by
  unfold shift
  split_ifs with hk
  · obtain ⟨n, rfl⟩ := Int.eq_ofNat_of_zero_le hk
    simp [div_div]
  · obtain ⟨n, rfl⟩ : ∃ n : ℕ, k = -n := ⟨(-k).toNat, by omega⟩
    simp only [neg_neg, Int.toNat_natCast, zpow_neg, zpow_natCast, div_inv_eq_mul]
    push_cast
    ring

/-- The float of a rounded significand: one that reached the next power of two moves the exponent. -/
def pack (neg : Bool) (mant : Nat) (exp : ℤ) : PyFloat :=
  let (m, k) := if mant = 2 ^ 53 then (2 ^ 52, exp + 1) else (mant, exp)
  if h : isBinary64 m k = true then .finite neg m k h else .inf neg

theorem pack_of_lt (neg : Bool) {mant : Nat} {exp : ℤ} (h : isBinary64 mant exp = true) :
    pack neg mant exp = .finite neg mant exp h := by
  have hlt : mant < 2 ^ 53 := by
    simp only [isBinary64, Bool.and_eq_true, decide_eq_true_eq] at h
    exact h.1.1.1
  unfold pack
  rw [if_neg hlt.ne]
  exact dif_pos h

theorem pack_carry (neg : Bool) {exp : ℤ} (h : isBinary64 (2 ^ 52) (exp + 1) = true) :
    pack neg (2 ^ 53) exp = .finite neg (2 ^ 52) (exp + 1) h := by
  unfold pack
  rw [if_pos rfl]
  exact dif_pos h

/-- Two powers of two as the exponents say. -/
theorem lt_of_two_zpow_lt {a b : ℤ} (h : (2 : ℚ) ^ a < 2 ^ b) : a < b :=
  (zpow_lt_zpow_iff_right₀ (by norm_num)).mp h

theorem two_zpow_add (n : ℕ) (k : ℤ) : (2 : ℚ) ^ (n + k) = 2 ^ n * 2 ^ k := by
  rw [zpow_add₀ (by norm_num), zpow_natCast]

/-- The fraction lies between the powers of two that the bit lengths of its parts tell. -/
theorem log2_bounds {num den : Nat} (hn : 0 < num) (hd : 0 < den) :
    (2 : ℚ) ^ ((Nat.log2 num : ℤ) - Nat.log2 den - 1) < num / den ∧
      (num / den : ℚ) < 2 ^ ((Nat.log2 num : ℤ) - Nat.log2 den + 1) := by
  have hdq : (0 : ℚ) < den := by exact_mod_cast hd
  have hn1 : ((2 : ℚ) ^ (Nat.log2 num : ℤ)) ≤ num := by exact_mod_cast Nat.log2_self_le hn.ne'
  have hn2 : (num : ℚ) < 2 ^ ((Nat.log2 num : ℤ) + 1) := by exact_mod_cast Nat.lt_log2_self (n := num)
  have hd1 : ((2 : ℚ) ^ (Nat.log2 den : ℤ)) ≤ den := by exact_mod_cast Nat.log2_self_le hd.ne'
  have hd2 : (den : ℚ) < 2 ^ ((Nat.log2 den : ℤ) + 1) := by exact_mod_cast Nat.lt_log2_self (n := den)
  constructor
  · rw [lt_div_iff₀ hdq]
    calc (2 : ℚ) ^ ((Nat.log2 num : ℤ) - Nat.log2 den - 1) * den
        < 2 ^ ((Nat.log2 num : ℤ) - Nat.log2 den - 1) * 2 ^ ((Nat.log2 den : ℤ) + 1) := by gcongr
      _ = 2 ^ (Nat.log2 num : ℤ) := by rw [← zpow_add₀ (by norm_num)]; congr 1; ring
      _ ≤ num := hn1
  · rw [div_lt_iff₀ hdq]
    calc (num : ℚ) < 2 ^ ((Nat.log2 num : ℤ) + 1) := hn2
      _ = 2 ^ ((Nat.log2 num : ℤ) - Nat.log2 den + 1) * 2 ^ (Nat.log2 den : ℤ) := by
        rw [← zpow_add₀ (by norm_num)]; congr 1; ring
      _ ≤ 2 ^ ((Nat.log2 num : ℤ) - Nat.log2 den + 1) * den := by gcongr

/-- The nearest float of a fraction whose size is known: `2^52 ≤ q / 2^k < 2^53`. -/
theorem ofFraction_eq (neg : Bool) {num den : Nat} (hn : 0 < num) (hd : 0 < den) {k : ℤ}
    (hlo : (2 : ℚ) ^ (52 + k) ≤ num / den) (hhi : (num / den : ℚ) < 2 ^ (53 + k)) :
    ofFraction neg num den =
      pack neg (roundHalfEven (shift num den (max k (-1074))).1 (shift num den (max k (-1074))).2)
        (max k (-1074)) := by
  obtain ⟨hlog1, hlog2⟩ := log2_bounds hn hd
  have h1 := lt_of_two_zpow_lt (lt_of_le_of_lt hlo hlog2)
  have h2 := lt_of_two_zpow_lt (lt_trans hlog1 hhi)
  -- the first guess of the exponent is `k` or one above it, and the comparison tells which
  have hguess : (let g := (Nat.log2 num : ℤ) - Nat.log2 den - 52
      if (shift num den g).1 < (shift num den g).2 * 2 ^ 52 then g - 1 else g) = k := by
    simp only
    generalize (Nat.log2 num : ℤ) - Nat.log2 den = g at h1 h2 ⊢
    have hpos := shift_pos num hd (g - 52)
    have hdiv := shift_div num den (g - 52)
    have hcmp : (shift num den (g - 52)).1 < (shift num den (g - 52)).2 * 2 ^ 52 ↔ (num / den : ℚ) < 2 ^ g := by
      have hpow : (2 : ℚ) ^ g = 2 ^ 52 * 2 ^ (g - 52) := by
        rw [← two_zpow_add]
        congr 1
        push_cast
        ring
      rw [hpow, ← div_lt_iff₀ (by positivity), ← hdiv, div_lt_iff₀ (by exact_mod_cast hpos), mul_comm]
      norm_cast
    by_cases hlt : (num / den : ℚ) < 2 ^ g
    · rw [if_pos (hcmp.mpr hlt)]
      have := lt_of_two_zpow_lt (lt_of_le_of_lt hlo hlt)
      omega
    · rw [if_neg fun h => hlt (hcmp.mp h)]
      have := lt_of_two_zpow_lt (lt_of_le_of_lt (not_lt.mp hlt) hhi)
      omega
  simp only at hguess
  simp only [ofFraction, hguess, if_neg hn.ne', pack]

/-- A fraction close enough to a float rounds to it. -/
theorem ofFraction_of_close {neg : Bool} {m : Nat} {e : ℤ} (hv : isBinary64 m e = true) (hm : 0 < m)
    {num den : Nat} (hd : 0 < den) (h : 2 * 10 ^ 16 * |(num / den : ℚ) - m * 2 ^ e| ≤ m * 2 ^ e) :
    ofFraction neg num den = .finite neg m e hv := by
  have hfloat := hv
  simp only [isBinary64, Bool.and_eq_true, Bool.or_eq_true, decide_eq_true_eq, beq_iff_eq] at hfloat
  obtain ⟨⟨⟨hm53, hemin⟩, hemax⟩, hnormal⟩ := hfloat
  have hmq : (1 : ℚ) ≤ m := by exact_mod_cast hm
  have hm53q : (m : ℚ) + 1 ≤ 2 ^ 53 := by exact_mod_cast hm53
  have hE : (0 : ℚ) < 2 ^ e := by positivity
  have hq : (0 : ℚ) < num / den := by
    by_contra hle
    have : (m : ℚ) * 2 ^ e ≤ |(num / den : ℚ) - m * 2 ^ e| := by
      rw [abs_of_nonpos (by nlinarith [mul_pos (lt_of_lt_of_le one_pos hmq) hE])]
      linarith
    nlinarith [mul_pos (lt_of_lt_of_le one_pos hmq) hE]
  have hn : 0 < num := by
    rcases Nat.eq_zero_or_pos num with rfl | hn
    · simp at hq
    · exact hn
  obtain ⟨j, hj1, hj2⟩ := exists_mem_Ico_zpow hq (by norm_num : (1 : ℚ) < 2)
  obtain ⟨k, rfl⟩ : ∃ k, j = 52 + k := ⟨j - 52, by ring⟩
  rw [show 52 + k + 1 = 53 + k by ring] at hj2
  rw [ofFraction_eq neg hn hd hj1 hj2]
  rw [show (2 : ℚ) ^ (52 + k) = 2 ^ 52 * 2 ^ k from two_zpow_add 52 k] at hj1
  rw [show (2 : ℚ) ^ (53 + k) = 2 ^ 53 * 2 ^ k from two_zpow_add 53 k] at hj2
  generalize hQ : (num / den : ℚ) = q at hq hj1 hj2 h
  have hdist := abs_le.mp (show |q - m * 2 ^ e| ≤ m * 2 ^ e / (2 * 10 ^ 16) by
    rw [le_div_iff₀ (by norm_num)]; linarith)
  have hround : ∀ (k' : ℤ) (n : Nat), |q / 2 ^ k' - n| < 1 / 2 →
      roundHalfEven (shift num den k').1 (shift num den k').2 = n := by
    intro k' n hk'
    refine roundHalfEven_eq (shift_pos num hd k') ?_
    rw [shift_div num den k', hQ]
    exact hk'
  rcases lt_trichotomy (max k (-1074)) e with hlt | heq | hgt
  · -- the fraction lies just below the power of two that the float is
    have hke : k + 1 ≤ e := by omega
    have h52 : 2 ^ 52 ≤ m := by
      rcases hnormal with h52 | hmin
      · exact h52
      · omega
    have h52q : (2 : ℚ) ^ 52 ≤ m := by exact_mod_cast h52
    have hpow : (2 : ℚ) * 2 ^ k ≤ 2 ^ e := by
      calc (2 : ℚ) * 2 ^ k = 2 ^ (k + 1) := by rw [zpow_add₀ (by norm_num)]; ring
        _ ≤ 2 ^ e := zpow_le_zpow_right₀ (by norm_num) hke
    have hm : m = 2 ^ 52 := by
      by_contra hne
      have hnext : (2 : ℚ) ^ 52 + 1 ≤ m := by exact_mod_cast (show 2 ^ 52 + 1 ≤ m by omega)
      have hmul := mul_le_mul_of_nonneg_right hnext hE.le
      linarith
    subst hm
    have hk : k + 1 = e := by
      by_contra hne
      have : (4 : ℚ) * 2 ^ k ≤ 2 ^ e := by
        calc (4 : ℚ) * 2 ^ k = 2 ^ (k + 2) := by rw [zpow_add₀ (by norm_num)]; ring
          _ ≤ 2 ^ e := zpow_le_zpow_right₀ (by norm_num) (by omega)
      push_cast at hdist
      norm_num at hj2 hdist
      nlinarith
    subst hk
    rw [max_eq_left (by omega), hround k (2 ^ 53), pack_carry neg hv]
    have hk0 : (0 : ℚ) < 2 ^ k := by positivity
    have hpow' : (2 : ℚ) ^ (k + 1) = 2 * 2 ^ k := by rw [zpow_add₀ (by norm_num)]; ring
    rw [hpow'] at hdist
    rw [abs_lt, lt_sub_iff_add_lt, sub_lt_iff_lt_add, lt_div_iff₀ hk0, div_lt_iff₀ hk0]
    push_cast at hdist ⊢
    norm_num at hdist hj2 ⊢
    constructor <;> nlinarith
  · rw [heq, hround e m, pack_of_lt neg hv]
    rw [abs_lt, lt_sub_iff_add_lt, sub_lt_iff_lt_add, lt_div_iff₀ hE, div_lt_iff₀ hE]
    norm_num at hdist hm53q ⊢
    constructor <;> nlinarith
  · -- the fraction is at least twice the largest significand
    have hke : e + 1 ≤ k := by omega
    have : (2 : ℚ) * 2 ^ e ≤ 2 ^ k := by
      calc (2 : ℚ) * 2 ^ e = 2 ^ (e + 1) := by rw [zpow_add₀ (by norm_num)]; ring
        _ ≤ 2 ^ k := zpow_le_zpow_right₀ (by norm_num) hke
    norm_num at hj1 hdist hm53q
    nlinarith

end PyFloat
end LeanCtx
