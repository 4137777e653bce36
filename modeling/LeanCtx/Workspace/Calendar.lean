import LeanCtx.Workspace.Time
import LeanCtx.Python.Padded
import Mathlib.Algebra.Order.BigOperators.Group.Finset
import Mathlib.Order.Interval.Finset.Nat

/-! The instants that times denote, and their canonical text. Components in order are instants in order, and so are texts of fixed
    width: comparing the texts compares the instants. -/

namespace LeanCtx

/-- The blocks before a later one hold an earlier one whole. -/
theorem sum_Ico_add_le (f : Nat → Nat) {s a b : Nat} (hs : s ≤ a) (h : a < b) :
    ∑ i ∈ Finset.Ico s a, f i + f a ≤ ∑ i ∈ Finset.Ico s b, f i := by
  rw [← Finset.sum_Ico_succ_top hs]
  exact Finset.sum_le_sum_of_subset (Finset.Ico_subset_Ico le_rfl h)

/-! ### Digits -/

/-- Equally many digits spell the same number only where they are the same. -/
theorem decimalValue_inj {s r : Str} (hlen : s.length = r.length) (hs : s.all isDigit = true) (hr : r.all isDigit = true)
    (h : decimalValue s = decimalValue r) : s = r := by
  induction s generalizing r with
  | nil => exact (List.eq_nil_of_length_eq_zero hlen.symm).symm
  | cons c s ih =>
    cases r with
    | nil => cases hlen
    | cons d r =>
      rw [List.all_cons, Bool.and_eq_true] at hs hr
      have hlen' : s.length = r.length := Nat.succ.inj hlen
      have hsv := decimalValue_lt hs.2
      have hrv := decimalValue_lt hr.2
      have hc := hs.1
      have hd := hr.1
      simp only [isDigit, Bool.and_eq_true, decide_eq_true_eq] at hc hd
      simp only [decimalValue, List.map_cons, ofDigits_cons, List.length_map, hlen'] at h hsv hrv
      have hfirst : c - 48 = d - 48 := by
        rcases lt_trichotomy (c - 48) (d - 48) with hlt | heq | hlt
        · have hle := Nat.mul_le_mul_right (10 ^ r.length) (Nat.succ_le_of_lt hlt)
          rw [Nat.succ_mul] at hle
          omega
        · exact heq
        · have hle := Nat.mul_le_mul_right (10 ^ r.length) (Nat.succ_le_of_lt hlt)
          rw [Nat.succ_mul] at hle
          omega
      rw [hfirst] at h
      rw [ih hlen' hs.2 hr.2 (Nat.add_left_cancel h), show c = d by omega]

/-- Digits in the width of their number are the text of it. -/
theorem paddedText_decimalValue {s : Str} (hs : s.all isDigit = true) (hne : s ≠ []) : paddedText s.length (decimalValue s) = s := by
  refine decimalValue_inj ?_ (isDigit_paddedText _ _) hs (decimalValue_paddedText _ _)
  exact length_paddedText (List.length_pos_iff.mpr hne) (decimalValue_lt hs)

/-! ### Days -/

def daysBeforeMonth (y m : Nat) : Nat := ∑ i ∈ Finset.Ico 1 m, daysInMonth y i

def yearLength (y : Nat) : Nat := daysBeforeMonth y 13

def daysBeforeYear (y : Nat) : Nat := ∑ i ∈ Finset.Ico 1 y, yearLength i

namespace DateTime

/-- `date.toordinal()`: the first day of the year 1 has the number one. -/
def ordinal (t : DateTime) : Nat := daysBeforeYear t.year + daysBeforeMonth t.year t.month + t.day

/-- The seconds up to the instant, fractions apart. -/
def seconds (t : DateTime) : Nat := ((t.ordinal * 24 + t.hour) * 60 + t.minute) * 60 + t.second

theorem dayOfYear_le (t : DateTime) : daysBeforeMonth t.year t.month + t.day ≤ yearLength t.year := by
  obtain ⟨-, ⟨hm, hm'⟩, ⟨-, hd⟩, -⟩ := t.valid
  have := sum_Ico_add_le (daysInMonth t.year) hm (Nat.lt_succ_of_le hm')
  exact (Nat.add_le_add_left hd _).trans this

variable {t u : DateTime}

theorem ordinal_lt_of_year (h : t.year < u.year) : t.ordinal < u.ordinal := by
  have hyear := sum_Ico_add_le yearLength t.valid.1.1 h
  have hday := t.dayOfYear_le
  have hfirst := u.valid.2.2.1.1
  unfold ordinal daysBeforeYear
  omega

theorem ordinal_lt_of_month (hyear : t.year = u.year) (h : t.month < u.month) : t.ordinal < u.ordinal := by
  have hmonth := sum_Ico_add_le (daysInMonth t.year) t.valid.2.1.1 h
  have hday := t.valid.2.2.1.2
  have hfirst := u.valid.2.2.1.1
  unfold ordinal daysBeforeMonth
  rw [← hyear]
  omega

theorem seconds_lt_of_ordinal (h : t.ordinal < u.ordinal) : t.seconds < u.seconds := by
  obtain ⟨-, -, -, hh, hm, hs, -⟩ := t.valid
  unfold seconds
  omega

/-- Components in order are instants in order. -/
theorem seconds_lt (h : t.parts < u.parts) (hmicro : t.microsecond = u.microsecond) : t.seconds < u.seconds := by
  obtain ⟨-, -, -, hh, hm, hs, -⟩ := t.valid
  simp only [parts, List.cons_lt_cons_iff, hmicro, lt_irrefl, and_false, or_false] at h
  rcases h with h | ⟨hyear, h | ⟨hmonth, h⟩⟩
  · exact seconds_lt_of_ordinal (ordinal_lt_of_year h)
  · exact seconds_lt_of_ordinal (ordinal_lt_of_month hyear h)
  · have hdays : daysBeforeYear t.year + daysBeforeMonth t.year t.month = daysBeforeYear u.year + daysBeforeMonth u.year u.month := by
      rw [hyear, hmonth]
    unfold seconds ordinal
    omega

/-! ### Texts -/

/-- The canonical text of a time in whole seconds, every number in its width. -/
def canonicalText (t : DateTime) : Str :=
  paddedText 4 t.year ++ 45 :: (paddedText 2 t.month ++ 45 :: (paddedText 2 t.day ++ 84 :: (paddedText 2 t.hour ++
    58 :: (paddedText 2 t.minute ++ 58 :: (paddedText 2 t.second ++ [90])))))

theorem paddedText_append_lt {w m n : Nat} (hw : 0 < w) (h : m < n) (hn : n < 10 ^ w) (s r : Str) :
    paddedText w m ++ s < paddedText w n ++ r := by
  refine lt_of_decimalValue_lt s r ?_ (isDigit_paddedText w m) (isDigit_paddedText w n) ?_
  · rw [length_paddedText hw (h.trans hn), length_paddedText hw hn]
  · rwa [decimalValue_paddedText, decimalValue_paddedText]

theorem append_cons_lt (p : Str) (c : Nat) {s r : Str} (h : s < r) : p ++ c :: s < p ++ c :: r := by
  induction p with
  | nil => exact List.cons_lt_cons_iff.mpr (Or.inr ⟨rfl, h⟩)
  | cons d p ih => exact List.cons_lt_cons_iff.mpr (Or.inr ⟨rfl, ih⟩)

/-- Components in order have canonical texts in order. -/
theorem canonicalText_lt (h : t.parts < u.parts) (hmicro : t.microsecond = u.microsecond) : t.canonicalText < u.canonicalText := by
  obtain ⟨⟨-, hy⟩, ⟨-, hmo⟩, ⟨-, hd⟩, hh, hm, hs, -⟩ := u.valid
  have hday : u.day ≤ 31 := hd.trans (by unfold daysInMonth; split_ifs <;> omega)
  simp only [parts, List.cons_lt_cons_iff, hmicro, lt_irrefl, and_false, or_false] at h
  unfold canonicalText
  rcases h with h | ⟨hyear, h⟩
  · exact paddedText_append_lt (by decide) h (by omega) _ _
  rw [hyear]
  refine append_cons_lt _ _ ?_
  rcases h with h | ⟨hmonth, h⟩
  · exact paddedText_append_lt (by decide) h (by omega) _ _
  rw [hmonth]
  refine append_cons_lt _ _ ?_
  rcases h with h | ⟨hday', h⟩
  · exact paddedText_append_lt (by decide) h (by omega) _ _
  rw [hday']
  refine append_cons_lt _ _ ?_
  rcases h with h | ⟨hhour, h⟩
  · exact paddedText_append_lt (by decide) h (by omega) _ _
  rw [hhour]
  refine append_cons_lt _ _ ?_
  rcases h with h | ⟨hminute, h⟩
  · exact paddedText_append_lt (by decide) h (by omega) _ _
  rw [hminute]
  exact append_cons_lt _ _ (paddedText_append_lt (by decide) h (by omega) _ _)

/-- Texts in order denote instants in order. -/
theorem seconds_lt_of_canonicalText (ht : t.microsecond = 0) (hu : u.microsecond = 0) (h : t.canonicalText < u.canonicalText) :
    t.seconds < u.seconds := by
  rcases lt_trichotomy t.parts u.parts with hlt | heq | hlt
  · exact seconds_lt hlt (ht.trans hu.symm)
  · simp only [parts, List.cons.injEq] at heq
    rw [canonicalText, canonicalText, heq.1, heq.2.1, heq.2.2.1, heq.2.2.2.1, heq.2.2.2.2.1, heq.2.2.2.2.2.1] at h
    exact absurd h (lt_irrefl _)
  · exact absurd h (canonicalText_lt hlt (hu.trans ht.symm)).asymm

end DateTime
end LeanCtx
