import LeanCtx.Workspace.Field

/-! Timestamps: RFC 3339 times in UTC to the microsecond, and their normal form. The normal form of a year before
    1000 has fewer than four digits (`strftime` does not fill it) and is no timestamp any more. -/

namespace LeanCtx

def isLeapYear (y : Nat) : Bool := y % 4 == 0 && (y % 100 != 0 || y % 400 == 0)

def daysInMonth (y m : Nat) : Nat :=
  if m = 2 then (if isLeapYear y then 29 else 28) else if m = 4 ∨ m = 6 ∨ m = 9 ∨ m = 11 then 30 else 31

/-- A point in time that `datetime` can hold. -/
structure DateTime where
  year : Nat
  month : Nat
  day : Nat
  hour : Nat
  minute : Nat
  second : Nat
  microsecond : Nat
  valid : (1 ≤ year ∧ year ≤ 9999) ∧ (1 ≤ month ∧ month ≤ 12) ∧ (1 ≤ day ∧ day ≤ daysInMonth year month) ∧
    hour < 24 ∧ minute < 60 ∧ second < 60 ∧ microsecond < 1000000
deriving DecidableEq

namespace DateTime

/-- The components, the largest first. -/
def parts (t : DateTime) : List Nat := [t.year, t.month, t.day, t.hour, t.minute, t.second, t.microsecond]

/-- `self < other`. -/
def before (t u : DateTime) : Bool := decide (t.parts < u.parts)

/-- The point in time of its components, none for a date or a time that does not exist. -/
def make (year month day hour minute second microsecond : Nat) : Option DateTime :=
  if h : (1 ≤ year ∧ year ≤ 9999) ∧ (1 ≤ month ∧ month ≤ 12) ∧ (1 ≤ day ∧ day ≤ daysInMonth year month) ∧
      hour < 24 ∧ minute < 60 ∧ second < 60 ∧ microsecond < 1000000 then
    some ⟨year, month, day, hour, minute, second, microsecond, h⟩
  else none

theorem make_parts (t : DateTime) :
    make t.year t.month t.day t.hour t.minute t.second t.microsecond = some t := by
  rw [make, dif_pos t.valid]

end DateTime

/-! ### Reading -/

/-- The fraction of a second and the final `Z`, in microseconds. -/
def scanFractionZ : Str → Option Nat
  | [90] => some 0
  | 46 :: r =>
    let ds := (spanDigits r).1
    if (spanDigits r).2 = [90] ∧ ds ≠ [] ∧ ds.length ≤ 6 then some (ofDigits ds * 10 ^ (6 - ds.length)) else none
  | _ => none

/-- The time that a text spells, as `_TIMESTAMP_RE` and `strptime` read it. -/
def scanTimestamp : Str → Option DateTime
  | a :: b :: c :: d :: 45 :: e :: f :: 45 :: g :: h :: 84 :: i :: j :: 58 :: k :: l :: 58 :: m :: n :: r =>
    if [a, b, c, d, e, f, g, h, i, j, k, l, m, n].all isDigit then
      let two := fun x y => (x - 48) * 10 + (y - 48)
      (scanFractionZ r).bind fun micro =>
        DateTime.make (two a b * 100 + two c d) (two e f) (two g h) (two i j) (two k l) (two m n) micro
    else none
  | _ => none

/-- `_parse_timestamp(value, field_name)`. -/
def parseTimestamp (v : Json) (field : String) : Except Err DateTime := do
  let t ← text v field 32
  match scanTimestamp t.1 with
  | some t => .ok t
  | none => .error (.validation (field ++ " must be an RFC3339 UTC timestamp"))

/-! ### The normal form -/

/-- The text of a number below 100, in two digits. -/
def twoDigits (n : Nat) : Str := [48 + n / 10, 48 + n % 10]

/-- The fraction of a time, in six digits where it is not zero. -/
def fractionText (micro : Nat) : Str :=
  if micro = 0 then [] else 46 :: twoDigits (micro / 10000) ++ twoDigits (micro / 100 % 100) ++ twoDigits (micro % 100)

/-- `_timestamp(value, field_name)` of a value that spells the time. -/
def DateTime.text (t : DateTime) : Str :=
  natText t.year ++ 45 :: twoDigits t.month ++ 45 :: twoDigits t.day ++ 84 :: twoDigits t.hour ++
    58 :: twoDigits t.minute ++ 58 :: twoDigits t.second ++ fractionText t.microsecond ++ [90]

def DateTime.json (t : DateTime) : Json := .str t.text

theorem natText_four {y : Nat} (h : 1000 ≤ y) (h' : y ≤ 9999) :
    natText y = twoDigits (y / 100) ++ twoDigits (y % 100) := by
  have hdigits : Nat.digits 10 y = [y % 10, y / 10 % 10, y / 100 % 10, y / 1000] := by
    rw [Nat.digits_def' (by decide) (by omega), Nat.digits_def' (by decide) (by omega),
      Nat.digits_def' (by decide) (by omega), Nat.digits_of_lt 10 _ (by omega) (by omega)]
    simp only [Nat.div_div_eq_div_mul]
  rw [natText, if_neg (by omega), hdigits]
  simp only [digitsText, twoDigits, List.reverse_cons, List.reverse_nil, List.nil_append, List.cons_append,
    List.map_cons, List.map_nil, List.cons.injEq, and_true]
  exact ⟨by omega, trivial, by omega, by omega⟩

theorem isDigit_add {n : Nat} (h : n < 10) : isDigit (48 + n) = true := by
  simp only [isDigit, Bool.and_eq_true, decide_eq_true_eq]
  omega

theorem spanDigits_cons {n : Nat} (h : n < 10) (r : Str) :
    spanDigits ((48 + n) :: r) = (n :: (spanDigits r).1, (spanDigits r).2) := by
  rw [spanDigits, if_pos (isDigit_add h)]
  simp

theorem scanFractionZ_fractionText {n : Nat} (h : n < 1000000) : scanFractionZ (fractionText n ++ [90]) = some n := by
  unfold fractionText
  split_ifs with h0
  · subst h0
    rfl
  · have hspan : spanDigits (twoDigits (n / 10000) ++ twoDigits (n / 100 % 100) ++ twoDigits (n % 100) ++ [90]) =
        ([n / 10000 / 10, n / 10000 % 10, n / 100 % 100 / 10, n / 100 % 100 % 10, n % 100 / 10, n % 100 % 10], [90]) := by
      simp only [twoDigits, List.cons_append, List.nil_append]
      rw [spanDigits_cons (by omega), spanDigits_cons (by omega), spanDigits_cons (by omega),
        spanDigits_cons (by omega), spanDigits_cons (by omega), spanDigits_cons (by omega)]
      rfl
    simp only [List.cons_append, scanFractionZ, hspan]
    simp only [ofDigits, List.foldl_cons, List.foldl_nil, List.length_cons, List.length_nil]
    rw [if_pos (by simp)]
    congr 1
    omega

/-- The normal form of a time after the year 1000 spells the time. -/
theorem scanTimestamp_text {t : DateTime} (h : 1000 ≤ t.year) : scanTimestamp t.text = some t := by
  obtain ⟨⟨-, hy⟩, ⟨-, hm⟩, ⟨-, hd⟩, hh, hmin, hs, hmicro⟩ := t.valid
  have hday : t.day ≤ 31 := hd.trans (by unfold daysInMonth; split_ifs <;> omega)
  unfold DateTime.text
  rw [natText_four h hy]
  simp only [twoDigits, List.cons_append, List.nil_append, scanTimestamp]
  rw [if_pos (by simp only [List.all_cons, List.all_nil, Bool.and_eq_true]; refine ⟨?_, ?_, ?_, ?_, ?_, ?_, ?_, ?_, ?_,
    ?_, ?_, ?_, ?_, ?_, trivial⟩ <;> exact isDigit_add (by omega)), scanFractionZ_fractionText hmicro, Option.bind_some]
  simp only [Nat.add_sub_cancel_left]
  rw [show (t.year / 100 / 10 * 10 + t.year / 100 % 10) * 100 + (t.year % 100 / 10 * 10 + t.year % 100 % 10) = t.year by
      omega, show t.month / 10 * 10 + t.month % 10 = t.month by omega,
    show t.day / 10 * 10 + t.day % 10 = t.day by omega, show t.hour / 10 * 10 + t.hour % 10 = t.hour by omega,
    show t.minute / 10 * 10 + t.minute % 10 = t.minute by omega,
    show t.second / 10 * 10 + t.second % 10 = t.second by omega]
  exact t.make_parts

/-- The characters of a normal form are digits, hyphens, colons, a point, and the letters `T` and `Z`. -/
theorem text_chars (t : DateTime) : ∀ c ∈ t.text, 45 ≤ c ∧ c ≤ 58 ∨ c = 84 ∨ c = 90 := by
  obtain ⟨-, ⟨-, hm⟩, ⟨-, hd⟩, hh, hmin, hs, hmicro⟩ := t.valid
  have hday : t.day ≤ 31 := hd.trans (by unfold daysInMonth; split_ifs <;> omega)
  have hnat : ∀ c ∈ natText t.year, 48 ≤ c ∧ c ≤ 57 := by
    intro c hc
    rw [Json.natText_eq, digitsText, List.mem_map] at hc
    obtain ⟨d, hd, rfl⟩ := hc
    have := Json.decimal_lt _ d hd
    omega
  have hfrac : ∀ c ∈ fractionText t.microsecond, 46 ≤ c ∧ c ≤ 57 := by
    intro c hc
    unfold fractionText at hc
    split_ifs at hc
    · cases hc
    · simp only [twoDigits, List.cons_append, List.nil_append, List.mem_cons, List.not_mem_nil, or_false] at hc
      omega
  intro c hc
  simp only [DateTime.text, twoDigits, List.mem_append, List.mem_cons, List.not_mem_nil, or_false] at hc
  by_cases hyear : c ∈ natText t.year
  · have := hnat c hyear
    omega
  · by_cases hmicros : c ∈ fractionText t.microsecond
    · have := hfrac c hmicros
      omega
    · simp only [hyear, hmicros, false_or, or_false] at hc
      omega

theorem length_text {t : DateTime} : t.text.length ≤ 31 := by
  obtain ⟨⟨hy0, hy⟩, -⟩ := t.valid
  have hyear : (natText t.year).length ≤ 4 := by
    rw [natText, if_neg (by omega), digitsText, List.length_map, List.length_reverse]
    exact Nat.digits_length_le_iff (by decide) _ |>.mpr (by omega)
  have hfrac : (fractionText t.microsecond).length ≤ 7 := by unfold fractionText; split_ifs <;> simp [twoDigits]
  simp only [DateTime.text, twoDigits, List.length_append, List.length_cons, List.length_nil]
  omega

theorem isText_text (t : DateTime) : isText 32 t.text = true := by
  have hchars := text_chars t
  have hlen := length_text (t := t)
  have hpoint : t.text.map Str.pointLength = t.text.map fun _ => 1 :=
    List.map_congr_left fun c hc => by
      have := hchars c hc
      rw [Str.pointLength, if_pos (by omega)]
  have hutf8 : t.text.utf8Length = t.text.length := by simp [Str.utf8Length, hpoint]
  simp only [isText, Bool.and_eq_true, List.all_eq_true, decide_eq_true_eq, hutf8]
  refine ⟨⟨⟨fun c hc => ?_, ?_⟩, by omega⟩, fun c hc => ?_⟩
  · have := hchars c hc
    simp only [Str.isScalar, Bool.or_eq_true, decide_eq_true_eq]
    omega
  · simp [DateTime.text]
  · have := hchars c hc
    omega

/-- A normal form after the year 1000 reads back. -/
theorem parseTimestamp_json {t : DateTime} (h : 1000 ≤ t.year) (field : String) :
    parseTimestamp t.json field = .ok t := by
  have htext : text t.json field 32 = .ok ⟨t.text, isText_text t⟩ := text_json (⟨t.text, isText_text t⟩ : Text 32) field
  rw [parseTimestamp, htext, ok_bind, scanTimestamp_text h]

end LeanCtx
