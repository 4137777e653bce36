import LeanCtx.Json.Integral

/-! `Json.canonicalBytes` of the Java package, for the values that `Json.parse` gives. It writes every number that is a safe integer as that
    integer (`canonicalBytes_eq_some`). -/

namespace LeanCtx.Java
open Json (Piece Raw)

/-! ### Numbers -/

/-- The greatest power of ten below `2 ^ Integer.MAX_VALUE`, which a `BigInteger` can hold. -/
def maxPowerOfTen : Int := 646456992

/-- `decimal.toBigIntegerExact()`, none where it throws `ArithmeticException`: for a number with a fraction, and where the power of ten
    that the digits are to be multiplied with or divided by is no `BigInteger`. -/
def toBigIntegerExact (unscaled scale : Int) : Option Int :=
  if scale ≤ 0 then
    if unscaled = 0 then some 0
    else if -scale ≤ maxPowerOfTen then some (unscaled * 10 ^ (-scale).toNat)
    else none
  else if scale ≤ maxPowerOfTen ∧ unscaled % 10 ^ scale.toNat = 0 then some (unscaled / 10 ^ scale.toNat)
  else none

/-- The text of a safe integer. -/
def safeText (n : Int) : Option Str := if n < -Json.maxSafeInt ∨ n > Json.maxSafeInt then none else some (intText n)

/-- `number(number, false)`, none where it throws. A `BigDecimal` holds no negative zero. -/
def numberText : Value → Option Str
  | .integer n => safeText n
  | .decimal unscaled scale => (toBigIntegerExact unscaled scale).bind safeText
  | _ => none

/-! ### Strings and names -/

/-- A character of `writeString(value, out)`. -/
def writeChar (c : Nat) : Str :=
  if c = 34 then Str.lit "\\\""
  else if c = 92 then Str.lit "\\\\"
  else if c = 8 then Str.lit "\\b"
  else if c = 12 then Str.lit "\\f"
  else if c = 10 then Str.lit "\\n"
  else if c = 13 then Str.lit "\\r"
  else if c = 9 then Str.lit "\\t"
  else if c < 0x20 then Str.lit "\\u00" ++ [Json.hexDigit (c / 16), Json.hexDigit (c % 16)]
  else [c]

/-- `writeString(value, out)`. -/
def writeString (s : Str) : Str := 34 :: s.flatMap writeChar ++ [34]

/-- `compareCodePoints(left, right)`. -/
def compareCodePoints : Str → Str → Ordering
  | [], [] => .eq
  | [], _ :: _ => .lt
  | _ :: _, [] => .gt
  | a :: s, b :: t => if a ≠ b then compare a b else compareCodePoints s t

/-! ### Values -/

mutual
/-- `canonical(value)`, none where it throws. -/
def canonical : Value → Option Str
  | .null => some "null"
  | .bool b => some (if b then "true" else "false")
  | .integer n => numberText (.integer n)
  | .decimal unscaled scale => numberText (.decimal unscaled scale)
  | .str s => if s.all Str.isScalar then some (writeString s) else none
  | .list l => (canonicalItems l).map fun ts => 91 :: Json.joinComma ts ++ [93]
  | .map g => (canonicalEntries g).map fun ts =>
      123 :: Json.joinComma ((ts.insertionSort fun s t => compareCodePoints s.1 t.1 ≠ .gt).map fun t => writeString t.1 ++ 58 :: t.2) ++ [125]

def canonicalItems : List Value → Option (List Str)
  | [] => some []
  | x :: l => (canonical x).bind fun t => (canonicalItems l).map (t :: ·)

/-- The names of a map with the texts of their values. -/
def canonicalEntries : List (Str × Value) → Option (List (Str × Str))
  | [] => some []
  | (k, x) :: g =>
    if k.all Str.isScalar then (canonical x).bind fun t => (canonicalEntries g).map ((k, t) :: ·) else none
end

/-- `canonicalBytes(value)`, none where it throws. -/
def canonicalBytes (x : Value) : Option Bytes := (canonical x).bind Str.utf8?

/-- `canonicalBytes(parse(data, label))`, none where it throws. -/
def documentBytes (label : Str) (data : Bytes) : Option Bytes := (parse false label data).toOption.bind canonicalBytes

/-! ### Numbers are written as integers -/

theorem safeText_eq_some {n : Int} {t : Str} : safeText n = some t ↔ |n| ≤ Json.maxSafeInt ∧ t = intText n := by
  rw [safeText, abs_le]
  constructor
  · intro h
    split_ifs at h with hn
    cases h
    exact ⟨by omega, rfl⟩
  · rintro ⟨hn, rfl⟩
    exact if_neg (by omega)

theorem toBigIntegerExact_spec {unscaled scale n : Int} (h : toBigIntegerExact unscaled scale = some n) :
    (unscaled : ℚ) * 10 ^ (-scale) = n := by
  unfold toBigIntegerExact at h
  split_ifs at h with hscale hzero hpower hexact
  · cases h
    rw [hzero, Int.cast_zero, zero_mul]
  · cases h
    obtain ⟨k, hk⟩ := Int.eq_ofNat_of_zero_le (neg_nonneg.mpr hscale)
    rw [hk]
    push_cast
    rw [zpow_natCast]
    rfl
  · cases h
    obtain ⟨k, rfl⟩ := Int.eq_ofNat_of_zero_le (not_le.mp hscale).le
    obtain ⟨m, hm⟩ := Int.dvd_of_emod_eq_zero hexact.2
    rw [Int.toNat_natCast] at hm
    rw [hm, Int.toNat_natCast, Int.mul_ediv_cancel_left m (by positivity), zpow_neg, zpow_natCast]
    push_cast
    field_simp

theorem numberText_spec {x : Value} {t : Str} {q : ℚ} (hx : x.rational? = some q) (h : numberText x = some t) :
    ∃ n : Int, q = n ∧ |n| ≤ Json.maxSafeInt ∧ t = intText n := by
  cases x with
  | integer n =>
    cases hx
    exact ⟨n, rfl, safeText_eq_some.mp h⟩
  | decimal unscaled scale =>
    cases hx
    obtain ⟨n, hn, h⟩ := Option.bind_eq_some_iff.mp h
    exact ⟨n, toBigIntegerExact_spec hn, safeText_eq_some.mp h⟩
  | _ => cases hx

/-! ### Strings are written as Python writes them -/

theorem writeString_eq (s : Str) : writeString s = Json.quote s := by
  have hchar (c : Nat) : writeChar c = Json.escape c := by
    unfold writeChar Json.escape
    split_ifs <;> first | rfl | omega
  rw [writeString, Json.quote, show writeChar = Json.escape from funext hchar]

theorem compareCodePoints_ne_gt (s t : Str) : compareCodePoints s t ≠ .gt ↔ s ≤ t := by
  rw [← not_lt]
  induction s generalizing t with
  | nil => cases t <;> simp [compareCodePoints]
  | cons a s ih =>
    cases t with
    | nil => simp [compareCodePoints]
    | cons b t =>
      rw [compareCodePoints, List.cons_lt_cons_iff]
      split_ifs with hab
      · rw [Nat.compare_ne_gt, not_or, not_lt, and_iff_left fun h => hab h.1.symm]
      · obtain rfl := not_not.mp hab
        rw [ih, or_iff_right (lt_irrefl a), and_iff_right rfl]

/-! ### Values are written as a reader of integers reads them -/

theorem text?_int {n : Int} (h : |n| ≤ Json.maxSafeInt) : (Json.int n).text? = some (intText n) := by
  have hlt : n.natAbs < 10 ^ 16 := by
    have hle : |n| ≤ 9007199254740991 := h
    rw [Int.abs_eq_natAbs] at hle
    omega
  exact if_pos ((Json.length_natText_le_of_lt (by decide) hlt).trans (by decide))

theorem stringOf_eq_some {l : List Piece} {s : Str} : Parser.stringOf l = some s ↔ Raw.integral.string l = some s := Iff.rfl

theorem entries?_eq_some {f : List (List Piece × Raw)} {g : List (Str × Value)} {seen : List Str} (h : entries? seen f = some g) :
    List.Forall₂ (fun p q => Raw.integral.string p.1 = some q.1 ∧ value? p.2 = some q.2) f g ∧
      (g.map (·.1)).Nodup ∧ ∀ k ∈ g.map (·.1), k ∉ seen := by
  induction f generalizing g seen with
  | nil =>
    cases h
    exact ⟨.nil, List.nodup_nil, by simp⟩
  | cons p f ih =>
    obtain ⟨k, a⟩ := p
    rw [entries?] at h
    obtain ⟨s, hs, h⟩ := Option.bind_eq_some_iff.mp h
    split_ifs at h with hseen
    obtain ⟨x, hx, h⟩ := Option.bind_eq_some_iff.mp h
    obtain ⟨m, hm, rfl⟩ := Option.map_eq_some_iff.mp h
    obtain ⟨hall, hnodup, hnew⟩ := ih hm
    refine ⟨.cons ⟨hs, hx⟩ hall, List.nodup_cons.mpr ⟨fun hmem => hnew s hmem List.mem_cons_self, hnodup⟩, ?_⟩
    rw [List.map_cons, List.forall_mem_cons]
    exact ⟨hseen, fun j hj hmem => hnew j hj (List.mem_cons_of_mem _ hmem)⟩

/-- A value is written as what a reader of integers makes of the document. -/
def WritesIntegral (a : Raw) : Prop :=
  ∀ {x t}, value? a = some x → canonical x = some t → ∃ v, a.read Raw.integral = some v ∧ v.text? = some t

theorem writesIntegral_items {l : List Raw} (ih : ∀ a ∈ l, WritesIntegral a) {k : List Value} {ts : List Str} (hk : values? l = some k)
    (hts : canonicalItems k = some ts) : ∃ vs, Raw.readItems Raw.integral l = some vs ∧ Json.itemTexts? vs = some ts := by
  induction l generalizing k ts with
  | nil =>
    cases hk
    cases hts
    exact ⟨[], rfl, rfl⟩
  | cons a l ihl =>
    obtain ⟨iha, ih⟩ := List.forall_mem_cons.mp ih
    obtain ⟨x, hx, hk⟩ := Option.bind_eq_some_iff.mp hk
    obtain ⟨k', hk', rfl⟩ := Option.map_eq_some_iff.mp hk
    rw [canonicalItems] at hts
    obtain ⟨t, ht, hts⟩ := Option.bind_eq_some_iff.mp hts
    obtain ⟨ts', hts', rfl⟩ := Option.map_eq_some_iff.mp hts
    obtain ⟨v, hv, hvt⟩ := iha hx ht
    obtain ⟨vs, hvs, hvts⟩ := ihl ih hk' hts'
    exact ⟨v :: vs, by rw [Raw.readItems, hv, Option.bind_some, hvs]; rfl, by rw [Json.itemTexts?, hvt, Option.bind_some, hvts]; rfl⟩

theorem writesIntegral_entries {f : List (List Piece × Raw)} (ih : ∀ p ∈ f, WritesIntegral p.2) {g : List (Str × Value)}
    {ts : List (Str × Str)} (hg : List.Forall₂ (fun p q => Raw.integral.string p.1 = some q.1 ∧ value? p.2 = some q.2) f g)
    (hts : canonicalEntries g = some ts) : ∃ vs, Raw.readFields Raw.integral f = some vs ∧ vs.map (·.1) = g.map (·.1) ∧
      List.Forall₂ (fun q t => t.1 = q.1 ∧ Json.text? q.2 = some t.2) vs ts := by
  induction hg generalizing ts with
  | nil =>
    cases hts
    exact ⟨[], rfl, rfl, .nil⟩
  | @cons p q f g hpq hg ihg =>
    obtain ⟨ihp, ih⟩ := List.forall_mem_cons.mp ih
    obtain ⟨k, x⟩ := q
    rw [canonicalEntries] at hts
    split_ifs at hts
    obtain ⟨t, ht, hts⟩ := Option.bind_eq_some_iff.mp hts
    obtain ⟨ts', hts', rfl⟩ := Option.map_eq_some_iff.mp hts
    obtain ⟨v, hv, hvt⟩ := ihp hpq.2 ht
    obtain ⟨vs, hvs, hkeys, hvts⟩ := ihg ih hts'
    refine ⟨(k, v) :: vs, ?_, by rw [List.map_cons, List.map_cons, hkeys], .cons ⟨rfl, hvt⟩ hvts⟩
    rw [Raw.readFields, hpq.1, Option.bind_some, hv, Option.bind_some, hvs]
    rfl

theorem writesIntegral (a : Raw) : WritesIntegral a := by
  induction a using Raw.induct with
  | null =>
    rintro x t ⟨⟩ ⟨⟩
    exact ⟨.null, rfl, rfl⟩
  | bool b =>
    rintro x t ⟨⟩ ⟨⟩
    exact ⟨.bool b, rfl, rfl⟩
  | number l =>
    intro x t hx ht
    obtain ⟨n, hn, hsafe, rfl⟩ : ∃ n : Int, denoted l = n ∧ |n| ≤ Json.maxSafeInt ∧ t = intText n := by
      refine numberText_spec (denoted_of_number hx) ?_
      have hrational := denoted_of_number hx
      cases x with
      | integer n => exact ht
      | decimal unscaled scale => exact ht
      | _ => cases hrational
    refine ⟨.int n, ?_, text?_int hsafe⟩
    rw [Raw.read, Raw.integral_number, Json.safeInteger?_eq_some.mpr ⟨hn, hsafe⟩]
    rfl
  | string l =>
    intro x t hx ht
    obtain ⟨s, hs, rfl⟩ := Option.map_eq_some_iff.mp hx
    rw [canonical] at ht
    split_ifs at ht
    cases ht
    refine ⟨.str s, ?_, by rw [writeString_eq]; rfl⟩
    rw [Raw.read, stringOf_eq_some.mp hs]
    rfl
  | arr l ih =>
    intro x t hx ht
    obtain ⟨k, hk, rfl⟩ := Option.map_eq_some_iff.mp hx
    obtain ⟨ts, hts, rfl⟩ := Option.map_eq_some_iff.mp ht
    obtain ⟨vs, hvs, htexts⟩ := writesIntegral_items ih hk hts
    exact ⟨.arr vs, by rw [Raw.read, hvs]; rfl, by rw [Json.text?, htexts]; rfl⟩
  | obj f ih =>
    intro x t hx ht
    obtain ⟨g, hg, rfl⟩ := Option.map_eq_some_iff.mp hx
    obtain ⟨ts, hts, rfl⟩ := Option.map_eq_some_iff.mp ht
    obtain ⟨hall, hnodup, -⟩ := entries?_eq_some hg
    obtain ⟨vs, hvs, hkeys, htexts⟩ := writesIntegral_entries ih hall hts
    rw [← hkeys] at hnodup
    refine ⟨.obj (Json.sortFields vs), ?_, ?_⟩
    · rw [Raw.read, hvs, Option.bind_some, Raw.integral_object]
      exact ⟨hnodup, rfl⟩
    · rw [Json.text?_obj_sorted (fun s t => compareCodePoints_ne_gt s.1 t.1) htexts hnodup]
      simp only [writeString_eq]

/-- The bytes of a value that was parsed are the canonical bytes of the document with every number taken as an integer. -/
theorem canonicalBytes_eq_some {a : Raw} {x : Value} {b : Bytes} (hx : value? a = some x) (hb : canonicalBytes x = some b) :
    Json.integralBytes? a = some b := by
  obtain ⟨t, ht, hb⟩ := Option.bind_eq_some_iff.mp hb
  obtain ⟨v, hv, htext⟩ := writesIntegral a hx ht
  rw [Json.integralBytes?, hv, Option.bind_some, Json.canonicalBytes?, Raw.isPlain_integral a hv, htext]
  exact hb

end LeanCtx.Java
