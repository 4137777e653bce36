import LeanCtx.Go.Scanning
import LeanCtx.Java.Exact
import LeanCtx.Json.Decoding
import LeanCtx.Json.Fields

/-! Documents read with every number an integer. A package that canonicalizes whatever denotes a safe integer as that integer reads in this
    way, and reads what Python reads exactly where every literal of the document is an integer literal (`read_python_eq_iff`). -/

namespace LeanCtx.Json
open PyFloat
open Grammar (ascii Digits Sign Whole Fraction ExponentSign Exponent Number Chars Items Fields Document)

/-! ### Python's scanner -/

section
variable {s r : Str}

theorem digits_spanDigits (s : Str) : Digits ascii s (spanDigits s).1 (spanDigits s).2 := by
  induction s with
  | nil => exact .nil _
  | cons c s ih =>
    rw [spanDigits]
    split_ifs with hc
    · refine .cons ?_ ih
      simp only [isDigit, Bool.and_eq_true, decide_eq_true_eq] at hc
      exact if_pos hc
    · exact .nil _

theorem sign_scanSign (s : Str) : Sign s (scanSign s).1 (scanSign s).2 := by
  unfold scanSign
  split
  · exact .minus _
  · exact .none _

theorem whole_of_scanWhole {w : List Nat} (h : scanWhole s = some (w, r)) : Whole ascii s w r := by
  cases s with
  | nil => cases h
  | cons c s =>
    rw [scanWhole] at h
    split_ifs at h with hzero hdigit
    · cases h
      rw [hzero]
      exact .zero _
    · simp only [isDigit, Bool.and_eq_true, decide_eq_true_eq] at hdigit
      have hspan : spanDigits (c :: s) = ((c - 48) :: (spanDigits s).1, (spanDigits s).2) := by
        rw [spanDigits, if_pos (by simpa [isDigit] using hdigit)]
      rw [hspan] at h
      cases h
      exact .digits ⟨by omega, hdigit.2⟩ (digits_spanDigits s)

theorem fraction_scanFraction (s : Str) : Fraction ascii s (scanFraction s).1 (scanFraction s).2 := by
  cases s with
  | nil => exact .none _
  | cons c s =>
    rw [scanFraction]
    split_ifs with h
    · rw [h.1]
      exact .some (digits_spanDigits s) h.2
    · exact .none _

theorem exponentSign_scanExponentSign (s : Str) : ExponentSign s (scanExponentSign s).1 (scanExponentSign s).2 := by
  cases s with
  | nil => exact .none _
  | cons c s =>
    rw [scanExponentSign]
    split_ifs with hminus hplus
    · rw [hminus]
      exact .minus _
    · rw [hplus]
      exact .plus _
    · exact .none _

theorem exponent_scanExponent (s : Str) : Exponent ascii s (scanExponent s).1 (scanExponent s).2 := by
  cases s with
  | nil => exact .none _
  | cons c s =>
    rw [scanExponent]
    dsimp only
    split_ifs with h
    · exact .some h.1 (exponentSign_scanExponentSign s) (digits_spanDigits _) h.2
    · exact .none _

theorem number_of_scanLiteral {l : Literal} (h : scanLiteral s = some (l, r)) : Number ascii s l r := by
  unfold scanLiteral at h
  obtain ⟨⟨w, u⟩, hw, heq⟩ := Option.map_eq_some_iff.mp h
  cases heq
  exact .intro (sign_scanSign s) (whole_of_scanWhole hw) (fraction_scanFraction u) (exponent_scanExponent _)

end

theorem dropPrefix?_eq_some {p s r : Str} (h : dropPrefix? p s = some r) : s = p ++ r := Go.dropPrefix?_eq_some.mp h

/-- Whatever Python's scanner accepts, a document of RFC 8259 stands there. -/
theorem document_of_scanValue (n : Nat) :
    (∀ {s a r}, Raw.scanValue n s = some (a, r) → Grammar.Value ascii s a r) ∧
    (∀ {s l r}, Raw.scanItems n s = some (l, r) → Items ascii s l r) ∧
    ∀ {s f r}, Raw.scanFields n s = some (f, r) → Fields ascii s f r := by
  induction n with
  | zero => exact ⟨by rintro _ _ _ ⟨⟩, by rintro _ _ _ ⟨⟩, by rintro _ _ _ ⟨⟩⟩
  | succ n ih =>
    obtain ⟨ihvalue, ihitems, ihfields⟩ := ih
    refine ⟨fun {s a r} h => ?_, fun {s l r} h => ?_, fun {s f r} h => ?_⟩
    · cases s with
      | nil => cases h
      | cons c s =>
        rw [Raw.scanValue] at h
        split_ifs at h with hc hc hempty hc hempty hc hc hc
        · obtain ⟨⟨t, u⟩, ht, heq⟩ := Option.map_eq_some_iff.mp h
          cases heq
          rw [hc]
          exact .string (Go.chars_of_scanString ht)
        · cases h
          rw [hc]
          obtain ⟨t, ht⟩ := List.head?_eq_some_iff.mp hempty
          rw [ht]
          exact .emptyArr ht
        · obtain ⟨⟨l, u⟩, hl, heq⟩ := Option.map_eq_some_iff.mp h
          cases heq
          rw [hc]
          exact .arr (ihitems hl)
        · cases h
          rw [hc]
          obtain ⟨t, ht⟩ := List.head?_eq_some_iff.mp hempty
          rw [ht]
          exact .emptyObj ht
        · obtain ⟨⟨f, u⟩, hf, heq⟩ := Option.map_eq_some_iff.mp h
          cases heq
          rw [hc]
          exact .obj (ihfields hf)
        · obtain ⟨u, hu, heq⟩ := Option.map_eq_some_iff.mp h
          cases heq
          rw [hc, dropPrefix?_eq_some hu]
          exact .null _
        · obtain ⟨u, hu, heq⟩ := Option.map_eq_some_iff.mp h
          cases heq
          rw [hc, dropPrefix?_eq_some hu]
          exact .true _
        · obtain ⟨u, hu, heq⟩ := Option.map_eq_some_iff.mp h
          cases heq
          rw [hc, dropPrefix?_eq_some hu]
          exact .false _
        · obtain ⟨⟨l, u⟩, hl, heq⟩ := Option.map_eq_some_iff.mp h
          cases heq
          exact .number (number_of_scanLiteral hl)
    · rw [Raw.scanItems] at h
      obtain ⟨⟨v, t⟩, hv, h⟩ := Option.bind_eq_some_iff.mp h
      dsimp only at h
      split at h
      · next u hcomma =>
        obtain ⟨⟨m, w⟩, hm, heq⟩ := Option.map_eq_some_iff.mp h
        cases heq
        exact .cons (ihvalue hv) hcomma (ihitems hm)
      · next u hclose =>
        cases h
        exact .last (ihvalue hv) hclose
      · cases h
    · cases s with
      | nil => cases h
      | cons c s =>
        rw [Raw.scanFields] at h
        split_ifs at h with hc
        rw [hc]
        obtain ⟨⟨k, t⟩, hk, h⟩ := Option.bind_eq_some_iff.mp h
        dsimp only at h
        split at h
        · next u hcolon =>
          obtain ⟨⟨v, w⟩, hv, h⟩ := Option.bind_eq_some_iff.mp h
          dsimp only at h
          split at h
          · next x hcomma =>
            obtain ⟨⟨m, y⟩, hm, heq⟩ := Option.map_eq_some_iff.mp h
            cases heq
            exact .cons (Go.chars_of_scanString hk) hcolon (ihvalue hv) hcomma (ihfields hm)
          · next x hclose =>
            cases h
            exact .last (Go.chars_of_scanString hk) hcolon (ihvalue hv) hclose
          · cases h
        · cases h

theorem document_of_scan {s : Str} {a : Raw} (h : Raw.scan s = some a) : Document ascii s a := by
  unfold Raw.scan at h
  split at h
  · next v r hscan =>
    split_ifs at h with hend
    cases h
    exact ⟨r, (document_of_scanValue _).1 hscan, hend⟩
  · cases h

/-! ### Python's loader -/

/-- Where neither of the first two bytes is zero or above ASCII, the bytes are taken as UTF-8. -/
theorem decodeText?_plain {a b : UInt8} {r : Bytes} (ha : a ≠ 0 ∧ a < 128) (hb : b ≠ 0 ∧ b < 128) :
    decodeText? (a :: b :: r) = Str.decodeUtf8? (a :: b :: r) := by
  have hmark {c : UInt8} (hc : ¬c < 128) : c ≠ a := fun h => hc (h ▸ ha.2)
  have hfe := hmark (c := 0xFE) (by decide)
  have hff := hmark (c := 0xFF) (by decide)
  have hef := hmark (c := 0xEF) (by decide)
  unfold decodeText?
  simp only [List.cons_prefix_cons, ha.1.symm, hfe, hff, hef, false_and, if_false]
  split <;> simp_all

/-- The first character of a text is an ASCII character. -/
def StartsPlain (s : Str) : Prop := ∃ c t, s = c :: t ∧ 0 < c ∧ c < 128

theorem startsPlain_skipSpace {s : Str} (h : StartsPlain (skipSpace s)) : StartsPlain s := by
  cases s with
  | nil => exact h
  | cons c s =>
    by_cases hc : isSpace c = true
    · refine ⟨c, s, rfl, ?_⟩
      simp only [isSpace, Bool.or_eq_true, beq_iff_eq] at hc
      omega
    · rwa [skipSpace, List.dropWhile_cons_of_neg hc] at h

theorem startsPlain_fields {D : Grammar.DigitClass} {s r : Str} {f : List (List Piece × Raw)} (h : Fields D s f r) : StartsPlain s := by
  cases h with
  | last => exact ⟨34, _, rfl, by decide⟩
  | cons => exact ⟨34, _, rfl, by decide⟩

theorem startsPlain_members {D : Grammar.DigitClass} {s r : Str} {f : List (List Piece × Raw)} (h : Grammar.Value D s (.obj f) r) :
    ∃ t, s = 123 :: t ∧ StartsPlain t := by
  cases h with
  | emptyObj close => exact ⟨_, rfl, startsPlain_skipSpace ⟨125, _, close, by decide⟩⟩
  | obj fields => exact ⟨_, rfl, startsPlain_skipSpace (startsPlain_fields fields)⟩

/-- The text of an object is read as UTF-8. -/
theorem decodeText?_document {D : Grammar.DigitClass} {data : Bytes} {s : Str} {a : Raw} (hs : s.utf8? = some data) (h : Document D s a)
    (hobject : Java.isObject a = true) : decodeText? data = some s := by
  obtain ⟨f, rfl⟩ : ∃ f, a = .obj f := by
    cases a with
    | obj f => exact ⟨f, rfl⟩
    | _ => cases hobject
  obtain ⟨r, hvalue, -⟩ := h
  obtain ⟨t, ht, hplain⟩ := startsPlain_members hvalue
  obtain ⟨c, d, u, rfl, hc, hd⟩ : ∃ c d u, s = c :: d :: u ∧ (0 < c ∧ c < 128) ∧ 0 < d ∧ d < 128 := by
    obtain ⟨c, u, rfl, hc⟩ := startsPlain_skipSpace (s := s) (ht ▸ ⟨123, t, rfl, by decide⟩)
    have hrest : StartsPlain u := by
      by_cases hspace : isSpace c = true
      · rw [skipSpace, List.dropWhile_cons_of_pos hspace] at ht
        exact startsPlain_skipSpace (s := u) ⟨123, t, ht, by decide⟩
      · rw [skipSpace, List.dropWhile_cons_of_neg hspace] at ht
        rwa [(List.cons.inj ht).2]
    obtain ⟨d, v, rfl, hd⟩ := hrest
    exact ⟨c, d, v, rfl, hc, hd⟩
  have hdecoded := Str.decodeUtf8?_utf8 hs
  have hbyte {c : Nat} (hc : 0 < c ∧ c < 128) : Str.encodePoint c = [UInt8.ofNat c] ∧ UInt8.ofNat c ≠ 0 ∧ UInt8.ofNat c < 128 := by
    have hnat : (UInt8.ofNat c).toNat = c := Str.toNat_ofNat_lt (by omega)
    refine ⟨if_pos hc.2, fun h => ?_, UInt8.lt_iff_toNat_lt.mpr (by rw [hnat]; exact hc.2)⟩
    rw [h] at hnat
    exact hc.1.ne hnat
  have hbytes : ∃ l, data = UInt8.ofNat c :: UInt8.ofNat d :: l := by
    unfold Str.utf8? at hs
    split_ifs at hs
    rw [List.flatMap_cons, List.flatMap_cons, (hbyte hc).1, (hbyte hd).1] at hs
    exact ⟨_, (Option.some.inj hs).symm⟩
  obtain ⟨l, rfl⟩ := hbytes
  rw [decodeText?_plain (hbyte hc).2 (hbyte hd).2, hdecoded]

/-- What Python's loader makes of bytes is what it makes of the document that they spell. -/
theorem read_of_strictLoads {data : Bytes} {s : Str} {a : Raw} {v : Json} (hs : s.utf8? = some data) (hdoc : Document Java.digit s a)
    (hobject : Java.isObject a = true) (h : strictLoads? data = some v) : Document ascii s a ∧ a.read Raw.python = some v := by
  rw [strictLoads?, decodeText?_document hs hdoc hobject, Option.bind_some, Raw.parse?_eq] at h
  obtain ⟨w, hw, h⟩ := Option.bind_eq_some_iff.mp h
  obtain ⟨b, hscan, hb⟩ := Option.bind_eq_some_iff.mp hw
  obtain rfl := Java.document_unique hdoc ((document_of_scan hscan).mono Java.extends_digit)
  refine ⟨document_of_scan hscan, ?_⟩
  rw [hb]
  cases w with
  | obj f => exact h
  | _ => cases h

/-! ### Reading numbers as integers -/

/-- The integers that a double holds exactly, up to their sign. -/
def maxSafeInt : Int := 9007199254740991

/-- The safe integer that a literal denotes. -/
def safeInteger? (l : Literal) : Option Int :=
  let q := Java.denoted l
  if q.den = 1 ∧ |q.num| ≤ maxSafeInt then some q.num else none

theorem safeInteger?_eq_some {l : Literal} {n : Int} : safeInteger? l = some n ↔ Java.denoted l = n ∧ |n| ≤ maxSafeInt := by
  rw [safeInteger?]
  constructor
  · intro h
    obtain ⟨⟨hden, hle⟩, rfl⟩ := (Option.ite_none_right_eq_some.mp h).imp_right Option.some.inj
    exact ⟨(Rat.coe_int_num_of_den_eq_one hden).symm, hle⟩
  · rintro ⟨hdenoted, hle⟩
    rw [hdenoted]
    exact if_pos ⟨rfl, hle⟩

namespace Raw

/-- Every number is a safe integer, whatever literal denotes it. -/
def integral : Dialect where
  string l := if (joinEscapes l).all Str.isScalar = true then some (joinEscapes l) else none
  number l := (safeInteger? l).map .int
  object f := if (f.map (·.1)).Nodup then some (.obj (sortFields f)) else none

/-- Every number of the document is written without a fraction and without an exponent. -/
def isInteger (a : Raw) : Bool := a.every (fun _ => true) (fun l => !l.isFloat) fun _ => true

theorem readItems_eq_some {d : Dialect} {l : List Raw} {k : List Json} :
    readItems d l = some k ↔ List.Forall₂ (fun a v => a.read d = some v) l k := by
  induction l generalizing k with
  | nil => cases k <;> simp [readItems]
  | cons a l ih =>
    rw [readItems, Option.bind_eq_some_iff, List.forall₂_cons_left_iff]
    constructor
    · rintro ⟨v, hv, h⟩
      obtain ⟨m, hm, rfl⟩ := Option.map_eq_some_iff.mp h
      exact ⟨v, m, hv, ih.mp hm, rfl⟩
    · rintro ⟨v, m, hv, hm, rfl⟩
      exact ⟨v, hv, Option.map_eq_some_iff.mpr ⟨m, ih.mpr hm, rfl⟩⟩

theorem readFields_eq_some {d : Dialect} {f : List (List Piece × Raw)} {g : List (Str × Json)} :
    readFields d f = some g ↔ List.Forall₂ (fun p q => d.string p.1 = some q.1 ∧ p.2.read d = some q.2) f g := by
  induction f generalizing g with
  | nil => cases g <;> simp [readFields]
  | cons p f ih =>
    rw [readFields, Option.bind_eq_some_iff, List.forall₂_cons_left_iff]
    constructor
    · rintro ⟨j, hj, h⟩
      obtain ⟨v, hv, h⟩ := Option.bind_eq_some_iff.mp h
      obtain ⟨m, hm, rfl⟩ := Option.map_eq_some_iff.mp h
      exact ⟨(j, v), m, ⟨hj, hv⟩, ih.mp hm, rfl⟩
    · rintro ⟨⟨j, v⟩, m, ⟨hj, hv⟩, hm, rfl⟩
      exact ⟨j, hj, Option.bind_eq_some_iff.mpr ⟨v, hv, Option.map_eq_some_iff.mpr ⟨m, ih.mpr hm, rfl⟩⟩⟩

theorem integral_string {l : List Piece} {s : Str} :
    integral.string l = some s ↔ s = joinEscapes l ∧ s.all Str.isScalar = true := by
  rw [integral]
  constructor
  · intro h
    obtain ⟨hscalar, rfl⟩ := (Option.ite_none_right_eq_some.mp h).imp_right Option.some.inj
    exact ⟨rfl, hscalar⟩
  · rintro ⟨rfl, hscalar⟩
    exact if_pos hscalar

theorem integral_number (l : Literal) : integral.number l = (safeInteger? l).map .int := rfl

theorem integral_object {f : List (Str × Json)} {v : Json} : integral.object f = some v ↔ (f.map (·.1)).Nodup ∧ v = .obj (sortFields f) := by
  rw [integral, Option.ite_none_right_eq_some, Option.some.injEq, eq_comm (a := Json.obj _)]

/-- An integer literal denotes the integer that Python reads. -/
theorem number_python {l : Literal} {v : Json} {n : Int} (hv : python.number l = some v) (hn : safeInteger? l = some n) :
    v = .int n ↔ l.isFloat = false := by
  rw [safeInteger?_eq_some] at hn
  rw [python] at hv
  dsimp only at hv
  by_cases hfloat : l.isFloat = true
  · rw [if_pos hfloat] at hv
    cases hv
    exact iff_of_false (by rintro ⟨⟩) (by rw [hfloat]; decide)
  · rw [if_neg hfloat] at hv
    obtain ⟨-, rfl⟩ := (Option.ite_none_right_eq_some.mp hv).imp_right Option.some.inj
    refine iff_of_true ?_ (Bool.not_eq_true _ ▸ hfloat)
    obtain ⟨neg, whole, fraction, exponent⟩ := l
    obtain ⟨rfl, rfl⟩ : fraction = none ∧ exponent = none := by
      cases fraction <;> cases exponent <;> simp_all [Literal.isFloat]
    have hdenoted := hn.1
    simp only [Java.denoted, literalValue, Option.getD_none, List.append_nil, List.length_nil, Nat.cast_zero, sub_zero, zpow_zero, mul_one]
      at hdenoted
    rw [Json.int.injEq, ← Int.cast_inj (α := ℚ), ← hdenoted]
    split_ifs <;> simp

/-- Two readings that give an object the same names in the same order sort it alike exactly if they are the same. -/
theorem sortFields_inj {f g : List (Str × Json)} (hkeys : f.map (·.1) = g.map (·.1)) (hnodup : (f.map (·.1)).Nodup) :
    sortFields f = sortFields g ↔ f = g := by
  refine ⟨fun h => ?_, fun h => h ▸ rfl⟩
  have hagree : Agree f g := fun j => by rw [← find?_sortFields, h, find?_sortFields]
  clear h
  induction f generalizing g with
  | nil => exact (List.map_eq_nil_iff.mp hkeys.symm).symm
  | cons p f ih =>
    obtain ⟨q, g, rfl, hkey, hrest⟩ := List.map_eq_cons_iff.mp hkeys.symm
    obtain ⟨hnew, hnodup⟩ := List.nodup_cons.mp hnodup
    have hhead := hagree p.1
    rw [List.find?_cons_of_pos (by simp), List.find?_cons_of_pos (by simpa using hkey)] at hhead
    cases hhead
    rw [ih hrest.symm hnodup fun j => ?_]
    by_cases hj : p.1 = j
    · subst hj
      have hnone (l : List (Str × Json)) (hl : p.1 ∉ l.map (·.1)) : l.find? (fun q => q.1 = p.1) = none := by
        rw [List.find?_eq_none]
        intro q hq heq
        exact hl (List.mem_map.mpr ⟨q, hq, of_decide_eq_true heq⟩)
      rw [hnone f hnew, hnone g (hrest.symm ▸ hnew)]
    · have hskip := hagree j
      rwa [List.find?_cons_of_neg (by simpa using hj), List.find?_cons_of_neg (by simpa using hj)] at hskip

theorem names_of_forall₂ {f : List (List Piece × Raw)} {g : List (Str × Json)}
    (h : List.Forall₂ (fun p q => q.1 = joinEscapes p.1) f g) : g.map (·.1) = f.map fun p => joinEscapes p.1 := by
  induction h with
  | nil => rfl
  | cons hp _ ih => rw [List.map_cons, List.map_cons, ih, hp]

/-- Python reads the same as a reader of integers exactly where all literals are integer literals. -/
theorem read_python_eq_iff (a : Raw) : ∀ {v w : Json}, a.read python = some v → a.read integral = some w → (v = w ↔ a.isInteger = true) := by
  have hall {l : List Raw} (ih : ∀ a ∈ l, ∀ {v w : Json}, a.read python = some v → a.read integral = some w → (v = w ↔ a.isInteger = true))
      {k m : List Json} (hk : List.Forall₂ (fun a v => a.read python = some v) l k)
      (hm : List.Forall₂ (fun a v => a.read integral = some v) l m) : k = m ↔ ∀ a ∈ l, a.isInteger = true := by
    induction hk generalizing m with
    | nil =>
      cases hm
      exact iff_of_true rfl (by simp)
    | @cons a v l k hv hk ihk =>
      cases hm with
      | cons hw hm =>
        obtain ⟨iha, ihl⟩ := List.forall_mem_cons.mp ih
        rw [List.cons.injEq, List.forall_mem_cons, iha hv hw, ihk ihl hm]
  induction a using Raw.induct with
  | null =>
    rintro v w ⟨⟩ ⟨⟩
    exact iff_of_true rfl rfl
  | bool b =>
    rintro v w ⟨⟩ ⟨⟩
    exact iff_of_true rfl rfl
  | number l =>
    intro v w hv hw
    rw [read] at hv hw
    obtain ⟨n, hn, rfl⟩ := Option.map_eq_some_iff.mp hw
    rw [number_python hv hn, isInteger, every, Bool.not_eq_true']
  | string s =>
    intro v w hv hw
    rw [read] at hv hw
    obtain ⟨t, ht, rfl⟩ := Option.map_eq_some_iff.mp hv
    obtain ⟨u, hu, rfl⟩ := Option.map_eq_some_iff.mp hw
    cases ht
    obtain ⟨rfl, -⟩ := integral_string.mp hu
    exact iff_of_true rfl rfl
  | arr l ih =>
    intro v w hv hw
    rw [read] at hv hw
    obtain ⟨k, hk, rfl⟩ := Option.map_eq_some_iff.mp hv
    obtain ⟨m, hm, rfl⟩ := Option.map_eq_some_iff.mp hw
    rw [isInteger, every_arr, Json.arr.injEq]
    exact hall ih (readItems_eq_some.mp hk) (readItems_eq_some.mp hm)
  | obj f ih =>
    intro v w hv hw
    rw [read] at hv hw
    obtain ⟨g, hg, hv⟩ := Option.bind_eq_some_iff.mp hv
    obtain ⟨m, hm, hw⟩ := Option.bind_eq_some_iff.mp hw
    obtain ⟨hnodup, rfl⟩ := (Option.ite_none_right_eq_some.mp hv).imp_right Option.some.inj
    obtain ⟨-, rfl⟩ := integral_object.mp hw
    rw [readFields_eq_some] at hg hm
    have hkeys : g.map (·.1) = f.map (fun p => joinEscapes p.1) ∧ m.map (·.1) = f.map fun p => joinEscapes p.1 := by
      refine ⟨names_of_forall₂ (hg.imp fun p q h => Option.some.inj h.1.symm), names_of_forall₂ (hm.imp fun p q h => (integral_string.mp h.1).1)⟩
    rw [isInteger, every_obj, Json.obj.injEq, sortFields_inj (hkeys.1.trans hkeys.2.symm) hnodup, and_iff_right rfl]
    have hvalues := hall (l := f.map (·.2)) (List.forall_mem_map.mpr ih) (k := g.map (·.2)) (m := m.map (·.2))
      (by simpa using hg.imp fun p q h => h.2) (by simpa using hm.imp fun p q h => h.2)
    rw [List.forall_mem_map] at hvalues
    refine Iff.trans ⟨fun h => by rw [h], fun h => ?_⟩ hvalues
    rw [← List.zip_unzip g, ← List.zip_unzip m, List.unzip_fst, List.unzip_snd, List.unzip_fst, List.unzip_snd, hkeys.1, hkeys.2, h]

/-- What a reader of integers reads has its fields in order. -/
theorem isPlain_integral (a : Raw) : ∀ {v : Json}, a.read integral = some v → IsPlain v := by
  induction a using Raw.induct with
  | null =>
    rintro v ⟨⟩
    rfl
  | bool b =>
    rintro v ⟨⟩
    rfl
  | number l =>
    intro v hv
    obtain ⟨n, -, rfl⟩ := Option.map_eq_some_iff.mp hv
    rfl
  | string s =>
    intro v hv
    rw [read] at hv
    obtain ⟨t, -, rfl⟩ := Option.map_eq_some_iff.mp hv
    rfl
  | arr l ih =>
    intro v hv
    rw [read] at hv
    obtain ⟨k, hk, rfl⟩ := Option.map_eq_some_iff.mp hv
    refine isPlain_arr fun w hw => ?_
    obtain ⟨b, hb, hread⟩ := exists_mem_of_forall₂ (readItems_eq_some.mp hk).flip hw
    exact ih b hb hread
  | obj f ih =>
    intro v hv
    rw [read] at hv
    obtain ⟨g, hg, hv⟩ := Option.bind_eq_some_iff.mp hv
    obtain ⟨-, rfl⟩ := integral_object.mp hv
    refine isPlain_sortFields fun q hq => ?_
    obtain ⟨p, hp, hread⟩ := exists_mem_of_forall₂ (readFields_eq_some.mp hg).flip hq
    exact ih p hp hread.2

end Raw

/-- The canonical bytes of a document with every number taken as an integer. -/
def integralBytes? (a : Raw) : Option Bytes := (a.read Raw.integral).bind canonicalBytes?

/-- Python has the canonical bytes of a reader of integers exactly where all literals are integer literals. -/
theorem integralBytes?_python {data : Bytes} {s : Str} {a : Raw} {v : Json} {b c : Bytes} (hs : s.utf8? = some data)
    (hdoc : Document Java.digit s a) (hobject : Java.isObject a = true) (hb : integralBytes? a = some b) (hv : strictLoads? data = some v)
    (hc : canonicalBytes? v = some c) : b = c ↔ a.isInteger = true := by
  have hread := (read_of_strictLoads hs hdoc hobject hv).2
  obtain ⟨w, hw, hb⟩ := Option.bind_eq_some_iff.mp hb
  have hplain := Raw.isPlain_integral a hw
  rw [← Raw.read_python_eq_iff a hread hw]
  constructor
  · rintro rfl
    obtain ⟨f, rfl⟩ : ∃ f, v = .obj f := by
      obtain ⟨t, -, hv⟩ := Option.bind_eq_some_iff.mp hv
      obtain ⟨u, -, hv⟩ := Option.bind_eq_some_iff.mp hv
      cases u with
      | obj f => exact ⟨f, (Option.some.inj hv).symm⟩
      | _ => cases hv
    obtain ⟨g, rfl⟩ : ∃ g, w = .obj g := by
      cases a with
      | obj g =>
        rw [Raw.read] at hw
        obtain ⟨g', -, hw⟩ := Option.bind_eq_some_iff.mp hw
        exact ⟨_, (Raw.integral_object.mp hw).2⟩
      | _ => cases hobject
    have hloaded := (tells_loads hv (decodeText?_document hs hdoc hobject)).1
    rw [← hloaded, ← hplain]
    exact canonicalBytes?_inj hc hb
  · rintro rfl
    exact Option.some.inj (hb.symm.trans hc)

/-! ### Members in the order of their names -/

theorem sortFields_eq_insertionSort {g : List (Str × Json)} (h : (g.map (·.1)).Nodup) :
    sortFields g = g.insertionSort fun p q => p.1 ≤ q.1 := by
  refine ((perm_sortFields h).trans (List.perm_insertionSort _ g).symm).eq_of_pairwise (fun p q hp hq hpq hqp => ?_)
    ((List.pairwise_map.mp (ordered_sortFields g)).imp le_of_lt) (List.pairwise_insertionSort _ g)
  have hq' := (List.mem_insertionSort _).mp hq
  exact List.inj_on_of_nodup_map h ((perm_sortFields h).mem_iff.mp hp) hq' (le_antisymm hpq hqp)

/-- The texts of members that are sorted by their names make the text of the object with its fields in order. -/
theorem text?_obj_sorted {r : Str × Str → Str × Str → Prop} [DecidableRel r] (hr : ∀ s t, r s t ↔ s.1 ≤ t.1) {g : List (Str × Json)}
    {ts : List (Str × Str)} (h : List.Forall₂ (fun q t => t.1 = q.1 ∧ text? q.2 = some t.2) g ts) (hnodup : (g.map (·.1)).Nodup) :
    text? (.obj (sortFields g)) = some (123 :: joinComma ((ts.insertionSort r).map fun t => quote t.1 ++ 58 :: t.2) ++ [125]) := by
  have hts : ts = g.map fun q => (q.1, (text? q.2).getD []) := by
    induction h with
    | nil => rfl
    | @cons q t g ts hqt _ ih =>
      rw [List.map_cons, ← ih (List.nodup_cons.mp hnodup).2, hqt.2, Option.getD_some, ← hqt.1]
  have htexts (m : List (Str × Json)) (hm : ∀ q ∈ m, ∃ t, text? q.2 = some t) :
      fieldTexts? m = some (m.map fun q => quote q.1 ++ 58 :: (text? q.2).getD []) := by
    induction m with
    | nil => rfl
    | cons q m ih =>
      obtain ⟨k, v⟩ := q
      obtain ⟨⟨t, ht⟩, hm⟩ := List.forall_mem_cons.mp hm
      rw [fieldTexts?, ht, Option.bind_some, ih hm, List.map_cons, ht]
      rfl
  have hsome : ∀ q ∈ sortFields g, ∃ t, text? q.2 = some t := by
    intro q hq
    obtain ⟨t, -, ht⟩ := exists_mem_of_forall₂ h ((perm_sortFields hnodup).mem_iff.mp hq)
    exact ⟨t.2, ht.2⟩
  rw [text?, htexts _ hsome, Option.map_some, sortFields_eq_insertionSort hnodup, hts,
    ← List.map_insertionSort (fun p q => p.1 ≤ q.1) r _ g fun a _ b _ =>
      (hr (a.1, (text? a.2).getD []) (b.1, (text? b.2).getD [])).symm, List.map_map]
  rfl

end LeanCtx.Json
