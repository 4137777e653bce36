import Mathlib

/-! Python text: strings as sequences of code points, their literals, and UTF-8. A Python string may hold an
    unpaired surrogate, which the strict codec refuses to encode and the `surrogatepass` decoder of
    `json.loads` produces. -/

namespace LeanCtx

/-- A Python `str`: its code points. -/
abbrev Str := List Nat

/-- A Python `bytes`. -/
abbrev Bytes := List UInt8

namespace Str

/-- The string of a literal. -/
def lit (s : String) : Str := s.toList.map Char.toNat

instance : Coe String Str := ⟨lit⟩

instance : LawfulBEq Str := inferInstance

theorem lit_injective : Function.Injective lit := by
  intro a b h
  have hchar : Function.Injective Char.toNat := fun c d hcd => Char.toNat_inj.mp hcd
  exact String.toList_inj.mp (List.map_injective_iff.mpr hchar h)

@[simp] theorem lit_inj {a b : String} : lit a = lit b ↔ a = b := lit_injective.eq_iff

/-! ### UTF-8 -/

/-- A surrogate code point, which UTF-8 cannot encode. -/
def isSurrogate (c : Nat) : Bool := 0xD800 ≤ c && c ≤ 0xDFFF

/-- A code point that UTF-8 encodes. -/
def isScalar (c : Nat) : Bool := c < 0xD800 || (0xDFFF < c && c < 0x110000)

/-- The UTF-8 bytes of a code point. -/
def encodePoint (c : Nat) : Bytes :=
  if c < 0x80 then [UInt8.ofNat c]
  else if c < 0x800 then [UInt8.ofNat (0xC0 + c / 0x40), UInt8.ofNat (0x80 + c % 0x40)]
  else if c < 0x10000 then
    [UInt8.ofNat (0xE0 + c / 0x1000), UInt8.ofNat (0x80 + c / 0x40 % 0x40), UInt8.ofNat (0x80 + c % 0x40)]
  else
    [UInt8.ofNat (0xF0 + c / 0x40000), UInt8.ofNat (0x80 + c / 0x1000 % 0x40),
      UInt8.ofNat (0x80 + c / 0x40 % 0x40), UInt8.ofNat (0x80 + c % 0x40)]

/-- `value.encode("utf-8", "strict")`, with `none` for `UnicodeEncodeError`. -/
def utf8? (s : Str) : Option Bytes := if s.all isScalar then some (s.flatMap encodePoint) else none

/-- The length of the UTF-8 encoding of a code point. -/
def pointLength (c : Nat) : Nat := if c < 0x80 then 1 else if c < 0x800 then 2 else if c < 0x10000 then 3 else 4

/-- `len(value.encode("utf-8"))` of a string that encodes. -/
def utf8Length (s : Str) : Nat := (s.map pointLength).sum

/-- A continuation byte. -/
def isTail (b : UInt8) : Bool := 0x80 ≤ b.toNat && b.toNat ≤ 0xBF

/-- `data.decode("utf-8", "surrogatepass")`, with `none` for `UnicodeDecodeError`. -/
def decodeUtf8? : Bytes → Option Str
  | [] => some []
  | a :: r =>
    if a.toNat < 0x80 then (a.toNat :: ·) <$> decodeUtf8? r
    else match r with
      | [] => none
      | b :: r =>
        if 0xC2 ≤ a.toNat && a.toNat ≤ 0xDF && isTail b then
          (((a.toNat - 0xC0) * 0x40 + (b.toNat - 0x80)) :: ·) <$> decodeUtf8? r
        else match r with
          | [] => none
          | c :: r =>
            if 0xE0 ≤ a.toNat && a.toNat ≤ 0xEF && isTail b && isTail c &&
                0x800 ≤ (a.toNat - 0xE0) * 0x1000 + (b.toNat - 0x80) * 0x40 then
              (((a.toNat - 0xE0) * 0x1000 + (b.toNat - 0x80) * 0x40 + (c.toNat - 0x80)) :: ·) <$> decodeUtf8? r
            else match r with
              | [] => none
              | d :: r =>
                let p := (a.toNat - 0xF0) * 0x40000 + (b.toNat - 0x80) * 0x1000 + (c.toNat - 0x80) * 0x40 +
                  (d.toNat - 0x80)
                if 0xF0 ≤ a.toNat && a.toNat ≤ 0xF4 && isTail b && isTail c && isTail d && 0x10000 ≤ p &&
                    p < 0x110000 then
                  (p :: ·) <$> decodeUtf8? r
                else none

theorem length_encodePoint (c : Nat) : (encodePoint c).length = pointLength c := by
  unfold encodePoint pointLength
  split_ifs <;> rfl

theorem length_utf8 {s : Str} {b : Bytes} (h : s.utf8? = some b) : b.length = s.utf8Length := by
  unfold utf8? at h
  split_ifs at h
  cases h
  simp only [List.length_flatMap, utf8Length, length_encodePoint]

theorem utf8Length_append (s t : Str) : utf8Length (s ++ t) = utf8Length s + utf8Length t := by
  simp [utf8Length]

theorem utf8?_append {s t : Str} {b c : Bytes} (hs : s.utf8? = some b) (ht : t.utf8? = some c) :
    (s ++ t).utf8? = some (b ++ c) := by
  unfold utf8? at *
  split_ifs at hs ht with h1 h2
  cases hs
  cases ht
  simp only [List.all_append, h1, h2, Bool.and_self, if_true, List.flatMap_append]

theorem toNat_ofNat_lt {n : Nat} (h : n < 256) : (UInt8.ofNat n).toNat = n := UInt8.toNat_ofNat_of_lt h

theorem decodeUtf8?_encodePoint {c : Nat} (hc : isScalar c = true) (r : Bytes) :
    decodeUtf8? (encodePoint c ++ r) = (c :: ·) <$> decodeUtf8? r := by
  have hlt : c < 0x110000 := by simp only [isScalar, Bool.or_eq_true, Bool.and_eq_true, decide_eq_true_eq] at hc; omega
  unfold encodePoint
  -- one case for each length of the encoding
  split_ifs with h1 h2 h3
  · rw [List.singleton_append, decodeUtf8?.eq_def]
    simp only [toNat_ofNat_lt (show c < 256 by omega), h1, if_true]
  · rw [List.cons_append, List.singleton_append, decodeUtf8?.eq_def]
    simp only [isTail, toNat_ofNat_lt (show 0xC0 + c / 0x40 < 256 by omega),
      toNat_ofNat_lt (show 0x80 + c % 0x40 < 256 by omega)]
    rw [if_neg (by omega), if_pos (by simp; omega), show (0xC0 + c / 0x40 - 0xC0) * 0x40 +
      (0x80 + c % 0x40 - 0x80) = c by omega]
  · simp only [List.cons_append, List.nil_append]
    rw [decodeUtf8?.eq_def]
    simp only [isTail, toNat_ofNat_lt (show 0xE0 + c / 0x1000 < 256 by omega),
      toNat_ofNat_lt (show 0x80 + c / 0x40 % 0x40 < 256 by omega), toNat_ofNat_lt (show 0x80 + c % 0x40 < 256 by omega)]
    rw [if_neg (by omega), if_neg (by simp; omega), if_pos (by simp; omega),
      show (0xE0 + c / 0x1000 - 0xE0) * 0x1000 + (0x80 + c / 0x40 % 0x40 - 0x80) * 0x40 +
        (0x80 + c % 0x40 - 0x80) = c by omega]
  · simp only [List.cons_append, List.nil_append]
    rw [decodeUtf8?.eq_def]
    have hp : (0xF0 + c / 0x40000 - 0xF0) * 0x40000 + (0x80 + c / 0x1000 % 0x40 - 0x80) * 0x1000 +
        (0x80 + c / 0x40 % 0x40 - 0x80) * 0x40 + (0x80 + c % 0x40 - 0x80) = c := by omega
    simp only [isTail, toNat_ofNat_lt (show 0xF0 + c / 0x40000 < 256 by omega),
      toNat_ofNat_lt (show 0x80 + c / 0x1000 % 0x40 < 256 by omega),
      toNat_ofNat_lt (show 0x80 + c / 0x40 % 0x40 < 256 by omega), toNat_ofNat_lt (show 0x80 + c % 0x40 < 256 by omega)]
    rw [if_neg (by omega), if_neg (by simp; omega), if_neg (by simp; omega), hp, if_pos (by simp; omega)]

/-- Decoding gives back what encodes. -/
theorem decodeUtf8?_utf8 {s : Str} {b : Bytes} (h : s.utf8? = some b) : decodeUtf8? b = some s := by
  unfold utf8? at h
  split_ifs at h with hs
  cases h
  induction s with
  | nil => simp [decodeUtf8?]
  | cons c s ih =>
    simp only [List.all_cons, Bool.and_eq_true] at hs
    rw [List.flatMap_cons, decodeUtf8?_encodePoint hs.1, ih hs.2]
    rfl

end Str
end LeanCtx
