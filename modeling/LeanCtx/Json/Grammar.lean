import LeanCtx.Json.Raw
import Mathlib.Data.List.TakeWhile

/-! The grammar of JSON texts, as a relation between a text, the document at its head and the rest of the text. The digits of a number
    are a parameter: RFC 8259 has the ten ASCII digits, and there are parsers that read more. -/

namespace LeanCtx.Json.Grammar
open PyFloat

/-- The value of a character that counts as a digit. -/
abbrev DigitClass := Nat → Option Nat

/-- The digits of RFC 8259. -/
def ascii : DigitClass := fun c => if 48 ≤ c ∧ c ≤ 57 then some (c - 48) else none

section
variable (D : DigitClass)

inductive Digits : Str → List Nat → Str → Prop
  | nil (r : Str) : Digits r [] r
  | cons {c d : Nat} {s r : Str} {l : List Nat} (digit : D c = some d) (rest : Digits s l r) : Digits (c :: s) (d :: l) r

inductive Sign : Str → Bool → Str → Prop
  | minus (r : Str) : Sign (45 :: r) true r
  | none (r : Str) : Sign r false r

/-- The integer part: a lone zero, or digits of which the first is another ASCII digit. -/
inductive Whole : Str → List Nat → Str → Prop
  | zero (r : Str) : Whole (48 :: r) [0] r
  | digits {c : Nat} {s r : Str} {l : List Nat} (first : 49 ≤ c ∧ c ≤ 57) (rest : Digits D s l r) : Whole (c :: s) ((c - 48) :: l) r

inductive Fraction : Str → Option (List Nat) → Str → Prop
  | none (r : Str) : Fraction r none r
  | some {s r : Str} {l : List Nat} (digits : Digits D s l r) (nonempty : l ≠ []) : Fraction (46 :: s) (some l) r

inductive ExponentSign : Str → Int → Str → Prop
  | none (r : Str) : ExponentSign r 1 r
  | plus (r : Str) : ExponentSign (43 :: r) 1 r
  | minus (r : Str) : ExponentSign (45 :: r) (-1) r

inductive Exponent : Str → Option Int → Str → Prop
  | none (r : Str) : Exponent r none r
  | some {c : Nat} {s t r : Str} {k : Int} {l : List Nat} (letter : c = 101 ∨ c = 69) (sign : ExponentSign s k t)
      (digits : Digits D t l r) (nonempty : l ≠ []) : Exponent (c :: s) (some (k * ofDigits l)) r

inductive Number : Str → Literal → Str → Prop
  | intro {s t u v r : Str} {neg : Bool} {w : List Nat} {f : Option (List Nat)} {e : Option Int} (sign : Sign s neg t)
      (whole : Whole D t w u) (fraction : Fraction D u f v) (exponent : Exponent D v e r) : Number s ⟨neg, w, f, e⟩ r

end

/-- The characters of a string up to and past its closing quote. -/
inductive Chars : Str → List Piece → Str → Prop
  | close (r : Str) : Chars (34 :: r) [] r
  | escape {s t r : Str} {p : Piece} {l : List Piece} (piece : Raw.scanEscape s = some (p, t)) (rest : Chars t l r) : Chars (92 :: s) (p :: l) r
  | char {c : Nat} {s r : Str} {l : List Piece} (printable : 32 ≤ c) (quote : c ≠ 34) (backslash : c ≠ 92) (rest : Chars s l r) :
      Chars (c :: s) (.char c :: l) r

section
variable (D : DigitClass)

mutual
/-- A value at the head of a text. -/
inductive Value : Str → Raw → Str → Prop
  | null (r : Str) : Value (110 :: 117 :: 108 :: 108 :: r) .null r
  | true (r : Str) : Value (116 :: 114 :: 117 :: 101 :: r) (.bool true) r
  | false (r : Str) : Value (102 :: 97 :: 108 :: 115 :: 101 :: r) (.bool false) r
  | number {s r : Str} {l : Literal} (literal : Number D s l r) : Value s (.number l) r
  | string {s r : Str} {l : List Piece} (chars : Chars s l r) : Value (34 :: s) (.string l) r
  | emptyArr {s r : Str} (close : skipSpace s = 93 :: r) : Value (91 :: s) (.arr []) r
  | arr {s r : Str} {l : List Raw} (items : Items (skipSpace s) l r) : Value (91 :: s) (.arr l) r
  | emptyObj {s r : Str} (close : skipSpace s = 125 :: r) : Value (123 :: s) (.obj []) r
  | obj {s r : Str} {f : List (List Piece × Raw)} (fields : Fields (skipSpace s) f r) : Value (123 :: s) (.obj f) r

/-- The items of an array up to and past its closing bracket. -/
inductive Items : Str → List Raw → Str → Prop
  | last {s t r : Str} {v : Raw} (value : Value s v t) (close : skipSpace t = 93 :: r) : Items s [v] r
  | cons {s t u r : Str} {v : Raw} {l : List Raw} (value : Value s v t) (comma : skipSpace t = 44 :: u) (rest : Items (skipSpace u) l r) :
      Items s (v :: l) r

/-- The members of an object up to and past its closing brace. -/
inductive Fields : Str → List (List Piece × Raw) → Str → Prop
  | last {s t u w r : Str} {k : List Piece} {v : Raw} (key : Chars s k t) (colon : skipSpace t = 58 :: u)
      (value : Value (skipSpace u) v w) (close : skipSpace w = 125 :: r) : Fields (34 :: s) [(k, v)] r
  | cons {s t u w x r : Str} {k : List Piece} {v : Raw} {f : List (List Piece × Raw)} (key : Chars s k t) (colon : skipSpace t = 58 :: u)
      (value : Value (skipSpace u) v w) (comma : skipSpace w = 44 :: x) (rest : Fields (skipSpace x) f r) : Fields (34 :: s) ((k, v) :: f) r
end

/-- A whole text: one value between spaces. -/
def Document (s : Str) (v : Raw) : Prop := ∃ r, Value D (skipSpace s) v r ∧ skipSpace r = []

end

/-! ### Every part reads on -/

section
variable {D D' : DigitClass}

theorem length_skipSpace_le (s : Str) : (skipSpace s).length ≤ s.length := List.length_dropWhile_le _ _

theorem Digits.length {s r : Str} {l : List Nat} (h : Digits D s l r) : s.length = l.length + r.length := by
  induction h with
  | nil r => simp
  | cons _ _ ih => simp only [List.length_cons, ih]; omega

theorem Sign.length {s t : Str} {neg : Bool} (h : Sign s neg t) : t.length ≤ s.length := by
  cases h with
  | minus t => exact Nat.le_succ _
  | none t => exact le_rfl

theorem Whole.length {s r : Str} {l : List Nat} (h : Whole D s l r) : r.length < s.length := by
  cases h with
  | zero r => exact Nat.lt_succ_self _
  | digits _ rest =>
    have hrest := rest.length
    simp only [List.length_cons]
    omega

theorem Fraction.length {s r : Str} {f : Option (List Nat)} (h : Fraction D s f r) : r.length ≤ s.length := by
  cases h with
  | none r => exact le_rfl
  | some digits _ =>
    have hdigits := digits.length
    simp only [List.length_cons]
    omega

theorem ExponentSign.length {s r : Str} {k : Int} (h : ExponentSign s k r) : r.length ≤ s.length := by
  cases h with
  | none r => exact le_rfl
  | plus r => exact Nat.le_succ _
  | minus r => exact Nat.le_succ _

theorem Exponent.length {s r : Str} {e : Option Int} (h : Exponent D s e r) : r.length ≤ s.length := by
  cases h with
  | none r => exact le_rfl
  | some _ sign digits _ =>
    have hsign := sign.length
    have hdigits := digits.length
    simp only [List.length_cons]
    omega

theorem Number.length {s r : Str} {l : Literal} (h : Number D s l r) : r.length < s.length := by
  obtain ⟨hsign, hwhole, hfraction, hexponent⟩ := h
  have hs := hsign.length
  have hw := hwhole.length
  have hf := hfraction.length
  have he := hexponent.length
  omega

theorem length_scanHex4 {s t : Str} {u : Nat} (h : scanHex4 s = some (u, t)) : t.length < s.length := by
  unfold scanHex4 at h
  split at h
  · simp only [Option.bind_eq_bind, Option.bind_eq_some_iff, Option.pure_def, Option.some.injEq, Prod.mk.injEq] at h
    obtain ⟨_, -, _, -, _, -, _, -, -, rfl⟩ := h
    simp only [List.length_cons]
    omega
  · cases h

theorem length_scanEscape {s t : Str} {p : Piece} (h : Raw.scanEscape s = some (p, t)) : t.length < s.length := by
  cases s with
  | nil => cases h
  | cons e s =>
    have hone : ∀ {q : Piece}, some (q, s) = some (p, t) → t.length < (e :: s).length := by
      rintro q ⟨⟩
      exact Nat.lt_succ_self _
    rw [Raw.scanEscape] at h
    split_ifs at h
    any_goals exact hone h
    obtain ⟨⟨u, r⟩, hu, ⟨⟩⟩ := Option.map_eq_some_iff.mp h
    exact Nat.lt_succ_of_lt (length_scanHex4 hu)

theorem Chars.length {s r : Str} {l : List Piece} (h : Chars s l r) : r.length < s.length := by
  induction h with
  | close r => exact Nat.lt_succ_self _
  | escape piece _ ih =>
    have hpiece := length_scanEscape piece
    simp only [List.length_cons]
    omega
  | char _ _ _ _ ih => exact Nat.lt_succ_of_lt ih

theorem length_of_skipSpace {s r : Str} {c : Nat} (h : skipSpace s = c :: r) : r.length < s.length := by
  have hle := length_skipSpace_le s
  rw [h, List.length_cons] at hle
  omega

mutual
theorem Value.length : ∀ {s v r}, Value D s v r → r.length < s.length
  | _, _, _, .null r => by simp only [List.length_cons]; omega
  | _, _, _, .true r => by simp only [List.length_cons]; omega
  | _, _, _, .false r => by simp only [List.length_cons]; omega
  | _, _, _, .number literal => literal.length
  | _, _, _, .string chars => Nat.lt_succ_of_lt chars.length
  | _, _, _, .emptyArr close => Nat.lt_succ_of_lt (length_of_skipSpace close)
  | _, _, _, .arr (s := s) items => Nat.lt_succ_of_lt (items.length.trans_le (length_skipSpace_le s))
  | _, _, _, .emptyObj close => Nat.lt_succ_of_lt (length_of_skipSpace close)
  | _, _, _, .obj (s := s) fields => Nat.lt_succ_of_lt (fields.length.trans_le (length_skipSpace_le s))

theorem Items.length : ∀ {s l r}, Items D s l r → r.length < s.length
  | _, _, _, .last value close => (length_of_skipSpace close).trans value.length
  | _, _, _, .cons (u := u) value comma rest =>
    (rest.length.trans_le (length_skipSpace_le u)).trans ((length_of_skipSpace comma).trans value.length)

theorem Fields.length : ∀ {s f r}, Fields D s f r → r.length < s.length
  | _, _, _, .last (u := u) key colon value close =>
    Nat.lt_succ_of_lt ((length_of_skipSpace close).trans ((value.length.trans_le (length_skipSpace_le u)).trans
      ((length_of_skipSpace colon).trans key.length)))
  | _, _, _, .cons (u := u) (x := x) key colon value comma rest =>
    Nat.lt_succ_of_lt ((rest.length.trans_le (length_skipSpace_le x)).trans ((length_of_skipSpace comma).trans
      ((value.length.trans_le (length_skipSpace_le u)).trans ((length_of_skipSpace colon).trans key.length))))
end

/-! ### A wider class of digits reads what a narrower one reads -/

/-- Every digit of one class is a digit of the other. -/
def Extends (D' D : DigitClass) : Prop := ∀ c d, D c = some d → D' c = some d

theorem Digits.mono {s r : Str} {l : List Nat} (h : Digits D s l r) (hmono : Extends D' D) : Digits D' s l r := by
  induction h with
  | nil r => exact .nil r
  | cons digit _ ih => exact .cons (hmono _ _ digit) ih

theorem Whole.mono {s r : Str} {l : List Nat} (h : Whole D s l r) (hmono : Extends D' D) : Whole D' s l r := by
  cases h with
  | zero r => exact .zero r
  | digits first rest => exact .digits first (rest.mono hmono)

theorem Fraction.mono {s r : Str} {f : Option (List Nat)} (h : Fraction D s f r) (hmono : Extends D' D) : Fraction D' s f r := by
  cases h with
  | none => exact .none _
  | some digits nonempty => exact .some (digits.mono hmono) nonempty

theorem Exponent.mono {s r : Str} {e : Option Int} (h : Exponent D s e r) (hmono : Extends D' D) : Exponent D' s e r := by
  cases h with
  | none => exact .none _
  | some letter sign digits nonempty => exact .some letter sign (digits.mono hmono) nonempty

theorem Number.mono {s r : Str} {l : Literal} (h : Number D s l r) (hmono : Extends D' D) : Number D' s l r := by
  obtain ⟨hsign, hwhole, hfraction, hexponent⟩ := h
  exact ⟨hsign, hwhole.mono hmono, hfraction.mono hmono, hexponent.mono hmono⟩

mutual
theorem Value.mono (hmono : Extends D' D) : ∀ {s v r}, Value D s v r → Value D' s v r
  | _, _, _, .null r => .null r
  | _, _, _, .true r => .true r
  | _, _, _, .false r => .false r
  | _, _, _, .number literal => .number (literal.mono hmono)
  | _, _, _, .string chars => .string chars
  | _, _, _, .emptyArr close => .emptyArr close
  | _, _, _, .arr items => .arr (items.mono hmono)
  | _, _, _, .emptyObj close => .emptyObj close
  | _, _, _, .obj fields => .obj (fields.mono hmono)

theorem Items.mono (hmono : Extends D' D) : ∀ {s l r}, Items D s l r → Items D' s l r
  | _, _, _, .last value close => .last (value.mono hmono) close
  | _, _, _, .cons value comma rest => .cons (value.mono hmono) comma (rest.mono hmono)

theorem Fields.mono (hmono : Extends D' D) : ∀ {s f r}, Fields D s f r → Fields D' s f r
  | _, _, _, .last key colon value close => .last key colon (value.mono hmono) close
  | _, _, _, .cons key colon value comma rest => .cons key colon (value.mono hmono) comma (rest.mono hmono)
end

theorem Document.mono {s : Str} {v : Raw} (h : Document D s v) (hmono : Extends D' D) : Document D' s v := by
  obtain ⟨r, hvalue, hend⟩ := h
  exact ⟨r, hvalue.mono hmono, hend⟩

end

end LeanCtx.Json.Grammar
