import LeanCtx.Json.Grammar

/-! The escapes of UTF-16 units in a JSON text. The decoder of Go repairs a surrogate that stands alone, so a response is scanned for one
    before it is decoded. The scan goes over the bytes of the text with no regard to its strings, and still finds exactly what the
    strings of the text hold (`contextReadUnicodeEscapesValid_iff`). -/

namespace LeanCtx

namespace Json.Raw

mutual
/-- The strings of a document, keys among them, in their order. -/
def strings : Raw → List (List Piece)
  | .string s => [s]
  | .arr l => itemStrings l
  | .obj f => fieldStrings f
  | _ => []

def itemStrings : List Raw → List (List Piece)
  | [] => []
  | v :: l => strings v ++ itemStrings l

def fieldStrings : List (List Piece × Raw) → List (List Piece)
  | [] => []
  | (k, v) :: f => k :: (strings v ++ fieldStrings f)
end

end Json.Raw

namespace Go
open Json (Piece Raw scanHex4 hexValue? skipSpace isSpace)
open Json.Raw (scanEscape joinEscapes)
open Json.Grammar (ascii Digits Sign Whole Fraction ExponentSign Exponent Number Chars Value Items Fields Document)

/-! ### Surrogates -/

def isHigh (u : Nat) : Bool := 0xD800 ≤ u && u ≤ 0xDBFF

def isLow (u : Nat) : Bool := 0xDC00 ≤ u && u ≤ 0xDFFF

theorem isHigh_iff {u : Nat} : isHigh u = true ↔ 0xD800 ≤ u ∧ u ≤ 0xDBFF := by simp [isHigh]

theorem isLow_iff {u : Nat} : isLow u = true ↔ 0xDC00 ≤ u ∧ u ≤ 0xDFFF := by simp [isLow]

theorem not_isLow {u : Nat} (h : isHigh u = true) : isLow u = false := by
  rw [isHigh_iff] at h
  rw [Bool.eq_false_iff, ne_eq, isLow_iff]
  omega

/-- Every escaped high surrogate is followed by an escaped low one, and every escaped low surrogate follows an escaped high one. -/
structure Paired (l : List Piece) : Prop where
  high : ∀ before u after, l = before ++ .unit u :: after → isHigh u = true → ∃ w rest, after = .unit w :: rest ∧ isLow w = true
  low : ∀ before u after, l = before ++ .unit u :: after → isLow u = true → ∃ front v, before = front ++ [.unit v] ∧ isHigh v = true

/-- `Paired`, in one pass. -/
def paired : List Piece → Bool
  | [] => true
  | .char _ :: l => paired l
  | .unit u :: l =>
    if isLow u then false
    else if isHigh u then
      match l with
      | .unit w :: l => isLow w && paired l
      | _ => false
    else paired l

/-- What the decoder of Go makes of a string: a surrogate that is not part of a pair is replaced. -/
def unquote : List Piece → Str
  | [] => []
  | .unit u :: .unit w :: l =>
    if isHigh u && isLow w then (0x10000 + (u - 0xD800) * 0x400 + (w - 0xDC00)) :: unquote l
    else (if isHigh u || isLow u then 0xFFFD else u) :: unquote (.unit w :: l)
  | .unit u :: l => (if isHigh u || isLow u then 0xFFFD else u) :: unquote l
  | .char c :: l => c :: unquote l

/-! ### The scan of a response -/

/-- `strconv.ParseUint(s, 16, 16)` of four bytes. -/
def parseUint (a b c d : UInt8) : Option Nat := (scanHex4 [a.toNat, b.toNat, c.toNat, d.toNat]).map (·.1)

/-- `contextReadUnicodeEscapesValid(raw)`. -/
def contextReadUnicodeEscapesValid : Bytes → Bool
  | [] => true
  | a :: r =>
    if a ≠ 92 then contextReadUnicodeEscapesValid r
    else
      match r with
      | [] => true
      | b :: r =>
        if b ≠ 117 then contextReadUnicodeEscapesValid r
        else
          match r with
          | c :: d :: e :: f :: r =>
            match parseUint c d e f with
            | none => false
            | some value =>
              if 0xDC00 ≤ value ∧ value ≤ 0xDFFF then false
              else if value < 0xD800 ∨ value > 0xDBFF then contextReadUnicodeEscapesValid r
              else
                match r with
                | g :: h :: i :: j :: k :: l :: r =>
                  if g ≠ 92 ∨ h ≠ 117 then false
                  else
                    match parseUint i j k l with
                    | none => false
                    | some low => if low < 0xDC00 ∨ low > 0xDFFF then false else contextReadUnicodeEscapesValid r
                | _ => false
          | _ => false

/-! ### Pairs -/

section
variable {l : List Piece}

theorem Paired.nil : Paired [] where
  high before u after h := by simp at h
  low before u after h := by simp at h

/-- A piece that is no surrogate says nothing about the ones after it. -/
theorem paired_cons {p : Piece} (hp : ∀ u, p = .unit u → isHigh u = false ∧ isLow u = false) : Paired (p :: l) ↔ Paired l := by
  constructor
  · intro h
    refine ⟨fun before u after heq hu => h.high (p :: before) u after (by rw [heq]; rfl) hu, fun before u after heq hu => ?_⟩
    obtain ⟨front, v, hfront, hv⟩ := h.low (p :: before) u after (by rw [heq]; rfl) hu
    cases front with
    | nil =>
      obtain ⟨rfl, -⟩ := List.cons.inj hfront
      rw [(hp v rfl).1] at hv
      cases hv
    | cons q front => exact ⟨front, v, (List.cons.inj hfront).2, hv⟩
  · intro h
    constructor
    · rintro (_ | ⟨q, before⟩) u after heq hu
      · obtain ⟨rfl, -⟩ := List.cons.inj heq
        rw [(hp u rfl).1] at hu
        cases hu
      · exact h.high before u after (List.cons.inj heq).2 hu
    · rintro (_ | ⟨q, before⟩) u after heq hu
      · obtain ⟨rfl, -⟩ := List.cons.inj heq
        rw [(hp u rfl).2] at hu
        cases hu
      · obtain ⟨front, v, rfl, hv⟩ := h.low before u after (List.cons.inj heq).2 hu
        exact ⟨q :: front, v, rfl, hv⟩

/-- A pair says nothing about the pieces after it. -/
theorem paired_pair {u w : Nat} (hu : isHigh u = true) (hw : isLow w = true) : Paired (.unit u :: .unit w :: l) ↔ Paired l := by
  constructor
  · intro h
    refine ⟨fun before v after heq hv => h.high (.unit u :: .unit w :: before) v after (by rw [heq]; rfl) hv, fun before v after heq hv => ?_⟩
    obtain ⟨front, x, hfront, hx⟩ := h.low (.unit u :: .unit w :: before) v after (by rw [heq]; rfl) hv
    obtain _ | ⟨p, _ | ⟨q, front⟩⟩ := front
    · cases hfront
    · obtain ⟨rfl, rfl⟩ : w = x ∧ before = [] := by simpa using (List.cons.inj hfront).2
      rw [not_isLow hx] at hw
      cases hw
    · exact ⟨front, x, (List.cons.inj (List.cons.inj hfront).2).2, hx⟩
  · intro h
    constructor
    · rintro (_ | ⟨p, _ | ⟨q, before⟩⟩) v after heq hv
      · exact ⟨w, l, (List.cons.inj heq).2.symm, hw⟩
      · obtain ⟨rfl, -⟩ : w = v ∧ l = after := by simpa using (List.cons.inj heq).2
        rw [not_isLow hv] at hw
        cases hw
      · exact h.high before v after (List.cons.inj (List.cons.inj heq).2).2 hv
    · rintro (_ | ⟨p, _ | ⟨q, before⟩⟩) v after heq hv
      · obtain ⟨rfl, -⟩ := Piece.unit.inj (List.cons.inj heq).1
        rw [not_isLow hu] at hv
        cases hv
      · obtain rfl := (List.cons.inj heq).1
        exact ⟨[], u, rfl, hu⟩
      · obtain ⟨front, x, rfl, hx⟩ := h.low before v after (List.cons.inj (List.cons.inj heq).2).2 hv
        exact ⟨p :: q :: front, x, rfl, hx⟩

theorem paired_of_low {u : Nat} (h : isLow u = true) : paired (.unit u :: l) = false := by
  rw [paired.eq_def]
  simp only [h, if_true]

theorem paired_of_high {u w : Nat} (h : isHigh u = true) : paired (.unit u :: .unit w :: l) = (isLow w && paired l) := by
  simp [paired, h, not_isLow h]

theorem paired_of_alone {u : Nat} (h : isHigh u = true) (hl : ∀ w m, l ≠ .unit w :: m) : paired (.unit u :: l) = false := by
  rw [paired.eq_def]
  simp only [h, not_isLow h, if_true, Bool.false_eq_true, if_false]

theorem paired_of_plain {u : Nat} (hhigh : isHigh u = false) (hlow : isLow u = false) : paired (.unit u :: l) = paired l := by
  rw [paired.eq_def]
  simp only [hhigh, hlow, Bool.false_eq_true, if_false]

theorem paired_iff : ∀ l : List Piece, paired l = true ↔ Paired l
  | [] => iff_of_true rfl .nil
  | .char c :: l => by rw [paired, paired_iff l, paired_cons fun u hu => by cases hu]
  | .unit u :: l => by
    cases hlow : isLow u with
    | true =>
      rw [paired_of_low hlow]
      refine iff_of_false nofun fun h => ?_
      obtain ⟨front, v, hfront, -⟩ := h.low [] u l rfl hlow
      simp at hfront
    | false =>
      cases hhigh : isHigh u with
      | false =>
        rw [paired_of_plain hhigh hlow, paired_iff l, paired_cons]
        rintro v ⟨⟩
        exact ⟨hhigh, hlow⟩
      | true =>
        by_cases hnext : ∃ w m, l = .unit w :: m
        · obtain ⟨w, m, rfl⟩ := hnext
          rw [paired_of_high hhigh, Bool.and_eq_true, paired_iff m]
          constructor
          · rintro ⟨hw, h⟩
            exact (paired_pair hhigh hw).mpr h
          · intro h
            obtain ⟨x, rest, heq, hx⟩ := h.high [] u _ rfl hhigh
            cases heq
            exact ⟨hx, (paired_pair hhigh hx).mp h⟩
        · rw [paired_of_alone hhigh fun w m heq => hnext ⟨w, m, heq⟩]
          refine iff_of_false nofun fun h => ?_
          obtain ⟨x, rest, heq, -⟩ := h.high [] u l rfl hhigh
          exact hnext ⟨x, rest, heq⟩

/-- An escaped high surrogate and the low one that follows it. -/
def Starts (u : Nat) (l : List Piece) : Prop := isHigh u = true ∧ ∃ w m, l = .unit w :: m ∧ isLow w = true

theorem unquote_alone : ∀ {u : Nat} {l : List Piece}, ¬Starts u l →
    unquote (.unit u :: l) = (if isHigh u || isLow u then 0xFFFD else u) :: unquote l
  | u, [], _ => rfl
  | u, .char c :: l, _ => by rw [unquote.eq_def]
  | u, .unit w :: l, h => by
    rw [unquote, if_neg]
    rw [Bool.and_eq_true]
    exact fun hp => h ⟨hp.1, w, l, rfl, hp.2⟩

theorem joinEscapes_alone {u : Nat} (h : ¬Starts u l) : joinEscapes (.unit u :: l) = u :: joinEscapes l :=
  Raw.joinEscapes_cons fun v w m hv hl hhigh hlow => by
    cases hv
    exact h ⟨isHigh_iff.mpr hhigh, w, m, hl, isLow_iff.mpr hlow⟩

/-- Go reads the string that a literal denotes exactly where the surrogates of the literal are paired. -/
theorem unquote_eq_iff : ∀ l : List Piece, unquote l = joinEscapes l ↔ paired l = true
  | [] => iff_of_true rfl rfl
  | .char c :: l => by
    rw [unquote, Raw.joinEscapes_cons (fun u w m hu => by cases hu), paired, List.cons.injEq, ← unquote_eq_iff l]
    exact and_iff_right rfl
  | .unit u :: l => by
    by_cases hstarts : Starts u l
    · obtain ⟨hu, w, m, rfl, hw⟩ := hstarts
      rw [unquote, if_pos (by rw [hu, hw]; rfl), Raw.joinEscapes_pair _ (isHigh_iff.mp hu) (isLow_iff.mp hw), paired_of_high hu, hw,
        Bool.true_and, List.cons.injEq, ← unquote_eq_iff m]
      exact and_iff_right rfl
    · rw [unquote_alone hstarts, joinEscapes_alone hstarts, List.cons.injEq]
      cases hhigh : isHigh u with
      | true =>
        refine iff_of_false (fun h => ?_) ?_
        · have hu := isHigh_iff.mp hhigh
          have heq := h.1
          simp only [Bool.true_or, if_true] at heq
          omega
        · by_cases hnext : ∃ w m, l = .unit w :: m
          · obtain ⟨w, m, rfl⟩ := hnext
            rw [paired_of_high hhigh, Bool.and_eq_true]
            exact fun h => hstarts ⟨hhigh, w, m, rfl, h.1⟩
          · rw [paired_of_alone hhigh fun w m heq => hnext ⟨w, m, heq⟩]
            exact Bool.false_ne_true
      | false =>
        cases hlow : isLow u with
        | true =>
          rw [paired_of_low hlow]
          refine iff_of_false (fun h => ?_) Bool.false_ne_true
          have hu := isLow_iff.mp hlow
          have heq := h.1
          simp only [Bool.or_true, if_true] at heq
          omega
        | false =>
          rw [paired_of_plain hhigh hlow, ← unquote_eq_iff l]
          exact and_iff_right rfl

end

/-! ### The bytes of a text -/

section
variable {s t r : Str} {u : Nat}

/-- The bytes of a text. What has no UTF-8 is a byte that means nothing to the scan. -/
def bytesOf (s : Str) : Bytes := s.flatMap fun c => if Str.isScalar c then Str.encodePoint c else [0]

theorem bytesOf_utf8 {data : Bytes} (h : s.utf8? = some data) : bytesOf s = data := by
  unfold Str.utf8? at h
  split_ifs at h with hs
  cases h
  exact List.flatMap_congr fun c hc => if_pos (List.all_eq_true.mp hs c hc)

/-- The scan of a text. -/
def valid (s : Str) : Bool := contextReadUnicodeEscapesValid (bytesOf s)

theorem bytesOf_ascii {c : Nat} (h : c < 128) (s : Str) : bytesOf (c :: s) = UInt8.ofNat c :: bytesOf s := by
  have hscalar : Str.isScalar c = true := by
    simp only [Str.isScalar, Bool.or_eq_true, decide_eq_true_eq]
    omega
  rw [bytesOf, List.flatMap_cons, if_pos hscalar, Str.encodePoint, if_pos h]
  rfl

theorem ofNat_ne {n k : Nat} (hn : n < 256) (hk : k < 256) (h : n ≠ k) : UInt8.ofNat n ≠ UInt8.ofNat k := by
  intro heq
  have hnat := congrArg UInt8.toNat heq
  rw [Str.toNat_ofNat_lt hn, Str.toNat_ofNat_lt hk] at hnat
  exact h hnat

/-- Only a backslash has the byte of a backslash. -/
theorem bytes_ne {c : Nat} (h : c ≠ 92) : ∃ b l, (if Str.isScalar c then Str.encodePoint c else [0]) = b :: l ∧ ∀ x ∈ b :: l, x ≠ 92 := by
  split_ifs with hc
  · have hlt : c < 0x110000 := by
      simp only [Str.isScalar, Bool.or_eq_true, Bool.and_eq_true, decide_eq_true_eq] at hc
      omega
    unfold Str.encodePoint
    split_ifs <;> refine ⟨_, _, rfl, ?_⟩ <;> simp only [List.forall_mem_cons, List.not_mem_nil, false_imp_iff, implies_true, and_true]
    · exact ofNat_ne (k := 92) (by omega) (by omega) h
    · exact ⟨ofNat_ne (k := 92) (by omega) (by omega) (by omega), ofNat_ne (k := 92) (by omega) (by omega) (by omega)⟩
    · exact ⟨ofNat_ne (k := 92) (by omega) (by omega) (by omega), ofNat_ne (k := 92) (by omega) (by omega) (by omega),
        ofNat_ne (k := 92) (by omega) (by omega) (by omega)⟩
    · exact ⟨ofNat_ne (k := 92) (by omega) (by omega) (by omega), ofNat_ne (k := 92) (by omega) (by omega) (by omega),
        ofNat_ne (k := 92) (by omega) (by omega) (by omega), ofNat_ne (k := 92) (by omega) (by omega) (by omega)⟩
  · refine ⟨0, [], rfl, ?_⟩
    rw [List.forall_mem_singleton]
    decide

theorem contextReadUnicodeEscapesValid_append {l : Bytes} (h : ∀ x ∈ l, x ≠ 92) (r : Bytes) :
    contextReadUnicodeEscapesValid (l ++ r) = contextReadUnicodeEscapesValid r := by
  induction l with
  | nil => rfl
  | cons b l ih =>
    rw [List.forall_mem_cons] at h
    rw [List.cons_append, contextReadUnicodeEscapesValid.eq_def]
    simp only [if_pos h.1, ih h.2]

theorem valid_cons {c : Nat} (h : c ≠ 92) (s : Str) : valid (c :: s) = valid s := by
  obtain ⟨b, l, hbytes, hne⟩ := bytes_ne h
  rw [valid, bytesOf, List.flatMap_cons, hbytes, contextReadUnicodeEscapesValid_append hne]
  rfl

theorem valid_skipSpace (s : Str) : valid (skipSpace s) = valid s := by
  induction s with
  | nil => rfl
  | cons c s ih =>
    rw [skipSpace, List.dropWhile_cons]
    split_ifs with hc
    · have hne : c ≠ 92 := by
        rintro rfl
        exact absurd hc (by decide)
      rw [valid_cons hne]
      exact ih
    · rfl

theorem char_of_scanEscape {c : Nat} (h : scanEscape s = some (.char c, t)) : ∃ e, s = e :: t ∧ e < 128 ∧ e ≠ 117 := by
  cases s with
  | nil => cases h
  | cons e s =>
    rw [scanEscape] at h
    split_ifs at h
    any_goals
      cases h
      exact ⟨_, rfl, by omega, by omega⟩
    obtain ⟨⟨v, q⟩, -, hq⟩ := Option.map_eq_some_iff.mp h
    cases hq

theorem unit_of_scanEscape (h : scanEscape s = some (.unit u, t)) : ∃ q, s = 117 :: q ∧ scanHex4 q = some (u, t) := by
  cases s with
  | nil => cases h
  | cons e s =>
    rw [scanEscape] at h
    split_ifs at h with h1 h2 h3 h4 h5 h6 h7
    any_goals cases h
    obtain ⟨⟨v, q⟩, hhex, hq⟩ := Option.map_eq_some_iff.mp h
    cases hq
    exact ⟨s, by rw [h7], hhex⟩

/-- An escape that is no unit is skipped. -/
theorem valid_escape {c : Nat} (h : scanEscape s = some (.char c, t)) : valid (92 :: s) = valid t := by
  obtain ⟨e, rfl, hlt, hne⟩ := char_of_scanEscape h
  rw [valid, bytesOf_ascii (by decide), bytesOf_ascii hlt, contextReadUnicodeEscapesValid.eq_def]
  exact (if_neg (by decide)).trans (if_pos (ofNat_ne (by omega) (by decide) hne))

/-- Four hexadecimal digits are four bytes. -/
theorem bytesOf_hex (h : scanHex4 s = some (u, t)) :
    ∃ a b c d, bytesOf s = a :: b :: c :: d :: bytesOf t ∧ parseUint a b c d = some u := by
  have hdigit : ∀ {c v : Nat}, hexValue? c = some v → c < 128 := by
    intro c v hc
    unfold hexValue? at hc
    split_ifs at hc <;> omega
  unfold scanHex4 at h
  split at h
  · next a b c d q =>
    simp only [Option.bind_eq_bind, Option.bind_eq_some_iff, Option.pure_def, Option.some.injEq, Prod.mk.injEq] at h
    obtain ⟨va, ha, vb, hb, vc, hc, vd, hd, rfl, rfl⟩ := h
    refine ⟨_, _, _, _, by rw [bytesOf_ascii (hdigit ha), bytesOf_ascii (hdigit hb), bytesOf_ascii (hdigit hc), bytesOf_ascii (hdigit hd)], ?_⟩
    have hnat : ∀ {c v : Nat}, hexValue? c = some v → (UInt8.ofNat c).toNat = c := fun hc => Str.toNat_ofNat_lt ((hdigit hc).trans (by decide))
    rw [parseUint, hnat ha, hnat hb, hnat hc, hnat hd, scanHex4, ha, hb, hc, hd]
    rfl
  · cases h

/-- An escaped unit that is no high surrogate stands for itself. -/
theorem valid_unit (h : scanHex4 s = some (u, t)) (hhigh : isHigh u = false) :
    valid (92 :: 117 :: s) = (!isLow u && valid t) := by
  obtain ⟨a, b, c, d, hbytes, hvalue⟩ := bytesOf_hex h
  have hnot : u < 0xD800 ∨ u > 0xDBFF := by
    rw [Bool.eq_false_iff, ne_eq, isHigh_iff] at hhigh
    omega
  rw [valid, bytesOf_ascii (by decide), bytesOf_ascii (by decide), hbytes, contextReadUnicodeEscapesValid.eq_def]
  simp only [UInt8.reduceOfNat, ne_eq, not_true_eq_false, if_false, hvalue]
  cases hlow : isLow u with
  | true => rw [if_pos (isLow_iff.mp hlow), Bool.not_true, Bool.false_and]
  | false =>
    rw [if_neg (fun h => by rw [isLow_iff.mpr h] at hlow; cases hlow), if_pos hnot, Bool.not_false, Bool.true_and]
    rfl

/-- After an escaped high surrogate comes an escaped low one. -/
theorem valid_pair {w : Nat} {q : Str} (h : scanHex4 s = some (u, 92 :: 117 :: q)) (hhigh : isHigh u = true) (hq : scanHex4 q = some (w, t)) :
    valid (92 :: 117 :: s) = (isLow w && valid t) := by
  obtain ⟨a, b, c, d, hbytes, hvalue⟩ := bytesOf_hex h
  obtain ⟨a', b', c', d', hbytes', hvalue'⟩ := bytesOf_hex hq
  have hu := isHigh_iff.mp hhigh
  rw [bytesOf_ascii (by decide), bytesOf_ascii (by decide), hbytes'] at hbytes
  rw [valid, bytesOf_ascii (by decide), bytesOf_ascii (by decide), hbytes, contextReadUnicodeEscapesValid.eq_def]
  simp only [UInt8.reduceOfNat, ne_eq, not_true_eq_false, or_self, if_false, hvalue, hvalue']
  rw [if_neg (by omega), if_neg (by omega)]
  cases hlow : isLow w with
  | true =>
    have hw := isLow_iff.mp hlow
    rw [if_neg (by omega), Bool.true_and]
    rfl
  | false =>
    rw [Bool.eq_false_iff, ne_eq, isLow_iff] at hlow
    rw [if_pos (by omega), Bool.false_and]

/-- After an escaped high surrogate nothing else comes. -/
theorem valid_alone (h : scanHex4 s = some (u, t)) (hhigh : isHigh u = true)
    (ht : ∀ x y r, bytesOf t = x :: y :: r → x ≠ 92 ∨ y ≠ 117) : valid (92 :: 117 :: s) = false := by
  obtain ⟨a, b, c, d, hbytes, hvalue⟩ := bytesOf_hex h
  have hu := isHigh_iff.mp hhigh
  rw [valid, bytesOf_ascii (by decide), bytesOf_ascii (by decide), hbytes, contextReadUnicodeEscapesValid.eq_def]
  simp only [UInt8.reduceOfNat, ne_eq, not_true_eq_false, if_false, hvalue]
  rw [if_neg (by omega), if_neg (by omega)]
  split
  · next heq => exact if_pos (ht _ _ _ heq)
  · rfl

/-- The scan of a string finds whether its surrogates are paired, and goes on behind it. -/
theorem valid_chars {l : List Piece} (h : Chars s l r) : valid s = (paired l && valid r) := by
  induction hn : l.length using Nat.strong_induction_on generalizing s l with
  | _ n ih =>
  subst hn
  cases h with
  | close => rw [valid_cons (by decide), paired, Bool.true_and]
  | char _ _ backslash rest => rw [valid_cons backslash, ih _ (Nat.lt_succ_self _) rest rfl, paired]
  | @escape s t _ p l piece rest =>
    cases p with
    | char c => rw [valid_escape piece, ih _ (Nat.lt_succ_self _) rest rfl, paired]
    | unit u =>
      obtain ⟨q, rfl, hhex⟩ := unit_of_scanEscape piece
      cases hhigh : isHigh u with
      | false =>
        rw [valid_unit hhex hhigh, ih _ (Nat.lt_succ_self _) rest rfl]
        cases hlow : isLow u with
        | true => rw [paired_of_low hlow, Bool.not_true, Bool.false_and, Bool.false_and]
        | false => rw [paired_of_plain hhigh hlow, Bool.not_false, Bool.true_and]
      | true =>
        -- What comes next decides: it is the end, a character, another escape or the other half.
        cases rest with
        | close =>
          rw [paired_of_alone hhigh (fun w m heq => by cases heq), Bool.false_and]
          refine valid_alone hhex hhigh fun x y m heq => .inl ?_
          rw [bytesOf_ascii (by decide)] at heq
          rw [← (List.cons.inj heq).1]
          decide
        | char _ _ backslash rest =>
          rw [paired_of_alone hhigh (fun w m heq => by cases heq), Bool.false_and]
          obtain ⟨b, k, hbytes, hne⟩ := bytes_ne backslash
          refine valid_alone hhex hhigh fun x y m heq => .inl ?_
          rw [bytesOf, List.flatMap_cons, hbytes] at heq
          rw [← (List.cons.inj heq).1]
          exact hne b List.mem_cons_self
        | @escape s' t' _ p' m piece' rest' =>
          cases p' with
          | char c =>
            rw [paired_of_alone hhigh (fun w m heq => by cases heq), Bool.false_and]
            obtain ⟨e, rfl, hlt, hne⟩ := char_of_scanEscape piece'
            refine valid_alone hhex hhigh fun x y k heq => .inr ?_
            rw [bytesOf_ascii (by decide), bytesOf_ascii hlt] at heq
            rw [← (List.cons.inj (List.cons.inj heq).2).1]
            exact ofNat_ne (by omega) (by decide) hne
          | unit w =>
            obtain ⟨q', rfl, hhex'⟩ := unit_of_scanEscape piece'
            rw [valid_pair hhex hhigh hhex', paired_of_high hhigh, ih _ (by simp only [List.length_cons]; omega) rest' rfl, Bool.and_assoc]

theorem valid_digits {l : List Nat} (h : Digits ascii s l r) : valid s = valid r := by
  induction h with
  | nil => rfl
  | cons digit _ ih =>
    unfold ascii at digit
    split_ifs at digit with hc
    rw [valid_cons (by omega), ih]

theorem valid_number {l : PyFloat.Literal} (h : Number ascii s l r) : valid s = valid r := by
  have hsign : ∀ {s t neg}, Sign s neg t → valid s = valid t := by
    rintro _ _ _ (_ | _)
    · exact valid_cons (by decide) _
    · rfl
  have hwhole : ∀ {s t l}, Whole ascii s l t → valid s = valid t := by
    rintro _ _ _ (_ | ⟨first, rest⟩)
    · exact valid_cons (by decide) _
    · rw [valid_cons (by omega), valid_digits rest]
  have hfraction : ∀ {s t f}, Fraction ascii s f t → valid s = valid t := by
    rintro _ _ _ (_ | ⟨digits, -⟩)
    · rfl
    · rw [valid_cons (by decide), valid_digits digits]
  have hexponentSign : ∀ {s t k}, ExponentSign s k t → valid s = valid t := by
    rintro _ _ _ (_ | _ | _)
    · rfl
    · exact valid_cons (by decide) _
    · exact valid_cons (by decide) _
  have hexponent : ∀ {s t e}, Exponent ascii s e t → valid s = valid t := by
    rintro _ _ _ (_ | ⟨letter, sign, digits, -⟩)
    · rfl
    · rw [valid_cons (by omega), hexponentSign sign, valid_digits digits]
  obtain ⟨sign, whole, fraction, exponent⟩ := h
  rw [hsign sign, hwhole whole, hfraction fraction, hexponent exponent]

/-- A text of other characters than a backslash is skipped. -/
theorem valid_append {t : Str} (h : ∀ c ∈ t, c ≠ 92) (r : Str) : valid (t ++ r) = valid r := by
  induction t with
  | nil => rfl
  | cons c t ih =>
    rw [List.forall_mem_cons] at h
    rw [List.cons_append, valid_cons h.1, ih h.2]

mutual
/-- The scan of a value finds whether the surrogates of its strings are paired, and goes on behind it. -/
theorem valid_value : ∀ {s v r}, Value ascii s v r → valid s = (v.strings.all paired && valid r)
  | _, _, _, .null r => valid_append (t := [110, 117, 108, 108]) (by decide) r
  | _, _, _, .true r => valid_append (t := [116, 114, 117, 101]) (by decide) r
  | _, _, _, .false r => valid_append (t := [102, 97, 108, 115, 101]) (by decide) r
  | _, _, _, .number literal => valid_number literal
  | _, _, _, .string chars => by rw [valid_cons (by decide), valid_chars chars, Raw.strings, List.all_cons, List.all_nil, Bool.and_true]
  | _, _, _, .emptyArr close => by
    rw [valid_cons (by decide), ← valid_skipSpace, close, valid_cons (by decide)]
    rfl
  | _, _, _, .arr items => by
    rw [valid_cons (by decide), ← valid_skipSpace, valid_items items]
    rfl
  | _, _, _, .emptyObj close => by
    rw [valid_cons (by decide), ← valid_skipSpace, close, valid_cons (by decide)]
    rfl
  | _, _, _, .obj fields => by
    rw [valid_cons (by decide), ← valid_skipSpace, valid_fields fields]
    rfl

theorem valid_items : ∀ {s l r}, Items ascii s l r → valid s = ((Raw.itemStrings l).all paired && valid r)
  | _, _, _, .last value close => by
    rw [valid_value value, ← valid_skipSpace, close, valid_cons (by decide), Raw.itemStrings, Raw.itemStrings, List.append_nil]
  | _, _, _, .cons value comma rest => by
    rw [valid_value value, ← valid_skipSpace, comma, valid_cons (by decide), ← valid_skipSpace, valid_items rest, Raw.itemStrings,
      List.all_append, Bool.and_assoc]

theorem valid_fields : ∀ {s f r}, Fields ascii s f r → valid s = ((Raw.fieldStrings f).all paired && valid r)
  | _, _, _, .last key colon value close => by
    rw [valid_cons (by decide), valid_chars key, ← valid_skipSpace, colon, valid_cons (by decide), ← valid_skipSpace, valid_value value,
      ← valid_skipSpace, close, valid_cons (by decide), Raw.fieldStrings, Raw.fieldStrings, List.append_nil, List.all_cons, Bool.and_assoc]
  | _, _, _, .cons key colon value comma rest => by
    rw [valid_cons (by decide), valid_chars key, ← valid_skipSpace, colon, valid_cons (by decide), ← valid_skipSpace, valid_value value,
      ← valid_skipSpace, comma, valid_cons (by decide), ← valid_skipSpace, valid_fields rest, Raw.fieldStrings, List.all_cons,
      List.all_append, Bool.and_assoc, Bool.and_assoc]
end

end

/-- The scan accepts a JSON text exactly where the surrogates that it escapes are paired, and then every string is decoded as what it
    denotes, with no character replaced. -/
theorem contextReadUnicodeEscapesValid_iff {raw : Bytes} {s : Str} {v : Raw} (hs : s.utf8? = some raw) (h : Document ascii s v) :
    (contextReadUnicodeEscapesValid raw = true ↔ ∀ l ∈ v.strings, Paired l) ∧
      (contextReadUnicodeEscapesValid raw = true → ∀ l ∈ v.strings, unquote l = joinEscapes l) := by
  obtain ⟨r, hvalue, hend⟩ := h
  have hscan : contextReadUnicodeEscapesValid raw = v.strings.all paired := by
    rw [← bytesOf_utf8 hs]
    change valid s = _
    rw [← valid_skipSpace, valid_value hvalue, ← valid_skipSpace r, hend]
    exact Bool.and_true _
  simp only [hscan, List.all_eq_true, paired_iff, unquote_eq_iff, imp_self, and_true]

theorem contextReadUnicodeEscapesValid_escaped :
    contextReadUnicodeEscapesValid (bytesOf (Str.lit "\"\\ud83d\\ude00\"")) = true ∧ unquote [.unit 0xD83D, .unit 0xDE00] = [0x1F600] := by
  have hdocument : Document ascii (Str.lit "\"\\ud83d\\ude00\"") (.string [.unit 0xD83D, .unit 0xDE00]) :=
    ⟨[], .string (.escape rfl (.escape rfl (.close []))), rfl⟩
  have hutf : (Str.lit "\"\\ud83d\\ude00\"").utf8? = some (bytesOf (Str.lit "\"\\ud83d\\ude00\"")) := by decide
  obtain ⟨hiff, hexact⟩ := contextReadUnicodeEscapesValid_iff hutf hdocument
  have hvalid := hiff.mpr fun l hl => by
    rw [Raw.strings, List.mem_singleton] at hl
    exact (paired_iff l).mp (hl ▸ rfl)
  exact ⟨hvalid, hexact hvalid _ List.mem_cons_self⟩

end Go
end LeanCtx
