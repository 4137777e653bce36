import LeanCtx.Go.Loading
import LeanCtx.Java.Canonical

/-! `canonicalJSON` of the Go package, for the values that the loader gives, and where the packages for Go, Java and Python canonicalize a
    text alike (`documentBytes_agree`). -/

namespace LeanCtx

namespace Json.Grammar
open PyFloat
variable {D : DigitClass} {s r : Str}

/-! ### A number reads the same before any other rest -/

theorem Digits.cut {l : List Nat} (h : Digits D s l r) : ∃ t, s = t ++ r ∧ ∀ q, Digits D (t ++ q) l q := by
  induction h with
  | nil r => exact ⟨[], rfl, .nil⟩
  | @cons c d s r l digit rest ih =>
    obtain ⟨t, rfl, ht⟩ := ih
    exact ⟨c :: t, rfl, fun q => .cons digit (ht q)⟩

theorem Sign.cut {neg : Bool} (h : Sign s neg r) : ∃ t, s = t ++ r ∧ ∀ q, Sign (t ++ q) neg q := by
  cases h with
  | minus => exact ⟨[45], rfl, .minus⟩
  | none => exact ⟨[], rfl, .none⟩

theorem Whole.cut {w : List Nat} (h : Whole D s w r) : ∃ t, s = t ++ r ∧ ∀ q, Whole D (t ++ q) w q := by
  cases h with
  | zero r => exact ⟨[48], rfl, .zero⟩
  | @digits c s r l first rest =>
    obtain ⟨t, rfl, ht⟩ := rest.cut
    exact ⟨c :: t, rfl, fun q => .digits first (ht q)⟩

theorem Fraction.cut {f : Option (List Nat)} (h : Fraction D s f r) : ∃ t, s = t ++ r ∧ ∀ q, Fraction D (t ++ q) f q := by
  cases h with
  | none => exact ⟨[], rfl, .none⟩
  | some digits nonempty =>
    obtain ⟨t, rfl, ht⟩ := digits.cut
    exact ⟨46 :: t, rfl, fun q => .some (ht q) nonempty⟩

theorem ExponentSign.cut {k : Int} (h : ExponentSign s k r) : ∃ t, s = t ++ r ∧ ∀ q, ExponentSign (t ++ q) k q := by
  cases h with
  | none => exact ⟨[], rfl, .none⟩
  | plus => exact ⟨[43], rfl, .plus⟩
  | minus => exact ⟨[45], rfl, .minus⟩

theorem Exponent.cut {e : Option Int} (h : Exponent D s e r) : ∃ t, s = t ++ r ∧ ∀ q, Exponent D (t ++ q) e q := by
  cases h with
  | none => exact ⟨[], rfl, .none⟩
  | @some c s t r k l letter sign digits nonempty =>
    obtain ⟨t, rfl, ht⟩ := sign.cut
    obtain ⟨u, rfl, hu⟩ := digits.cut
    refine ⟨c :: (t ++ u), by rw [List.cons_append, List.append_assoc], fun q => ?_⟩
    rw [List.cons_append, List.append_assoc]
    exact .some letter (ht _) (hu q) nonempty

theorem Number.cut {l : Literal} (h : Number D s l r) : ∃ t, s = t ++ r ∧ ∀ q, Number D (t ++ q) l q := by
  obtain ⟨sign, whole, fraction, exponent⟩ := h
  obtain ⟨t, rfl, ht⟩ := sign.cut
  obtain ⟨u, rfl, hu⟩ := whole.cut
  obtain ⟨v, rfl, hv⟩ := fraction.cut
  obtain ⟨w, rfl, hw⟩ := exponent.cut
  refine ⟨t ++ (u ++ (v ++ w)), by simp only [List.append_assoc], fun q => ?_⟩
  simp only [List.append_assoc]
  exact .intro (ht _) (hu _) (hv _) (hw q)

/-- The text of a number is one by itself. -/
theorem Number.alone {t : Str} {l : Literal} (h : Number D (t ++ r) l r) : Number D t l [] := by
  obtain ⟨u, heq, hu⟩ := h.cut
  obtain rfl := List.append_cancel_right heq
  simpa using hu []

end Json.Grammar

namespace Go
open Json (Piece Raw)
open Json.Raw (joinEscapes)
open Json.Grammar (ascii Sign Number Exponent Document)
open PyFloat (Literal)

/-! ### Normal values -/

/-- A value that `plainValue` gives for one that was decoded. -/
inductive Plain
  | null
  | bool (b : Bool)
  | int (n : Int)
  | string (s : Str)
  | slice (items : List Plain)
  | map (entries : List (Str × Plain))

mutual
/-- `plainValue(value, seen)`, none where it returns an error. A decoded value holds no cycle. -/
def plainValue : GoValue → Option Plain
  | .null => some .null
  | .bool b => some (.bool b)
  | .number text => (normalizeNumber text).toOption.map .int
  | .string s => if s.all Str.isScalar then some (.string s) else none
  | .slice l => (plainItems l).map .slice
  | .map es => (plainEntries es).map .map

def plainItems : List GoValue → Option (List Plain)
  | [] => some []
  | g :: l => (plainValue g).bind fun p => (plainItems l).map (p :: ·)

def plainEntries : List (Str × GoValue) → Option (List (Str × Plain))
  | [] => some []
  | (k, g) :: es => (plainValue g).bind fun p => (plainEntries es).map ((k, p) :: ·)
end

/-! ### Writing -/

/-- A character of `writeCanonicalString(out, value)`. -/
def writeRune (c : Nat) : Str :=
  if c = 34 ∨ c = 92 then [92, c]
  else if c = 8 then Str.lit "\\b"
  else if c = 12 then Str.lit "\\f"
  else if c = 10 then Str.lit "\\n"
  else if c = 13 then Str.lit "\\r"
  else if c = 9 then Str.lit "\\t"
  else if c < 0x20 then Str.lit "\\u00" ++ [Json.hexDigit (c / 16), Json.hexDigit (c % 16)]
  else [c]

/-- `writeCanonicalString(out, value)`. -/
def writeCanonicalString (s : Str) : Str := 34 :: s.flatMap writeRune ++ [34]

/-- The order of `sortCodePoints(keys)`. -/
def lessCodePoints : Str → Str → Bool
  | [], [] => false
  | [], _ :: _ => true
  | _ :: _, [] => false
  | a :: s, b :: t => if a ≠ b then decide (a < b) else lessCodePoints s t

mutual
/-- `encodeCanonical(out, value)`, none where it returns an error. -/
def encodeCanonical : Plain → Option Str
  | .null => some "null"
  | .bool b => some (if b then "true" else "false")
  | .int n => if n < -maxSafeInteger ∨ n > maxSafeInteger then none else some (intText n)
  | .string s => some (writeCanonicalString s)
  | .slice l => (encodeItems l).map fun ts => 91 :: Json.joinComma ts ++ [93]
  | .map es => (encodeEntries es).map fun ts =>
      123 :: Json.joinComma ((ts.insertionSort fun s t => ¬lessCodePoints t.1 s.1 = true).map fun t => writeCanonicalString t.1 ++ 58 :: t.2) ++ [125]

def encodeItems : List Plain → Option (List Str)
  | [] => some []
  | p :: l => (encodeCanonical p).bind fun t => (encodeItems l).map (t :: ·)

/-- The keys of a map with the texts of their values. -/
def encodeEntries : List (Str × Plain) → Option (List (Str × Str))
  | [] => some []
  | (k, p) :: es => if k.all Str.isScalar then (encodeCanonical p).bind fun t => (encodeEntries es).map ((k, t) :: ·) else none
end

/-- `canonicalJSON(value)`, none where it returns an error. -/
def canonicalJSON (g : GoValue) : Option Bytes := ((plainValue g).bind encodeCanonical).bind Str.utf8?

/-- `canonicalJSON` of what `strictJSONLoads(data, label)` gives, none where one of them returns an error. -/
def documentBytes (label : String) (data : Bytes) : Option Bytes := (strictJSONLoads data label).toOption.bind canonicalJSON

/-! ### Numbers -/

theorem eq_of_parseInt {s t : Str} {k n : Int} (h : SignedText s t k) (ht : t.all isDigit = true) (ht0 : t ≠ []) (hn : parseInt s = some n) :
    n = k * decimalValue t := by
  obtain ⟨c, r, rfl⟩ := List.exists_cons_of_ne_nil ht0
  have hc := isDigit_iff.mp (List.all_eq_true.mp ht c List.mem_cons_self)
  obtain ⟨rfl, rfl⟩ | ⟨rfl, rfl⟩ | ⟨rfl, rfl⟩ := h
  · have h45 : c ≠ 45 := by omega
    have h43 : c ≠ 43 := by omega
    simp only [parseInt, List.head?_cons, Option.some.injEq, h45, h43, or_self, if_false] at hn
    split_ifs at hn
    rw [one_mul]
    exact (Option.some.inj hn).symm
  · simp only [parseInt, List.head?_cons, or_true, if_true, List.tail_cons] at hn
    split_ifs at hn with _ hsign
    · cases hsign
    · rw [one_mul]
      exact (Option.some.inj hn).symm
  · simp only [parseInt, List.head?_cons, true_or, if_true, List.tail_cons] at hn
    split_ifs at hn
    rw [neg_one_mul]
    exact (Option.some.inj hn).symm

/-- The exponent of a number that is normalized is within the bounds. -/
theorem exponent_of_normalizeNumber {s : Str} {l : Literal} {n : Int} (h : Number ascii s l []) (hn : normalizeNumber s = .ok n) :
    ∀ e ∈ l.exponent, -100000 ≤ e ∧ e ≤ 100000 := by
  obtain ⟨sign, whole, fraction, exponent⟩ := h
  obtain ⟨t, d, rfl, ht, hd, -, -⟩ := fraction_text fraction
  obtain ⟨w, rfl, hw, hw0, -, -⟩ := whole_text whole
  obtain ⟨hneg, hvalue⟩ := head_sign sign hw hw0
  cases exponent with
  | none => exact fun e he => absurd he (Option.not_mem_none e)
  | @some c v u _ k m letter expSign digits nonempty =>
    rintro e ⟨⟩
    obtain ⟨d', rfl, hd', rfl⟩ := digits_text digits
    have hd0 : d' ≠ [] := fun hnil => nonempty (by rw [hnil]; rfl)
    have hletter : (c == 101 || c == 69) = true := by simpa using letter
    obtain ⟨-, hsigned⟩ := exponentSign_text expSign
    rw [List.append_nil] at hsigned
    rw [← List.append_assoc] at hvalue
    simp only [normalizeNumber, bind_eq_ok] at hn
    obtain ⟨-, -, ⟨mantissa, exponent⟩, hsplit, -⟩ := hn
    rw [hneg, hvalue, splitExponent, cutAt_append (no_letter hw ht hd) hletter] at hsplit
    dsimp only at hsplit
    split at hsplit
    · cases hsplit
    · next parsed hparsed =>
      have hvalue := eq_of_parseInt hsigned hd' hd0 hparsed
      split_ifs at hsplit with hbounds
      rw [decimalValue] at hvalue
      omega

/-- A number is normalized to the safe integer that it denotes. -/
theorem safeInteger?_of_normalizeNumber {s : Str} {l : Literal} {n : Int} (h : Number ascii s l []) (hn : normalizeNumber s = .ok n) :
    Json.safeInteger? l = some n := by
  obtain ⟨hvalue, hsafe, -⟩ := (normalizeNumber_iff h (exponent_of_normalizeNumber h hn) n).mp hn
  exact Json.safeInteger?_eq_some.mpr ⟨hvalue.symm, hsafe⟩

/-! ### Strings -/

theorem writeCanonicalString_eq (s : Str) : writeCanonicalString s = Json.quote s := by
  have hrune (c : Nat) : writeRune c = Json.escape c := by
    unfold writeRune Json.escape
    split_ifs <;> first | rfl | omega | simp_all
  rw [writeCanonicalString, Json.quote, show writeRune = Json.escape from funext hrune]

theorem not_lessCodePoints (s t : Str) : ¬lessCodePoints t s = true ↔ s ≤ t := by
  rw [← not_lt, not_iff_not]
  induction s generalizing t with
  | nil => cases t <;> simp [lessCodePoints]
  | cons a s ih =>
    cases t with
    | nil => simp [lessCodePoints]
    | cons b t =>
      rw [lessCodePoints, List.cons_lt_cons_iff]
      split_ifs with hab
      · rw [decide_eq_true_eq, or_iff_left fun h => hab h.1]
      · obtain rfl := not_not.mp hab
        rw [ih, or_iff_right (lt_irrefl b), and_iff_right rfl]

theorem toOption_eq_some {ε α : Type} {x : Except ε α} {a : α} : x.toOption = some a ↔ x = .ok a := by
  cases x <;> simp [Except.toOption]

/-! ### A spelled value is written as a reader of integers reads the document -/

/-- A value is written as what a reader of integers makes of the document. -/
def WritesIntegral (a : Raw) (g : GoValue) : Prop :=
  ∀ p t, plainValue g = some p → encodeCanonical p = some t → ∃ v, a.read Raw.integral = some v ∧ v.text? = some t

def WritesItems (l : List Raw) (gs : List GoValue) : Prop :=
  ∀ ps ts, plainItems gs = some ps → encodeItems ps = some ts → ∃ vs, Raw.readItems Raw.integral l = some vs ∧ Json.itemTexts? vs = some ts

def WritesFields (f : List (List Piece × Raw)) (es : List (Str × GoValue)) : Prop :=
  ∀ ps ts, plainEntries es = some ps → encodeEntries ps = some ts → ∃ vs, Raw.readFields Raw.integral f = some vs ∧
    vs.map (·.1) = es.map (·.1) ∧ List.Forall₂ (fun q t => t.1 = q.1 ∧ Json.text? q.2 = some t.2) vs ts

theorem WritesIntegral.items {a : Raw} {g : GoValue} {l : List Raw} {gs : List GoValue} (h : WritesIntegral a g) (hl : WritesItems l gs) :
    WritesItems (a :: l) (g :: gs) := by
  intro ps ts hps hts
  rw [plainItems] at hps
  obtain ⟨p, hp, hps⟩ := Option.bind_eq_some_iff.mp hps
  obtain ⟨ps', hps', rfl⟩ := Option.map_eq_some_iff.mp hps
  rw [encodeItems] at hts
  obtain ⟨t, ht, hts⟩ := Option.bind_eq_some_iff.mp hts
  obtain ⟨ts', hts', rfl⟩ := Option.map_eq_some_iff.mp hts
  obtain ⟨v, hv, hvt⟩ := h _ _ hp ht
  obtain ⟨vs, hvs, hvts⟩ := hl _ _ hps' hts'
  exact ⟨v :: vs, by rw [Raw.readItems, hv, Option.bind_some, hvs]; rfl, by rw [Json.itemTexts?, hvt, Option.bind_some, hvts]; rfl⟩

theorem WritesIntegral.fields {k : List Piece} {a : Raw} {g : GoValue} {f : List (List Piece × Raw)} {es : List (Str × GoValue)}
    (h : WritesIntegral a g) (hf : WritesFields f es) : WritesFields ((k, a) :: f) ((joinEscapes k, g) :: es) := by
  intro ps ts hps hts
  rw [plainEntries] at hps
  obtain ⟨p, hp, hps⟩ := Option.bind_eq_some_iff.mp hps
  obtain ⟨ps', hps', rfl⟩ := Option.map_eq_some_iff.mp hps
  rw [encodeEntries] at hts
  split_ifs at hts with hk
  obtain ⟨t, ht, hts⟩ := Option.bind_eq_some_iff.mp hts
  obtain ⟨ts', hts', rfl⟩ := Option.map_eq_some_iff.mp hts
  obtain ⟨v, hv, hvt⟩ := h _ _ hp ht
  obtain ⟨vs, hvs, hkeys, hvts⟩ := hf _ _ hps' hts'
  refine ⟨(joinEscapes k, v) :: vs, ?_, by rw [List.map_cons, List.map_cons, hkeys], .cons ⟨rfl, hvt⟩ hvts⟩
  rw [Raw.readFields, Raw.integral_string.mpr ⟨rfl, hk⟩, Option.bind_some, hv, Option.bind_some, hvs]
  rfl

theorem writesItems_nil : WritesItems [] [] := by
  intro ps ts hps hts
  cases hps
  cases hts
  exact ⟨[], rfl, rfl⟩

theorem writesFields_nil : WritesFields [] [] := by
  intro ps ts hps hts
  cases hps
  cases hts
  exact ⟨[], rfl, rfl, .nil⟩

theorem writesIntegral_number {s : Str} {l : Literal} (h : Number ascii s l []) : WritesIntegral (.number l) (.number s) := by
  intro p t hp ht
  rw [plainValue] at hp
  obtain ⟨n, hn, rfl⟩ := Option.map_eq_some_iff.mp hp
  rw [encodeCanonical] at ht
  split_ifs at ht
  cases ht
  have hread := safeInteger?_of_normalizeNumber h (toOption_eq_some.mp hn)
  refine ⟨.int n, by rw [Raw.read, Raw.integral_number, hread]; rfl, Java.text?_int (Json.safeInteger?_eq_some.mp hread).2⟩

theorem writesIntegral_string (l : List Piece) : WritesIntegral (.string l) (.string (joinEscapes l)) := by
  intro p t hp ht
  rw [plainValue] at hp
  split_ifs at hp with hscalar
  cases hp
  rw [encodeCanonical] at ht
  cases ht
  refine ⟨.str (joinEscapes l), ?_, by rw [writeCanonicalString_eq]; rfl⟩
  rw [Raw.read, Raw.integral_string.mpr ⟨rfl, hscalar⟩]
  rfl

theorem WritesItems.arr {l : List Raw} {gs : List GoValue} (h : WritesItems l gs) : WritesIntegral (.arr l) (.slice gs) := by
  intro p t hp ht
  rw [plainValue] at hp
  obtain ⟨ps, hps, rfl⟩ := Option.map_eq_some_iff.mp hp
  rw [encodeCanonical] at ht
  obtain ⟨ts, hts, rfl⟩ := Option.map_eq_some_iff.mp ht
  obtain ⟨vs, hvs, hvts⟩ := h _ _ hps hts
  exact ⟨.arr vs, by rw [Raw.read, hvs]; rfl, by rw [Json.text?, hvts]; rfl⟩

theorem WritesFields.obj {f : List (List Piece × Raw)} {es : List (Str × GoValue)} (h : WritesFields f es) (hnodup : (es.map (·.1)).Nodup) :
    WritesIntegral (.obj f) (.map es) := by
  intro p t hp ht
  rw [plainValue] at hp
  obtain ⟨ps, hps, rfl⟩ := Option.map_eq_some_iff.mp hp
  rw [encodeCanonical] at ht
  obtain ⟨ts, hts, rfl⟩ := Option.map_eq_some_iff.mp ht
  obtain ⟨vs, hvs, hkeys, hvts⟩ := h _ _ hps hts
  rw [← hkeys] at hnodup
  refine ⟨.obj (Json.sortFields vs), ?_, ?_⟩
  · rw [Raw.read, hvs, Option.bind_some, Raw.integral_object]
    exact ⟨hnodup, rfl⟩
  · rw [Json.text?_obj_sorted (fun s t => not_lessCodePoints s.1 t.1) hvts hnodup]
    simp only [writeCanonicalString_eq]

mutual
theorem Spells.writes : ∀ {s a g r}, Spells joinEscapes s a g r → WritesIntegral a g
  | _, _, _, _, .null _ => by
    intro p t hp ht
    cases hp
    cases ht
    exact ⟨.null, rfl, rfl⟩
  | _, _, _, _, .true _ => by
    intro p t hp ht
    cases hp
    cases ht
    exact ⟨.bool true, rfl, rfl⟩
  | _, _, _, _, .false _ => by
    intro p t hp ht
    cases hp
    cases ht
    exact ⟨.bool false, rfl, rfl⟩
  | _, _, _, _, .number literal text => by
    rw [text] at literal
    exact writesIntegral_number literal.alone
  | _, _, _, _, .string _ => writesIntegral_string _
  | _, _, _, _, .emptyArr _ => writesItems_nil.arr
  | _, _, _, _, .arr items => items.writes.arr
  | _, _, _, _, .emptyObj _ => writesFields_nil.obj List.nodup_nil
  | _, _, _, _, .obj fields distinct => fields.writes.obj distinct

theorem SpellsItems.writes : ∀ {s l gs r}, SpellsItems joinEscapes s l gs r → WritesItems l gs
  | _, _, _, _, .last value _ => value.writes.items writesItems_nil
  | _, _, _, _, .cons value _ rest => value.writes.items rest.writes

theorem SpellsFields.writes : ∀ {s f es r}, SpellsFields joinEscapes s f es r → WritesFields f es
  | _, _, _, _, .last _ _ value _ => value.writes.fields writesFields_nil
  | _, _, _, _, .cons _ _ value _ rest => value.writes.fields rest.writes
end

/-! ### Strings that hold no surrogate -/

theorem isScalar_plain {u : Nat} (h : Str.isScalar u = true) : isHigh u = false ∧ isLow u = false := by
  simp only [Str.isScalar, Bool.or_eq_true, Bool.and_eq_true, decide_eq_true_eq] at h
  rw [Bool.eq_false_iff, Bool.eq_false_iff, ne_eq, ne_eq, isHigh_iff, isLow_iff]
  omega

/-- A string that holds no surrogate is read as it is. -/
theorem unquote_of_scalar : ∀ l : List Piece, (joinEscapes l).all Str.isScalar = true → unquote l = joinEscapes l
  | [], _ => rfl
  | .char c :: l, h => by
    have hcons : joinEscapes (.char c :: l) = c :: joinEscapes l := Raw.joinEscapes_cons fun u w m hu => by cases hu
    rw [hcons, List.all_cons, Bool.and_eq_true] at h
    rw [hcons, unquote, unquote_of_scalar l h.2]
  | .unit u :: l, h => by
    by_cases hstarts : Starts u l
    · obtain ⟨hu, w, m, rfl, hw⟩ := hstarts
      have hpair := Raw.joinEscapes_pair m (isHigh_iff.mp hu) (isLow_iff.mp hw)
      rw [hpair, List.all_cons, Bool.and_eq_true] at h
      rw [hpair, unquote, if_pos (by rw [hu, hw]; rfl), unquote_of_scalar m h.2]
    · rw [joinEscapes_alone hstarts, List.all_cons, Bool.and_eq_true] at h
      obtain ⟨hhigh, hlow⟩ := isScalar_plain h.1
      rw [unquote_alone hstarts, joinEscapes_alone hstarts, hhigh, hlow, unquote_of_scalar l h.2]
      rfl

/-- No string of a document holds a surrogate. -/
def IsScalar (a : Raw) : Prop := ∀ l ∈ a.strings, (joinEscapes l).all Str.isScalar = true

theorem forall_itemStrings {P : List Piece → Prop} {l : List Raw} : (∀ m ∈ Raw.itemStrings l, P m) ↔ ∀ a ∈ l, ∀ m ∈ a.strings, P m := by
  induction l with
  | nil => simp [Raw.itemStrings]
  | cons a l ih => rw [Raw.itemStrings, List.forall_mem_append, List.forall_mem_cons, ih]

theorem forall_fieldStrings {P : List Piece → Prop} {f : List (List Piece × Raw)} :
    (∀ m ∈ Raw.fieldStrings f, P m) ↔ ∀ p ∈ f, P p.1 ∧ ∀ m ∈ p.2.strings, P m := by
  induction f with
  | nil => simp [Raw.fieldStrings]
  | cons p f ih => rw [Raw.fieldStrings, List.forall_mem_cons, List.forall_mem_append, List.forall_mem_cons, ih, and_assoc]

theorem isScalar_of_isClean (a : Raw) : Java.isClean a = true → IsScalar a := by
  induction a using Raw.induct with
  | string s =>
    intro h l hl
    rw [Raw.strings, List.mem_singleton] at hl
    rw [hl]
    exact h
  | arr l ih =>
    intro h
    rw [Java.isClean, Raw.every_arr] at h
    rw [IsScalar, Raw.strings, forall_itemStrings]
    exact fun a ha => ih a ha (h a ha)
  | obj f ih =>
    intro h
    rw [Java.isClean, Raw.every_obj, Bool.and_eq_true, List.all_eq_true, List.forall_mem_map] at h
    rw [IsScalar, Raw.strings, forall_fieldStrings]
    exact fun p hp => ⟨h.1.2 p hp, ih p hp (h.2 p hp)⟩
  | _ => exact fun _ l hl => absurd hl List.not_mem_nil

theorem isScalar_of_hasText (a : Raw) : ∀ {v : Json}, a.read Raw.python = some v → v.HasText → IsScalar a := by
  induction a using Raw.induct with
  | string s =>
    intro v hv htext l hl
    rw [Raw.strings, List.mem_singleton] at hl
    rw [Raw.read, Raw.python_string] at hv
    cases hv
    rw [hl]
    exact Json.hasText_str_iff.mp htext
  | arr l ih =>
    intro v hv htext
    rw [Raw.read] at hv
    obtain ⟨k, hk, rfl⟩ := Option.map_eq_some_iff.mp hv
    rw [Json.hasText_arr_iff] at htext
    rw [IsScalar, Raw.strings, forall_itemStrings]
    intro a ha
    obtain ⟨v, hv, hread⟩ := Json.exists_mem_of_forall₂ (Raw.readItems_eq_some.mp hk) ha
    exact ih a ha hread (htext v hv)
  | obj f ih =>
    intro v hv htext
    rw [Raw.read] at hv
    obtain ⟨g, hg, hv⟩ := Option.bind_eq_some_iff.mp hv
    obtain ⟨hnodup, rfl⟩ := (Option.ite_none_right_eq_some.mp hv).imp_right Option.some.inj
    rw [Json.hasText_obj_iff] at htext
    rw [IsScalar, Raw.strings, forall_fieldStrings]
    intro p hp
    obtain ⟨q, hq, hkey, hread⟩ := Json.exists_mem_of_forall₂ (Raw.readFields_eq_some.mp hg) hp
    obtain ⟨hscalar, hvalue⟩ := htext q ((Json.perm_sortFields hnodup).mem_iff.mpr hq)
    refine ⟨?_, ih p hp hread hvalue⟩
    rw [Raw.python_string, Option.some.injEq] at hkey
    rwa [hkey]
  | _ => exact fun _ _ l hl => absurd hl List.not_mem_nil

/-! ### Where the packages agree -/

theorem isObject_of_spells {read : List Piece → Str} {s r : Str} {a : Raw} {es : List (Str × GoValue)} (h : Spells read s a (.map es) r) :
    Java.isObject a = true := by
  cases h <;> rfl

/-- The bytes that the package for Go writes are those of a document with every number taken as an integer, if no string of it holds a
    surrogate. -/
theorem documentBytes_eq_some {label : String} {data b : Bytes} (h : documentBytes label data = some b) :
    ∃ s a, s.utf8? = some data ∧ Document ascii s a ∧ Java.isObject a = true ∧ (IsScalar a → Json.integralBytes? a = some b) := by
  obtain ⟨g, hg, hb⟩ := Option.bind_eq_some_iff.mp h
  obtain ⟨s, a, entries, hs, hspells, rfl⟩ := strictJSONLoads_eq_ok.mp (toOption_eq_some.mp hg)
  obtain ⟨t, hencoded, hb⟩ := Option.bind_eq_some_iff.mp hb
  obtain ⟨p, hp, ht⟩ := Option.bind_eq_some_iff.mp hencoded
  refine ⟨s, a, hs, hspells.document, ?_, fun hscalar => ?_⟩
  · obtain ⟨r, hspells, -⟩ := hspells
    exact isObject_of_spells hspells
  · obtain ⟨r, hspells, -⟩ := hspells
    obtain ⟨v, hv, htext⟩ := (hspells.congr fun l hl => unquote_of_scalar l (hscalar l hl)).writes _ _ hp ht
    rw [Json.integralBytes?, hv, Option.bind_some, Json.canonicalBytes?, Raw.isPlain_integral a hv, htext]
    exact hb

/-- Every number of a text is written without a fraction and without an exponent. -/
def WritesIntegers (data : Bytes) : Prop := ∀ s a, s.utf8? = some data → Document ascii s a → a.isInteger = true

theorem writesIntegers_iff {data : Bytes} {s : Str} {a : Raw} (hs : s.utf8? = some data) (ha : Document ascii s a) :
    WritesIntegers data ↔ a.isInteger = true := by
  refine ⟨fun h => h s a hs ha, fun h s' a' hs' ha' => ?_⟩
  obtain ⟨rfl, rfl⟩ := document_unique hs hs' ha ha'
  exact h

/-- Whatever the packages for Go and Java both canonicalize comes out alike. Python writes the same bytes exactly if every number of the
    text is written without a fraction and without an exponent. -/
theorem documentBytes_agree (goLabel : String) (javaLabel : Str) (data : Bytes) :
    (∀ b c, documentBytes goLabel data = some b → Java.documentBytes javaLabel data = some c → b = c) ∧
      (∀ b c, documentBytes goLabel data = some b → (Json.strictLoads? data).bind Json.canonicalBytes? = some c →
        (b = c ↔ WritesIntegers data)) ∧
      ∀ b c, Java.documentBytes javaLabel data = some b → (Json.strictLoads? data).bind Json.canonicalBytes? = some c →
        (b = c ↔ WritesIntegers data) := by
  have hjava {b : Bytes} (h : Java.documentBytes javaLabel data = some b) : ∃ s a, s.utf8? = some data ∧ Document Java.digit s a ∧
      Java.isObject a = true ∧ IsScalar a ∧ Json.integralBytes? a = some b := by
    obtain ⟨x, hx, hb⟩ := Option.bind_eq_some_iff.mp h
    obtain ⟨a, ⟨s, hs, hdoc, hobject, hclean⟩, -, ha⟩ := Java.parse_eq_ok.mp (toOption_eq_some.mp hx)
    exact ⟨s, a, hs, hdoc, hobject, isScalar_of_isClean a hclean, Java.canonicalBytes_eq_some ha hb⟩
  have hpython {c : Bytes} {s : Str} {a : Raw} {v : Json} (hs : s.utf8? = some data) (hdoc : Document Java.digit s a)
      (hobject : Java.isObject a = true) (hv : Json.strictLoads? data = some v) (hc : Json.canonicalBytes? v = some c) : IsScalar a := by
    obtain ⟨-, hread⟩ := Json.read_of_strictLoads hs hdoc hobject hv
    have hplain := (Json.tells_loads hv (Json.decodeText?_document hs hdoc hobject)).1
    exact isScalar_of_hasText a hread (hplain ▸ Json.writable_iff.mp ⟨c, hc⟩)
  refine ⟨fun b c hb hc => ?_, fun b c hb hc => ?_, fun b c hb hc => ?_⟩
  · obtain ⟨s, a, hs, hdoc, -, hgo⟩ := documentBytes_eq_some hb
    obtain ⟨s', a', hs', hdoc', -, hscalar, hc⟩ := hjava hc
    obtain rfl : s = s' := Option.some.inj ((Str.decodeUtf8?_utf8 hs).symm.trans (Str.decodeUtf8?_utf8 hs'))
    obtain rfl := Java.document_unique (hdoc.mono Java.extends_digit) hdoc'
    exact Option.some.inj ((hgo hscalar).symm.trans hc)
  · obtain ⟨s, a, hs, hdoc, hobject, hgo⟩ := documentBytes_eq_some hb
    obtain ⟨v, hv, hc⟩ := Option.bind_eq_some_iff.mp hc
    have hwide := hdoc.mono Java.extends_digit
    rw [writesIntegers_iff hs hdoc]
    exact Json.integralBytes?_python hs hwide hobject (hgo (hpython hs hwide hobject hv hc)) hv hc
  · obtain ⟨s, a, hs, hdoc, hobject, -, hb⟩ := hjava hb
    obtain ⟨v, hv, hc⟩ := Option.bind_eq_some_iff.mp hc
    rw [writesIntegers_iff hs (Json.read_of_strictLoads hs hdoc hobject hv).1]
    exact Json.integralBytes?_python hs hdoc hobject hb hv hc

namespace CanonicalSample

/-- An object with an escaped character and an integer. -/
def escaped : Bytes := bytesOf (Str.lit "\x7b\"b\":-12,\"a\":\"\\u000a\"\x7d")

/-- An object with an integer that is written with a fraction. -/
def fractional : Bytes := bytesOf (Str.lit "\x7b\"a\":2.0\x7d")

end CanonicalSample
open CanonicalSample

/-- The three packages agree on the first object, and Python stands alone on the second. -/
theorem exists_documentBytes_agree :
    (∃ b, documentBytes "response" escaped = some b ∧ Java.documentBytes "response" escaped = some b ∧
      (Json.strictLoads? escaped).bind Json.canonicalBytes? = some b ∧ WritesIntegers escaped) ∧
    ∃ b, documentBytes "response" fractional = some b ∧ Java.documentBytes "response" fractional = some b ∧
      (Json.strictLoads? fractional).bind Json.canonicalBytes? ≠ some b ∧ ¬WritesIntegers fractional := by
  have hgo : documentBytes "response" escaped = some (bytesOf (Str.lit "\x7b\"a\":\"\\n\",\"b\":-12\x7d")) := by decide +kernel
  have hjava : Java.documentBytes "response" escaped = some (bytesOf (Str.lit "\x7b\"a\":\"\\n\",\"b\":-12\x7d")) := by decide +kernel
  have hpython : (Json.strictLoads? escaped).bind Json.canonicalBytes? = some (bytesOf (Str.lit "\x7b\"a\":\"\\n\",\"b\":-12\x7d")) := by
    decide +kernel
  have hgo' : documentBytes "response" fractional = some (bytesOf (Str.lit "\x7b\"a\":2\x7d")) := by decide +kernel
  have hjava' : Java.documentBytes "response" fractional = some (bytesOf (Str.lit "\x7b\"a\":2\x7d")) := by decide +kernel
  have hpython' : (Json.strictLoads? fractional).bind Json.canonicalBytes? = some (bytesOf (Str.lit "\x7b\"a\":2.0\x7d")) := by
    decide +kernel
  have hne : bytesOf (Str.lit "\x7b\"a\":2\x7d") ≠ bytesOf (Str.lit "\x7b\"a\":2.0\x7d") := by decide
  refine ⟨⟨_, hgo, hjava, hpython, ?_⟩, _, hgo', hjava', ?_, ?_⟩
  · exact ((documentBytes_agree "response" "response" escaped).2.1 _ _ hgo hpython).mp rfl
  · rw [hpython']
    exact fun h => hne (Option.some.inj h).symm
  · exact fun h => hne (((documentBytes_agree "response" "response" fractional).2.2 _ _ hjava' hpython').mpr h)

end Go
end LeanCtx
