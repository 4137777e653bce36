import LeanCtx.Java.Strict

/-! When `Json.parse` of the Java package accepts exactly the objects of RFC 8259, and gives the values that they denote. -/

namespace LeanCtx

/-! ### UTF-8 -/

namespace Str

theorem ofNat_eq {a : UInt8} {n : Nat} (h : n = a.toNat) : UInt8.ofNat n = a := by rw [h, UInt8.ofNat_toNat]

/-- What is decoded encodes as the bytes that it was decoded from. -/
theorem flatMap_encodePoint {b : Bytes} {s : Str} (h : decodeUtf8? b = some s) : s.flatMap encodePoint = b := by
  induction b using decodeUtf8?.induct generalizing s with
  | case1 => cases h; rfl
  | case2 a r hascii ih =>
    rw [decodeUtf8?.eq_def] at h
    simp only [if_pos hascii] at h
    obtain ⟨t, ht, rfl⟩ := Option.map_eq_some_iff.mp h
    rw [List.flatMap_cons, ih ht, encodePoint, if_pos hascii, UInt8.ofNat_toNat]
    rfl
  | case3 a ha =>
    rw [decodeUtf8?.eq_def] at h
    simp [ha] at h
  | case4 a ha b r hb ih =>
    rw [decodeUtf8?.eq_def] at h
    simp only [if_neg ha, if_pos hb] at h
    obtain ⟨t, ht, rfl⟩ := Option.map_eq_some_iff.mp h
    simp only [isTail, Bool.and_eq_true, decide_eq_true_eq] at hb
    rw [List.flatMap_cons, ih ht, encodePoint, if_neg (by omega), if_pos (by omega), ofNat_eq (a := a) (by omega), ofNat_eq (a := b) (by omega)]
    rfl
  | case5 a ha b hb =>
    rw [decodeUtf8?.eq_def] at h
    simp [ha, hb] at h
  | case6 a ha b hb c r hc ih =>
    rw [decodeUtf8?.eq_def] at h
    simp only [if_neg ha, if_neg hb, if_pos hc] at h
    obtain ⟨t, ht, rfl⟩ := Option.map_eq_some_iff.mp h
    simp only [isTail, Bool.and_eq_true, decide_eq_true_eq] at hc
    rw [List.flatMap_cons, ih ht, encodePoint, if_neg (by omega), if_neg (by omega), if_pos (by omega), ofNat_eq (a := a) (by omega),
      ofNat_eq (a := b) (by omega), ofNat_eq (a := c) (by omega)]
    rfl
  | case7 a ha b hb c hc =>
    rw [decodeUtf8?.eq_def] at h
    simp [ha, hb, hc] at h
  | case8 a ha b hb c hc d r p hd =>
    rename_i ih
    rw [decodeUtf8?.eq_def] at h
    simp only [if_neg ha, if_neg hb, if_neg hc] at h
    rw [if_pos hd] at h
    obtain ⟨t, ht, rfl⟩ := Option.map_eq_some_iff.mp h
    simp only [isTail, Bool.and_eq_true, decide_eq_true_eq] at hd
    rw [List.flatMap_cons, ih ht, encodePoint, if_neg (by omega), if_neg (by omega), if_neg (by omega), ofNat_eq (a := a) (by omega),
      ofNat_eq (a := b) (by omega), ofNat_eq (a := c) (by omega), ofNat_eq (a := d) (by omega)]
    rfl
  | case9 a ha b hb c hc d r p =>
    rename_i hd
    rw [decodeUtf8?.eq_def] at h
    simp only [if_neg ha, if_neg hb, if_neg hc] at h
    rw [if_neg hd] at h
    cases h

theorem decodeUtf8?_eq_some {b : Bytes} {s : Str} : (decodeUtf8? b).filter (fun s => s.all isScalar) = some s ↔ utf8? s = some b := by
  constructor
  · intro h
    obtain ⟨hdecoded, hscalar⟩ := Option.filter_eq_some_iff.mp h
    rw [utf8?, if_pos hscalar, flatMap_encodePoint hdecoded]
  · intro h
    have hscalar : s.all isScalar = true := by
      unfold utf8? at h
      split_ifs at h with hs
      exact hs
    exact Option.filter_eq_some_iff.mpr ⟨decodeUtf8?_utf8 h, hscalar⟩

end Str

namespace Java
open Json (Piece Raw)
open Json.Grammar (ascii Digits Sign Whole Fraction ExponentSign Exponent Number Chars Items Fields Document Extends)
open PyFloat (Literal)

/-! ### What a text denotes -/

/-- The number that a literal denotes. -/
def denoted (l : Literal) : ℚ := (if l.neg then -1 else 1) * Json.literalValue l

/-- The number that a value is. -/
def Value.rational? : Value → Option ℚ
  | integer n => some n
  | decimal unscaled scale => some (unscaled * 10 ^ (-scale))
  | _ => none

mutual
/-- A value is what a document denotes: its numbers are exact, its strings have their escapes read, its members stand in their order. -/
def Denotes : Raw → Value → Prop
  | .null, x => x = .null
  | .bool b, x => x = .bool b
  | .number l, x => x.rational? = some (denoted l)
  | .string s, x => x = .str (Json.Raw.joinEscapes s)
  | .arr l, x => ∃ k, x = .list k ∧ DenotesItems l k
  | .obj f, x => ∃ g, x = .map g ∧ DenotesFields f g

def DenotesItems : List Raw → List Value → Prop
  | [], k => k = []
  | a :: l, k => ∃ x k', k = x :: k' ∧ Denotes a x ∧ DenotesItems l k'

def DenotesFields : List (List Piece × Raw) → List (Str × Value) → Prop
  | [], g => g = []
  | (s, a) :: f, g => ∃ x g', g = (Json.Raw.joinEscapes s, x) :: g' ∧ Denotes a x ∧ DenotesFields f g'
end

/-- No string of a document has an unpaired surrogate, and no object of it two members of one name. -/
def isClean (a : Raw) : Bool :=
  a.every (fun s => s.all Str.isScalar) (fun _ => true) fun keys => decide keys.Nodup && keys.all fun s => s.all Str.isScalar

/-- Every number of a document is one that `BigInteger` or `BigDecimal` holds: its exponent and its scale are 32-bit integers. -/
def isRanged (a : Raw) : Bool := a.every (fun _ => true) (fun l => (number l).isSome) fun _ => true

def isObject : Raw → Bool
  | .obj _ => true
  | _ => false

theorem denoted_of_number {l : Literal} {x : Value} (h : number l = some x) : x.rational? = some (denoted l) := by
  unfold number at h
  simp only at h
  by_cases hfloat : l.isFloat = true
  · rw [if_pos hfloat] at h
    obtain ⟨-, rfl⟩ := Option.ite_none_right_eq_some.mp h |>.imp_right Option.some.inj
    simp only [Value.rational?, denoted, Json.literalValue]
    push_cast
    rw [neg_sub]
    split_ifs <;> ring_nf
  · rw [if_neg hfloat] at h
    cases h
    obtain ⟨neg, whole, fraction, exponent⟩ := l
    obtain ⟨rfl, rfl⟩ : fraction = none ∧ exponent = none := by
      cases fraction <;> cases exponent <;> simp_all [Literal.isFloat]
    simp only [Value.rational?, denoted, Json.literalValue]
    push_cast
    simp

/-- A value that the parser gives is what the document denotes. -/
theorem denotes_of_value? (a : Raw) : ∀ {x : Value}, value? a = some x → Denotes a x := by
  induction a using Raw.induct with
  | null => rintro x ⟨⟩; rfl
  | bool b => rintro x ⟨⟩; rfl
  | number l => exact denoted_of_number
  | string s =>
    intro x hx
    obtain ⟨t, ht, rfl⟩ := Option.map_eq_some_iff.mp hx
    obtain ⟨-, rfl⟩ := (Option.ite_none_right_eq_some.mp ht).imp_right Option.some.inj
    rfl
  | arr l ih =>
    have hitems : ∀ {k : List Value}, values? l = some k → DenotesItems l k := by
      induction l with
      | nil => rintro k ⟨⟩; rfl
      | cons a l hrest =>
        intro k hk
        obtain ⟨ha, hl⟩ := List.forall_mem_cons.mp ih
        obtain ⟨x, hx, hk⟩ := Option.bind_eq_some_iff.mp hk
        obtain ⟨k', hk', rfl⟩ := Option.map_eq_some_iff.mp hk
        exact ⟨x, k', rfl, ha hx, hrest hl hk'⟩
    intro x hx
    obtain ⟨k, hk, rfl⟩ := Option.map_eq_some_iff.mp hx
    exact ⟨k, rfl, hitems hk⟩
  | obj f ih =>
    have hfields : ∀ {seen : List Str} {g : List (Str × Value)}, entries? seen f = some g → DenotesFields f g := by
      induction f with
      | nil => rintro seen g ⟨⟩; rfl
      | cons p f hrest =>
        intro seen g hg
        obtain ⟨k, a⟩ := p
        obtain ⟨ha, hf⟩ := List.forall_mem_cons.mp ih
        obtain ⟨s, hs, hg⟩ := Option.bind_eq_some_iff.mp hg
        obtain ⟨-, rfl⟩ := (Option.ite_none_right_eq_some.mp hs).imp_right Option.some.inj
        split_ifs at hg
        obtain ⟨x, hx, hg⟩ := Option.bind_eq_some_iff.mp hg
        obtain ⟨g', hg', rfl⟩ := Option.map_eq_some_iff.mp hg
        exact ⟨x, g', rfl, ha hx, hrest hf hg'⟩
    intro x hx
    obtain ⟨g, hg, rfl⟩ := Option.map_eq_some_iff.mp hx
    exact ⟨g, rfl, hfields hg⟩

theorem values?_isSome {l : List Raw} (ih : ∀ a ∈ l, (value? a).isSome = true ↔ isClean a = true ∧ isRanged a = true) :
    (values? l).isSome = true ↔ (∀ a ∈ l, isClean a = true) ∧ ∀ a ∈ l, isRanged a = true := by
  induction l with
  | nil => exact iff_of_true rfl ⟨nofun, nofun⟩
  | cons a l hrest =>
    obtain ⟨ha, hl⟩ := List.forall_mem_cons.mp ih
    have hcons : (values? (a :: l)).isSome = true ↔ (value? a).isSome = true ∧ (values? l).isSome = true := by
      rw [values?]
      cases value? a with
      | none => simp
      | some x => simp
    rw [hcons, ha, hrest hl, List.forall_mem_cons, List.forall_mem_cons]
    tauto

/-- The names of the members are clean: they have no unpaired surrogate, differ from each other and from those before them. -/
def CleanNames (seen keys : List Str) : Prop := (keys.Nodup ∧ ∀ s ∈ keys, s.all Str.isScalar = true) ∧ ∀ s ∈ keys, s ∉ seen

theorem cleanNames_cons {seen keys : List Str} {s : Str} :
    CleanNames seen (s :: keys) ↔ s.all Str.isScalar = true ∧ s ∉ seen ∧ CleanNames (s :: seen) keys := by
  simp only [CleanNames, List.nodup_cons, List.mem_cons, forall_eq_or_imp, not_or]
  constructor
  · rintro ⟨⟨⟨hs, hnodup⟩, hscalar, hscalars⟩, hseen, hrest⟩
    exact ⟨hscalar, hseen, ⟨hnodup, hscalars⟩, fun t ht => ⟨fun h => hs (h ▸ ht), hrest t ht⟩⟩
  · rintro ⟨hscalar, hseen, ⟨hnodup, hscalars⟩, hrest⟩
    exact ⟨⟨⟨fun h => (hrest s h).1 rfl, hnodup⟩, hscalar, hscalars⟩, hseen, fun t ht => (hrest t ht).2⟩

theorem entries?_isSome {f : List (List Piece × Raw)} (ih : ∀ p ∈ f, (value? p.2).isSome = true ↔ isClean p.2 = true ∧ isRanged p.2 = true) :
    ∀ seen, (entries? seen f).isSome = true ↔
      CleanNames seen (f.map fun p => Json.Raw.joinEscapes p.1) ∧ (∀ p ∈ f, isClean p.2 = true) ∧ ∀ p ∈ f, isRanged p.2 = true := by
  induction f with
  | nil => exact fun seen => iff_of_true rfl ⟨⟨⟨List.nodup_nil, nofun⟩, nofun⟩, nofun, nofun⟩
  | cons p f hrest =>
    intro seen
    obtain ⟨k, a⟩ := p
    obtain ⟨ha, hf⟩ := List.forall_mem_cons.mp ih
    have hcons : (entries? seen ((k, a) :: f)).isSome = true ↔ (Json.Raw.joinEscapes k).all Str.isScalar = true ∧
        Json.Raw.joinEscapes k ∉ seen ∧ (value? a).isSome = true ∧ (entries? (Json.Raw.joinEscapes k :: seen) f).isSome = true := by
      rw [entries?, Parser.stringOf]
      split_ifs with hscalar
      · rw [Option.bind_some]
        split_ifs with hseen
        · simp [hseen]
        · cases value? a with
          | none => simp
          | some x => simp [hscalar, hseen]
      · simp [hscalar]
    rw [hcons, ha, hrest hf, List.map_cons, cleanNames_cons, List.forall_mem_cons, List.forall_mem_cons]
    tauto

/-- The parser gives a value for a document that is clean and whose numbers it can hold. -/
theorem value?_isSome (a : Raw) : (value? a).isSome = true ↔ isClean a = true ∧ isRanged a = true := by
  induction a using Raw.induct with
  | null => exact iff_of_true rfl ⟨rfl, rfl⟩
  | bool b => exact iff_of_true rfl ⟨rfl, rfl⟩
  | number l => exact (and_iff_right rfl).symm
  | string s =>
    rw [value?, Option.isSome_map, Parser.stringOf]
    refine Iff.trans ?_ (and_iff_left rfl).symm
    change _ ↔ (Json.Raw.joinEscapes s).all Str.isScalar = true
    split_ifs with h
    · exact iff_of_true rfl h
    · exact iff_of_false Bool.false_ne_true h
  | arr l ih =>
    rw [value?, Option.isSome_map, isClean, isRanged, Raw.every_arr, Raw.every_arr, values?_isSome ih]
    rfl
  | obj f ih =>
    rw [value?, Option.isSome_map, isClean, isRanged, Raw.every_obj, Raw.every_obj, entries?_isSome ih, CleanNames]
    simp only [Bool.and_eq_true, decide_eq_true_eq, List.all_eq_true, List.not_mem_nil, not_false_eq_true, implies_true, and_true, isClean,
      isRanged, true_and, and_assoc]

/-! ### One document -/

section
open Java.Parser

theorem number_unique {s r r' : Str} {l l' : Literal} (h : Number digit s l r) (h' : Number digit s l' r') (hend : Ends r) (hend' : Ends r') :
    l = l' ∧ r = r' := by
  obtain ⟨hsign, hwhole, hfraction, hexponent⟩ := h
  obtain ⟨hsign', hwhole', hfraction', hexponent'⟩ := h'
  obtain ⟨hdigit, hpoint⟩ := starts_exponent hexponent hend
  obtain ⟨hdigit', hpoint'⟩ := starts_exponent hexponent' hend'
  cases (takeSign_eq hsign hwhole).symm.trans (takeSign_eq hsign' hwhole')
  have hw : parseWhole [] _ = .ok _ := parseWhole_eq hwhole (starts_fraction hfraction hdigit)
  cases hw.symm.trans (parseWhole_eq hwhole' (starts_fraction hfraction' hdigit'))
  have hf : parseFraction [] _ = .ok _ := parseFraction_eq hfraction hdigit hpoint
  cases hf.symm.trans (parseFraction_eq hfraction' hdigit' hpoint')
  have he : parseExponent [] _ = .ok _ := parseExponent_eq hexponent hend
  cases he.symm.trans (parseExponent_eq hexponent' hend')
  exact ⟨rfl, rfl⟩

theorem chars_unique {s r r' : Str} {l l' : List Piece} (h : Chars s l r) (h' : Chars s l' r') : l = l' ∧ r = r' := by
  have hchars : parseChars [] _ s = .ok (l, r) := parseChars_eq h (Nat.lt_succ_self _)
  cases hchars.symm.trans (parseChars_eq h' (Nat.lt_succ_self _))
  exact ⟨rfl, rfl⟩

/-- A value that starts like no number is no number. -/
theorem not_number {c : Nat} {s r : Str} {l : Literal} (hc : ¬(c = 45 ∨ 48 ≤ c ∧ c ≤ 57)) : ¬Number digit (c :: s) l r := by
  intro h
  obtain ⟨d, t, heq, hd⟩ := head_number h
  cases heq
  exact hc hd

mutual
theorem value_unique : ∀ {s : Str} {a : Raw} {r : Str}, Json.Grammar.Value digit s a r → Ends r → ∀ {b : Raw} {r' : Str},
    Json.Grammar.Value digit s b r' → Ends r' → a = b ∧ r = r'
  | _, _, _, .null _, _, _, _, h, _ => by
    cases h with
    | null => exact ⟨rfl, rfl⟩
    | number literal => exact absurd literal (not_number (by decide))
  | _, _, _, .true _, _, _, _, h, _ => by
    cases h with
    | true => exact ⟨rfl, rfl⟩
    | number literal => exact absurd literal (not_number (by decide))
  | _, _, _, .false _, _, _, _, h, _ => by
    cases h with
    | false => exact ⟨rfl, rfl⟩
    | number literal => exact absurd literal (not_number (by decide))
  | _, _, _, .number literal, hend, _, _, h, hend' => by
    cases h with
    | number literal' =>
      obtain ⟨rfl, rfl⟩ := number_unique literal literal' hend hend'
      exact ⟨rfl, rfl⟩
    | _ => exact absurd literal (not_number (by decide))
  | _, _, _, .string chars, _, _, _, h, _ => by
    cases h with
    | string chars' =>
      obtain ⟨rfl, rfl⟩ := chars_unique chars chars'
      exact ⟨rfl, rfl⟩
    | number literal => exact absurd literal (not_number (by decide))
  | _, _, _, .emptyArr close, _, _, _, h, _ => by
    cases h with
    | emptyArr close' =>
      cases close.symm.trans close'
      exact ⟨rfl, rfl⟩
    | arr items =>
      refine absurd ?_ (head_items items)
      rw [close]
      rfl
    | number literal => exact absurd literal (not_number (by decide))
  | _, _, _, .arr items, _, _, _, h, _ => by
    cases h with
    | emptyArr close =>
      refine absurd ?_ (head_items items)
      rw [close]
      rfl
    | arr items' =>
      obtain ⟨rfl, rfl⟩ := items_unique items items'
      exact ⟨rfl, rfl⟩
    | number literal => exact absurd literal (not_number (by decide))
  | _, _, _, .emptyObj close, _, _, _, h, _ => by
    cases h with
    | emptyObj close' =>
      cases close.symm.trans close'
      exact ⟨rfl, rfl⟩
    | obj fields =>
      refine absurd ?_ (head_fields fields)
      rw [close]
      rfl
    | number literal => exact absurd literal (not_number (by decide))
  | _, _, _, .obj fields, _, _, _, h, _ => by
    cases h with
    | emptyObj close =>
      refine absurd ?_ (head_fields fields)
      rw [close]
      rfl
    | obj fields' =>
      obtain ⟨rfl, rfl⟩ := fields_unique fields fields'
      exact ⟨rfl, rfl⟩
    | number literal => exact absurd literal (not_number (by decide))

theorem items_unique : ∀ {s : Str} {l : List Raw} {r : Str}, Items digit s l r → ∀ {l' : List Raw} {r' : Str},
    Items digit s l' r' → l = l' ∧ r = r'
  | _, _, _, .last value close, _, _, h => by
    cases h with
    | last value' close' =>
      obtain ⟨rfl, rfl⟩ := value_unique value (ends_of_skipSpace close (by decide)) value' (ends_of_skipSpace close' (by decide))
      cases close.symm.trans close'
      exact ⟨rfl, rfl⟩
    | cons value' comma' _ =>
      obtain ⟨rfl, rfl⟩ := value_unique value (ends_of_skipSpace close (by decide)) value' (ends_of_skipSpace comma' (by decide))
      cases close.symm.trans comma'
  | _, _, _, .cons value comma rest, _, _, h => by
    cases h with
    | last value' close' =>
      obtain ⟨rfl, rfl⟩ := value_unique value (ends_of_skipSpace comma (by decide)) value' (ends_of_skipSpace close' (by decide))
      cases comma.symm.trans close'
    | cons value' comma' rest' =>
      obtain ⟨rfl, rfl⟩ := value_unique value (ends_of_skipSpace comma (by decide)) value' (ends_of_skipSpace comma' (by decide))
      cases comma.symm.trans comma'
      obtain ⟨rfl, rfl⟩ := items_unique rest rest'
      exact ⟨rfl, rfl⟩

theorem fields_unique : ∀ {s : Str} {f : List (List Piece × Raw)} {r : Str}, Fields digit s f r → ∀ {f' : List (List Piece × Raw)} {r' : Str},
    Fields digit s f' r' → f = f' ∧ r = r'
  | _, _, _, .last key colon value close, _, _, h => by
    cases h with
    | last key' colon' value' close' =>
      obtain ⟨rfl, rfl⟩ := chars_unique key key'
      cases colon.symm.trans colon'
      obtain ⟨rfl, rfl⟩ := value_unique value (ends_of_skipSpace close (by decide)) value' (ends_of_skipSpace close' (by decide))
      cases close.symm.trans close'
      exact ⟨rfl, rfl⟩
    | cons key' colon' value' comma' _ =>
      obtain ⟨rfl, rfl⟩ := chars_unique key key'
      cases colon.symm.trans colon'
      obtain ⟨rfl, rfl⟩ := value_unique value (ends_of_skipSpace close (by decide)) value' (ends_of_skipSpace comma' (by decide))
      cases close.symm.trans comma'
  | _, _, _, .cons key colon value comma rest, _, _, h => by
    cases h with
    | last key' colon' value' close' =>
      obtain ⟨rfl, rfl⟩ := chars_unique key key'
      cases colon.symm.trans colon'
      obtain ⟨rfl, rfl⟩ := value_unique value (ends_of_skipSpace comma (by decide)) value' (ends_of_skipSpace close' (by decide))
      cases comma.symm.trans close'
    | cons key' colon' value' comma' rest' =>
      obtain ⟨rfl, rfl⟩ := chars_unique key key'
      cases colon.symm.trans colon'
      obtain ⟨rfl, rfl⟩ := value_unique value (ends_of_skipSpace comma (by decide)) value' (ends_of_skipSpace comma' (by decide))
      cases comma.symm.trans comma'
      obtain ⟨rfl, rfl⟩ := fields_unique rest rest'
      exact ⟨rfl, rfl⟩
end

theorem document_unique {s : Str} {a b : Raw} (ha : Document digit s a) (hb : Document digit s b) : a = b := by
  obtain ⟨r, ha, hend⟩ := ha
  obtain ⟨r', hb, hend'⟩ := hb
  exact (value_unique ha (ends_of_skipSpace_nil hend) hb (ends_of_skipSpace_nil hend')).1

end

/-! ### Exactly the strict objects -/

/-- The bytes are UTF-8 for one object of a grammar, without unpaired surrogates and without two members of one name. -/
def Spells (D : Json.Grammar.DigitClass) (data : Bytes) (a : Raw) : Prop :=
  ∃ s, Str.utf8? s = some data ∧ Document D s a ∧ isObject a = true ∧ isClean a = true

/-- The parser does what it should on an input: it gives the value that the text denotes where that is a strict JSON object, and throws an
    `EngineProtocolError` else. -/
def Exact (exhausted : Bool) (label : Str) (data : Bytes) : Prop :=
  match parse exhausted label data with
  | .ok x => ∃ a, Spells ascii data a ∧ Denotes a x
  | .error e => (∃ m, e = .protocol m) ∧ ¬∃ a, Spells ascii data a

theorem value?_obj {a : Raw} {x : Value} (h : value? a = some x) : isObject a = true ↔ ∃ f, x = .map f := by
  cases a with
  | obj f =>
    obtain ⟨g, -, rfl⟩ := Option.map_eq_some_iff.mp h
    exact iff_of_true rfl ⟨g, rfl⟩
  | number l =>
    refine iff_of_false Bool.false_ne_true ?_
    rintro ⟨f, rfl⟩
    simp only [value?, number] at h
    split_ifs at h <;> cases h
  | null => exact iff_of_false Bool.false_ne_true (by rintro ⟨f, rfl⟩; cases h)
  | bool b => exact iff_of_false Bool.false_ne_true (by rintro ⟨f, rfl⟩; cases h)
  | string s =>
    refine iff_of_false Bool.false_ne_true ?_
    rintro ⟨f, rfl⟩
    obtain ⟨t, -, ht⟩ := Option.map_eq_some_iff.mp h
    cases ht
  | arr l =>
    refine iff_of_false Bool.false_ne_true ?_
    rintro ⟨f, rfl⟩
    obtain ⟨k, -, hk⟩ := Option.map_eq_some_iff.mp h
    cases hk

/-- The parser gives a value exactly for the objects of the wider grammar whose numbers it can hold. -/
theorem parse_eq_ok {label : Str} {data : Bytes} {x : Value} :
    parse false label data = .ok x ↔ ∃ a, Spells digit data a ∧ isRanged a = true ∧ value? a = some x := by
  rw [parse, if_neg Bool.false_ne_true]
  constructor
  · intro h
    cases hs : decodeUtf8 data with
    | none =>
      rw [hs] at h
      cases h
    | some s =>
      rw [hs] at h
      cases hparsed : Parser.parse label s with
      | error m =>
        simp only [hparsed] at h
        cases h
      | ok y =>
        obtain ⟨a, hdoc, ha⟩ := Parser.parse_eq_ok.mp hparsed
        obtain ⟨f, rfl⟩ : ∃ f, y = .map f := by
          cases y with
          | map f => exact ⟨f, rfl⟩
          | _ => simp [hparsed] at h
        simp only [hparsed] at h
        cases h
        obtain ⟨hclean, hranged⟩ := (value?_isSome a).mp (Option.isSome_of_eq_some ha)
        exact ⟨a, ⟨s, Str.decodeUtf8?_eq_some.mp hs, hdoc, (value?_obj ha).mpr ⟨f, rfl⟩, hclean⟩, hranged, ha⟩
  · rintro ⟨a, ⟨s, hs, hdoc, hobject, -⟩, -, ha⟩
    obtain ⟨f, rfl⟩ := (value?_obj ha).mp hobject
    have hdecoded : decodeUtf8 data = some s := Str.decodeUtf8?_eq_some.mpr hs
    simp only [hdecoded, Parser.parse_eq_ok.mpr ⟨a, hdoc, ha⟩]

theorem parse_eq_error {label : Str} {data : Bytes} {e : Thrown} (h : parse false label data = .error e) : ∃ m, e = .protocol m := by
  rw [parse, if_neg Bool.false_ne_true] at h
  split at h
  · cases h
    exact ⟨_, rfl⟩
  · split at h
    · cases h
      exact ⟨_, rfl⟩
    · cases h
    · cases h
      exact ⟨_, rfl⟩

theorem Spells.wider {data : Bytes} {a : Raw} (h : Spells ascii data a) : Spells digit data a := by
  obtain ⟨s, hs, hdoc, hobject, hclean⟩ := h
  exact ⟨s, hs, hdoc.mono extends_digit, hobject, hclean⟩

theorem spells_unique {data : Bytes} {a b : Raw} (ha : Spells digit data a) (hb : Spells digit data b) : a = b := by
  obtain ⟨s, hs, hdoc, -, -⟩ := ha
  obtain ⟨t, ht, hdoc', -, -⟩ := hb
  cases (Str.decodeUtf8?_utf8 hs).symm.trans (Str.decodeUtf8?_utf8 ht)
  exact document_unique hdoc hdoc'

theorem exists_value {data : Bytes} {a : Raw} (h : Spells digit data a) (hranged : isRanged a = true) : ∃ x, value? a = some x := by
  obtain ⟨s, -, -, -, hclean⟩ := h
  exact Option.isSome_iff_exists.mp ((value?_isSome a).mpr ⟨hclean, hranged⟩)

/-- The parser is exact on an input exactly if the platform does not give up on it, the numbers of a strict JSON object are of a range that
    the parser can hold, and no digit of a number is other than an ASCII digit. -/
theorem exact_iff {exhausted : Bool} {label : Str} {data : Bytes} : Exact exhausted label data ↔
    exhausted = false ∧ (∀ a, Spells ascii data a → isRanged a = true) ∧
      ∀ a, Spells digit data a → isRanged a = true → Spells ascii data a := by
  cases exhausted with
  | true =>
    refine iff_of_false ?_ fun h => Bool.noConfusion h.1
    rintro ⟨⟨m, hm⟩, -⟩
    cases hm
  | false =>
    rw [and_iff_right rfl]
    cases h : parse false label data with
    | ok x =>
      obtain ⟨a, ha, hranged, hx⟩ := parse_eq_ok.mp h
      simp only [Exact, h]
      constructor
      · rintro ⟨b, hb, -⟩
        cases spells_unique ha hb.wider
        exact ⟨fun c hc => spells_unique ha hc.wider ▸ hranged, fun c hc _ => spells_unique ha hc ▸ hb⟩
      · rintro ⟨-, hdigits⟩
        exact ⟨a, hdigits a ha hranged, denotes_of_value? a hx⟩
    | error e =>
      have hnone : ¬∃ a, Spells digit data a ∧ isRanged a = true := by
        rintro ⟨a, ha, hranged⟩
        obtain ⟨x, hx⟩ := exists_value ha hranged
        cases h.symm.trans (parse_eq_ok.mpr ⟨a, ha, hranged, hx⟩)
      simp only [Exact, h]
      constructor
      · rintro ⟨-, hstrict⟩
        exact ⟨fun a ha => absurd ⟨a, ha⟩ hstrict, fun a ha hranged => absurd ⟨a, ha, hranged⟩ hnone⟩
      · rintro ⟨hnumbers, -⟩
        refine ⟨parse_eq_error h, ?_⟩
        rintro ⟨a, ha⟩
        exact hnone ⟨a, ha.wider, hnumbers a ha⟩

/-- The text of this object has an Arabic-Indic digit after the first of its number, and is read as the number twelve. -/
theorem not_exact_arabic : ¬Exact false "receipt" [123, 34, 97, 34, 58, 49, 217, 162, 125] := by
  have hparse : parse false "receipt" [123, 34, 97, 34, 58, 49, 217, 162, 125] = .ok (.map [([97], .integer 12)]) := rfl
  simp only [Exact, hparse]
  rintro ⟨a, ⟨s, hs, ⟨r, hvalue, -⟩, -, -⟩, -⟩
  cases (Str.decodeUtf8?_utf8 hs).symm.trans (rfl : _ = some [123, 34, 97, 34, 58, 49, 1634, 125])
  have hkey : Chars [97, 34, 58, 49, 1634, 125] [.char 97] [58, 49, 1634, 125] := .char (by decide) (by decide) (by decide) (.close _)
  -- The strict grammar ends the number before the digit, where neither a comma nor a brace stands.
  have hdigits : ∀ {v w}, Json.Grammar.Value ascii [49, 1634, 125] v w → w = [1634, 125] := by
    intro v w h
    cases h with
    | number literal =>
      obtain ⟨sign, whole, fraction, exponent⟩ := literal
      cases sign
      cases whole with
      | digits first rest =>
        cases rest with
        | cons digit _ => cases digit
        | nil =>
          cases fraction
          cases exponent with
          | none => rfl
          | some letter => exact absurd letter (by decide)
  cases hvalue with
  | number literal => exact absurd (literal.mono extends_digit) (not_number (by decide))
  | emptyObj close => cases close
  | obj fields =>
    cases fields with
    | last key colon value close =>
      obtain ⟨-, rfl⟩ := chars_unique key hkey
      cases colon
      cases hdigits value
      cases close
    | cons key colon value comma _ =>
      obtain ⟨-, rfl⟩ := chars_unique key hkey
      cases colon
      cases hdigits value
      cases comma

end Java
end LeanCtx
