import LeanCtx.Json.Equal
import LeanCtx.TypeScript.Canonical

/-! Where the TypeScript package writes the canonical bytes of the Python package. Both read one value of a portable document, and
    the texts of that value differ exactly where JavaScript lists its properties in another order. -/

namespace LeanCtx.TypeScript
open Json PyFloat

/-! ### Numbers -/

/-- A natural number below `2^53` is a float. -/
theorem toInt?_ofFraction (neg : Bool) {n : Nat} (hpos : 0 < n) (h : n < 2 ^ 53) :
    (ofFraction neg n 1).toInt? = some (if neg then -(n : Int) else n) ∧ isFinite (ofFraction neg n 1) = true ∧
      ofFraction neg n 1 ≠ negativeZero := by
  have hlog : Nat.log2 n ≤ 52 := by
    have := Nat.log2_self_le hpos.ne'
    by_contra hlt
    have : 2 ^ 53 ≤ 2 ^ Nat.log2 n := Nat.pow_le_pow_right (by decide) (by omega)
    omega
  obtain ⟨s, hs⟩ : ∃ s, s + Nat.log2 n = 52 := ⟨52 - Nat.log2 n, by omega⟩
  -- the significand is the number shifted up to fifty-three bits
  have hlow : 2 ^ 52 ≤ n * 2 ^ s := by
    calc 2 ^ 52 = 2 ^ Nat.log2 n * 2 ^ s := by rw [← pow_add, add_comm, hs]
      _ ≤ n * 2 ^ s := Nat.mul_le_mul_right _ (Nat.log2_self_le hpos.ne')
  have hhigh : n * 2 ^ s < 2 ^ 53 := by
    calc n * 2 ^ s < 2 ^ (Nat.log2 n + 1) * 2 ^ s := Nat.mul_lt_mul_of_pos_right Nat.lt_log2_self (by positivity)
      _ = 2 ^ 53 := by rw [← pow_add]; congr 1; omega
  have hvalid : isBinary64 (n * 2 ^ s) (-s) = true := by
    simp only [isBinary64, Bool.and_eq_true, Bool.or_eq_true, decide_eq_true_eq]
    omega
  have hfloat : ofFraction neg n 1 = .finite neg (n * 2 ^ s) (-s) hvalid := by
    refine ofFraction_of_close hvalid (by omega) Nat.one_pos ?_
    have hvalue : ((n * 2 ^ s : ℕ) : ℚ) * 2 ^ (-(s : ℤ)) = n := by
      push_cast
      rw [mul_assoc, zpow_neg, zpow_natCast, mul_inv_cancel₀ (by positivity), mul_one]
    rw [hvalue]
    simp
  rw [hfloat]
  refine ⟨?_, rfl, ?_⟩
  · cases s with
    | zero => cases neg <;> simp [toInt?]
    | succ s =>
      have hneg : ¬ (0 : ℤ) ≤ -((s + 1 : ℕ) : ℤ) := by omega
      have hexp : (-(-((s + 1 : ℕ) : ℤ))).toNat = s + 1 := by omega
      simp only [toInt?, if_neg hneg, hexp, Nat.mul_mod_left, if_true, Nat.mul_div_cancel _ (Nat.two_pow_pos (s + 1))]
      cases neg <;> simp
  · unfold negativeZero
    rintro h
    injection h
    omega

theorem toInt?_zero : (ofFraction false 0 1).toInt? = some 0 ∧ isFinite (ofFraction false 0 1) = true ∧
    ofFraction false 0 1 ≠ negativeZero := by
  decide +kernel

/-- What the two packages make of a plain integer. -/
theorem number_of_plain {l : Literal} (h : isPlainInteger l = true) :
    ∃ n : Int, Raw.python.number l = some (.int n) ∧ n.natAbs ≤ maxSafe ∧
      ∃ x, typescript.number l = some (.float x) ∧ safeInteger? x = some n := by
  simp only [isPlainInteger, Bool.and_eq_true, Bool.not_eq_true', decide_eq_true_eq, Bool.and_eq_false_iff,
    decide_eq_false_iff_not] at h
  obtain ⟨⟨⟨hfloat, hdecimal⟩, hsafe⟩, hzero⟩ := h
  have hlen : l.whole.length ≤ maxIntDigits := by
    rw [hdecimal, length_decimal]
    have hbound : maxSafe < 10 ^ 16 := by decide
    exact (length_natText_le_of_lt (by decide) (hsafe.trans_lt hbound)).trans (by decide)
  have hvalue : ofLiteral l = ofFraction l.neg (ofDigits l.whole) 1 := by
    simp only [Literal.isFloat, Bool.or_eq_false_iff, Option.isSome_eq_false_iff, Option.isNone_iff_eq_none] at hfloat
    simp [ofLiteral, ofDecimal, hfloat.1, hfloat.2]
  have hint : (ofLiteral l).toInt? = some (if l.neg then -(ofDigits l.whole : Int) else ofDigits l.whole) ∧
      isFinite (ofLiteral l) = true ∧ ofLiteral l ≠ negativeZero := by
    rw [hvalue]
    rcases Nat.eq_zero_or_pos (ofDigits l.whole) with h0 | hpos
    · have hneg : l.neg = false := hzero.resolve_right fun h => h h0
      rw [h0, hneg]
      exact toInt?_zero
    · exact toInt?_ofFraction l.neg hpos (hsafe.trans_lt (by decide))
  obtain ⟨htoInt, hfinite, hnonzero⟩ := hint
  have habs : (if l.neg then -(ofDigits l.whole : Int) else ofDigits l.whole).natAbs ≤ maxSafe := by
    split_ifs <;> simpa using hsafe
  refine ⟨_, ?_, habs, ofLiteral l, ?_, ?_⟩
  · rw [Raw.python]
    simp only [hfloat, Bool.false_eq_true, if_false, if_pos hlen]
  · rw [typescript]
    exact if_pos hfinite
  · rw [safeInteger?, htoInt, Option.bind_some, if_pos ⟨habs, hnonzero⟩]

/-! ### Strings -/

theorem joinUnits_cons {u : Nat} (l : List Nat) (h : Str.isScalar u = true) : joinUnits (u :: l) = u :: joinUnits l := by
  have hu : ¬ (0xD800 ≤ u ∧ u ≤ 0xDBFF) := by
    simp only [Str.isScalar, Bool.or_eq_true, Bool.and_eq_true, decide_eq_true_eq] at h
    omega
  rw [joinUnits.eq_def]
  simp only [if_neg hu]

/-- A string without a lone half reads the same where every unit may meet its neighbour. -/
theorem joinUnits_eq {s : List Piece} (h : (Raw.joinEscapes s).all Str.isScalar = true) :
    joinUnits (s.map Piece.code) = Raw.joinEscapes s := by
  induction s using Raw.joinEscapes.induct with
  | case1 => rw [List.map_nil, joinUnits, Raw.joinEscapes]
  | case2 u w l hpair ih =>
    rw [Raw.joinEscapes_pair l hpair.1 hpair.2] at h ⊢
    rw [List.all_cons, Bool.and_eq_true] at h
    simp only [List.map_cons, Piece.code]
    rw [joinUnits, if_pos hpair.1, if_pos hpair.2, ih h.2]
  | case3 u w l hpair ih =>
    rw [Raw.joinEscapes, if_neg hpair, List.all_cons, Bool.and_eq_true] at h
    rw [Raw.joinEscapes, if_neg hpair, List.map_cons, Piece.code, joinUnits_cons _ h.1, ih h.2]
  | case4 p l hp ih =>
    rw [Raw.joinEscapes, List.all_cons, Bool.and_eq_true] at h
    · rw [Raw.joinEscapes, List.map_cons, joinUnits_cons _ h.1, ih h.2]
      exact hp
    · exact hp

theorem typescript_string {s : List Piece} (h : (Raw.joinEscapes s).all Str.isScalar = true) :
    typescript.string s = some (Raw.joinEscapes s) := by
  simp only [typescript, joinUnits_eq h, if_pos h]

/-! ### Listed properties -/

theorem index?_eq_some {limit n : Nat} {k : Str} (h : index? limit k = some n) : k = natText n := by
  unfold index? at h
  simp only at h
  split_ifs at h with hk
  cases h
  exact hk.1

theorem distinct_index (limit : Nat) {f : List (Str × Json)} (h : (f.map (·.1)).Nodup) :
    Ranked.Distinct (fun p : Str × Json => index? limit p.1) f := by
  refine (List.pairwise_map.mp h).imp fun {p q} hne n hp hq => hne ?_
  rw [index?_eq_some hp, index?_eq_some hq]

theorem listedItems_eq (limit : Nat) (l : List Json) : listedItems limit l = l.map (listed limit) := by
  induction l with
  | nil => rfl
  | cons v l ih => rw [listedItems_cons, ih, List.map_cons]

theorem listedFields_eq (limit : Nat) (f : List (Str × Json)) : listedFields limit f = f.map fun p => (p.1, listed limit p.2) := by
  induction f with
  | nil => rfl
  | cons p f ih => rw [listedFields_cons, ih, List.map_cons]

theorem listed_arr_iff {limit : Nat} {l : List Json} : listed limit (.arr l) = .arr l ↔ ∀ v ∈ l, listed limit v = v := by
  rw [listed_arr, listedItems_eq, Json.arr.injEq]
  exact ⟨fun h => List.map_inj_left.mp (h.trans (List.map_id l).symm), fun h => (List.map_inj_left.mpr h).trans (List.map_id l)⟩

/-- The order of an object's properties is the order of its keys where no key stands ahead of a smaller index. -/
theorem listed_obj_iff {limit : Nat} {f : List (Str × Json)} (h : Ordered f) :
    listed limit (.obj f) = .obj f ↔
      (∀ j ∈ f.map (·.1), ∀ k ∈ f.map (·.1), j < k → Ranked.Ahead (index? limit) j k) ∧ ∀ p ∈ f, listed limit p.2 = p.2 := by
  let rank : Str × Json → Option Nat := fun p => index? limit p.1
  let g : List (Str × Json) := f.map fun p => (p.1, listed limit p.2)
  have hkeys : g.map (·.1) = f.map (·.1) := by rw [List.map_map]; rfl
  have hdistinct : Ranked.Distinct rank g := distinct_index limit (hkeys ▸ h.nodup)
  have hpairwise : ∀ e : List (Str × Json), e.Pairwise (Ranked.Ahead rank) ↔ (e.map (·.1)).Pairwise (Ranked.Ahead (index? limit)) :=
    fun e => by rw [List.pairwise_map]; rfl
  have hvalues : g = f ↔ ∀ p ∈ f, listed limit p.2 = p.2 := by
    constructor
    · intro hg p hp
      exact (Prod.mk.inj (List.map_inj_left.mp (hg.trans (List.map_id f).symm) p hp)).2
    · intro hf
      exact (List.map_inj_left.mpr fun p hp => by rw [hf p hp]; rfl).trans (List.map_id f)
  rw [listed_obj, listedFields_eq, Json.obj.injEq, ← Ranked.pairwise_iff_of_lt h, ← hvalues]
  constructor
  · intro hfront
    have hahead : (f.map (·.1)).Pairwise (Ranked.Ahead (index? limit)) := by
      rw [← hpairwise, ← hfront]
      exact Ranked.front_ahead hdistinct
    refine ⟨hahead, ?_⟩
    have hself : Ranked.front rank g = g := Ranked.front_eq_of_ahead ((hpairwise g).mpr (hkeys ▸ hahead))
    exact hself.symm.trans hfront
  · rintro ⟨hahead, hg⟩
    exact (Ranked.front_eq_of_ahead ((hpairwise g).mpr (hkeys ▸ hahead))).trans hg

/-! ### Reading -/

/-- Both packages read the value in the document, and can write it. -/
structure Reads (limit : Nat) (a : Raw) (v : Json) : Prop where
  python : a.read Raw.python = some v
  typescript : ∃ w, a.read typescript = some w ∧ canonicalValue w = some v
  plain : IsPlain v
  text : HasText v
  listed : HasText (listed limit v)
  order : TypeScript.listed limit v = v ↔ isAligned limit a = true

section Reads
variable {limit : Nat}

theorem reads_leaf {a : Raw} {v w : Json} (hpy : a.read Raw.python = some v) (hts : a.read typescript = some w)
    (hcanon : canonicalValue w = some v) (hplain : IsPlain v) (htext : HasText v) (hlisted : listed limit v = v)
    (haligned : isAligned limit a = true) : Reads limit a v where
  python := hpy
  typescript := ⟨w, hts, hcanon⟩
  plain := hplain
  text := htext
  listed := hlisted.symm ▸ htext
  order := ⟨fun _ => haligned, fun _ => hlisted⟩

theorem reads_items {l : List Raw} (h : ∀ a ∈ l, ∃ v, Reads limit a v) :
    ∃ vs, Raw.readItems Raw.python l = some vs ∧ (∃ ws, Raw.readItems typescript l = some ws ∧ canonicalItems ws = some vs) ∧
      List.Forall₂ (Reads limit) l vs := by
  induction l with
  | nil => exact ⟨[], rfl, ⟨[], rfl, rfl⟩, .nil⟩
  | cons a l ih =>
    obtain ⟨v, hv⟩ := h a (by simp)
    obtain ⟨vs, hpy, ⟨ws, hts, hcanon⟩, hall⟩ := ih fun b hb => h b (by simp [hb])
    obtain ⟨w, hw, hwv⟩ := hv.typescript
    refine ⟨v :: vs, ?_, ⟨w :: ws, ?_, ?_⟩, .cons hv hall⟩
    · rw [Raw.readItems, hv.python, Option.bind_some, hpy]
      rfl
    · rw [Raw.readItems, hw, Option.bind_some, hts]
      rfl
    · rw [canonicalItems, hwv, Option.bind_some, hcanon]
      rfl

/-- A member of the document and the member that is read in it. -/
def ReadsField (limit : Nat) (p : List Piece × Raw) (q : Str × Json) : Prop :=
  q.1 = Raw.joinEscapes p.1 ∧ Reads limit p.2 q.2

theorem reads_fields {f : List (List Piece × Raw)} (h : ∀ p ∈ f, ∃ v, Reads limit p.2 v)
    (hkeys : ∀ p ∈ f, (Raw.joinEscapes p.1).all Str.isScalar = true) :
    ∃ vs, Raw.readFields Raw.python f = some vs ∧
      (∃ ws, Raw.readFields typescript f = some ws ∧ ws.map (·.1) = f.map (fun p => Raw.joinEscapes p.1) ∧ canonicalFields ws = some vs) ∧
      List.Forall₂ (ReadsField limit) f vs := by
  induction f with
  | nil => exact ⟨[], rfl, ⟨[], rfl, rfl, rfl⟩, .nil⟩
  | cons p f ih =>
    obtain ⟨k, a⟩ := p
    obtain ⟨v, hv⟩ := h (k, a) (by simp)
    obtain ⟨vs, hpy, ⟨ws, hts, hnames, hcanon⟩, hall⟩ := ih (fun b hb => h b (by simp [hb])) fun b hb => hkeys b (by simp [hb])
    obtain ⟨w, hw, hwv⟩ := hv.typescript
    have hk := hkeys (k, a) (by simp)
    refine ⟨(Raw.joinEscapes k, v) :: vs, ?_, ⟨(Raw.joinEscapes k, w) :: ws, ?_, ?_, ?_⟩, .cons ⟨rfl, hv⟩ hall⟩
    · rw [Raw.readFields, Raw.python_string, Option.bind_some, hv.python, Option.bind_some, hpy]
      rfl
    · rw [Raw.readFields, typescript_string hk, Option.bind_some, hw, Option.bind_some, hts]
      rfl
    · rw [List.map_cons, List.map_cons, hnames]
    · rw [canonicalFields, if_pos hk, hwv, Option.bind_some, hcanon]
      rfl

theorem reads_arr {l : List Raw} (h : ∀ a ∈ l, ∃ v, Reads limit a v) : ∃ v, Reads limit (.arr l) v := by
  obtain ⟨vs, hpy, ⟨ws, hts, hcanon⟩, hall⟩ := reads_items h
  have hmem : ∀ v ∈ vs, ∃ a ∈ l, Reads limit a v := fun v hv => exists_mem_of_forall₂ hall.flip hv
  refine ⟨.arr vs, ?_, ⟨.arr ws, ?_, ?_⟩, ?_, ?_, ?_, ?_⟩
  · rw [Raw.read, hpy]
    rfl
  · rw [Raw.read, hts]
    rfl
  · rw [canonicalValue, hcanon]
    rfl
  · refine isPlain_arr fun v hv => ?_
    obtain ⟨a, -, ha⟩ := hmem v hv
    exact ha.plain
  · refine hasText_arr fun v hv => ?_
    obtain ⟨a, -, ha⟩ := hmem v hv
    exact ha.text
  · rw [listed_arr, listedItems_eq]
    refine hasText_arr fun w hw => ?_
    obtain ⟨v, hv, rfl⟩ := List.mem_map.mp hw
    obtain ⟨a, -, ha⟩ := hmem v hv
    exact ha.listed
  · rw [listed_arr_iff, isAligned, Raw.every_arr]
    constructor
    · intro hlisted a ha
      obtain ⟨v, hv, hav⟩ := exists_mem_of_forall₂ hall ha
      exact hav.order.mp (hlisted v hv)
    · intro haligned v hv
      obtain ⟨a, ha, hav⟩ := hmem v hv
      exact hav.order.mpr (haligned a ha)

theorem reads_obj {f : List (List Piece × Raw)} (h : ∀ p ∈ f, ∃ v, Reads limit p.2 v)
    (hkeys : ∀ p ∈ f, (Raw.joinEscapes p.1).all Str.isScalar = true) (hnodup : (f.map fun p => Raw.joinEscapes p.1).Nodup) :
    ∃ v, Reads limit (.obj f) v := by
  obtain ⟨vs, hpy, ⟨ws, hts, hnames, hcanon⟩, hall⟩ := reads_fields h hkeys
  have hmem : ∀ q ∈ vs, ∃ p ∈ f, ReadsField limit p q := fun q hq => exists_mem_of_forall₂ hall.flip hq
  have hvs : vs.map (·.1) = f.map fun p => Raw.joinEscapes p.1 := by
    clear * - hall
    induction hall with
    | nil => rfl
    | cons h _ ih => rw [List.map_cons, List.map_cons, h.1, ih]
  have hsorted : ∀ q, q ∈ sortFields vs ↔ q ∈ vs := fun q => (perm_sortFields (hvs ▸ hnodup)).mem_iff
  have hread : ∀ q ∈ sortFields vs, ∃ p ∈ f, ReadsField limit p q := fun q hq => hmem q ((hsorted q).mp hq)
  have hscalar : ∀ q ∈ sortFields vs, q.1.all Str.isScalar = true := fun q hq => by
    obtain ⟨p, hp, hpq⟩ := hread q hq
    exact hpq.1 ▸ hkeys p hp
  refine ⟨.obj (sortFields vs), ?_, ⟨.obj ws, ?_, ?_⟩, ?_, ?_, ?_, ?_⟩
  · rw [Raw.read, hpy, Option.bind_some, Raw.python]
    exact if_pos (hvs ▸ hnodup)
  · rw [Raw.read, hts, Option.bind_some, typescript]
    exact if_pos (hnames ▸ hnodup)
  · rw [canonicalValue, hcanon]
    rfl
  · rw [IsPlain, plain, plainFields_eq]
    have hplain : (sortFields vs).map (fun p => (p.1, p.2.plain)) = sortFields vs := by
      refine (List.map_inj_left.mpr fun q hq => ?_).trans (List.map_id _)
      obtain ⟨p, -, hpq⟩ := hread q hq
      rw [hpq.2.plain]
      rfl
    rw [hplain, sortFields_eq_self (ordered_sortFields vs)]
  · refine hasText_obj fun q hq => ⟨hscalar q hq, ?_⟩
    obtain ⟨p, -, hpq⟩ := hread q hq
    exact hpq.2.text
  · rw [listed_obj, listedFields_eq]
    refine hasText_obj fun q hq => ?_
    obtain ⟨r, hr, rfl⟩ := List.mem_map.mp (Ranked.mem_front.mp hq)
    obtain ⟨p, -, hpr⟩ := hread r hr
    exact ⟨hscalar r hr, hpr.2.listed⟩
  · have hnames' : ∀ k, k ∈ (sortFields vs).map (·.1) ↔ k ∈ f.map fun p => Raw.joinEscapes p.1 := fun k => by
      rw [← hvs]
      exact mem_keys_sortFields
    rw [listed_obj_iff (ordered_sortFields vs), isAligned, Raw.every_obj, decide_eq_true_eq]
    simp only [hnames']
    refine and_congr_right fun _ => ⟨fun hlisted p hp => ?_, fun haligned q hq => ?_⟩
    · obtain ⟨q, hq, hpq⟩ := exists_mem_of_forall₂ hall hp
      exact hpq.2.order.mp (hlisted q ((hsorted q).mpr hq))
    · obtain ⟨p, hp, hpq⟩ := hread q hq
      exact hpq.2.order.mpr (haligned p hp)

/-- Both packages read one value in a portable document that names no key twice. -/
theorem reads_of_portable (limit : Nat) (a : Raw) (hp : isPortable a = true) (hu : isUnique a = true) : ∃ v, Reads limit a v := by
  induction a using Raw.induct with
  | null => exact ⟨.null, reads_leaf rfl rfl rfl rfl ⟨_, rfl, by decide⟩ rfl rfl⟩
  | bool b => exact ⟨.bool b, reads_leaf rfl rfl rfl rfl ⟨_, rfl, by cases b <;> decide⟩ rfl rfl⟩
  | number l =>
    obtain ⟨n, hpy, hsafe, x, hts, hx⟩ := number_of_plain hp
    have htext : HasText (.int n) := by
      refine writable_iff.mp (writable_int ((length_natText_le_of_lt (k := 16) (by decide) ?_).trans (by decide)))
      exact lt_of_le_of_lt hsafe (by decide)
    refine ⟨.int n, reads_leaf hpy hts ?_ rfl htext rfl rfl⟩
    rw [canonicalValue, hx]
    rfl
  | string s =>
    have hs : (Raw.joinEscapes s).all Str.isScalar = true := hp
    have hread : (Raw.string s).read typescript = some (.str (Raw.joinEscapes s)) := by
      rw [Raw.read, typescript_string hs]
      rfl
    exact ⟨.str (Raw.joinEscapes s), reads_leaf rfl hread rfl rfl (writable_iff.mp (writable_str hs)) rfl rfl⟩
  | arr l ih =>
    rw [isPortable, Raw.every_arr] at hp
    rw [isUnique, Raw.every_arr] at hu
    exact reads_arr fun a ha => ih a ha (hp a ha) (hu a ha)
  | obj f ih =>
    rw [isPortable, Raw.every_obj] at hp
    rw [isUnique, Raw.every_obj] at hu
    obtain ⟨hkeys, hp⟩ := hp
    obtain ⟨hnodup, hu⟩ := hu
    refine reads_obj (fun p hmem => ih p hmem (hp p hmem) (hu p hmem)) (fun p hmem => ?_) (by simpa using hnodup)
    exact List.all_eq_true.mp hkeys _ (List.mem_map_of_mem hmem)

end Reads

/-! ### Texts -/

/-- A quoted string ends where it says. -/
theorem quote_append_inj {j k r q : Str} (h : quote j ++ r = quote k ++ q) : j = k ∧ r = q := by
  simp only [quote, List.cons_append, List.append_assoc, List.nil_append, List.cons.injEq, true_and] at h
  have hj := scanString_quote j r
  rw [h, scanString_quote k q] at hj
  obtain ⟨hkj, hqr⟩ := Prod.mk.inj (Option.some.inj hj)
  exact ⟨hkj.symm, hqr.symm⟩

/-- The texts of a value and of its listing, with whatever follows, are one text only where the listing is the value. -/
def TellsOrder (limit : Nat) (v : Json) : Prop :=
  ∀ {t u r q : Str}, text? (listed limit v) = some t → text? v = some u → t ++ r = u ++ q → listed limit v = v ∧ r = q

theorem tellsOrder_leaf {limit : Nat} {v : Json} (h : listed limit v = v) : TellsOrder limit v := fun {t u r q} ht hu heq => by
  rw [h, hu] at ht
  cases ht
  exact ⟨h, List.append_cancel_left heq⟩

theorem tellsOrder_items {limit : Nat} {l : List Json} (ih : ∀ v ∈ l, TellsOrder limit v) {ts us : List Str} {r q : Str}
    (ht : itemTexts? (listedItems limit l) = some ts) (hu : itemTexts? l = some us)
    (h : joinComma ts ++ 93 :: r = joinComma us ++ 93 :: q) : (∀ v ∈ l, listed limit v = v) ∧ r = q := by
  induction l generalizing ts us with
  | nil =>
    cases ht
    cases hu
    exact ⟨nofun, (List.cons.inj h).2⟩
  | cons v l ihl =>
    simp only [listedItems_cons, itemTexts?, Option.bind_eq_some_iff, Option.map_eq_some_iff] at ht hu
    obtain ⟨t, ht, ts, hts, rfl⟩ := ht
    obtain ⟨u, hu, us, hus, rfl⟩ := hu
    cases l with
    | nil =>
      cases hts
      cases hus
      obtain ⟨hv, hrest⟩ := ih v (by simp) ht hu h
      exact ⟨by simpa using hv, (List.cons.inj hrest).2⟩
    | cons w l =>
      have hts' : ts ≠ [] := ne_nil_of_itemTexts? hts (by simp [listedItems_cons])
      have hus' : us ≠ [] := ne_nil_of_itemTexts? hus (by simp)
      obtain ⟨t', ts, rfl⟩ := List.exists_cons_of_ne_nil hts'
      obtain ⟨u', us, rfl⟩ := List.exists_cons_of_ne_nil hus'
      simp only [joinComma, List.append_assoc, List.cons_append] at h
      obtain ⟨hv, hrest⟩ := ih v (by simp) ht hu h
      obtain ⟨hl, hrq⟩ := ihl (fun x hx => ih x (by simp [hx])) hts hus (List.cons.inj hrest).2
      exact ⟨List.forall_mem_cons.mpr ⟨hv, hl⟩, hrq⟩

/-- The members of one object, listed in some order, and those of the object from some point on. -/
theorem tellsOrder_fields {limit : Nat} {e : List (Str × Json)} (ih : ∀ p ∈ e, TellsOrder limit p.2) (hnodup : (e.map (·.1)).Nodup)
    {g f : List (Str × Json)} (hg : ∀ p ∈ g, ∃ q ∈ e, p = (q.1, listed limit q.2)) (hf : f ⊆ e) (hlen : g.length = f.length)
    {ts us : List Str} {r q : Str} (ht : fieldTexts? g = some ts) (hu : fieldTexts? f = some us)
    (h : joinComma ts ++ 125 :: r = joinComma us ++ 125 :: q) : g = f ∧ r = q := by
  induction g generalizing f ts us with
  | nil =>
    obtain rfl := List.length_eq_zero_iff.mp hlen.symm
    cases ht
    cases hu
    exact ⟨rfl, (List.cons.inj h).2⟩
  | cons p g ihg =>
    obtain ⟨b, f, rfl⟩ := List.exists_cons_of_length_eq_add_one hlen.symm
    obtain ⟨j, w⟩ := b
    obtain ⟨⟨k, v⟩, hkv, rfl⟩ := hg p (by simp)
    simp only [fieldTexts?, Option.bind_eq_some_iff, Option.map_eq_some_iff] at ht hu
    obtain ⟨t, ht, ts, hts, rfl⟩ := ht
    obtain ⟨u, hu, us, hus, rfl⟩ := hu
    have hjw : (j, w) ∈ e := hf (by simp)
    have hlen : g.length = f.length := by simpa using hlen
    have hvalue : ∀ {x y : Str}, quote k ++ 58 :: t ++ x = quote j ++ 58 :: u ++ y → (k, listed limit v) = (j, w) ∧ x = y := by
      intro x y hxy
      rw [List.append_assoc, List.append_assoc] at hxy
      obtain ⟨rfl, hrest⟩ := quote_append_inj hxy
      obtain rfl : v = w := congrArg Prod.snd (List.inj_on_of_nodup_map hnodup hkv hjw rfl)
      obtain ⟨hv, hxy⟩ := ih _ hkv ht hu (List.cons.inj hrest).2
      exact ⟨by rw [hv], hxy⟩
    cases g with
    | nil =>
      obtain rfl := List.length_eq_zero_iff.mp hlen.symm
      cases hts
      cases hus
      obtain ⟨hp, hrest⟩ := hvalue h
      exact ⟨by rw [hp], (List.cons.inj hrest).2⟩
    | cons p' g =>
      have hf' : f ≠ [] := by
        rintro rfl
        simp at hlen
      obtain ⟨t', ts, rfl⟩ := List.exists_cons_of_ne_nil (ne_nil_of_fieldTexts? hts (by simp))
      obtain ⟨u', us, rfl⟩ := List.exists_cons_of_ne_nil (ne_nil_of_fieldTexts? hus hf')
      rw [joinComma, joinComma, List.append_assoc (quote k ++ 58 :: t), List.append_assoc (quote j ++ 58 :: u)] at h
      obtain ⟨hp, hrest⟩ := hvalue h
      obtain ⟨hgf, hrq⟩ := ihg (fun x hx => hg x (List.mem_cons_of_mem _ hx)) (fun x hx => hf (List.mem_cons_of_mem _ hx)) hlen hts hus
        (List.cons.inj hrest).2
      exact ⟨by rw [hp, hgf], hrq⟩

theorem tellsOrder (limit : Nat) (v : Json) (h : IsPlain v) : TellsOrder limit v := by
  induction v using Json.induct with
  | null => exact tellsOrder_leaf rfl
  | bool b => exact tellsOrder_leaf rfl
  | int n => exact tellsOrder_leaf rfl
  | float x => exact tellsOrder_leaf rfl
  | str s => exact tellsOrder_leaf rfl
  | arr l ih =>
    intro t u r q ht hu heq
    simp only [listed_arr, text?, Option.map_eq_some_iff] at ht hu
    obtain ⟨ts, hts, rfl⟩ := ht
    obtain ⟨us, hus, rfl⟩ := hu
    simp only [List.cons_append, List.append_assoc, List.nil_append, List.cons.injEq, true_and] at heq
    obtain ⟨hl, hrq⟩ := tellsOrder_items (fun v hv => ih v hv (isPlain_items h v hv)) hts hus heq
    exact ⟨listed_arr_iff.mpr hl, hrq⟩
  | obj f ih =>
    intro t u r q ht hu heq
    simp only [listed_obj, text?, Option.map_eq_some_iff] at ht hu
    obtain ⟨ts, hts, rfl⟩ := ht
    obtain ⟨us, hus, rfl⟩ := hu
    simp only [List.cons_append, List.append_assoc, List.nil_append, List.cons.injEq, true_and] at heq
    obtain ⟨hord, hplain⟩ := isPlain_obj h
    have hmem : ∀ p ∈ ownFields limit (listedFields limit f), ∃ q ∈ f, p = (q.1, listed limit q.2) := fun p hp => by
      rw [listedFields_eq] at hp
      obtain ⟨q, hq, rfl⟩ := List.mem_map.mp (Ranked.mem_front.mp hp)
      exact ⟨q, hq, rfl⟩
    have hlen : (ownFields limit (listedFields limit f)).length = f.length := by
      rw [ownFields, (Ranked.perm_front _ _).length_eq, listedFields_eq, List.length_map]
    obtain ⟨hfields, hrq⟩ :=
      tellsOrder_fields (fun p hp => ih p hp (hplain p hp)) hord.nodup hmem (List.Subset.refl f) hlen hts hus heq
    exact ⟨by rw [listed, hfields], hrq⟩

/-! ### Keys named twice -/

/-- A package that refuses an object with a key named twice reads no document that holds one. -/
theorem isUnique_of_read {d : Raw.Dialect} (hobject : ∀ f v, d.object f = some v → (f.map (·.1)).Nodup)
    (hstring : ∀ s, (Raw.joinEscapes s).all Str.isScalar = true → d.string s = some (Raw.joinEscapes s)) {a : Raw}
    (hp : isPortable a = true) : ∀ {v : Json}, a.read d = some v → isUnique a = true := by
  induction a using Raw.induct with
  | null => exact fun _ => rfl
  | bool b => exact fun _ => rfl
  | number l => exact fun _ => rfl
  | string s => exact fun _ => rfl
  | arr l ih =>
    intro v h
    rw [isPortable, Raw.every_arr] at hp
    rw [Raw.read, Option.map_eq_some_iff] at h
    obtain ⟨vs, h, -⟩ := h
    rw [isUnique, Raw.every_arr]
    induction l generalizing vs with
    | nil => exact List.forall_mem_nil _
    | cons a l ihl =>
      simp only [Raw.readItems, Option.bind_eq_some_iff, Option.map_eq_some_iff] at h
      obtain ⟨w, hw, ws, hws, -⟩ := h
      obtain ⟨ha, hl⟩ := List.forall_mem_cons.mp hp
      exact List.forall_mem_cons.mpr ⟨ih a (by simp) ha hw, ihl (fun x hx => ih x (by simp [hx])) hl ws hws⟩
  | obj f ih =>
    intro v h
    rw [isPortable, Raw.every_obj, List.all_map] at hp
    obtain ⟨hkeys, hp⟩ := hp
    rw [Raw.read, Option.bind_eq_some_iff] at h
    obtain ⟨g, hg, hv⟩ := h
    have hread : g.map (·.1) = f.map (fun p => Raw.joinEscapes p.1) ∧ ∀ p ∈ f, isUnique p.2 = true := by
      clear hv
      induction f generalizing g with
      | nil =>
        cases hg
        exact ⟨rfl, List.forall_mem_nil _⟩
      | cons p f ihf =>
        obtain ⟨k, a⟩ := p
        rw [List.all_cons, Bool.and_eq_true] at hkeys
        obtain ⟨ha, hp⟩ := List.forall_mem_cons.mp hp
        simp only [Raw.readFields, hstring k hkeys.1, Option.bind_eq_some_iff, Option.map_eq_some_iff, Option.some.injEq] at hg
        obtain ⟨_, rfl, w, hw, g, hg, rfl⟩ := hg
        obtain ⟨hnames, hrest⟩ := ihf (fun x hx => ih x (by simp [hx])) hkeys.2 hp g hg
        exact ⟨by rw [List.map_cons, List.map_cons, hnames], List.forall_mem_cons.mpr ⟨ih (k, a) (by simp) ha hw, hrest⟩⟩
    rw [isUnique, Raw.every_obj, decide_eq_true_eq]
    exact ⟨hread.1 ▸ hobject g v hv, hread.2⟩

theorem python_object {f : List (Str × Json)} {v : Json} :
    Raw.python.object f = some v ↔ (f.map (·.1)).Nodup ∧ v = .obj (sortFields f) := by
  simp only [Raw.python, Option.ite_none_right_eq_some, Option.some.injEq, eq_comm (a := v)]

theorem typescript_object {f : List (Str × Json)} {v : Json} : typescript.object f = some v ↔ (f.map (·.1)).Nodup ∧ v = .obj f := by
  simp only [typescript, Option.ite_none_right_eq_some, Option.some.injEq, eq_comm (a := v)]

theorem isUnique_of_python {a : Raw} {v : Json} (hp : isPortable a = true) (h : a.read Raw.python = some v) : isUnique a = true := by
  exact isUnique_of_read (fun _ _ hv => (python_object.mp hv).1) (fun _ _ => rfl) hp h

theorem isUnique_of_typescript {a : Raw} {v : Json} (hp : isPortable a = true) (h : a.read typescript = some v) : isUnique a = true :=
  isUnique_of_read (fun _ _ hv => (typescript_object.mp hv).1) (fun _ hs => typescript_string hs) hp h

/-! ### Documents -/

/-- A text that is a JSON object whose strings are valid Unicode and whose literals are plain integers. -/
def IsPortableText (t : Str) : Prop := t.all Str.isScalar = true ∧ ∃ f, Raw.scan t = some (.obj f) ∧ isPortable (.obj f) = true

theorem documentBytes_eq {limit : Nat} {t : Str} {f : List (List Piece × Raw)} {v : Json} (hscalar : t.all Str.isScalar = true)
    (hscan : Raw.scan t = some (.obj f)) (h : Reads limit (.obj f) v) :
    documentBytes limit t = (text? (listed limit v)).bind Str.utf8? ∧ Json.documentBytes t = (text? v).bind Str.utf8? := by
  obtain ⟨w, hw, hcanon⟩ := h.typescript
  have hpython := h.python
  rw [Raw.read, Option.bind_eq_some_iff] at hpython hw
  obtain ⟨g, hg, hv⟩ := hpython
  obtain ⟨e, he, hw'⟩ := hw
  obtain ⟨-, rfl⟩ := python_object.mp hv
  obtain ⟨-, rfl⟩ := typescript_object.mp hw'
  constructor
  · rw [documentBytes, strictJsonLoads, if_pos hscalar, hscan, Option.bind_some, Raw.read, he, Option.bind_some, hw', Option.bind_some,
      Option.bind_some, canonicalBytes, hcanon, Option.bind_some]
  · rw [Json.documentBytes, strictTextLoads?, Raw.parse?_eq, hscan, Option.bind_some, Raw.read, hg, Option.bind_some, hv, Option.bind_some,
      Option.bind_some, canonicalBytes?, h.plain]

/-- A document of which one package makes no value is refused by both. -/
theorem documentBytes_eq_none {limit : Nat} {t : Str} {a : Raw} (hscan : Raw.scan t = some a) (hp : isPortable a = true)
    (hu : isUnique a ≠ true) : documentBytes limit t = none ∧ Json.documentBytes t = none := by
  have hts : a.read typescript = none := Option.eq_none_iff_forall_not_mem.mpr fun v hv => hu (isUnique_of_typescript hp hv)
  have hpy : a.read Raw.python = none := Option.eq_none_iff_forall_not_mem.mpr fun v hv => hu (isUnique_of_python hp hv)
  constructor
  · rw [documentBytes, strictJsonLoads, hscan, Option.bind_some, hts, Option.bind_none]
    split_ifs <;> rfl
  · rw [Json.documentBytes, strictTextLoads?, Raw.parse?_eq, hscan, Option.bind_some, hpy]
    rfl

theorem utf8?_inj {s t : Str} {b : Bytes} (hs : s.utf8? = some b) (ht : t.utf8? = some b) : s = t :=
  Option.some.inj ((Str.decodeUtf8?_utf8 hs).symm.trans (Str.decodeUtf8?_utf8 ht))

theorem isPortableText_of {t : Str} (hscalar : t.all Str.isScalar = true)
    (h : ((Raw.scan t).any fun a => match a with | .obj f => isPortable (.obj f) | _ => false) = true) : IsPortableText t := by
  refine ⟨hscalar, ?_⟩
  cases hscan : Raw.scan t with
  | none =>
    rw [hscan] at h
    cases h
  | some a =>
    rw [hscan, Option.any_some] at h
    split at h
    · next f => exact ⟨f, rfl, h⟩
    · cases h

end LeanCtx.TypeScript
