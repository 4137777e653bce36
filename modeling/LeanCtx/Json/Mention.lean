import LeanCtx.Machine.Blocks
import LeanCtx.Json.Lexeme

/-! Where a word stands in a canonical text. A word of letters, digits and underscores that no escape begins with stands in the
    bytes of a value exactly where it stands in one of its keys or strings. -/

namespace LeanCtx.Json

mutual
/-- A key or a string of a value holds the word. -/
def Mentions (s : Str) : Json → Prop
  | .str t => s <:+: t
  | .arr l => MentionsItem s l
  | .obj f => MentionsField s f
  | .null => False
  | .bool _ => False
  | .int _ => False
  | .float _ => False

def MentionsItem (s : Str) : List Json → Prop
  | [] => False
  | v :: l => Mentions s v ∨ MentionsItem s l

def MentionsField (s : Str) : List (Str × Json) → Prop
  | [] => False
  | (k, v) :: f => (s <:+: k ∨ Mentions s v) ∨ MentionsField s f
end

theorem mentions_arr_iff {s : Str} {l : List Json} : Mentions s (.arr l) ↔ ∃ v ∈ l, Mentions s v := by
  rw [Mentions]
  induction l with
  | nil => simp [MentionsItem]
  | cons v l ih => rw [MentionsItem, ih, List.exists_mem_cons_iff]

theorem mentions_obj_iff {s : Str} {f : List (Str × Json)} : Mentions s (.obj f) ↔ ∃ p ∈ f, s <:+: p.1 ∨ Mentions s p.2 := by
  rw [Mentions]
  induction f with
  | nil => simp [MentionsField]
  | cons p f ih => rw [MentionsField, ih, List.exists_mem_cons_iff]

theorem mentions_mkObj_iff {s : Str} {f : List (String × Json)} (h : (f.map (·.1)).Nodup) :
    Mentions s (mkObj f) ↔ ∃ p ∈ f, s <:+: Str.lit p.1 ∨ Mentions s p.2 := by
  have hkeys : ((f.map fun p => (Str.lit p.1, p.2)).map (·.1)).Nodup := by
    have hlit := h.map Str.lit_injective
    rwa [List.map_map] at hlit ⊢
  rw [mkObj, mentions_obj_iff]
  constructor
  · rintro ⟨p, hp, hs⟩
    obtain ⟨q, hq, rfl⟩ := List.mem_map.mp ((perm_sortFields hkeys).mem_iff.mp hp)
    exact ⟨q, hq, hs⟩
  · rintro ⟨q, hq, hs⟩
    exact ⟨_, (perm_sortFields hkeys).mem_iff.mpr (List.mem_map_of_mem hq), hs⟩

theorem mentions_plain_mkObj_iff {s : Str} {f : List (String × Json)} (h : (f.map (·.1)).Nodup) :
    Mentions s (mkObj f).plain ↔ ∃ p ∈ f, s <:+: Str.lit p.1 ∨ Mentions s p.2.plain := by
  have hkeys : ((f.map fun p => (p.1, p.2.plain)).map (·.1)).Nodup := by rwa [List.map_map]
  rw [plain_mkObj, mentions_mkObj_iff hkeys]
  simp only [List.mem_map, exists_exists_and_eq_and]

/-! ### Words -/

/-- A lowercase letter, a digit or an underscore. -/
def IsWord (c : Nat) : Prop := c = 95 ∨ isDigit c = true ∨ (97 ≤ c ∧ c ≤ 122)

/-- A word that is no numeral and no keyword, and the first letter of which is not in an escape. -/
structure IsToken (s : Str) : Prop where
  word : ∀ c ∈ s, IsWord c
  mark : 95 ∈ s
  first : s.head? = some 108

theorem IsToken.ne_nil {s : Str} (h : IsToken s) : s ≠ [] := by
  rintro rfl
  cases h.mark

theorem IsToken.not_mem {s : Str} (h : IsToken s) {c : Nat} (hc : ¬IsWord c) : c ∉ s := fun hmem => hc (h.word c hmem)

theorem escape_word {c : Nat} (h : IsWord c) : escape c = [c] := by
  unfold IsWord isDigit at h
  simp only [Bool.and_eq_true, decide_eq_true_eq] at h
  unfold escape
  split_ifs <;> first | omega | rfl

theorem escape_ne_nil (c : Nat) : escape c ≠ [] := by
  unfold escape
  split_ifs <;> exact List.cons_ne_nil _ _

/-- Another character that is escaped is written with a backslash and without the letter that words begin with. -/
theorem escape_other {c : Nat} (h : escape c ≠ [c]) : (escape c).head? = some 92 ∧ 108 ∉ escape c := by
  unfold escape at h ⊢
  split_ifs at h ⊢ with h1 h2 h3 h4 h5 h6 h7 h8
  · simp
  · simp
  · simp
  · simp
  · simp
  · simp
  · simp
  · have hhex : ∀ n < 16, hexDigit n ≠ 108 := by decide
    refine ⟨rfl, ?_⟩
    simp only [List.mem_cons, List.not_mem_nil, or_false, not_or]
    exact ⟨by decide, by decide, by decide, by decide, (hhex _ (by omega)).symm, (hhex _ (by omega)).symm⟩
  · exact absurd rfl h

theorem IsToken.plain_escape {s : Str} (h : IsToken s) (t : Str) : Blocks.Plain escape id s t where
  nonempty := fun b _ => escape_ne_nil b
  single := fun a ha => escape_word (h.word a ha)
  own := by
    intro a ha b _ hb
    by_cases hself : escape b = [b]
    · rw [hself] at hb
      exact Option.some.inj hb
    · rw [(escape_other hself).1] at hb
      obtain rfl : 92 = a := Option.some.inj hb
      exact absurd (h.word 92 ha) (by unfold IsWord; decide)

theorem IsToken.isInfix_quote {s : Str} (h : IsToken s) {t : Str} : s <:+: quote t ↔ s <:+: t := by
  have h34 : (34 : Nat) ∉ s := h.not_mem (by unfold IsWord; decide)
  have hempty : ¬s <:+: [] := fun hin => h.ne_nil (List.infix_nil.mp hin)
  have hfirst : ∀ a ∈ s.head?, ∀ b ∈ t, id a ∈ escape b → b = a := by
    intro a ha b _ hb
    obtain rfl : a = 108 := Option.some.inj (ha.symm.trans h.first)
    by_cases hself : escape b = [b]
    · rw [hself, List.mem_singleton] at hb
      exact hb.symm
    · exact absurd hb (escape_other hself).2
  have hblocks := (h.plain_escape t).isInfix_iff h.ne_nil hfirst
  rw [List.map_id] at hblocks
  rw [quote, ← hblocks]
  change s <:+: [] ++ 34 :: (t.flatMap escape ++ 34 :: []) ↔ _
  rw [Blocks.isInfix_append_cons h34, Blocks.isInfix_append_cons h34]
  simp [hempty]

/-! ### Texts -/

theorem IsToken.not_isInfix {s t : Str} (h : IsToken s) (ht : 95 ∉ t) : ¬s <:+: t := fun hin => ht (hin.subset h.mark)

theorem not_mem_literal {t : Str} {l : PyFloat.Literal} (h : PyFloat.scanLiteral t = some (l, [])) : 95 ∉ t := fun hmem =>
  absurd (numeral_scanLiteral h 95 hmem) (by unfold IsNumeral; decide)

theorem IsToken.isInfix_joinComma {s : Str} (h : IsToken s) {ts : List Str} : s <:+: joinComma ts ↔ ∃ t ∈ ts, s <:+: t := by
  have h44 : (44 : Nat) ∉ s := h.not_mem (by unfold IsWord; decide)
  induction ts with
  | nil => simpa [joinComma] using h.ne_nil
  | cons t ts ih =>
    cases ts with
    | nil => simp [joinComma]
    | cons u ts =>
      rw [joinComma, Blocks.isInfix_append_cons h44, List.exists_mem_cons_iff]
      exact or_congr Iff.rfl ih

/-- The text between two brackets. -/
theorem IsToken.isInfix_bracketed {s : Str} (h : IsToken s) {a b : Nat} (ha : ¬IsWord a) (hb : ¬IsWord b) {t : Str} :
    s <:+: a :: t ++ [b] ↔ s <:+: t := by
  have hempty : ¬s <:+: [] := fun hin => h.ne_nil (List.infix_nil.mp hin)
  change s <:+: [] ++ a :: (t ++ b :: []) ↔ _
  rw [Blocks.isInfix_append_cons (h.not_mem ha), Blocks.isInfix_append_cons (h.not_mem hb)]
  simp [hempty]

theorem exists_item {s : Str} {l : List Json} (ih : ∀ v ∈ l, ∀ {t}, v.text? = some t → (s <:+: t ↔ Mentions s v))
    {ts : List Str} (h : itemTexts? l = some ts) : (∃ t ∈ ts, s <:+: t) ↔ ∃ v ∈ l, Mentions s v := by
  induction l generalizing ts with
  | nil =>
    cases h
    simp
  | cons v l ihl =>
    obtain ⟨t, ht, h⟩ := Option.bind_eq_some_iff.mp h
    obtain ⟨us, hus, rfl⟩ := Option.map_eq_some_iff.mp h
    rw [List.exists_mem_cons_iff, List.exists_mem_cons_iff]
    exact or_congr (ih v List.mem_cons_self ht) (ihl (fun w hw => ih w (List.mem_cons_of_mem _ hw)) hus)

theorem IsToken.exists_field {s : Str} (hs : IsToken s) {f : List (Str × Json)}
    (ih : ∀ p ∈ f, ∀ {t}, p.2.text? = some t → (s <:+: t ↔ Mentions s p.2)) {ts : List Str} (h : fieldTexts? f = some ts) :
    (∃ t ∈ ts, s <:+: t) ↔ ∃ p ∈ f, s <:+: p.1 ∨ Mentions s p.2 := by
  have h58 : (58 : Nat) ∉ s := hs.not_mem (by unfold IsWord; decide)
  induction f generalizing ts with
  | nil =>
    cases h
    simp
  | cons p f ihf =>
    obtain ⟨k, v⟩ := p
    obtain ⟨t, ht, h⟩ := Option.bind_eq_some_iff.mp h
    obtain ⟨us, hus, rfl⟩ := Option.map_eq_some_iff.mp h
    rw [List.exists_mem_cons_iff, List.exists_mem_cons_iff, Blocks.isInfix_append_cons h58, hs.isInfix_quote]
    exact or_congr (or_congr Iff.rfl (ih (k, v) List.mem_cons_self ht)) (ihf (fun q hq => ih q (List.mem_cons_of_mem _ hq)) hus)

/-- A word stands in the text of a value where a key or a string of the value holds it. -/
theorem IsToken.isInfix_text {s : Str} (hs : IsToken s) (v : Json) : ∀ {t : Str}, v.text? = some t → (s <:+: t ↔ Mentions s v) := by
  have hbracket : ∀ c ∈ [91, 93, 123, 125], ¬IsWord c := by
    unfold IsWord
    decide
  induction v using induct with
  | null =>
    rintro t ⟨⟩
    exact iff_of_false (hs.not_isInfix (by decide)) id
  | bool b =>
    rintro t ⟨⟩
    exact iff_of_false (hs.not_isInfix (by cases b <;> decide)) id
  | int n =>
    intro t h
    unfold text? at h
    split_ifs at h
    cases h
    have hscan := scanLiteral_intText stops_nil n
    rw [List.append_nil] at hscan
    exact iff_of_false (hs.not_isInfix (not_mem_literal hscan)) id
  | float x =>
    intro t h
    obtain ⟨l, hl, -, -⟩ := reads_of_repr h
    exact iff_of_false (hs.not_isInfix (not_mem_literal hl)) id
  | str u =>
    rintro t ⟨⟩
    exact hs.isInfix_quote
  | arr l ih =>
    intro t h
    obtain ⟨ts, hts, rfl⟩ := Option.map_eq_some_iff.mp h
    rw [hs.isInfix_bracketed (hbracket _ (by simp)) (hbracket _ (by simp)), hs.isInfix_joinComma, exists_item ih hts,
      mentions_arr_iff]
  | obj f ih =>
    intro t h
    obtain ⟨ts, hts, rfl⟩ := Option.map_eq_some_iff.mp h
    rw [hs.isInfix_bracketed (hbracket _ (by simp)) (hbracket _ (by simp)), hs.isInfix_joinComma, hs.exists_field ih hts,
      mentions_obj_iff]

/-! ### Bytes -/

/-- The bytes of a word. -/
def wordBytes (s : Str) : Bytes := s.map UInt8.ofNat

theorem encodePoint_of_lt {c : Nat} (h : c < 128) : Str.encodePoint c = [UInt8.ofNat c] := by rw [Str.encodePoint, if_pos h]

theorem encodePoint_tail {c : Nat} (h : 128 ≤ c) (hc : Str.isScalar c = true) : ∀ b ∈ Str.encodePoint c, 128 ≤ b.toNat := by
  have hmax : c < 0x110000 := by
    simp only [Str.isScalar, Bool.or_eq_true, Bool.and_eq_true, decide_eq_true_eq] at hc
    omega
  intro b hb
  unfold Str.encodePoint at hb
  split_ifs at hb <;>
  · simp only [List.mem_cons, List.not_mem_nil, or_false] at hb
    rcases hb with rfl | rfl | rfl | rfl <;> simp only [UInt8.toNat_ofNat'] <;> omega

theorem encodePoint_ne_nil (c : Nat) : Str.encodePoint c ≠ [] := by
  unfold Str.encodePoint
  split_ifs <;> exact List.cons_ne_nil _ _

theorem eq_of_mem_encodePoint {a c : Nat} (ha : a < 128) (hc : Str.isScalar c = true) (h : UInt8.ofNat a ∈ Str.encodePoint c) :
    c = a := by
  have hbyte : ∀ {n : Nat}, n < 128 → (UInt8.ofNat n).toNat = n := fun hn => Str.toNat_ofNat_lt (by omega)
  by_cases hlt : c < 128
  · rw [Str.encodePoint, if_pos hlt, List.mem_singleton] at h
    have hnat := congrArg UInt8.toNat h
    rw [hbyte ha, hbyte hlt] at hnat
    exact hnat.symm
  · have htail := encodePoint_tail (by omega) hc _ h
    rw [hbyte ha] at htail
    omega

/-- A word stands in the bytes of a text where it stands in the text. -/
theorem IsToken.isInfix_bytes {s t : Str} (hs : IsToken s) (ht : t.all Str.isScalar = true) :
    wordBytes s <:+: t.flatMap Str.encodePoint ↔ s <:+: t := by
  rw [List.all_eq_true] at ht
  have hlt : ∀ a ∈ s, a < 128 := by
    intro a ha
    have hword := hs.word a ha
    unfold IsWord isDigit at hword
    simp only [Bool.and_eq_true, decide_eq_true_eq] at hword
    omega
  have hplain : Blocks.Plain Str.encodePoint UInt8.ofNat s t :=
    ⟨fun b _ => encodePoint_ne_nil b, fun a ha => encodePoint_of_lt (hlt a ha),
      fun a ha b hb hhead => eq_of_mem_encodePoint (hlt a ha) (ht b hb) (List.mem_of_mem_head? hhead)⟩
  exact hplain.isInfix_iff hs.ne_nil fun a ha b hb hmem =>
    eq_of_mem_encodePoint (hlt a (List.mem_of_mem_head? ha)) (ht b hb) hmem

/-- A word stands in the canonical bytes of a value where a key or a string holds it. -/
theorem IsToken.isInfix_canonical {s : Str} (hs : IsToken s) {v : Json} {b : Bytes} (h : canonicalBytes? v = some b) :
    wordBytes s <:+: b ↔ Mentions s v.plain := by
  obtain ⟨t, ht, hb⟩ := Option.bind_eq_some_iff.mp h
  unfold Str.utf8? at hb
  split_ifs at hb with hscalar
  cases hb
  rw [hs.isInfix_bytes hscalar, hs.isInfix_text _ ht]

end LeanCtx.Json
