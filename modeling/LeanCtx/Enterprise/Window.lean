import LeanCtx.Enterprise.NormalForm
import LeanCtx.Workspace.Calendar

/-! The validity window of a descriptor. The pattern of a timestamp takes the digits of every script, and the order of the two texts is
    that of their code points: it is the order of instants only where every digit is an ASCII digit. -/

namespace LeanCtx

namespace Unicode

theorem decimal?_of_isDigit {c : Nat} (h : isDigit c = true) : decimal? c = some (c - 48) := by
  simp only [isDigit, Bool.and_eq_true, decide_eq_true_eq] at h
  rw [decimal?, decimalZeros, List.find?_cons_of_pos (by simpa using ⟨h.1, by omega⟩)]
  rfl

/-- Below the other scripts, the digits are those of ASCII. -/
theorem isDigit_of_decimal? {c : Nat} (h : (decimal? c).isSome = true) (hc : c < 128) : isDigit c = true := by
  rw [decimal?, Option.isSome_map, List.find?_isSome] at h
  obtain ⟨z, hz, hrange⟩ := h
  have hscripts : ∀ z ∈ decimalZeros, z = 48 ∨ 128 ≤ z := by decide
  simp only [Bool.and_eq_true, decide_eq_true_eq] at hrange
  simp only [isDigit, Bool.and_eq_true, decide_eq_true_eq]
  rcases hscripts z hz with rfl | hz
  · omega
  · omega

end Unicode

namespace Planning
open Json

/-- The digits of the text are all ASCII digits. -/
def AsciiDigits (s : Str) : Prop := ∀ c ∈ s, (Unicode.decimal? c).isSome = true → isDigit c = true

/-- The text is the canonical one of a date and a time that exist. -/
structure Spells (s : Str) (t : DateTime) : Prop where
  ascii : ∀ c ∈ s, c < 128
  text : s = t.canonicalText
  whole : t.microsecond = 0

theorem Spells.asciiDigits {s : Str} {t : DateTime} (h : Spells s t) : AsciiDigits s :=
  fun c hc hsome => Unicode.isDigit_of_decimal? hsome (h.ascii c hc)

/-- Two digits, as the pattern reads them. -/
theorem isDigit_two {x y n : Nat} (h : ∃ a, Unicode.decimal? x = some a ∧ ∃ b, Unicode.decimal? y = some b ∧ a * 10 + b = n)
    (hascii : AsciiDigits [x, y]) : isDigit x = true ∧ isDigit y = true ∧ n = (x - 48) * 10 + (y - 48) := by
  obtain ⟨a, ha, b, hb, rfl⟩ := h
  have hx : isDigit x = true := hascii x (by simp) (by rw [ha]; rfl)
  have hy : isDigit y = true := hascii y (by simp) (by rw [hb]; rfl)
  rw [Unicode.decimal?_of_isDigit hx] at ha
  rw [Unicode.decimal?_of_isDigit hy] at hb
  cases ha
  cases hb
  exact ⟨hx, hy, rfl⟩

theorem paddedText_two {x y : Nat} (hx : isDigit x = true) (hy : isDigit y = true) :
    paddedText 2 ((x - 48) * 10 + (y - 48)) = [x, y] := by
  have hvalue : decimalValue [x, y] = (x - 48) * 10 + (y - 48) := by simp [decimalValue, ofDigits]
  rw [← hvalue]
  exact paddedText_decimalValue (s := [x, y]) (by simp [hx, hy]) (by simp)

theorem paddedText_four {x y z w : Nat} (hx : isDigit x = true) (hy : isDigit y = true) (hz : isDigit z = true) (hw : isDigit w = true) :
    paddedText 4 (((x - 48) * 10 + (y - 48)) * 100 + ((z - 48) * 10 + (w - 48))) = [x, y, z, w] := by
  have hvalue : decimalValue [x, y, z, w] = ((x - 48) * 10 + (y - 48)) * 100 + ((z - 48) * 10 + (w - 48)) := by
    simp only [decimalValue, ofDigits, List.map_cons, List.map_nil, List.foldl_cons, List.foldl_nil]
    omega
  rw [← hvalue]
  exact paddedText_decimalValue (s := [x, y, z, w]) (by simp [hx, hy, hz, hw]) (by simp)

/-- A timestamp whose digits are ASCII digits is canonical. -/
theorem exists_spells {s : Str} (h : isTimestamp s = true) (hascii : AsciiDigits s) : ∃ t, Spells s t := by
  rw [isTimestamp, Bool.and_eq_true] at h
  obtain ⟨p, hp, hmoment⟩ := (Option.any_eq_true _ _).mp h.2
  clear h
  unfold scanParts at hp
  split at hp
  · next a b c d e f g h i j k l m n =>
    simp only [Option.bind_eq_bind, Option.bind_eq_some_iff, Option.pure_def, Option.some.injEq] at hp
    obtain ⟨_, hab, _, hcd, _, hef, _, hgh, _, hij, _, hkl, _, hmn, rfl⟩ := hp
    have hsub : ∀ {x y : Nat}, x ∈ [a, b, c, d, 45, e, f, 45, g, h, 84, i, j, 58, k, l, 58, m, n, 90] →
        y ∈ [a, b, c, d, 45, e, f, 45, g, h, 84, i, j, 58, k, l, 58, m, n, 90] → AsciiDigits [x, y] := fun hx hy =>
      List.forall_mem_cons.mpr ⟨hascii _ hx, List.forall_mem_singleton.mpr (hascii _ hy)⟩
    obtain ⟨ha, hb, rfl⟩ := isDigit_two hab (hsub (by simp) (by simp))
    obtain ⟨hc, hd, rfl⟩ := isDigit_two hcd (hsub (by simp) (by simp))
    obtain ⟨he, hf, rfl⟩ := isDigit_two hef (hsub (by simp) (by simp))
    obtain ⟨hg, hh, rfl⟩ := isDigit_two hgh (hsub (by simp) (by simp))
    obtain ⟨hi, hj, rfl⟩ := isDigit_two hij (hsub (by simp) (by simp))
    obtain ⟨hk, hl, rfl⟩ := isDigit_two hkl (hsub (by simp) (by simp))
    obtain ⟨hm, hn, rfl⟩ := isDigit_two hmn (hsub (by simp) (by simp))
    obtain ⟨t, ht⟩ := Option.isSome_iff_exists.mp hmoment
    unfold DateTime.make at ht
    split_ifs at ht
    have ht := Option.some.inj ht
    refine ⟨t, ?_, ?_, by rw [← ht]⟩
    · have hlt : ∀ {x : Nat}, isDigit x = true → x < 128 := fun hx => by
        simp only [isDigit, Bool.and_eq_true, decide_eq_true_eq] at hx
        omega
      simp only [List.mem_cons, List.not_mem_nil, or_false, forall_eq_or_imp, forall_eq]
      exact ⟨hlt ha, hlt hb, hlt hc, hlt hd, by decide, hlt he, hlt hf, by decide, hlt hg, hlt hh, by decide, hlt hi, hlt hj, by decide,
        hlt hk, hlt hl, by decide, hlt hm, hlt hn, by decide⟩
    · rw [← ht, DateTime.canonicalText, paddedText_four ha hb hc hd, paddedText_two he hf, paddedText_two hg hh, paddedText_two hi hj,
        paddedText_two hk hl, paddedText_two hm hn]
      rfl
  · cases hp

/-! ### Descriptors -/

namespace Descriptor

/-- The window of a descriptor is one of real instants: the texts are canonical, and the end is after the beginning. -/
structure Window (d : Descriptor) : Prop where
  observed : ∀ a ∈ d.observedAt, ∃ t, Spells a.1 t
  ended : ∀ b ∈ d.validUntil, ∃ u, Spells b.1 u
  later : ∀ a ∈ d.observedAt, ∀ b ∈ d.validUntil, ∃ t u, Spells a.1 t ∧ Spells b.1 u ∧ t.seconds < u.seconds

/-- The texts of the window, as they are given, have no digits but those of ASCII. -/
def AsciiWindow (v : Json) : Prop := ∀ k ∈ ["observed_at", "valid_until"], ∀ s, v.get? k = some (.str s) → AsciiDigits s

theorem optional_timestamp {v : Json} {name key : String} {o : Option Timestamp} (h : optional (timestamp · name) v key = .ok o) {s : Str} :
    v.get? key = some (.str s) ↔ ∃ a ∈ o, a.1 = s := by
  unfold optional at h
  split at h
  · next hget =>
    cases h
    simp [hget]
  · next hget =>
    cases h
    simp [hget]
  · next w _ hget =>
    simp only [Functor.map, Except.map] at h
    split at h
    · cases h
    · next a ha =>
      cases h
      rw [hget, timestamp_eq_ok.mp ha]
      simp [Timestamp.json]

theorem asciiWindow_iff {v : Json} {name : String} {d : Descriptor} (h : parse v name = .ok d) :
    AsciiWindow v ↔ (∀ a ∈ d.observedAt, AsciiDigits a.1) ∧ ∀ b ∈ d.validUntil, AsciiDigits b.1 := by
  simp only [parse, mapping, bind_eq_ok, ensure_eq_ok, exists_const, Except.ok.injEq] at h
  obtain ⟨-, -, -, _, -, _, -, _, -, _, -, _, -, _, -, observed, hobserved, ended, hended, _, -, _, -, -, rfl⟩ := h
  simp only [AsciiWindow, List.mem_cons, List.not_mem_nil, or_false, forall_eq_or_imp, forall_eq, optional_timestamp hobserved,
    optional_timestamp hended]
  constructor
  · rintro ⟨ho, he⟩
    exact ⟨fun a ha => ho a.1 ⟨a, ha, rfl⟩, fun b hb => he b.1 ⟨b, hb, rfl⟩⟩
  · rintro ⟨ho, he⟩
    constructor
    · rintro s ⟨a, ha, rfl⟩
      exact ho a ha
    · rintro s ⟨b, hb, rfl⟩
      exact he b hb

/-- The window of an accepted descriptor is real exactly when its texts have no digits but those of ASCII. -/
theorem window_iff {v : Json} {name : String} {d : Descriptor} (h : parse v name = .ok d) : d.Window ↔ AsciiWindow v := by
  rw [asciiWindow_iff h]
  constructor
  · rintro ⟨hobserved, hended, -⟩
    refine ⟨fun a ha => ?_, fun b hb => ?_⟩
    · obtain ⟨t, ht⟩ := hobserved a ha
      exact ht.asciiDigits
    · obtain ⟨u, hu⟩ := hended b hb
      exact hu.asciiDigits
  · rintro ⟨hobserved, hended⟩
    refine ⟨fun a ha => exists_spells a.2 (hobserved a ha), fun b hb => exists_spells b.2 (hended b hb), fun a ha b hb => ?_⟩
    obtain ⟨t, ht⟩ := exists_spells a.2 (hobserved a ha)
    obtain ⟨u, hu⟩ := exists_spells b.2 (hended b hb)
    have hlt : a.1 < b.1 := ordered_of_parse h a ha b hb
    rw [ht.text, hu.text] at hlt
    exact ⟨t, u, ht, hu, DateTime.seconds_lt_of_canonicalText ht.whole hu.whole hlt⟩

end Descriptor

/-! ### A window that is real, and one that is not -/

namespace WindowSample

def observed : Timestamp := ⟨"2026-01-01T00:00:00Z", by decide +kernel⟩

def ended : Timestamp := ⟨"2027-01-01T00:00:00Z", by decide +kernel⟩

/-- The year 2000 in the digits of the Arabic script. -/
def arabic : Timestamp := ⟨[1634, 1632, 1632, 1632] ++ Str.lit "-01-01T00:00:00Z", by decide +kernel⟩

def descriptor (validUntil : Timestamp) : Descriptor where
  objectRef := ⟨"r", by decide +kernel⟩
  sourceId := ⟨"s", by decide +kernel⟩
  sourceType := .other
  contentDigest := digestOf []
  revision := none
  owner := none
  observedAt := some observed
  validUntil := some validUntil
  permission := .unknown
  classification := none

theorem parse_descriptor {validUntil : Timestamp} (h : observed.1 < validUntil.1) :
    Descriptor.parse (descriptor validUntil).toDict "descriptor" = .ok (descriptor validUntil) :=
  Descriptor.parse_toDict (fun a ha b hb => by cases ha; cases hb; exact h) _

theorem parse_ended : Descriptor.parse (descriptor ended).toDict "descriptor" = .ok (descriptor ended) := parse_descriptor (by decide)

theorem parse_arabic : Descriptor.parse (descriptor arabic).toDict "descriptor" = .ok (descriptor arabic) := parse_descriptor (by decide)

theorem asciiWindow_ended : Descriptor.AsciiWindow (descriptor ended).toDict := by
  rw [Descriptor.asciiWindow_iff parse_ended]
  refine ⟨fun a ha => ?_, fun b hb => ?_⟩
  · cases ha
    unfold AsciiDigits
    decide
  · cases hb
    unfold AsciiDigits
    decide

end WindowSample

theorem Descriptor.window_ended : (WindowSample.descriptor WindowSample.ended).Window :=
  (Descriptor.window_iff WindowSample.parse_ended).mpr WindowSample.asciiWindow_ended

/-- A descriptor is accepted that ends, in Arabic digits, 26 years before it is observed. -/
theorem Descriptor.not_window_arabic : Descriptor.parse (WindowSample.descriptor WindowSample.arabic).toDict "descriptor" =
      .ok (WindowSample.descriptor WindowSample.arabic) ∧
    ¬(WindowSample.descriptor WindowSample.arabic).Window := by
  refine ⟨WindowSample.parse_arabic, fun h => ?_⟩
  obtain ⟨u, hu⟩ := h.ended WindowSample.arabic rfl
  exact absurd (hu.ascii 1634 (by decide)) (by decide)

end Planning
end LeanCtx
