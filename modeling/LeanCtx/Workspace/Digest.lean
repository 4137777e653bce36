import LeanCtx.Workspace.Field
import LeanCtx.Json.Writable

/-! Digests of JSON values: SHA-256 of the canonical bytes, with a domain line before them or without. -/

namespace LeanCtx

/-- `_canonical(value)`. -/
def canonical (v : Json) : Except Err Bytes :=
  match v.canonicalBytes? with
  | some b => .ok b
  | none => .error (.validation "workspace value is not canonical JSON")

/-- `_canonical(value)` of the parallel-context records. -/
def parallelCanonical (v : Json) : Except Err Bytes :=
  catching (canonical v) fun _ => .validation "parallel-context value is not canonical JSON"

/-- `_digest(value)`. -/
def digest (v : Json) : Except Err Digest := digestOf <$> canonical v

/-- The bytes hashed for a value in a domain. -/
def domainBytes (domain : String) (b : Bytes) : Bytes := (Str.lit domain).flatMap Str.encodePoint ++ 10 :: b

/-- `_domain_digest(domain, value)`. -/
def domainDigest (domain : String) (v : Json) : Except Err Digest :=
  (fun b => digestOf (domainBytes domain b)) <$> canonical v

/-- `_digest(domain, value)` of the parallel-context records. -/
def parallelDigest (domain : String) (v : Json) : Except Err Digest :=
  (fun b => digestOf (domainBytes domain b)) <$> parallelCanonical v

theorem canonical_eq_ok {v : Json} {b : Bytes} : canonical v = .ok b ↔ v.canonicalBytes? = some b := by
  unfold canonical
  cases v.canonicalBytes? <;> simp

theorem canonical_of_writable {v : Json} (h : v.Writable) : ∃ b, canonical v = .ok b := by
  obtain ⟨b, hb⟩ := h
  exact ⟨b, canonical_eq_ok.mpr hb⟩

theorem digest_eq_ok {v : Json} {d : Digest} :
    digest v = .ok d ↔ ∃ b, v.canonicalBytes? = some b ∧ digestOf b = d := by
  unfold digest canonical
  cases v.canonicalBytes? <;> simp

theorem domainDigest_eq_ok {domain : String} {v : Json} {d : Digest} :
    domainDigest domain v = .ok d ↔ ∃ b, v.canonicalBytes? = some b ∧ digestOf (domainBytes domain b) = d := by
  unfold domainDigest canonical
  cases v.canonicalBytes? <;> simp

theorem parallelDigest_eq_ok {domain : String} {v : Json} {d : Digest} :
    parallelDigest domain v = .ok d ↔ domainDigest domain v = .ok d := by
  rw [domainDigest_eq_ok]
  unfold parallelDigest parallelCanonical canonical
  cases v.canonicalBytes? <;> simp [catching]

theorem digest_of_writable {v : Json} (h : v.Writable) : ∃ d, digest v = .ok d := by
  obtain ⟨b, hb⟩ := h
  exact ⟨_, digest_eq_ok.mpr ⟨b, hb, rfl⟩⟩

theorem domainDigest_of_writable (domain : String) {v : Json} (h : v.Writable) :
    ∃ d, domainDigest domain v = .ok d := by
  obtain ⟨b, hb⟩ := h
  exact ⟨_, domainDigest_eq_ok.mpr ⟨b, hb, rfl⟩⟩

theorem canonical_plain (v : Json) : canonical v.plain = canonical v := by simp [canonical]

theorem digest_plain (v : Json) : digest v.plain = digest v := by simp [digest, canonical_plain]

/-! ### Fields are writable -/

section
open Json

theorem isScalar_of_isText {max : Nat} {s : Str} (h : isText max s = true) : s.all Str.isScalar = true := by
  simp only [isText, Bool.and_eq_true] at h
  exact h.1.1.1

theorem writable_text {max : Nat} (t : Text max) : Writable t.json := writable_str (isScalar_of_isText t.2)

theorem writable_ref {max : Nat} (r : Ref max) : Writable r.json :=
  writable_str (isScalar_of_isText (Bool.and_eq_true_iff.mp r.2).1)

theorem writable_task {max : Nat} (t : Task max) : Writable t.json := by
  have h := t.2
  simp only [isTask, Bool.and_eq_true] at h
  exact writable_str h.1.1.1

theorem isScalar_of_isHex {c : Nat} (h : Sha256.isHex c = true) : Str.isScalar c = true := by
  simp only [Sha256.isHex, Bool.or_eq_true, Bool.and_eq_true, decide_eq_true_eq] at h
  exact isScalar_of_lt (by omega)

theorem writable_digest (d : Digest) : Writable d.json := by
  obtain ⟨s, hs⟩ := d
  simp only [isDigest, Bool.and_eq_true, decide_eq_true_eq, lit_sha256] at hs
  obtain ⟨⟨⟨t, rfl⟩, -⟩, hhex⟩ := hs
  refine writable_str ?_
  rw [List.all_append, Bool.and_eq_true]
  exact ⟨by decide, List.all_eq_true.mpr fun c hc => isScalar_of_isHex (List.all_eq_true.mp hhex c (by simpa using hc))⟩

theorem isRef_of_ascii {max : Nat} {s : Str} (h : ∀ c ∈ s, 32 ≤ c ∧ c ≤ 126) (hne : s ≠ []) (hlength : s.length ≤ max) :
    isRef max s = true := by
  have hpoints : s.map Str.pointLength = s.map fun _ => 1 := List.map_congr_left fun c hc => if_pos (by
    have := h c hc
    omega)
  have hutf8 : Str.utf8Length s = s.length := by
    rw [Str.utf8Length, hpoints, List.map_const', List.sum_replicate, smul_eq_mul, Nat.mul_one]
  have hscalar : s.all Str.isScalar = true := List.all_eq_true.mpr fun c hc => isScalar_of_lt (by
    have := h c hc
    omega)
  have hempty : s.isEmpty = false := by simpa using hne
  have hcontrol : s.all (32 ≤ ·) = true := List.all_eq_true.mpr fun c hc => by simpa using (h c hc).1
  have hprint : (s.all fun c => 32 ≤ c && c ≤ 126) = true := List.all_eq_true.mpr fun c hc => by simpa using h c hc
  rw [isRef, isText, hscalar, hempty, hutf8, hcontrol, hprint]
  simpa using hlength

theorem isScalar_of_isUuid {s : Str} (h : isUuid s = true) : s.all Str.isScalar = true := by
  simp only [isUuid, Bool.and_eq_true, List.all_eq_true] at h
  rw [List.all_eq_true]
  intro c hc
  obtain ⟨i, hi, rfl⟩ := List.mem_iff_getElem.mp hc
  have hchar := h.2 (s[i], i) (List.mem_zipIdx_iff_getElem?.mpr (List.getElem?_eq_getElem hi))
  simp only at hchar
  split_ifs at hchar
  · rw [beq_iff_eq.mp hchar]
    decide
  · exact isScalar_of_isHex hchar

theorem writable_uuid (u : Uuid) : Writable u.json := writable_str (isScalar_of_isUuid u.2)

theorem writable_lit (s : String) : Writable (.str s) := writable_str (isScalar_lit s)

theorem writable_optional {α : Type} {f : α → Json} (h : ∀ a, Writable (f a)) (o : Option α) :
    Writable (optional f o) := by
  cases o with
  | none => exact writable_null
  | some a => exact h a

theorem writable_map {α : Type} {f : α → Json} (h : ∀ a, Writable (f a)) (l : List α) : Writable (.arr (l.map f)) := by
  refine writable_arr fun v hv => ?_
  obtain ⟨a, -, rfl⟩ := List.mem_map.mp hv
  exact h a

end

end LeanCtx
