import LeanCtx.Workspace.Field
import LeanCtx.Python.Regex

/-! The secrets that a workspace refuses to store: private keys, access keys and tokens of known shapes, bearer
    headers and assignments to telling names. -/

namespace LeanCtx
open Regex Unicode

/-! ### Patterns -/

def upperOrDigit (c : Nat) : Bool := (65 ≤ c && c ≤ 90) || (48 ≤ c && c ≤ 57)

def letterOrDigit (c : Nat) : Bool := upperOrDigit c || (97 ≤ c && c ≤ 122)

def tokenChar (c : Nat) : Bool := letterOrDigit c || c == 95 || c == 45

/-- A character class without regard to case. -/
def anyCase (p : Nat → Bool) (c : Nat) : Bool := p (fold c)

/-- `_PEM_RE`. -/
def pemRe : Regex :=
  seq (literal "-----BEGIN") (seq (star (seq (literal " ") (plus (one upperOrDigit)))) (literal " PRIVATE KEY-----"))

/-- `_AWS_RE`. -/
def awsRe : Regex := seq boundary (seq (literal "AKIA") (seq (times (one upperOrDigit) 16) boundary))

/-- `_OPENAI_RE`. -/
def openaiRe : Regex := seq (prev fun c => !c.any letterOrDigit) (seq (literal "sk-") (plus (one tokenChar)))

/-- `_GITHUB_RE`. -/
def githubRe : Regex :=
  seq (prev fun c => !c.any letterOrDigit) (seq (literal "gh") (seq (one fun c => (Str.lit "pousr").contains c)
    (seq (literal "_") (plus (one tokenChar)))))

/-- `_BEARER_RE`. -/
def bearerRe : Regex :=
  seq boundary (seq (literalFold "bearer") (seq (plus (one isSpace)) (plus (one fun c => !isSpace c))))

/-- `[-_ ]?` -/
def joiner : Regex := opt (one fun c => c == 45 || c == 95 || c == 32)

/-- The names whose values are secrets. -/
def secretName : Regex :=
  alt (seq (literalFold "api") (seq joiner (literalFold "key"))) (alt (literalFold "secret") (alt (literalFold "token")
    (alt (literalFold "password") (seq (literalFold "private") (seq joiner (literalFold "key"))))))

/-- `_ASSIGNMENT_RE`. Its alternative `apikey` is `api[-_ ]?key` without the joiner. -/
def assignmentRe : Regex :=
  seq (alt (prev fun c => c.isNone) (one fun c => isSpace c || (Str.lit "\"'/?&#;").contains c))
    (seq secretName (seq (star (one isSpace))
      (seq (alt (one fun c => c == 58 || c == 61) (alt (literalFold "%3a") (literalFold "%3d")))
        (seq (star (one isSpace)) (plus (one fun c => !isSpace c && !(Str.lit ",;\x7d\"'&").contains c))))))

/-- `_SECRET_RE` of the parallel-context records. -/
def secretRe : Regex :=
  alt (seq (literalFold "-----begin") (seq (star (seq (literal " ") (plus (one (anyCase letterOrDigit)))))
      (literalFold " private key-----")))
    (alt (seq boundary (seq (literalFold "akia") (seq (times (one (anyCase letterOrDigit)) 16) boundary)))
      (alt (seq (prev fun c => !c.any (anyCase letterOrDigit))
          (seq (alt (literalFold "sk-") (seq (literalFold "gh") (seq (one fun c => (Str.lit "pousr").contains (fold c))
            (literal "_")))) (plus (one (anyCase tokenChar)))))
        (alt bearerRe
          (seq secretName (seq (star (one isSpace)) (seq (one fun c => c == 58 || c == 61)
            (seq (star (one isSpace)) (plus (one fun c => !isSpace c && !(Str.lit ",;\x7d\"'").contains c)))))))))

/-- A text that holds a secret. -/
def isSensitive (s : Str) : Bool :=
  pemRe.search s || awsRe.search s || openaiRe.search s || githubRe.search s || bearerRe.search s ||
    assignmentRe.search s

/-- `_reject_sensitive(value, field_name)`. -/
def rejectSensitive (v : Json) (field : String) : Except Err Unit :=
  ensure (v.strings.all (fun s => !isSensitive s) = true) (.sensitive field)

/-- The keys that no parallel-context record may hold. -/
def forbiddenKeys : List String :=
  ["credential", "credentials", "transcript", "tool_history", "raw_tool_history", "api_key", "provider_token", "cache"]

mutual
/-- A value holds a forbidden key, or a secret among its strings. Keys are not searched for secrets. -/
def holdsSecret : Json → Bool
  | .str s => secretRe.search s
  | .arr l => holdsSecretList l
  | .obj f => holdsSecretFields f
  | .null => false
  | .bool _ => false
  | .int _ => false
  | .float _ => false

def holdsSecretList : List Json → Bool
  | [] => false
  | v :: l => holdsSecret v || holdsSecretList l

def holdsSecretFields : List (Str × Json) → Bool
  | [] => false
  | (k, v) :: f => (forbiddenKeys.any fun w => Str.lit w = k.map lower) || holdsSecret v || holdsSecretFields f
end

/-- `_reject_sensitive(value)` of the parallel-context records. -/
def parallelRejectSensitive (v : Json) : Except Err Unit :=
  ensure (holdsSecret v = false) (.sensitive "parallel-context artifact")

/-! ### Texts without secrets -/

/-- The letters that every secret holds one of: `G` or `g`, `K` or `k`, `R` or `r`, and the Kelvin sign. -/
def Telling (c : Nat) : Prop := c = 71 ∨ c = 103 ∨ c = 75 ∨ c = 107 ∨ c = 0x212A ∨ c = 82 ∨ c = 114

instance : DecidablePred Telling := fun c => by unfold Telling; infer_instance

theorem needs_literal {s : String} (h : ∃ c ∈ Str.lit s, Telling c) : Needs Telling (literal s) := by
  unfold literal
  revert h
  generalize Str.lit s = l
  intro h
  induction l with
  | nil => simp at h
  | cons c t ih =>
    by_cases hc : Telling c
    · exact .left (.one fun d hd => by rwa [beq_iff_eq.mp hd])
    · obtain ⟨d, hd, hT⟩ := h
      rcases List.mem_cons.mp hd with rfl | hd
      · exact absurd hT hc
      · exact .right (ih ⟨d, hd, hT⟩)

theorem telling_of_fold {c d : Nat} (h : fold c = d) (hd : d = 103 ∨ d = 107 ∨ d = 114) : Telling c := by
  unfold fold at h
  unfold Telling
  split_ifs at h <;> omega

theorem needs_literalFold {s : String} (h : ∃ c ∈ Str.lit s, c = 103 ∨ c = 107 ∨ c = 114) :
    Needs Telling (literalFold s) := by
  unfold literalFold
  revert h
  generalize Str.lit s = l
  intro h
  induction l with
  | nil => simp at h
  | cons c t ih =>
    by_cases hc : c = 103 ∨ c = 107 ∨ c = 114
    · exact .left (.one fun d hd => telling_of_fold (beq_iff_eq.mp hd) hc)
    · obtain ⟨d, hd, hT⟩ := h
      rcases List.mem_cons.mp hd with rfl | hd
      · exact absurd hT hc
      · exact .right (ih ⟨d, hd, hT⟩)

theorem needs_secretName : Needs Telling secretName :=
  .alt (.right (.right (needs_literalFold (by decide)))) (.alt (needs_literalFold (by decide))
    (.alt (needs_literalFold (by decide)) (.alt (needs_literalFold (by decide)) (.left (needs_literalFold (by decide))))))

theorem needs_bearerRe : Needs Telling bearerRe := .right (.left (needs_literalFold (by decide)))

/-- A text without telling letters holds no secret. -/
theorem isSensitive_eq_false {s : Str} (h : ∀ c ∈ s, ¬Telling c) : isSensitive s = false := by
  have hpem : Needs Telling pemRe := .left (needs_literal (by decide))
  have haws : Needs Telling awsRe := .right (.left (needs_literal (by decide)))
  have hopenai : Needs Telling openaiRe := .right (.left (needs_literal (by decide)))
  have hgithub : Needs Telling githubRe := .right (.left (needs_literal (by decide)))
  have hassign : Needs Telling assignmentRe := .right (.left needs_secretName)
  simp only [isSensitive, search_eq_false hpem h, search_eq_false haws h, search_eq_false hopenai h,
    search_eq_false hgithub h, search_eq_false needs_bearerRe h, search_eq_false hassign h, Bool.or_self]

theorem secretRe_eq_false {s : Str} (h : ∀ c ∈ s, ¬Telling c) : secretRe.search s = false := by
  refine search_eq_false (.alt (.left (needs_literalFold (by decide))) (.alt (.right (.left (needs_literalFold (by decide))))
    (.alt (.right (.left (.alt (needs_literalFold (by decide)) (.left (needs_literalFold (by decide))))))
      (.alt needs_bearerRe (.left needs_secretName))))) h

/-- A lowercase hexadecimal text holds no telling letter. -/
theorem not_telling_of_isHex {c : Nat} (h : Sha256.isHex c = true) : ¬Telling c := by
  simp only [Sha256.isHex, Bool.or_eq_true, Bool.and_eq_true, decide_eq_true_eq] at h
  unfold Telling
  omega

theorem Digest.not_telling (d : Digest) : ∀ c ∈ d.1, ¬Telling c := by
  obtain ⟨s, hs⟩ := d
  simp only [isDigest, Bool.and_eq_true, decide_eq_true_eq, lit_sha256] at hs
  obtain ⟨⟨⟨t, rfl⟩, -⟩, hhex⟩ := hs
  intro c hc
  rcases List.mem_append.mp hc with hc | hc
  · simp only [List.mem_cons, List.not_mem_nil, or_false] at hc
    unfold Telling
    omega
  · exact not_telling_of_isHex (List.all_eq_true.mp hhex c (by simpa using hc))

theorem Uuid.not_telling (u : Uuid) : ∀ c ∈ u.1, ¬Telling c := by
  obtain ⟨s, hs⟩ := u
  simp only [isUuid, Bool.and_eq_true, List.all_eq_true] at hs
  intro c hc
  obtain ⟨i, hi, rfl⟩ := List.mem_iff_getElem.mp hc
  have hmem : (s[i], i) ∈ s.zipIdx := by
    rw [List.mem_zipIdx_iff_getElem?]
    exact List.getElem?_eq_getElem hi
  have hchar := hs.2 _ hmem
  simp only at hchar
  split_ifs at hchar
  · rw [beq_iff_eq.mp hchar]
    decide
  · exact not_telling_of_isHex hchar

theorem rejectSensitive_eq_ok {v : Json} {field : String} {u : Unit} :
    rejectSensitive v field = .ok u ↔ ∀ s ∈ v.strings, isSensitive s = false := by
  simp [rejectSensitive]

end LeanCtx
