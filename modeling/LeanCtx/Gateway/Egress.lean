import LeanCtx.Gateway.Receipt
import LeanCtx.Json.Kinds

/-! Egress through the gateway: the decision about a model request, and the bytes to send for it. The bytes, the body that was
    admitted and the receipt are joined; the body is compared with Python's `==`, which takes `True`, `1` and `1.0` for one value. -/

namespace LeanCtx.Gateway
open Json Preview

/-! ### Admissions -/

/-- What becomes of a request. -/
inductive Disposition
  | forward
  | rewritten
  | refused
deriving DecidableEq

def Disposition.name : Disposition → String
  | .forward => "forward"
  | .rewritten => "rewritten"
  | .refused => "refused"

def Disposition.all : List Disposition := [.forward, .rewritten, .refused]

/-- How sensitive a request is. -/
inductive Sensitivity
  | open
  | inside
  | confidential
  | restricted
deriving DecidableEq

def Sensitivity.name : Sensitivity → String
  | .open => "public"
  | .inside => "internal"
  | .confidential => "confidential"
  | .restricted => "restricted"

def Sensitivity.all : List Sensitivity := [.open, .inside, .confidential, .restricted]

/-- What may leave for the model, how sensitive it is, and why: a refused request has a refusal, and another one a body. -/
structure EgressAdmission where
  disposition : Disposition
  body : Option Json
  refusal : Option Str
  classification : Option Sensitivity
  receipt : Option ContextDecisionReceipt
  bodied : body.isNone = decide (disposition = .refused)
  refusing : refusal.isSome = decide (disposition = .refused)

/-- `parse_egress_admission(value)`. -/
def parseEgressAdmission (v : Json) : Except PreviewError EgressAdmission := do
  object v (Str.lit "response")
  keys v ["schema_version", "disposition"] ["body", "refusal", "classification", "receipt"] (Str.lit "response")
  ensure (pyEq (v.get "schema_version") (.int 1) = true) (.bad (Str.lit "unsupported egress schema_version"))
  let disposition ← enum Disposition.all Disposition.name (v.get "disposition") (Str.lit "disposition")
  if h : disposition = .refused then
    match v.get "body", v.get "refusal" with
    | .null, .str s => do
      ensure (¬s.all Unicode.isSpace = true) (.bad (Str.lit "a refused request carries a refusal and no body"))
      let classification ← nullable (enum Sensitivity.all Sensitivity.name · (Str.lit "classification")) (v.get "classification")
      let receipt ← nullable parseDecisionReceipt (v.get "receipt")
      pure ⟨disposition, none, some s, classification, receipt, by simp [h], by simp [h]⟩
    | _, _ => .error (.bad (Str.lit "a refused request carries a refusal and no body"))
  else
    match v.get "body", v.get "refusal" with
    | .obj f, .null => do
      let classification ← nullable (enum Sensitivity.all Sensitivity.name · (Str.lit "classification")) (v.get "classification")
      let receipt ← nullable parseDecisionReceipt (v.get "receipt")
      pure ⟨disposition, some (.obj f), none, classification, receipt, by simp [h], by simp [h]⟩
    | _, _ => .error (.bad (Str.lit "an admitted request carries a body object and no refusal"))

/-! ### Preparations -/

/-- The decision, and the exact text to send for it. -/
structure EgressPreparation where
  decision : EgressAdmission
  preparedBody : Option Str
  admissionReceiptDigest : Option Digest

/-- The receipt of a refused request delivers nothing, and another one is of a delivery. -/
def checkReceipt (decision : EgressAdmission) : Except PreviewError Unit :=
  match decision.receipt with
  | none => .ok ()
  | some receipt =>
    ensure (if decision.disposition = .refused then receipt.outcome ≠ .delivered ∧ receipt.finalContext = none
        else receipt.outcome = .delivered ∧ receipt.finalContext ≠ none)
      (.bad (Str.lit "decision receipt outcome/final_context do not match disposition"))

/-- The text to send: its value equals the body that was admitted, and its digest is that of the receipt. -/
def checkPrepared (decision : EgressAdmission) (prepared : Json) : Except PreviewError (Option Str) :=
  if decision.disposition = .refused then
    match prepared with
    | .null => .ok none
    | _ => .error (.bad (Str.lit "a refused preparation cannot carry prepared bytes"))
  else
    match prepared with
    | .str s =>
      match s.utf8?.bind fun data => (strictLoads? data).map fun v => (data, v) with
      | none => .error (.bad (Str.lit "prepared bytes are not strict JSON"))
      | some (data, v) => do
        ensure (decision.body.any (pyEq v) = true) (.bad (Str.lit "prepared bytes do not match the admitted decision body"))
        ensure (∀ receipt ∈ decision.receipt, ∀ d ∈ receipt.finalContext, d = digestOf data)
          (.bad (Str.lit "prepared bytes do not match the decision receipt digest"))
        pure (some s)
    | _ => .error (.bad (Str.lit "a dispatchable preparation must carry exact bytes"))

/-- `parse_egress_preparation(value)`. -/
def parseEgressPreparation (v : Json) : Except PreviewError EgressPreparation := do
  object v (Str.lit "preparation")
  keys v ["schema_version", "decision"] ["prepared_body", "admission_receipt_digest"] (Str.lit "preparation")
  let version ← int (v.get "schema_version") (Str.lit "schema_version") 2
  ensure (version = 2) (.bad (Str.lit "unsupported egress preparation schema_version"))
  let decision ← parseEgressAdmission (v.get "decision")
  checkReceipt decision
  let prepared ← checkPrepared decision (v.get "prepared_body")
  let digest ← nullable (Preview.digest · (Str.lit "admission_receipt_digest")) (v.get "admission_receipt_digest")
  ensure (digest = none ∨ decision.receipt.isSome = true) (.bad (Str.lit "egress admission digest requires its decision receipt"))
  pure ⟨decision, prepared, digest⟩

/-! ### The join -/

/-- What is sent is what was admitted, and the receipt is that of the bytes; nothing is sent for a refused request. -/
structure EgressPreparation.Joined (p : EgressPreparation) : Prop where
  sent : p.decision.disposition ≠ .refused → ∃ s ∈ p.preparedBody, ∃ data, s.utf8? = some data ∧
    ∃ v, strictLoads? data = some v ∧ (∃ body ∈ p.decision.body, v.plain = body.plain) ∧
      ∀ receipt ∈ p.decision.receipt, receipt.outcome = .delivered ∧ receipt.finalContext = some (digestOf data)
  refused : p.decision.disposition = .refused → p.decision.body = none ∧ p.preparedBody = none ∧
    ∀ receipt ∈ p.decision.receipt, receipt.outcome ≠ .delivered

/-- The numbers of the prepared body and of the body of the decision are of the same kinds, at every place. -/
def KindsAgree (v : Json) : Prop :=
  ∀ s data w, v.get "prepared_body" = .str s → s.utf8? = some data → strictLoads? data = some w →
    SameKinds w ((v.get "decision").get "body")

/-- What the body of an accepted decision was read from. -/
theorem body_of_parse {v : Json} {d : EgressAdmission} (h : parseEgressAdmission v = .ok d) :
    (d.disposition ≠ .refused → d.body = some (v.get "body")) ∧ (d.disposition = .refused → d.body = none) := by
  simp only [parseEgressAdmission, bind_eq_ok] at h
  obtain ⟨_, -, _, -, _, -, disposition, -, h⟩ := h
  split_ifs at h with hrefused
  · split at h
    · simp only [bind_eq_ok, pure_eq_ok] at h
      obtain ⟨_, -, c, -, r, -, rfl⟩ := h
      exact ⟨fun hne => absurd hrefused hne, fun _ => rfl⟩
    · cases h
  · split at h
    · next f hbody _ =>
      simp only [bind_eq_ok, pure_eq_ok] at h
      obtain ⟨c, -, r, -, rfl⟩ := h
      exact ⟨fun _ => congrArg some hbody.symm, fun heq => absurd heq hrefused⟩
    · cases h

theorem checkPrepared_eq_ok {d : EgressAdmission} {prepared : Json} {o : Option Str} : checkPrepared d prepared = .ok o ↔
    (d.disposition = .refused ∧ prepared = .null ∧ o = none) ∨
    (d.disposition ≠ .refused ∧ ∃ s, prepared = .str s ∧ o = some s ∧ ∃ data, s.utf8? = some data ∧
      ∃ v, strictLoads? data = some v ∧ (∃ body ∈ d.body, pyEq v body = true) ∧
        ∀ receipt ∈ d.receipt, ∀ final ∈ receipt.finalContext, final = digestOf data) := by
  unfold checkPrepared
  split_ifs with hrefused
  · simp only [hrefused, true_and, ne_eq, not_true, false_and, or_false]
    split
    · simp [eq_comm]
    · next hne => exact iff_of_false (by simp) fun h => hne h.1
  · simp only [hrefused, false_and, false_or, ne_eq, not_false_eq_true, true_and]
    split
    · next s =>
      simp only [Json.str.injEq, exists_eq_left']
      split
      · next hnone =>
        refine iff_of_false (by simp) ?_
        rintro ⟨-, data, hdata, v, hv, -⟩
        rw [hdata, Option.bind_some, hv] at hnone
        cases hnone
      · next data v hsome =>
        obtain ⟨data', hdata, hmap⟩ := Option.bind_eq_some_iff.mp hsome
        obtain ⟨v', hv, hpair⟩ := Option.map_eq_some_iff.mp hmap
        cases hpair
        simp only [bind_eq_ok, ensure_eq_ok, exists_const, pure_eq_ok, Option.any_eq_true, hdata, Option.some.injEq, exists_eq_left', hv]
        constructor
        · rintro ⟨hbody, hfinal, rfl⟩
          exact ⟨rfl, hbody, hfinal⟩
        · rintro ⟨rfl, hbody, hfinal⟩
          exact ⟨hbody, hfinal, rfl⟩
    · next hne => exact iff_of_false (by simp) (not_exists.mpr fun s h => hne s h.1)

/-- A preparation is joined exactly where the numbers of both bodies are of the same kinds. -/
theorem joined_iff {v : Json} {p : EgressPreparation} (h : parseEgressPreparation v = .ok p) : p.Joined ↔ KindsAgree v := by
  simp only [parseEgressPreparation, bind_eq_ok, pure_eq_ok] at h
  obtain ⟨_, -, _, -, _, -, _, -, decision, hdecision, _, hreceipt, prepared, hprepared, digest, -, _, -, rfl⟩ := h
  obtain ⟨hbody, hnobody⟩ := body_of_parse hdecision
  have hreceipts : ∀ receipt ∈ decision.receipt, if decision.disposition = .refused then
      receipt.outcome ≠ .delivered ∧ receipt.finalContext = none else receipt.outcome = .delivered ∧ receipt.finalContext ≠ none := by
    intro receipt hmem
    rw [checkReceipt, hmem] at hreceipt
    exact ensure_eq_ok.mp hreceipt
  rcases checkPrepared_eq_ok.mp hprepared with ⟨hrefused, hnull, rfl⟩ | ⟨hsends, s, hs, rfl, data, hdata, w, hw, ⟨body, hmem, heq⟩, hfinal⟩
  · refine iff_of_true ⟨fun hne => absurd hrefused hne, fun _ => ⟨hnobody hrefused, rfl, fun receipt hmem => ?_⟩⟩ ?_
    · have hoff := hreceipts receipt hmem
      rw [if_pos hrefused] at hoff
      exact hoff.1
    · intro s data w hs
      rw [hnull] at hs
      cases hs
  · obtain rfl : (v.get "decision").get "body" = body := Option.some.inj ((hbody hsends).symm.trans hmem)
    constructor
    · intro hjoined s' data' w' hs' hdata' hw'
      obtain ⟨t, ht, b, hb, x, hx, ⟨c, hc, hplain⟩, -⟩ := hjoined.sent hsends
      cases ht
      obtain rfl := Json.str.inj (hs.symm.trans hs')
      obtain rfl := Option.some.inj (hb.symm.trans hdata')
      obtain rfl := Option.some.inj (hx.symm.trans hw')
      obtain rfl := Option.some.inj ((hbody hsends).symm.trans hc)
      exact congrArg kinds hplain
    · intro hkinds
      have hplain := (plain_eq_iff heq).mpr (hkinds s data w hs hdata hw)
      refine ⟨fun _ => ⟨s, rfl, data, hdata, w, hw, ⟨_, hmem, hplain⟩, fun receipt hr => ?_⟩, fun hrefused => absurd hrefused hsends⟩
      have hon := hreceipts receipt hr
      rw [if_neg hsends] at hon
      obtain ⟨final, hsome⟩ := Option.ne_none_iff_exists'.mp hon.2
      exact ⟨hon.1, hsome.trans (congrArg some (hfinal receipt hr final hsome))⟩

/-! ### A Boolean that is sent as a number -/

namespace EgressSample

/-- A preparation that sends the number 1 where the admitted body holds a value. -/
def document (value : Json) : Json :=
  mkObj [("schema_version", .int 2), ("prepared_body", .str "\x7b\"a\":1\x7d"),
    ("decision", mkObj [("schema_version", .int 1), ("disposition", .str "forward"), ("body", mkObj [("a", value)])])]

theorem exists_parse (value : Json) (h : (parseEgressPreparation (document value)).toBool = true) :
    ∃ p, parseEgressPreparation (document value) = .ok p := by
  cases hparse : parseEgressPreparation (document value) with
  | error e =>
    rw [hparse] at h
    cases h
  | ok p => exact ⟨p, rfl⟩

end EgressSample

open EgressSample in
/-- The number that was admitted is sent. -/
theorem exists_joined : ∃ p, parseEgressPreparation (document (.int 1)) = .ok p ∧ (p.Joined ↔ KindsAgree (document (.int 1))) := by
  obtain ⟨p, hp⟩ := exists_parse (.int 1) (by decide +kernel)
  exact ⟨p, hp, joined_iff hp⟩

open EgressSample in
/-- The number is sent as well where a Boolean was admitted. -/
theorem not_joined : ¬∀ (v : Json) (p : EgressPreparation), parseEgressPreparation v = .ok p → p.Joined := by
  intro hall
  obtain ⟨p, hp⟩ := exists_parse (.bool true) (by decide +kernel)
  have hkinds := (joined_iff hp).mp (hall _ p hp)
  have hload : strictLoads? ((Str.lit "\x7b\"a\":1\x7d").flatMap Str.encodePoint) = some (mkObj [("a", .int 1)]) := by decide +kernel
  have hprepared : (document (.bool true)).get "prepared_body" = .str "\x7b\"a\":1\x7d" := get_mkObj _ _
  have hdecision : (document (.bool true)).get "decision" = _ := get_mkObj _ _
  have hsame := hkinds _ _ _ hprepared (by decide +kernel) hload
  rw [hdecision] at hsame
  exact absurd hsame (by decide +kernel)

end LeanCtx.Gateway
