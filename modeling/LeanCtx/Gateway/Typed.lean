import LeanCtx.Gateway.Report
import LeanCtx.Store.Typed

/-! The exceptions of the readers of the gateway: a receipt raises an untyped one exactly where a reference that does not encode is
    measured, and a preparation where its decision does or where the text to send is nested too deep. -/

namespace LeanCtx.Gateway
open Json Preview

/-! ### Fields -/

theorem isScalar_of_isSpace {c : Nat} (h : Unicode.isSpace c = true) : Str.isScalar c = true := by
  simp only [Unicode.isSpace, Bool.or_eq_true, Bool.and_eq_true, decide_eq_true_eq, beq_iff_eq] at h
  simp only [Str.isScalar, Bool.or_eq_true, Bool.and_eq_true, decide_eq_true_eq]
  omega

theorem raises_ref {v : Json} {label : Str} : Raises Untyped (ref v label) ↔ v.Unencodable := by
  unfold ref
  split
  · next s =>
    have hblank : ¬s.all Str.isScalar = true → ¬s.all Unicode.isSpace = true := by
      intro hscalar hspace
      exact hscalar (List.all_eq_true.mpr fun c hc => isScalar_of_isSpace (List.all_eq_true.mp hspace c hc))
    split_ifs with h hcode
    · refine iff_of_false (raises_ok _) (not_not_intro ?_)
      simp only [isReference, Bool.and_eq_true] at h
      exact h.1.1.2
    · refine iff_of_true (raises_error.mpr untyped_unicode) ?_
      simp only [Bool.and_eq_true, Bool.not_eq_true'] at hcode
      simp [Json.Unencodable, hcode.2]
    · refine iff_of_false (by simp) ?_
      intro hscalar
      refine hcode ?_
      simp only [Bool.and_eq_true, Bool.not_eq_true', Bool.eq_false_iff]
      exact ⟨hblank hscalar, hscalar⟩
  · next hv =>
    refine iff_of_false (by simp) ?_
    rw [unencodable_iff]
    rintro ⟨s, rfl, -⟩
    exact hv s rfl

theorem ref_eq_ok {v : Json} {label : Str} {r : Reference} : ref v label = .ok r ↔ v = .str r.1 := by
  constructor
  · intro h
    unfold ref at h
    split at h
    · split_ifs at h
      cases h
      rfl
    · cases h
  · rintro rfl
    simp [ref, r.2]

theorem not_raises_reason {v : Json} {label : Str} : ¬Raises Untyped (reason v label) := by
  unfold reason
  split
  · split_ifs <;> simp
  · simp

theorem not_raises_reasons {v : Json} {label : Str} : ¬Raises Untyped (reasons v label) := by
  unfold reasons
  split
  · rw [raises_bind, raises_ensure, raises_mapM]
    rintro (⟨-, h⟩ | ⟨_, -, _, v, _, -, -, h⟩)
    · exact not_untyped_bad _ h
    · exact not_raises_reason h
  · simp

theorem raises_ifPresent {α : Type} {v : Json} {key : String} {f : Json → Except PreviewError α} :
    Raises Untyped (ifPresent v key f) ↔ ∃ w, v.get? key = some w ∧ Raises Untyped (f w) := by
  unfold ifPresent
  split
  · next w hw => simp [hw, raises_map]
  · next hw => simp [hw]

theorem not_raises_ifPresent {α : Type} {v : Json} {key : String} {f : Json → Except PreviewError α} (h : ∀ w, ¬Raises Untyped (f w)) :
    ¬Raises Untyped (ifPresent v key f) := by
  rw [raises_ifPresent]
  rintro ⟨w, -, hw⟩
  exact h w hw

/-- A reference that is read where the object has it. -/
theorem raises_ifPresent_ref {v : Json} {key : String} {label : Str} :
    Raises Untyped (ifPresent v key (ref · label)) ↔ (v.get key).Unencodable := by
  simp only [raises_ifPresent, raises_ref, Json.get]
  cases v.get? key with
  | none => exact iff_of_false (by simp) not_false
  | some w => simp

theorem not_raises_listField {v : Json} {key : String} {max : Option Nat} {message : String} :
    ¬Raises Untyped (listField v key max message) := by
  unfold listField
  split
  · simp
  · split_ifs <;> simp
  · simp

theorem not_raises_flag {v : Json} {key : String} {label : Str} : ¬Raises Untyped (flag v key label) := by
  unfold flag
  split
  · exact not_raises_bool
  · simp

/-- A field that is absent or a reference. -/
def ReferenceAt (v : Json) (key : String) : Prop := ∀ w, v.get? key = some w → ∃ r : Reference, w = .str r.1

theorem returns_ifPresent {α : Type} {v : Json} {key : String} {f : Json → Except PreviewError α} :
    (∃ o, ifPresent v key f = .ok o) ↔ ∀ w, v.get? key = some w → Returns (f w) := by
  unfold ifPresent
  split
  · next w hw =>
    simp only [hw, Option.some.injEq, forall_eq']
    cases f w with
    | error e => exact iff_of_false nofun nofun
    | ok a => exact iff_of_true ⟨_, rfl⟩ ⟨a, rfl⟩
  · next hw => simp [hw]

theorem returns_ifPresent_ref {v : Json} {key : String} {label : Str} :
    (∃ o, ifPresent v key (ref · label) = .ok o) ↔ ReferenceAt v key := by
  rw [returns_ifPresent]
  simp only [Returns, ref_eq_ok, ReferenceAt]

/-! ### Where the reader of a receipt measures a reference that does not encode -/

/-- A known principal, the identity of which does not encode. -/
structure PrincipalUnencodable (v : Json) : Prop where
  keys : HasKeys v ["kind"] ["id"]
  kind : ∃ k : PrincipalKind, v.get "kind" = .str k.name ∧ k ≠ .unknown
  id : (v.get "id").Unencodable

def HasDestinationKeys (v : Json) : Prop :=
  HasKeys v ["provider", "locality"] ["model", "organization_managed", "account_ref", "region"]

/-- The references of a destination are read in this order. -/
inductive DestinationUnencodable (v : Json) : Prop
  | model (keys : HasDestinationKeys v) (text : (v.get "model").Unencodable)
  | accountRef (keys : HasDestinationKeys v) (model : ReferenceAt v "model") (text : (v.get "account_ref").Unencodable)
  | region (keys : HasDestinationKeys v) (model : ReferenceAt v "model") (accountRef : ReferenceAt v "account_ref")
      (text : (v.get "region").Unencodable)
  | provider (keys : HasDestinationKeys v) (model : ReferenceAt v "model") (accountRef : ReferenceAt v "account_ref")
      (region : ReferenceAt v "region") (text : (v.get "provider").Unencodable)

structure SignalHeaded (v : Json) : Prop where
  keys : HasKeys v ["detector", "category", "severity", "evidence_count", "coverage", "status", "latency_us"]
    ["calibrated", "confidence_milli"]
  detectorKeys : HasKeys (v.get "detector") ["id", "version"] []

/-- The identity or the version of a detector does not encode. -/
inductive SignalUnencodable (v : Json) : Prop
  | id (headed : SignalHeaded v) (text : ((v.get "detector").get "id").Unencodable)
  | version (headed : SignalHeaded v) (id : ∃ r : Reference, (v.get "detector").get "id" = .str r.1)
      (text : ((v.get "detector").get "version").Unencodable)

/-- Reason codes that their reader accepts. -/
def ReasonsRead (v : Json) : Prop :=
  ∃ l, v = .arr l ∧ l.length ≤ maxReasonCodes ∧ ∀ w ∈ l, ∃ r : ReasonCode, w = .str r.1

/-- A list that an object may lack. -/
def ListAt (v : Json) (key : String) (max : Option Nat) (l : List Json) : Prop :=
  v.get? key = none ∧ l = [] ∨ v.get? key = some (.arr l) ∧ ∀ m ∈ max, l.length ≤ m

/-- A decision with a signal of a detector that does not encode. -/
structure DecisionUnencodable (v : Json) : Prop where
  keys : HasKeys v ["object", "disposition"] ["reason_codes", "signals", "required_transformations"]
  transformations : ∃ l, ListAt v "required_transformations" none l
  object : ∃ d : Digest, v.get "object" = d.json
  disposition : ∃ d ∈ ContextDisposition.all, v.get "disposition" = .str d.name
  reasons : ReasonsRead ((v.get? "reason_codes").getD (.arr []))
  signals : ∃ before s after, ListAt v "signals" (some maxSignals) (before ++ s :: after) ∧ (∀ b ∈ before, Returns (signal b)) ∧
    SignalUnencodable s

/-- The policy of a receipt, the identity or the version of which does not encode. -/
inductive PolicyUnencodable (v : Json) : Prop
  | id (keys : HasKeys v ["id", "digest"] ["version"]) (text : (v.get "id").Unencodable)
  | version (keys : HasKeys v ["id", "digest"] ["version"]) (id : ∃ r : Reference, v.get "id" = .str r.1)
      (digest : ∃ d : Digest, v.get "digest" = d.json) (text : (v.get "version").Unencodable)

/-- What the reader of a receipt checks before its decisions. -/
structure ReceiptHeaded (v : Json) : Prop where
  keys : HasKeys v ["schema_version", "receipt_id", "mode", "principal", "destination", "sources", "security", "tokens", "outcome",
    "duration_us"] ["task", "policy", "decisions", "final_context", "quality", "object_digest"]
  version : v.get "schema_version" = .int 1 ∧ (v.get? "object_digest").isSome = false ∨
    v.get "schema_version" = .int 2 ∧ (v.get? "object_digest").isSome = true
  key : ∀ w, v.get? "object_digest" = some w → Returns (objectDigest w)

/-- What it checks before the policy. -/
structure ReceiptCounted (v : Json) : Prop extends ReceiptHeaded v where
  sources : Returns (sourceCounts (v.get "sources"))
  security : ∃ l decisions counts, ListAt v "decisions" (some maxDecisions) l ∧ l.mapM decision = .ok decisions ∧
    securityCounts (v.get "security") = .ok counts ∧ counts.blockedObjects = decisions.countP (·.disposition = .deny) ∧
      counts.quarantinedObjects = decisions.countP (·.disposition = .quarantine)
  outcome : ∃ o : DeliveryOutcome, v.get "outcome" = .str o.name ∧ (v.get? "final_context").isSome = decide (o = .delivered)
  finalContext : ∀ w, v.get? "final_context" = some w → ∃ d : Digest, w = d.json

/-- What it checks before the identity of the receipt. -/
structure ReceiptPolicied (v : Json) : Prop extends ReceiptCounted v where
  policy : ∀ w, v.get? "policy" = some w → Returns (receiptPolicy w)
  quality : Returns (receiptQuality (v.get "quality"))

/-- What it checks before the principal. -/
structure ReceiptNamed (v : Json) : Prop extends ReceiptPolicied v where
  receiptId : ∃ r : Reference, v.get "receipt_id" = .str r.1
  mode : ∃ m ∈ Mode.all, v.get "mode" = .str m.name

/-- Where the reader of a receipt measures a reference that does not encode. -/
inductive ReceiptUnencodable (v : Json) : Prop
  | decision (headed : ReceiptHeaded v) (before : List Json) (d : Json) (after : List Json)
      (list : ListAt v "decisions" (some maxDecisions) (before ++ d :: after)) (earlier : ∀ b ∈ before, Returns (Gateway.decision b))
      (text : DecisionUnencodable d)
  | policy (counted : ReceiptCounted v) (p : Json) (present : v.get? "policy" = some p) (text : PolicyUnencodable p)
  | receiptId (policied : ReceiptPolicied v) (text : (v.get "receipt_id").Unencodable)
  | principal (named : ReceiptNamed v) (text : PrincipalUnencodable (v.get "principal"))
  | destination (named : ReceiptNamed v) (principal : Returns (Gateway.principal (v.get "principal")))
      (text : DestinationUnencodable (v.get "destination"))
  | task (named : ReceiptNamed v) (principal : Returns (Gateway.principal (v.get "principal")))
      (destination : Returns (Gateway.destination (v.get "destination"))) (tokens : Returns (tokenCounts (v.get "tokens")))
      (duration : ∃ n : Nat, v.get "duration_us" = .int n ∧ n ≤ maxSafe) (text : (v.get "task").Unencodable)

/-! ### Exactly there it raises another exception -/

theorem PrincipalKind.mem_all (k : PrincipalKind) : k ∈ all := by cases k <;> simp [all]

theorem PrincipalKind.name_injective : Function.Injective name := by
  intro a b h
  cases a <;> cases b <;> first | rfl | exact absurd h (by decide)

theorem raises_principal {v : Json} : Raises Untyped (principal v) ↔ PrincipalUnencodable v := by
  simp only [principal, raises_bind, raises_dite, raises_ensure, raises_pure, raises_ref, not_raises_object, not_raises_keys,
    not_raises_enum, not_untyped_bad, object_eq_ok, exists_const, keys_eq_ok, ensure_eq_ok,
    enum_eq_ok PrincipalKind.mem_all PrincipalKind.name_injective, and_false, exists_false, or_false, false_or]
  constructor
  · rintro ⟨-, hkeys, k, hk, hknown, -, hid⟩
    exact ⟨hkeys, ⟨k, hk, hknown⟩, hid⟩
  · rintro ⟨hkeys, ⟨k, hk, hknown⟩, hid⟩
    refine ⟨Store.isObj_of_hasKeys hkeys, hkeys, k, hk, hknown, ?_, hid⟩
    unfold Json.get at hid
    cases hget : v.get? "id" with
    | none =>
      rw [hget] at hid
      exact hid.elim
    | some w => rfl

theorem raises_destination {v : Json} : Raises Untyped (destination v) ↔ DestinationUnencodable v := by
  simp only [destination, raises_bind, raises_pure, raises_ref, raises_ifPresent_ref, not_raises_object, not_raises_keys,
    not_raises_enum, not_raises_flag, object_eq_ok, exists_const, keys_eq_ok, and_false, exists_false, or_false, false_or]
  constructor
  · rintro ⟨-, hkeys, h | ⟨m, hm, h | ⟨a, ha, h | ⟨r, hr, h⟩⟩⟩⟩
    · exact .model hkeys h
    · exact .accountRef hkeys (returns_ifPresent_ref.mp ⟨m, hm⟩) h
    · exact .region hkeys (returns_ifPresent_ref.mp ⟨m, hm⟩) (returns_ifPresent_ref.mp ⟨a, ha⟩) h
    · exact .provider hkeys (returns_ifPresent_ref.mp ⟨m, hm⟩) (returns_ifPresent_ref.mp ⟨a, ha⟩) (returns_ifPresent_ref.mp ⟨r, hr⟩) h
  · intro h
    cases h with
    | model hkeys h => exact ⟨Store.isObj_of_hasKeys hkeys, hkeys, .inl h⟩
    | accountRef hkeys hm h =>
      obtain ⟨m, hm⟩ := returns_ifPresent_ref.mpr hm
      exact ⟨Store.isObj_of_hasKeys hkeys, hkeys, .inr ⟨m, hm, .inl h⟩⟩
    | region hkeys hm ha h =>
      obtain ⟨m, hm⟩ := returns_ifPresent_ref.mpr hm
      obtain ⟨a, ha⟩ := returns_ifPresent_ref.mpr ha
      exact ⟨Store.isObj_of_hasKeys hkeys, hkeys, .inr ⟨m, hm, .inr ⟨a, ha, .inl h⟩⟩⟩
    | provider hkeys hm ha hr h =>
      obtain ⟨m, hm⟩ := returns_ifPresent_ref.mpr hm
      obtain ⟨a, ha⟩ := returns_ifPresent_ref.mpr ha
      obtain ⟨r, hr⟩ := returns_ifPresent_ref.mpr hr
      exact ⟨Store.isObj_of_hasKeys hkeys, hkeys, .inr ⟨m, hm, .inr ⟨a, ha, .inr ⟨r, hr, h⟩⟩⟩⟩

theorem not_raises_coverage {v : Json} : ¬Raises Untyped (coverage v) := by
  have hreason : ∀ v key label, ¬Raises Untyped (ifPresent v key (reason · label)) :=
    fun _ _ _ => not_raises_ifPresent fun _ => not_raises_reason
  simp only [coverage, raises_bind, raises_dite, raises_pure, raises_error, not_raises_object, not_raises_keys, not_raises_enum,
    not_raises_int, hreason, not_untyped_bad, and_false, exists_false, or_false, not_false_eq_true]

theorem raises_signal {v : Json} : Raises Untyped (signal v) ↔ SignalUnencodable v := by
  have hint : ∀ v key label max, ¬Raises Untyped (ifPresent v key (int · label max)) :=
    fun _ _ _ _ => not_raises_ifPresent fun _ => not_raises_int
  simp only [signal, raises_bind, raises_dite, raises_pure, raises_error, raises_ref, not_raises_object, not_raises_keys,
    not_raises_enum, not_raises_int, not_raises_coverage, not_raises_flag, hint, not_untyped_bad, object_eq_ok, exists_const, keys_eq_ok,
    ref_eq_ok, and_false, exists_false, or_false, false_or]
  constructor
  · rintro ⟨-, hkeys, -, hdetector, h | ⟨r, hr, h⟩⟩
    · exact .id ⟨hkeys, hdetector⟩ h
    · exact .version ⟨hkeys, hdetector⟩ ⟨r, hr⟩ h
  · rintro (⟨⟨hkeys, hdetector⟩, h⟩ | ⟨⟨hkeys, hdetector⟩, ⟨r, hr⟩, h⟩)
    · exact ⟨Store.isObj_of_hasKeys hkeys, hkeys, Store.isObj_of_hasKeys hdetector, hdetector, .inl h⟩
    · exact ⟨Store.isObj_of_hasKeys hkeys, hkeys, Store.isObj_of_hasKeys hdetector, hdetector, .inr ⟨r, hr, h⟩⟩

theorem listField_eq_ok {v : Json} {key : String} {max : Option Nat} {message : String} {l : List Json} :
    listField v key max message = .ok l ↔ ListAt v key max l := by
  unfold listField ListAt
  split
  · next hnone => simp [hnone, eq_comm]
  · next m hsome =>
    simp only [hsome, reduceCtorEq, false_and, Option.some.injEq, Json.arr.injEq, false_or]
    split_ifs with hmax
    · simp only [Except.ok.injEq]
      constructor
      · rintro rfl
        exact ⟨rfl, fun n hn => by simpa [Option.mem_def.mp hn] using hmax⟩
      · rintro ⟨rfl, -⟩
        rfl
    · refine iff_of_false nofun ?_
      rintro ⟨rfl, hle⟩
      refine hmax ?_
      cases max with
      | none => rfl
      | some n => simpa using hle n rfl
  · next hne hget =>
    refine iff_of_false nofun ?_
    rintro (⟨hnone, -⟩ | ⟨hsome, -⟩)
    · rw [hget] at hnone
      cases hnone
    · rw [hget] at hsome
      exact hne _ (Option.some.inj hsome)

theorem reason_eq_ok {v : Json} {label : Str} {r : ReasonCode} : reason v label = .ok r ↔ v = .str r.1 := by
  constructor
  · intro h
    unfold reason at h
    split at h
    · split_ifs at h
      cases h
      rfl
    · cases h
  · rintro rfl
    simp [reason, r.2]

theorem returns_reasons {v : Json} {label : Str} : (∃ c, reasons v label = .ok c) ↔ ReasonsRead v := by
  unfold reasons
  split
  · next l =>
    have hitems : Returns (l.mapM fun v => reason v label) ↔ ∀ w ∈ l, ∃ r : ReasonCode, w = .str r.1 := by
      rw [returns_mapM]
      simp only [Returns, reason_eq_ok]
    simp only [bind_eq_ok, ensure_eq_ok, exists_const, exists_and_left, ReasonsRead, Json.arr.injEq, exists_eq_left']
    exact and_congr_right fun _ => hitems
  · next hv => exact iff_of_false (by simp) (not_exists.mpr fun l h => hv l h.1)

theorem raises_decision {v : Json} : Raises Untyped (decision v) ↔ DecisionUnencodable v := by
  have htransformations : ∀ l : List Json, ¬Raises Untyped (l.mapM fun kind =>
      enum Transformation.all Transformation.name kind (Str.lit "decision.required_transformations")) := by
    intro l
    rw [raises_mapM]
    rintro ⟨_, _, _, -, -, h⟩
    exact not_raises_enum h
  simp only [decision, raises_bind, raises_dite, raises_pure, raises_error, raises_mapM (f := signal), raises_signal, htransformations,
    not_raises_object, not_raises_keys, not_raises_listField, not_raises_digest, not_raises_enum, not_raises_reasons, not_untyped_bad,
    object_eq_ok, exists_const, keys_eq_ok, listField_eq_ok, Preview.digest_eq_ok, and_false, exists_false, or_false, false_or]
  constructor
  · rintro ⟨-, hkeys, _, hsignals, kinds, hkinds, d, hd, o, ho, c, hc, before, s, after, rfl, hbefore, hs⟩
    exact ⟨hkeys, ⟨kinds, hkinds⟩, ⟨d, hd⟩, returns_enum.mp ⟨o, ho⟩, returns_reasons.mp ⟨c, hc⟩, before, s, after, hsignals, hbefore, hs⟩
  · rintro ⟨hkeys, ⟨kinds, hkinds⟩, ⟨d, hd⟩, hdisposition, hreasons, before, s, after, hsignals, hbefore, hs⟩
    obtain ⟨o, ho⟩ := returns_enum.mpr hdisposition
    obtain ⟨c, hc⟩ := returns_reasons.mpr hreasons
    exact ⟨Store.isObj_of_hasKeys hkeys, hkeys, _, hsignals, kinds, hkinds, d, hd, o, ho, c, hc, before, s, after, rfl, hbefore, hs⟩

theorem raises_receiptPolicy {v : Json} : Raises Untyped (receiptPolicy v) ↔ PolicyUnencodable v := by
  simp only [receiptPolicy, raises_bind, raises_pure, raises_ref, raises_ifPresent_ref, not_raises_object, not_raises_keys,
    not_raises_digest, object_eq_ok, exists_const, keys_eq_ok, ref_eq_ok, Preview.digest_eq_ok, and_false, or_false, false_or]
  constructor
  · rintro ⟨-, hkeys, h | ⟨r, hr, d, hd, h⟩⟩
    · exact .id hkeys h
    · exact .version hkeys ⟨r, hr⟩ ⟨d, hd⟩ h
  · rintro (⟨hkeys, h⟩ | ⟨hkeys, ⟨r, hr⟩, ⟨d, hd⟩, h⟩)
    · exact ⟨Store.isObj_of_hasKeys hkeys, hkeys, .inl h⟩
    · exact ⟨Store.isObj_of_hasKeys hkeys, hkeys, .inr ⟨r, hr, d, hd, h⟩⟩

theorem not_raises_objectDigest {v : Json} : ¬Raises Untyped (objectDigest v) := by
  rw [objectDigest, raises_bind, or_iff_right not_raises_object]
  rintro ⟨_, -, h⟩
  rw [raises_bind, or_iff_right not_raises_keys] at h
  obtain ⟨_, -, h⟩ := h
  split at h
  · split_ifs at h
    · exact not_untyped_unknownValue _ _ (raises_ensure.mp (raises_map.mp h)).2
    · simp at h
  · simp at h

theorem not_raises_countKeys {v : Json} {names : List String} {label : String} : ¬Raises Untyped (countKeys v names label) := by
  simp only [countKeys, raises_bind, not_raises_object, not_raises_keys, and_false, exists_false, or_false, not_false_eq_true]

theorem not_raises_count {v : Json} {label key : String} {max : Nat} : ¬Raises Untyped (count v label key max) := not_raises_int

theorem not_raises_sourceCounts {v : Json} : ¬Raises Untyped (sourceCounts v) := by
  simp only [sourceCounts, raises_bind, raises_dite, raises_pure, raises_error, not_raises_countKeys, not_raises_count, not_untyped_bad,
    and_false, exists_false, or_false, not_false_eq_true]

theorem not_raises_securityCounts {v : Json} : ¬Raises Untyped (securityCounts v) := by
  simp only [securityCounts, raises_bind, raises_pure, not_raises_countKeys, not_raises_count, and_false, exists_false, or_false,
    not_false_eq_true]

theorem not_raises_tokenCounts {v : Json} : ¬Raises Untyped (tokenCounts v) := by
  simp only [tokenCounts, raises_bind, raises_pure, not_raises_countKeys, not_raises_count, and_false, exists_false, or_false,
    not_false_eq_true]

theorem not_raises_receiptVersion {v : Json} : ¬Raises Untyped (receiptVersion v) := by
  simp only [receiptVersion, raises_ite, raises_ok, raises_error, not_untyped_bad, and_false, or_false, not_false_eq_true]

theorem not_raises_receiptQuality {v : Json} : ¬Raises Untyped (receiptQuality v) := by
  unfold receiptQuality
  split
  · simp
  · simp only [raises_bind, raises_pure, not_raises_object, and_false, exists_false, or_false, not_false_eq_true]

theorem versioned_iff {v : Json} : (∃ n, receiptVersion (v.get "schema_version") = .ok n ∧
    decide (n = 2) = (v.get? "object_digest").isSome) ↔
      v.get "schema_version" = .int 1 ∧ (v.get? "object_digest").isSome = false ∨
        v.get "schema_version" = .int 2 ∧ (v.get? "object_digest").isSome = true := by
  unfold receiptVersion
  generalize (v.get? "object_digest").isSome = b
  split_ifs with h1 h2
  · cases b <;> simp [h1]
  · cases b <;> simp [h2]
  · simp [h1, h2]

theorem digested_iff {v : Json} {key : String} {label : Str} {b : Bool} :
    (∃ o, ifPresent v key (Preview.digest · label) = .ok o ∧ o.isSome = b) ↔
      (∀ w, v.get? key = some w → ∃ d : Digest, w = d.json) ∧ (v.get? key).isSome = b := by
  unfold ifPresent
  split
  · next w hw =>
    simp only [hw, Option.some.injEq, forall_eq', Option.isSome_some]
    constructor
    · rintro ⟨o, ho, hb⟩
      cases hd : Preview.digest w label with
      | error e =>
        rw [hd] at ho
        cases ho
      | ok d =>
        rw [hd] at ho
        cases ho
        exact ⟨⟨d, Preview.digest_eq_ok.mp hd⟩, hb⟩
    · rintro ⟨⟨d, hd⟩, hb⟩
      refine ⟨some d, ?_, hb⟩
      rw [Preview.digest_eq_ok.mpr hd]
      rfl
  · next hw => simp [hw]

/-- The places where the reader of a receipt measures a reference, after what it checks before each. -/
theorem receiptUnencodable_iff {v : Json} : ReceiptUnencodable v ↔ ReceiptHeaded v ∧
    ((∃ before d after, ListAt v "decisions" (some maxDecisions) (before ++ d :: after) ∧ (∀ b ∈ before, Returns (decision b)) ∧
      DecisionUnencodable d) ∨ ReceiptCounted v ∧
    ((∃ p, v.get? "policy" = some p ∧ PolicyUnencodable p) ∨ ReceiptPolicied v ∧
    ((v.get "receipt_id").Unencodable ∨ ReceiptNamed v ∧
    (PrincipalUnencodable (v.get "principal") ∨ Returns (principal (v.get "principal")) ∧
    (DestinationUnencodable (v.get "destination") ∨ Returns (destination (v.get "destination")) ∧
      Returns (tokenCounts (v.get "tokens")) ∧ (∃ n : Nat, v.get "duration_us" = .int n ∧ n ≤ maxSafe) ∧
        (v.get "task").Unencodable))))) := by
  constructor
  · intro h
    cases h with
    | decision h before d after hlist hbefore hd => exact ⟨h, .inl ⟨before, d, after, hlist, hbefore, hd⟩⟩
    | policy h p hp htext => exact ⟨h.1, .inr ⟨h, .inl ⟨p, hp, htext⟩⟩⟩
    | receiptId h htext => exact ⟨h.1.1, .inr ⟨h.1, .inr ⟨h, .inl htext⟩⟩⟩
    | principal h htext => exact ⟨h.1.1.1, .inr ⟨h.1.1, .inr ⟨h.1, .inr ⟨h, .inl htext⟩⟩⟩⟩
    | destination h hp htext => exact ⟨h.1.1.1, .inr ⟨h.1.1, .inr ⟨h.1, .inr ⟨h, .inr ⟨hp, .inl htext⟩⟩⟩⟩⟩
    | task h hp hd ht hduration htext =>
      exact ⟨h.1.1.1, .inr ⟨h.1.1, .inr ⟨h.1, .inr ⟨h, .inr ⟨hp, .inr ⟨hd, ht, hduration, htext⟩⟩⟩⟩⟩⟩
  · rintro ⟨h, ⟨before, d, after, hlist, hbefore, hd⟩ | ⟨hcounted, ⟨p, hp, htext⟩ | ⟨hpolicied, htext | ⟨hnamed, htext |
      ⟨hp, htext | ⟨hd, ht, hduration, htext⟩⟩⟩⟩⟩⟩
    · exact .decision h before d after hlist hbefore hd
    · exact .policy hcounted p hp htext
    · exact .receiptId hpolicied htext
    · exact .principal hnamed htext
    · exact .destination hnamed hp htext
    · exact .task hnamed hp hd ht hduration htext

/-- The reader of a receipt raises an untyped exception exactly where it measures a reference that does not encode. -/
theorem raises_parseDecisionReceipt {v : Json} : Raises Untyped (parseDecisionReceipt v) ↔ ReceiptUnencodable v := by
  have hkey : ∀ v key, ¬Raises Untyped (ifPresent v key objectDigest) := fun _ _ => not_raises_ifPresent fun _ => not_raises_objectDigest
  have hdigest : ∀ v key label, ¬Raises Untyped (ifPresent v key (Preview.digest · label)) :=
    fun _ _ _ => not_raises_ifPresent fun _ => not_raises_digest
  rw [receiptUnencodable_iff]
  simp only [parseDecisionReceipt, raises_bind, raises_dite, raises_ensure, raises_pure, raises_error, raises_mapM (f := decision),
    raises_decision, raises_ifPresent (f := receiptPolicy), raises_receiptPolicy, raises_ref, raises_ifPresent_ref, raises_principal,
    raises_destination, hkey, hdigest, not_raises_object, not_raises_keys, not_raises_receiptVersion, not_raises_listField,
    not_raises_sourceCounts, not_raises_securityCounts, not_raises_enum, not_raises_receiptQuality, not_raises_tokenCounts,
    not_raises_int, not_untyped_bad, object_eq_ok, exists_const, keys_eq_ok, ensure_eq_ok, listField_eq_ok, ref_eq_ok,
    enum_eq_ok DeliveryOutcome.mem_all DeliveryOutcome.name_injective, Preview.int_eq_ok, and_false, exists_false, or_false, false_or]
  constructor
  · rintro ⟨-, hkeys, n, hn, hversion, key, hkeyed, l, hl, h⟩
    have hheaded : ReceiptHeaded v := ⟨hkeys, versioned_iff.mp ⟨n, hn, hversion⟩, returns_ifPresent.mp ⟨key, hkeyed⟩⟩
    refine ⟨hheaded, ?_⟩
    rcases h with ⟨before, d, after, rfl, hbefore, hd⟩ | ⟨decisions, hdecisions, sources, hsources, counts, hcounts,
      ⟨hdenied, hquarantined⟩, o, ho, final, hfinal, hnamed, h⟩
    · exact .inl ⟨before, d, after, hl, hbefore, hd⟩
    obtain ⟨hcontext, hsome⟩ := digested_iff.mp ⟨final, hfinal, hnamed⟩
    have hcounted : ReceiptCounted v := ⟨hheaded, ⟨sources, hsources⟩,
      ⟨l, decisions, counts, hl, hdecisions, hcounts, hdenied, hquarantined⟩, ⟨o, ho, hsome⟩, hcontext⟩
    refine .inr ⟨hcounted, ?_⟩
    rcases h with hpolicy | ⟨policy, hpolicy, quality, hquality, h⟩
    · exact .inl hpolicy
    have hpolicied : ReceiptPolicied v := ⟨hcounted, returns_ifPresent.mp ⟨policy, hpolicy⟩, ⟨quality, hquality⟩⟩
    refine .inr ⟨hpolicied, ?_⟩
    rcases h with hid | ⟨r, hr, m, hm, h⟩
    · exact .inl hid
    have hnamed : ReceiptNamed v := ⟨hpolicied, ⟨r, hr⟩, returns_enum.mp ⟨m, hm⟩⟩
    refine .inr ⟨hnamed, ?_⟩
    rcases h with hprincipal | ⟨p, hp, hdestination | ⟨d, hd, t, ht, k, hk, htask⟩⟩
    · exact .inl hprincipal
    · exact .inr ⟨⟨p, hp⟩, .inl hdestination⟩
    · exact .inr ⟨⟨p, hp⟩, .inr ⟨⟨d, hd⟩, ⟨t, ht⟩, ⟨k, hk⟩, htask⟩⟩
  · rintro ⟨hheaded, h⟩
    obtain ⟨n, hn, hversion⟩ := versioned_iff.mpr hheaded.version
    obtain ⟨key, hkeyed⟩ := returns_ifPresent.mpr hheaded.key
    refine ⟨Store.isObj_of_hasKeys hheaded.keys, hheaded.keys, n, hn, hversion, key, hkeyed, ?_⟩
    rcases h with ⟨before, d, after, hl, hbefore, hd⟩ | ⟨hcounted, h⟩
    · exact ⟨_, hl, .inl ⟨before, d, after, rfl, hbefore, hd⟩⟩
    obtain ⟨l, decisions, counts, hl, hdecisions, hcounts, hdenied, hquarantined⟩ := hcounted.security
    obtain ⟨sources, hsources⟩ := hcounted.sources
    obtain ⟨o, ho, hsome⟩ := hcounted.outcome
    obtain ⟨final, hfinal, hfinalSome⟩ := digested_iff.mpr ⟨hcounted.finalContext, hsome⟩
    refine ⟨l, hl, .inr ⟨decisions, hdecisions, sources, hsources, counts, hcounts, ⟨hdenied, hquarantined⟩, o, ho, final, hfinal,
      hfinalSome, ?_⟩⟩
    rcases h with hpolicy | ⟨hpolicied, h⟩
    · exact .inl hpolicy
    obtain ⟨policy, hpolicy⟩ := returns_ifPresent.mpr hpolicied.policy
    obtain ⟨quality, hquality⟩ := hpolicied.quality
    refine .inr ⟨policy, hpolicy, quality, hquality, ?_⟩
    rcases h with hid | ⟨hnamed, h⟩
    · exact .inl hid
    obtain ⟨r, hr⟩ := hnamed.receiptId
    obtain ⟨m, hm⟩ := returns_enum.mpr hnamed.mode
    refine .inr ⟨r, hr, m, hm, ?_⟩
    rcases h with hprincipal | ⟨⟨p, hp⟩, hdestination | ⟨⟨d, hd⟩, ⟨t, ht⟩, ⟨k, hk⟩, htask⟩⟩
    · exact .inl hprincipal
    · exact .inr ⟨p, hp, .inl hdestination⟩
    · exact .inr ⟨p, hp, .inr ⟨d, hd, t, ht, k, hk, htask⟩⟩

/-! ### Admissions -/

/-- What the reader of an admission checks before its receipt: a refused request carries a refusal and no body, and another one a body
    and no refusal. -/
structure AdmissionHeaded (v : Json) : Prop where
  keys : HasKeys v ["schema_version", "disposition"] ["body", "refusal", "classification", "receipt"]
  schema : pyEq (v.get "schema_version") (.int 1) = true
  carried : (v.get "disposition" = .str Disposition.refused.name ∧ v.get "body" = .null ∧
      ∃ s, v.get "refusal" = .str s ∧ ¬s.all Unicode.isSpace = true) ∨
    ((∃ d : Disposition, v.get "disposition" = .str d.name ∧ d ≠ .refused) ∧ (∃ f, v.get "body" = .obj f) ∧ v.get "refusal" = .null)
  classification : v.get "classification" = .null ∨ ∃ c ∈ Sensitivity.all, v.get "classification" = .str c.name

/-- An admission, the receipt of which does not encode. -/
structure AdmissionUnencodable (v : Json) : Prop where
  headed : AdmissionHeaded v
  receipt : ReceiptUnencodable (v.get "receipt")

theorem Disposition.mem_all (d : Disposition) : d ∈ all := by cases d <;> simp [all]

theorem Disposition.name_injective : Function.Injective name := by
  intro a b h
  cases a <;> cases b <;> first | rfl | exact absurd h (by decide)

theorem classified_iff {v : Json} {label : Str} : (∃ c, nullable (enum Sensitivity.all Sensitivity.name · label) v = .ok c) ↔
    v = .null ∨ ∃ c ∈ Sensitivity.all, v = .str c.name := by
  rw [← @returns_enum _ _ _ _ label]
  simp only [nullable_eq_ok]
  constructor
  · rintro ⟨o, ⟨hnull, -⟩ | ⟨-, c, hc, -⟩⟩
    · exact .inl hnull
    · exact .inr ⟨c, hc⟩
  · rintro (hnull | ⟨c, hc⟩)
    · exact ⟨none, .inl ⟨hnull, rfl⟩⟩
    · refine ⟨some c, .inr ⟨?_, c, hc, rfl⟩⟩
      rintro rfl
      obtain ⟨c, -, hnull⟩ := returns_enum.mp ⟨c, hc⟩
      cases hnull

theorem ReceiptUnencodable.ne_null {v : Json} (h : ReceiptUnencodable v) : v ≠ .null := by
  have hheaded := (receiptUnencodable_iff.mp h).1
  rintro rfl
  exact absurd (hheaded.keys.1 "schema_version" (by simp)) List.not_mem_nil

theorem raises_parseEgressAdmission {v : Json} : Raises Untyped (parseEgressAdmission v) ↔ AdmissionUnencodable v := by
  have hclass : ∀ v label, ¬Raises Untyped (nullable (enum Sensitivity.all Sensitivity.name · label) v) :=
    fun _ _ => not_raises_nullable not_raises_enum
  simp only [parseEgressAdmission, raises_bind, raises_dite, raises_ensure, not_raises_object, not_raises_keys, not_raises_enum,
    not_untyped_bad, object_eq_ok, exists_const, keys_eq_ok, ensure_eq_ok, enum_eq_ok Disposition.mem_all Disposition.name_injective,
    and_false, false_or]
  constructor
  · rintro ⟨-, hkeys, hschema, d, hd, ⟨rfl, h⟩ | ⟨hne, h⟩⟩
    · split at h
      · next s hbody hrefusal =>
        simp only [raises_bind, raises_ensure, raises_pure, raises_nullable, raises_parseDecisionReceipt, not_untyped_bad, ensure_eq_ok,
          exists_const, hclass, and_false, or_false, false_or] at h
        obtain ⟨hblank, c, hc, -, hreceipt⟩ := h
        exact ⟨⟨hkeys, hschema, .inl ⟨hd, hbody, s, hrefusal, hblank⟩, classified_iff.mp ⟨c, hc⟩⟩, hreceipt⟩
      · exact absurd (raises_error.mp h) (not_untyped_bad _)
    · split at h
      · next f hbody hrefusal =>
        simp only [raises_bind, raises_pure, raises_nullable, raises_parseDecisionReceipt, hclass, and_false, exists_false, or_false,
          false_or] at h
        obtain ⟨c, hc, -, hreceipt⟩ := h
        exact ⟨⟨hkeys, hschema, .inr ⟨⟨d, hd, hne⟩, ⟨f, hbody⟩, hrefusal⟩, classified_iff.mp ⟨c, hc⟩⟩, hreceipt⟩
      · exact absurd (raises_error.mp h) (not_untyped_bad _)
  · rintro ⟨⟨hkeys, hschema, hcarried, hclassified⟩, hreceipt⟩
    obtain ⟨c, hc⟩ := classified_iff.mpr hclassified
    rcases hcarried with ⟨hd, hbody, s, hrefusal, hblank⟩ | ⟨⟨d, hd, hne⟩, ⟨f, hbody⟩, hrefusal⟩
    · refine ⟨Store.isObj_of_hasKeys hkeys, hkeys, hschema, _, hd, .inl ⟨rfl, ?_⟩⟩
      rw [hbody, hrefusal]
      simp only [raises_bind, raises_ensure, raises_pure, raises_nullable, raises_parseDecisionReceipt, not_untyped_bad, ensure_eq_ok,
        exists_const, hclass, and_false, or_false, false_or]
      exact ⟨hblank, c, hc, hreceipt.ne_null, hreceipt⟩
    · refine ⟨Store.isObj_of_hasKeys hkeys, hkeys, hschema, d, hd, .inr ⟨hne, ?_⟩⟩
      rw [hbody, hrefusal]
      simp only [raises_bind, raises_pure, raises_nullable, raises_parseDecisionReceipt, hclass, and_false, exists_false, or_false,
        false_or]
      exact ⟨c, hc, hreceipt.ne_null, hreceipt⟩

/-! ### Reports -/

theorem not_raises_checkDigest {d : Digest} {r : HostReportRequest} : ¬Raises Untyped (checkDigest d r) := by
  obtain ⟨data, hdata⟩ := r.writable_observation
  rw [checkDigest, hdata, raises_ensure]
  exact fun h => not_untyped_bad _ h.2

theorem not_raises_checkStatus {v : Json} : ¬Raises Untyped (checkStatus v) := by
  unfold checkStatus
  split
  · simp
  · simp only [raises_bind, raises_ensure, not_raises_int, not_untyped_bad, and_false, exists_false, or_false, not_false_eq_true]

theorem not_raises_checkFailure {v : Json} : ¬Raises Untyped (checkFailure v) := by
  unfold checkFailure
  split
  · simp
  · simp only [raises_bind, raises_pure, not_raises_enum, and_false, exists_false, or_false, not_false_eq_true]

/-- The reader of a report raises only typed exceptions. -/
theorem not_raises_parseEgressHostReport {v : Json} {r : HostReportRequest} : ¬Raises Untyped (parseEgressHostReport v r) := by
  have hfields : ∀ (w : Json) (l : List String), ¬Raises Untyped (l.forM fun key => ensure (agrees w (mkObj r.fields) key = true)
      (.bad (Str.lit "report observation does not match request field " ++ Str.lit key))) := by
    intro w l
    exact not_raises_forM fun key _ h => not_untyped_bad _ (raises_ensure.mp h).2
  simp only [parseEgressHostReport, raises_bind, raises_ensure, raises_pure, hfields, not_raises_object, not_raises_keys, not_raises_int,
    not_raises_digest, not_raises_checkDigest, not_raises_checkStatus, not_raises_checkFailure, not_untyped_bad, and_false, exists_false,
    or_false, not_false_eq_true]

/-! ### Preparations -/

/-- An exception of `parse_egress_preparation`: one that its readers raise, or the `RecursionError` of Python's decoder. -/
inductive PreparationError
  | raised (e : PreviewError)
  | recursion
deriving DecidableEq

def PreparationError.IsTyped : PreparationError → Prop
  | .raised e => e.IsTyped
  | .recursion => False

/-- The text to send, where it is one that is decoded. -/
def sentBytes? (decision : EgressAdmission) : Json → Option Bytes
  | .str s => if decision.disposition = .refused then none else s.utf8?
  | _ => none

/-- `parse_egress_preparation(value)` on an interpreter the decoder of which runs out of stack on the texts that are `deep`: neither
    `strict_json_loads` nor its caller catches the `RecursionError`. -/
def parsePreparation (deep : Bytes → Bool) (v : Json) : Except PreparationError EgressPreparation := do
  catching (object v (Str.lit "preparation")) .raised
  catching (keys v ["schema_version", "decision"] ["prepared_body", "admission_receipt_digest"] (Str.lit "preparation")) .raised
  let version ← catching (int (v.get "schema_version") (Str.lit "schema_version") 2) .raised
  ensure (version = 2) (.raised (.bad (Str.lit "unsupported egress preparation schema_version")))
  let decision ← catching (parseEgressAdmission (v.get "decision")) .raised
  catching (checkReceipt decision) .raised
  ensure ((sentBytes? decision (v.get "prepared_body")).any deep = false) .recursion
  let prepared ← catching (checkPrepared decision (v.get "prepared_body")) .raised
  let digest ← catching (nullable (Preview.digest · (Str.lit "admission_receipt_digest")) (v.get "admission_receipt_digest")) .raised
  ensure (digest = none ∨ decision.receipt.isSome = true)
    (.raised (.bad (Str.lit "egress admission digest requires its decision receipt")))
  pure ⟨decision, prepared, digest⟩

/-- Where the decoder has stack enough, the reader is the one without it. -/
theorem parsePreparation_of_shallow {deep : Bytes → Bool} (h : ∀ data, deep data = false) (v : Json) :
    parsePreparation deep v = catching (parseEgressPreparation v) .raised := by
  have hany : ∀ o : Option Bytes, o.any deep = false := by
    intro o
    cases o with
    | none => rfl
    | some data => exact h data
  simp only [parsePreparation, parseEgressPreparation, catching_bind, catching_ensure, catching_pure, hany, ensure_of_true, ok_bind]

structure PreparationHeaded (v : Json) : Prop where
  keys : HasKeys v ["schema_version", "decision"] ["prepared_body", "admission_receipt_digest"]
  version : v.get "schema_version" = .int 2

/-- Where the reader of a preparation raises an untyped exception: its decision does not encode, or the text to send is nested too
    deep. -/
inductive PreparationFails (deep : Bytes → Bool) (v : Json) : Prop
  | decision (headed : PreparationHeaded v) (text : AdmissionUnencodable (v.get "decision"))
  | prepared (headed : PreparationHeaded v) (d : EgressAdmission) (admitted : parseEgressAdmission (v.get "decision") = .ok d)
      (receipt : checkReceipt d = .ok ()) (data : Bytes) (sent : sentBytes? d (v.get "prepared_body") = some data)
      (nested : deep data = true)

theorem not_raises_checkReceipt {d : EgressAdmission} : ¬Raises Untyped (checkReceipt d) := by
  unfold checkReceipt
  split
  · simp
  · exact fun h => not_untyped_bad _ (raises_ensure.mp h).2

theorem not_raises_checkPrepared {d : EgressAdmission} {prepared : Json} : ¬Raises Untyped (checkPrepared d prepared) := by
  unfold checkPrepared
  split_ifs
  · split <;> simp
  · split
    · split
      · simp
      · simp only [raises_bind, raises_ensure, raises_pure, not_untyped_bad, and_false, exists_false, or_false, not_false_eq_true]
    · simp

theorem isTyped_raised (e : PreviewError) : (PreparationError.raised e).IsTyped ↔ e.IsTyped := Iff.rfl

theorem raises_parsePreparation {deep : Bytes → Bool} {v : Json} :
    Raises (fun e => ¬e.IsTyped) (parsePreparation deep v) ↔ PreparationFails deep v := by
  have hbad : ∀ m, ¬¬(PreparationError.raised (.bad m)).IsTyped := fun _ => not_not_intro trivial
  have hrecursion : ¬PreparationError.recursion.IsTyped := not_false
  have huntyped : (fun e : PreviewError => ¬(PreparationError.raised e).IsTyped) = Untyped := rfl
  have hdigest : ∀ v label, ¬Raises Untyped (nullable (Preview.digest · label) v) := fun _ _ => not_raises_nullable not_raises_digest
  simp only [parsePreparation, raises_bind, raises_ensure, raises_catching, raises_pure, huntyped, hbad, hrecursion, hdigest,
    raises_parseEgressAdmission, not_raises_object, not_raises_keys, not_raises_int, not_raises_checkReceipt, not_raises_checkPrepared,
    catching_eq_ok, ensure_eq_ok, object_eq_ok, keys_eq_ok, Preview.int_eq_ok, exists_const, and_false, or_false, false_or,
    not_false_eq_true, and_true, Bool.not_eq_false, Option.any_eq_true]
  constructor
  · rintro ⟨-, hkeys, n, ⟨hversion, -⟩, rfl, htext | ⟨d, hd, _, hreceipt, data, hsent, hdeep⟩⟩
    · exact .decision ⟨hkeys, hversion⟩ htext
    · exact .prepared ⟨hkeys, hversion⟩ d hd hreceipt data hsent hdeep
  · rintro (⟨⟨hkeys, hversion⟩, htext⟩ | ⟨⟨hkeys, hversion⟩, d, hd, hreceipt, data, hsent, hdeep⟩)
    · exact ⟨Store.isObj_of_hasKeys hkeys, hkeys, 2, ⟨hversion, le_rfl⟩, rfl, .inl htext⟩
    · exact ⟨Store.isObj_of_hasKeys hkeys, hkeys, 2, ⟨hversion, le_rfl⟩, rfl, .inr ⟨d, hd, (), hreceipt, data, hsent, hdeep⟩⟩

/-! ### All the readers -/

/-- A reader returns, or raises an `InstanceProtocolError`. -/
def Total {α : Type} (x : Except PreviewError α) : Prop := Returns x ∨ Raises PreviewError.IsTyped x

theorem total_iff {α : Type} {x : Except PreviewError α} : Total x ↔ ¬Raises Untyped x := returns_or_raises_iff

/-- The readers of reports and of evidence are total. The others are exactly where no text that is measured has an unpaired surrogate,
    and no text to send is nested too deep. -/
theorem readers_total {deep : Bytes → Bool} {v : Json} {request : HostReportRequest} :
    (Total (parseDecisionReceipt v) ↔ ¬ReceiptUnencodable v) ∧ (Total (parseEgressAdmission v) ↔ ¬AdmissionUnencodable v) ∧
      (Returns (parsePreparation deep v) ∨ Raises PreparationError.IsTyped (parsePreparation deep v) ↔ ¬PreparationFails deep v) ∧
      Total (parseEgressHostReport v request) ∧ Total (Store.parsePolicyEvidence v) ∧
      (Total (Store.parseTaskLineage v) ↔ ¬Store.LineageUnencodable v) := by
  refine ⟨?_, ?_, ?_, ?_, ?_, ?_⟩
  · rw [total_iff, raises_parseDecisionReceipt]
  · rw [total_iff, raises_parseEgressAdmission]
  · rw [returns_or_raises_iff, raises_parsePreparation]
  · exact total_iff.mpr not_raises_parseEgressHostReport
  · exact total_iff.mpr Store.not_raises_parsePolicyEvidence
  · rw [total_iff, Store.raises_parseTaskLineage]

namespace SurrogateSample

/-- A lineage the error of which is the escape of an unpaired surrogate. -/
def raw : Bytes := (Str.lit ("\x7b\"deliveries\":[],\"gaps\":[],\"ledger_error\":\"\\ud800\",\"outcome\":\"accepted\"," ++
  "\"schema_version\":1,\"steps\":[],\"task_id\":\"t\"\x7d")).flatMap Str.encodePoint

def lineage : Json :=
  mkObj [("deliveries", .arr []), ("gaps", .arr []), ("ledger_error", .str [0xD800]), ("outcome", .str "accepted"),
    ("schema_version", .int 1), ("steps", .arr []), ("task_id", .str "t")]

def request : HostReportRequest :=
  ⟨digestOf [], 1, .http, .noResponseObserved, none, some .other, HostReportRequest.attempted_one, HostReportRequest.statused_none, nofun, fun _ => ⟨rfl, nofun⟩⟩

theorem strictLoads_raw : strictLoads? raw = some lineage := by decide +kernel

end SurrogateSample

open SurrogateSample in
theorem not_readers_total : ¬∀ (deep : Bytes → Bool) (raw : Bytes) (v : Json) (request : HostReportRequest), strictLoads? raw = some v →
    Total (parseDecisionReceipt v) ∧ Total (parseEgressAdmission v) ∧
      (Returns (parsePreparation deep v) ∨ Raises PreparationError.IsTyped (parsePreparation deep v)) ∧
      Total (parseEgressHostReport v request) ∧ Total (Store.parsePolicyEvidence v) ∧ Total (Store.parseTaskLineage v) := by
  intro h
  obtain ⟨-, -, -, -, -, htotal⟩ := h (fun _ => false) raw lineage request strictLoads_raw
  refine total_iff.mp htotal (Store.raises_parseTaskLineage.mpr (.ledgerError [] ⟨?_, ?_, ?_, ?_, ?_⟩ ?_))
  · exact ⟨by decide, by decide⟩
  · decide
  · decide
  · decide
  · decide
  · have herror : lineage.get "ledger_error" = .str [0xD800] := by decide
    rw [herror]
    exact (by decide : ¬[0xD800].all Str.isScalar = true)

end LeanCtx.Gateway
