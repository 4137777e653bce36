import LeanCtx.Store.Evidence
import LeanCtx.Preview.Typed
import LeanCtx.Json.Equal

/-! The exceptions of the readers of the context store: the evidence raises only typed ones, and a lineage another one exactly where a
    text that does not encode is measured. -/

namespace LeanCtx.Store
open Json Preview

/-! ### Fields -/

theorem raises_text {v : Json} {label : Str} {max : Nat} : Raises Untyped (text v label max) ↔ v.Unencodable := by
  unfold text
  split
  · next s =>
    split_ifs with h hscalar
    · refine iff_of_false (raises_ok _) (not_not_intro ?_)
      simp only [isBounded, Bool.and_eq_true] at h
      exact h.1.1
    · exact iff_of_true (raises_error.mpr untyped_unicode) (by simpa [Json.Unencodable] using hscalar)
    · exact iff_of_false (by simp) (by simpa [Json.Unencodable] using hscalar)
  · next hv =>
    refine iff_of_false (by simp) ?_
    rw [unencodable_iff]
    rintro ⟨s, rfl, -⟩
    exact hv s rfl

theorem not_raises_list {v : Json} {label : Str} {max : Nat} : ¬Raises Untyped (list v label max) := by
  unfold list
  split
  · split_ifs <;> simp
  · simp

/-! ### Evidence -/

theorem not_raises_signed {v : Json} {label : Str} : ¬Raises Untyped (signed v label) := by
  unfold signed
  split
  · split_ifs <;> simp
  · simp

theorem not_raises_workload {v : Json} {label : Str} : ¬Raises Untyped (workload v label) := by
  simp only [workload, raises_bind, raises_pure, not_raises_object, not_raises_keys, not_raises_enum, and_false, or_false, exists_false,
    not_false_eq_true]

theorem not_raises_measured {α : Type} {v : Json} {label : Str} {f : Except PreviewError α} (h : ¬Raises Untyped f) :
    ¬Raises Untyped (measured v label f) := by
  simp only [measured, raises_bind, raises_ite, raises_pure, raises_ensure, raises_map, not_raises_object, not_raises_keys,
    not_untyped_unknownValue, h, and_false, or_false, exists_false, not_false_eq_true]

theorem not_raises_quality {v : Json} {label : Str} : ¬Raises Untyped (quality v label) := by
  refine not_raises_measured ?_
  simp only [raises_bind, raises_dite, raises_pure, raises_error, not_raises_object, not_raises_keys, not_raises_int, not_untyped_bad,
    and_false, or_false, exists_false, not_false_eq_true]

theorem not_raises_security {v : Json} {label : Str} : ¬Raises Untyped (security v label) := by
  refine not_raises_measured ?_
  simp only [raises_bind, not_raises_keys, not_raises_int, and_false, or_false, exists_false, not_false_eq_true]

theorem not_raises_counts {v : Json} {label : Str} : ¬Raises Untyped (counts v label) := by
  simp only [counts, raises_bind, raises_pure, not_raises_int, and_false, or_false, exists_false, not_false_eq_true]

theorem not_raises_checkCounts {c : OutcomeCounts} {label : Str} : ¬Raises Untyped (checkCounts c label) := by
  simp only [checkCounts, raises_dite, raises_ok, raises_error, not_untyped_bad, or_false, exists_false, not_false_eq_true]

theorem not_raises_record {v : Json} {label : Str} : ¬Raises Untyped (record v label) := by
  simp only [record, raises_bind, raises_pure, not_raises_object, not_raises_keys, not_raises_counts, not_raises_workload,
    not_raises_enum, not_raises_quality, not_raises_security, not_raises_checkCounts, and_false, or_false, exists_false,
    not_false_eq_true]

theorem not_raises_evaluation {v : Json} {label : Str} : ¬Raises Untyped (evaluation v label) := by
  simp only [evaluation, raises_bind, raises_dite, raises_pure, raises_error, not_raises_object, not_raises_keys, not_raises_enum,
    not_raises_int, not_raises_bool, not_raises_signed, not_untyped_bad, and_false, or_false, exists_false, not_false_eq_true]

/-- The reader of evidence raises only typed exceptions. -/
theorem not_raises_parsePolicyEvidence {v : Json} : ¬Raises Untyped (parsePolicyEvidence v) := by
  have hrecords : ∀ l, ¬Raises Untyped (items record "records" l) := fun l => not_raises_items fun _ _ => not_raises_record
  have hevaluations : ∀ l, ¬Raises Untyped (items evaluation "evaluations" l) :=
    fun l => not_raises_items fun _ _ => not_raises_evaluation
  simp only [parsePolicyEvidence, raises_bind, raises_dite, raises_ensure, raises_pure, raises_error, not_raises_object,
    not_raises_keys, not_raises_list, hrecords, hevaluations, not_untyped_bad, and_false, or_false, exists_false, not_false_eq_true]

/-! ### Where the reader of a lineage measures a text that does not encode -/

/-- A field of a step that its reader accepts. -/
def FieldReads (p : Str × Json) : Prop := isFieldName p.1 = true ∧ ∃ s, p.2 = .str s ∧ isBounded maxRefBytes s = true

/-- A value that is a text within a bound. -/
def TextReads (max : Nat) (v : Json) : Prop := ∃ s, v = .str s ∧ isBounded max s = true

/-- What the reader of a step checks before its timestamp. -/
structure StepHeaded (v : Json) : Prop where
  keys : HasKeys v ["sequence", "kind", "timestamp", "fields"] []
  fields : ∃ f, v.get "fields" = .obj f ∧ ∀ p ∈ f, FieldReads p
  sequence : ∃ n : Nat, v.get "sequence" = .int n ∧ n ≤ maxSafe
  kind : ∃ k : StepKind, v.get "kind" = .str k.name

/-- A step that its reader accepts. -/
structure StepReads (v : Json) : Prop extends StepHeaded v where
  timestamp : TextReads maxRefBytes (v.get "timestamp")

/-- Where the reader of a step measures a text that does not encode. -/
inductive StepUnencodable (v : Json) : Prop
  | field (keys : HasKeys v ["sequence", "kind", "timestamp", "fields"] []) (before : List (Str × Json)) (p : Str × Json)
      (after : List (Str × Json)) (fields : v.get "fields" = .obj (before ++ p :: after)) (earlier : ∀ q ∈ before, FieldReads q)
      (name : isFieldName p.1 = true) (text : p.2.Unencodable)
  | timestamp (headed : StepHeaded v) (text : (v.get "timestamp").Unencodable)

/-- What the reader of a summary checks before its destination. -/
structure SummaryHeaded (v : Json) : Prop where
  keys : HasKeys v ["outcome", "destination", "policy_digest", "final_context", "inspected", "delivered", "withheld", "redactions",
    "tokens_original", "tokens_delivered"] []
  outcome : ∃ o : DeliveryOutcome, v.get "outcome" = .str o.name

/-- What the reader of a delivery checks before its summary or its error. -/
structure DeliveryHeaded (v : Json) (verified : Bool) : Prop where
  keys : HasKeys v ["digest", "verified"] ["error", "summary"]
  stated : v.get "verified" = .bool verified
  parts : verified = (v.get? "summary").isSome ∧ verified = (v.get? "error").isNone
  digest : ∃ d : Digest, v.get "digest" = d.json

/-- A delivery that its reader accepts, under whichever label. -/
def DeliveryReads (v : Json) : Prop := Returns (delivery v [])

/-- A verified delivery, the summary of which names a destination that does not encode. -/
structure DeliveryUnencodable (v : Json) : Prop where
  headed : DeliveryHeaded v true
  summary : SummaryHeaded (v.get "summary")
  destination : ((v.get "summary").get "destination").Unencodable

/-- The fields of a lineage that are read before its records. -/
structure LineageHeaded (v : Json) (gaps : List Gap) : Prop where
  keys : HasKeys v ["schema_version", "task_id", "steps", "deliveries", "outcome", "gaps"] ["scope", "ledger_error"]
  schema : v.get "schema_version" = .int 1
  named : v.get "gaps" = .arr (gaps.map fun g => .str g.name)
  bounded : gaps.length ≤ Gap.all.length
  distinct : gaps.Nodup

/-- The error of the ledger is read, and there is one exactly if a gap says so. -/
structure LineageLedgered (v : Json) (gaps : List Gap) : Prop extends LineageHeaded v gaps where
  ledger : v.get "ledger_error" = .null ∧ Gap.ledgerUnverified ∉ gaps ∨
    TextReads maxTextBytes (v.get "ledger_error") ∧ Gap.ledgerUnverified ∈ gaps

/-- The steps are read. -/
structure LineageStepped (v : Json) (gaps : List Gap) : Prop extends LineageLedgered v gaps where
  steps : ∃ l, v.get "steps" = .arr l ∧ l.length ≤ maxLineageItems ∧ ∀ w ∈ l, StepReads w

/-- The deliveries are read, and one is not verified exactly if a gap says so. -/
structure LineageDelivered (v : Json) (gaps : List Gap) : Prop extends LineageStepped v gaps where
  deliveries : ∃ l, v.get "deliveries" = .arr l ∧ l.length ≤ maxLineageItems ∧ (∀ w ∈ l, DeliveryReads w) ∧
    ((∃ w ∈ l, w.get "verified" = .bool false) ↔ Gap.deliveryUnverified ∈ gaps)

/-- Where the reader of a lineage measures a text that does not encode. -/
inductive LineageUnencodable (v : Json) : Prop
  | ledgerError (gaps : List Gap) (headed : LineageHeaded v gaps) (text : (v.get "ledger_error").Unencodable)
  | step (gaps : List Gap) (ledgered : LineageLedgered v gaps) (before : List Json) (w : Json) (after : List Json)
      (steps : v.get "steps" = .arr (before ++ w :: after)) (bounded : (before ++ w :: after).length ≤ maxLineageItems)
      (earlier : ∀ x ∈ before, StepReads x) (text : StepUnencodable w)
  | delivery (gaps : List Gap) (stepped : LineageStepped v gaps) (before : List Json) (w : Json) (after : List Json)
      (deliveries : v.get "deliveries" = .arr (before ++ w :: after)) (bounded : (before ++ w :: after).length ≤ maxLineageItems)
      (earlier : ∀ x ∈ before, DeliveryReads x) (text : DeliveryUnencodable w)
  | taskId (gaps : List Gap) (delivered : LineageDelivered v gaps) (text : (v.get "task_id").Unencodable)
  | scope (gaps : List Gap) (delivered : LineageDelivered v gaps) (taskId : TextReads maxRefBytes (v.get "task_id"))
      (text : (v.get "scope").Unencodable)

/-! ### Exactly there it raises another exception -/

theorem exists_text_eq_ok {v : Json} {label : Str} {max : Nat} : (∃ t, text v label max = .ok t) ↔ TextReads max v := by
  simp only [text_eq_ok]
  exact ⟨fun ⟨t, ht⟩ => ⟨t.1, ht, t.2⟩, fun ⟨s, hs, h⟩ => ⟨⟨s, h⟩, hs⟩⟩

theorem raises_stepFields {v : Json} {label : Str} : Raises Untyped (stepFields v label) ↔ ∃ before p after,
    v = .obj (before ++ p :: after) ∧ (∀ q ∈ before, FieldReads q) ∧ isFieldName p.1 = true ∧ p.2.Unencodable := by
  unfold stepFields
  split
  · next f =>
    simp only [raises_mapM, raises_bind, raises_ensure, raises_pure, raises_text, not_untyped_bad, ensure_eq_ok, exists_const, and_false,
      exists_false, or_false, false_or, Returns, bind_eq_ok, pure_eq_ok, Json.obj.injEq]
    refine exists_congr fun before => exists_congr fun p => exists_congr fun after => and_congr_right fun _ => and_congr_left fun _ => ?_
    refine forall₂_congr fun q _ => ?_
    rw [FieldReads, ← TextReads, ← exists_text_eq_ok]
    constructor
    · rintro ⟨_, hname, t, ht, -⟩
      exact ⟨hname, t, ht⟩
    · rintro ⟨hname, t, ht⟩
      exact ⟨_, hname, t, ht, rfl⟩
  · next hv =>
    refine iff_of_false (by simp) ?_
    rintro ⟨before, p, after, rfl, -⟩
    exact hv _ rfl

theorem returns_stepFields {v : Json} {label : Str} : (∃ f, stepFields v label = .ok f) ↔ ∃ f, v = .obj f ∧ ∀ p ∈ f, FieldReads p := by
  unfold stepFields
  split
  · next f =>
    have hitems := returns_mapM (f := fun p : Str × Json => (do
      ensure (isFieldName p.1 = true) (.bad (label ++ Str.lit ".fields has an invalid name"))
      let t ← text p.2 (label ++ Str.lit ".fields." ++ p.1) maxRefBytes
      pure (p.1, t) : Except PreviewError (Str × Bounded maxRefBytes))) (l := f)
    refine hitems.trans ?_
    simp only [Json.obj.injEq, exists_eq_left', Returns, bind_eq_ok, ensure_eq_ok, exists_const, pure_eq_ok]
    refine forall₂_congr fun q _ => ?_
    rw [FieldReads, ← TextReads, ← exists_text_eq_ok]
    exact ⟨fun ⟨_, hname, t, ht, _⟩ => ⟨hname, t, ht⟩, fun ⟨hname, t, ht⟩ => ⟨_, hname, t, ht, rfl⟩⟩
  · next hv => exact iff_of_false nofun fun ⟨f, hf, _⟩ => hv f hf

theorem isObj_of_hasKeys {v : Json} {k : String} {required allowed : List String} (h : HasKeys v (k :: required) allowed) :
    v.isObj = true := by
  cases v with
  | obj f => rfl
  | _ => exact absurd (h.1 k (by simp)) List.not_mem_nil

theorem returns_step {v : Json} {label : Str} : Returns (step v label) ↔ StepReads v := by
  simp only [Returns, step, object_eq_ok, bind_eq_ok, exists_const, keys_eq_ok, int_eq_ok, text_eq_ok,
    enum_eq_ok StepKind.mem_all StepKind.name_injective, pure_eq_ok]
  constructor
  · rintro ⟨s, -, hkeys, f, hf, n, hn, k, hk, t, ht, -⟩
    exact ⟨⟨hkeys, returns_stepFields.mp ⟨f, hf⟩, ⟨n, hn⟩, ⟨k, hk⟩⟩, ⟨t.1, ht, t.2⟩⟩
  · rintro ⟨⟨hkeys, hfields, ⟨n, hn⟩, ⟨k, hk⟩⟩, ⟨t, ht, hbounded⟩⟩
    obtain ⟨f, hf⟩ := returns_stepFields.mpr hfields
    exact ⟨_, isObj_of_hasKeys hkeys, hkeys, f, hf, n, hn, k, hk, ⟨t, hbounded⟩, ht, rfl⟩

theorem raises_step {v : Json} {label : Str} : Raises Untyped (step v label) ↔ StepUnencodable v := by
  simp only [step, raises_bind, raises_pure, raises_text, raises_stepFields, not_raises_object, not_raises_keys, not_raises_int,
    not_raises_enum, object_eq_ok, exists_const, keys_eq_ok, int_eq_ok, enum_eq_ok StepKind.mem_all StepKind.name_injective,
    and_false, exists_false, or_false, false_or]
  constructor
  · rintro ⟨-, hkeys, ⟨before, p, after, hfields, hbefore, hname, htext⟩ | ⟨f, hf, n, hn, k, hk, htext⟩⟩
    · exact .field hkeys before p after hfields hbefore hname htext
    · exact .timestamp ⟨hkeys, returns_stepFields.mp ⟨f, hf⟩, ⟨n, hn⟩, ⟨k, hk⟩⟩ htext
  · rintro (⟨hkeys, before, p, after, hfields, hbefore, hname, htext⟩ | ⟨⟨hkeys, hfields, ⟨n, hn⟩, ⟨k, hk⟩⟩, htext⟩)
    · exact ⟨isObj_of_hasKeys hkeys, hkeys, .inl ⟨before, p, after, hfields, hbefore, hname, htext⟩⟩
    · obtain ⟨f, hf⟩ := returns_stepFields.mpr hfields
      exact ⟨isObj_of_hasKeys hkeys, hkeys, .inr ⟨f, hf, n, hn, k, hk, htext⟩⟩

theorem raises_summary {v : Json} {label : Str} :
    Raises Untyped (summary v label) ↔ SummaryHeaded v ∧ (v.get "destination").Unencodable := by
  have hdigest : ∀ v label, ¬Raises Untyped (nullable (Preview.digest · label) v) := fun _ _ => not_raises_nullable not_raises_digest
  simp only [summary, raises_bind, raises_dite, raises_pure, raises_error, raises_text, not_raises_object, not_raises_keys, hdigest,
    not_raises_int, not_raises_enum, object_eq_ok, exists_const, keys_eq_ok, not_untyped_bad,
    enum_eq_ok DeliveryOutcome.mem_all DeliveryOutcome.name_injective, and_false, exists_false, or_false, false_or]
  constructor
  · rintro ⟨-, hkeys, o, ho, htext⟩
    exact ⟨⟨hkeys, ⟨o, ho⟩⟩, htext⟩
  · rintro ⟨⟨hkeys, ⟨o, ho⟩⟩, htext⟩
    exact ⟨isObj_of_hasKeys hkeys, hkeys, o, ho, htext⟩

theorem raises_delivery {v : Json} {label : Str} : Raises Untyped (delivery v label) ↔ DeliveryUnencodable v := by
  simp only [delivery, raises_bind, raises_ite, raises_pure, raises_ensure, raises_summary, not_raises_object, not_raises_keys,
    not_raises_bool, not_raises_digest, not_raises_enum, object_eq_ok, ensure_eq_ok, exists_const, keys_eq_ok, bool_eq_ok, Preview.digest_eq_ok,
    not_untyped_bad, and_false, exists_false, or_false, false_or]
  constructor
  · rintro ⟨-, hkeys, verified, hverified, hparts, d, hd, rfl, hsummary, htext⟩
    exact ⟨⟨hkeys, hverified, hparts, ⟨d, hd⟩⟩, hsummary, htext⟩
  · rintro ⟨⟨hkeys, hverified, hparts, ⟨d, hd⟩⟩, hsummary, htext⟩
    exact ⟨isObj_of_hasKeys hkeys, hkeys, true, hverified, hparts, d, hd, rfl, hsummary, htext⟩

/-! ### The label of a record is only for its messages -/

theorem summary_eq_ok_label {v : Json} {label label' : Str} {x : DeliverySummary} :
    summary v label = .ok x ↔ summary v label' = .ok x := by
  simp only [summary, bind_eq_ok, object_eq_ok, exists_const, keys_eq_ok, text_eq_ok, nullable_eq_ok, Preview.digest_eq_ok, int_eq_ok,
    enum_eq_ok DeliveryOutcome.mem_all DeliveryOutcome.name_injective, dite_eq_ok]

theorem DeliveryError.mem_all (e : DeliveryError) : e ∈ DeliveryError.all := by cases e <;> simp [DeliveryError.all]

theorem DeliveryError.name_injective : Function.Injective DeliveryError.name := by
  intro a b h
  cases a <;> cases b <;> first | rfl | exact absurd h (by decide)

theorem delivery_eq_ok_label {v : Json} {label label' : Str} {d : LineageDelivery} :
    delivery v label = .ok d ↔ delivery v label' = .ok d := by
  simp only [delivery, bind_eq_ok, object_eq_ok, exists_const, keys_eq_ok, ensure_eq_ok, bool_eq_ok, Preview.digest_eq_ok]
  refine and_congr_right fun _ => and_congr_right fun _ => exists_congr fun verified => and_congr_right fun _ => and_congr_right fun _ =>
    exists_congr fun digest => and_congr_right fun _ => ?_
  cases verified with
  | true =>
    simp only [if_true, bind_eq_ok, pure_eq_ok]
    exact exists_congr fun x => and_congr_left fun _ => summary_eq_ok_label
  | false =>
    simp only [Bool.false_eq_true, if_false, bind_eq_ok, pure_eq_ok, enum_eq_ok DeliveryError.mem_all DeliveryError.name_injective]

theorem returns_delivery {v : Json} {label : Str} : Returns (delivery v label) ↔ DeliveryReads v :=
  exists_congr fun _ => delivery_eq_ok_label

theorem verified_of_delivery {v : Json} {label : Str} {d : LineageDelivery} (h : delivery v label = .ok d) :
    v.get "verified" = .bool d.verified := by
  simp only [delivery, bind_eq_ok, bool_eq_ok] at h
  obtain ⟨_, -, _, -, verified, hverified, _, -, digest, -, h⟩ := h
  cases verified with
  | true =>
    simp only [if_true, bind_eq_ok, pure_eq_ok] at h
    obtain ⟨x, -, rfl⟩ := h
    exact hverified
  | false =>
    simp only [Bool.false_eq_true, if_false, bind_eq_ok, pure_eq_ok] at h
    obtain ⟨x, -, rfl⟩ := h
    exact hverified

/-! ### Lineages -/

theorem mapM_gaps {l : List Json} {gaps : List Gap} :
    (l.mapM fun v => enum Gap.all Gap.name v (Str.lit "gaps")) = .ok gaps ↔ l = gaps.map fun g => .str g.name :=
  Instance.mapM_eq_ok_map fun _ _ => enum_eq_ok Gap.mem_all Gap.name_injective

/-- The error of the ledger that was read goes with its gap. -/
theorem ledgered_iff {v : Json} {gaps : List Gap} : (∃ o, nullable (text · (Str.lit "ledger_error") maxTextBytes) (v.get "ledger_error") =
      .ok o ∧ o.isSome = decide (Gap.ledgerUnverified ∈ gaps)) ↔
    v.get "ledger_error" = .null ∧ Gap.ledgerUnverified ∉ gaps ∨
      TextReads maxTextBytes (v.get "ledger_error") ∧ Gap.ledgerUnverified ∈ gaps := by
  simp only [nullable_eq_ok, text_eq_ok]
  constructor
  · rintro ⟨o, ⟨hnull, rfl⟩ | ⟨-, t, ht, rfl⟩, hgap⟩
    · exact .inl ⟨hnull, by simpa using hgap⟩
    · exact .inr ⟨⟨t.1, ht, t.2⟩, by simpa using hgap⟩
  · rintro (⟨hnull, hgap⟩ | ⟨⟨t, ht, hbounded⟩, hgap⟩)
    · exact ⟨none, .inl ⟨hnull, rfl⟩, by simp [hgap]⟩
    · refine ⟨some ⟨t, hbounded⟩, .inr ⟨?_, ⟨t, hbounded⟩, ht, rfl⟩, by simp [hgap]⟩
      rw [ht]
      exact Json.noConfusion

/-- The deliveries that were read are not all verified exactly if one of those written is not. -/
theorem unverified_iff {l : List Json} {m : List LineageDelivery} (h : items delivery "deliveries" l = .ok m) :
    (m.any fun d => !d.verified) = true ↔ ∃ w ∈ l, w.get "verified" = .bool false := by
  have hread := forall₂_of_items h
  rw [List.any_eq_true]
  constructor
  · rintro ⟨d, hd, hverified⟩
    obtain ⟨w, hw, label, hlabel⟩ := exists_mem_of_forall₂ hread.flip hd
    refine ⟨w, hw, ?_⟩
    rw [verified_of_delivery hlabel]
    simpa using hverified
  · rintro ⟨w, hw, hverified⟩
    obtain ⟨d, hd, label, hlabel⟩ := exists_mem_of_forall₂ hread hw
    rw [verified_of_delivery hlabel] at hverified
    refine ⟨d, hd, ?_⟩
    simpa using hverified

theorem raises_steps {l : List Json} : Raises Untyped (items step "steps" l) ↔
    ∃ before w after, l = before ++ w :: after ∧ (∀ x ∈ before, StepReads x) ∧ StepUnencodable w := by
  have hread : ∀ v s, Returns (step v s) ↔ StepReads v := fun _ _ => returns_step
  rw [raises_items_of hread]
  simp only [raises_step]

theorem returns_steps {l : List Json} : (∃ m, items step "steps" l = .ok m) ↔ ∀ w ∈ l, StepReads w := by
  have hread : ∀ v s, Returns (step v s) ↔ StepReads v := fun _ _ => returns_step
  exact returns_items_of hread

theorem raises_deliveries {l : List Json} : Raises Untyped (items delivery "deliveries" l) ↔
    ∃ before w after, l = before ++ w :: after ∧ (∀ x ∈ before, DeliveryReads x) ∧ DeliveryUnencodable w := by
  have hread : ∀ v s, Returns (delivery v s) ↔ DeliveryReads v := fun _ _ => returns_delivery
  rw [raises_items_of hread]
  simp only [raises_delivery]

theorem returns_deliveries {l : List Json} : (∃ m, items delivery "deliveries" l = .ok m) ↔ ∀ w ∈ l, DeliveryReads w := by
  have hread : ∀ v s, Returns (delivery v s) ↔ DeliveryReads v := fun _ _ => returns_delivery
  exact returns_items_of hread

theorem LineageDelivered.exists_deliveries {v : Json} {gaps : List Gap} (h : LineageDelivered v gaps) :
    ∃ l m, (v.get "deliveries" = .arr l ∧ l.length ≤ maxLineageItems) ∧ items delivery "deliveries" l = .ok m ∧
      (m.any fun d => !d.verified) = decide (Gap.deliveryUnverified ∈ gaps) := by
  obtain ⟨l, hl, hlength, hreads, hgap⟩ := h.deliveries
  obtain ⟨m, hm⟩ := returns_deliveries.mpr hreads
  refine ⟨l, m, ⟨hl, hlength⟩, hm, ?_⟩
  rw [Bool.eq_iff_iff, unverified_iff hm, hgap, decide_eq_true_eq]

theorem raises_scopeOf {v : Json} : Raises Untyped (scopeOf v) ↔ (v.get "scope").Unencodable := by
  unfold scopeOf Json.get
  cases v.get? "scope" with
  | none => exact iff_of_false nofun not_false
  | some w => exact raises_map.trans raises_text

/-- The reader of a lineage raises an untyped exception exactly where it measures a text that does not encode. -/
theorem raises_parseTaskLineage {v : Json} : Raises Untyped (parseTaskLineage v) ↔ LineageUnencodable v := by
  have hgaps : ∀ l : List Json, ¬Raises Untyped (l.mapM fun v => enum Gap.all Gap.name v (Str.lit "gaps")) := by
    intro l
    rw [raises_mapM]
    rintro ⟨_, _, _, -, -, h⟩
    exact not_raises_enum h
  simp only [parseTaskLineage, raises_bind, raises_dite, raises_ensure, raises_pure, raises_error, raises_nullable, raises_text,
    raises_steps, raises_deliveries, raises_scopeOf, not_raises_object, not_raises_keys, not_raises_list,
    not_raises_enum, hgaps, object_eq_ok, ensure_eq_ok, exists_const, keys_eq_ok, list_eq_ok, text_eq_ok, mapM_gaps, not_untyped_bad,
    and_false, exists_false, or_false, false_or]
  constructor
  · rintro ⟨-, hkeys, hschema, _, ⟨hgapList, hbounded⟩, gaps, rfl, hdistinct, ⟨-, htext⟩ | ⟨o, hledger, hgap, stepList,
      ⟨hstepList, hstepBound⟩, hrest⟩⟩
    · exact .ledgerError gaps ⟨hkeys, hschema, hgapList, by simpa using hbounded, hdistinct⟩ htext
    · have hledgered : LineageLedgered v gaps :=
        ⟨⟨hkeys, hschema, hgapList, by simpa using hbounded, hdistinct⟩, ledgered_iff.mp ⟨o, hledger, hgap⟩⟩
      rcases hrest with ⟨before, w, after, rfl, hbefore, hw⟩ | ⟨steps, hsteps, deliveryList, ⟨hdeliveryList, hdeliveryBound⟩, hrest⟩
      · exact .step gaps hledgered before w after hstepList hstepBound hbefore hw
      · have hstepped : LineageStepped v gaps :=
          ⟨hledgered, stepList, hstepList, hstepBound, returns_steps.mp ⟨steps, hsteps⟩⟩
        rcases hrest with ⟨before, w, after, rfl, hbefore, hw⟩ | ⟨deliveries, hdeliveries, hunverified, hrest⟩
        · exact .delivery gaps hstepped before w after hdeliveryList hdeliveryBound hbefore hw
        · have hdelivered : LineageDelivered v gaps :=
            ⟨hstepped, deliveryList, hdeliveryList, hdeliveryBound,
              returns_deliveries.mp ⟨deliveries, hdeliveries⟩, by
                rw [← unverified_iff hdeliveries, hunverified, decide_eq_true_eq]⟩
          rcases hrest with htext | ⟨t, ht, htext⟩
          · exact .taskId gaps hdelivered htext
          · exact .scope gaps hdelivered ⟨t.1, ht, t.2⟩ htext
  · intro h
    have hhead : ∀ {gaps : List Gap}, LineageHeaded v gaps → v.isObj = true ∧ (gaps.map fun g => Json.str g.name).length ≤ Gap.all.length :=
      fun h => ⟨isObj_of_hasKeys h.keys, by simpa using h.bounded⟩
    cases h with
    | ledgerError gaps h htext =>
      have hnull : v.get "ledger_error" ≠ .null := by
        intro hnull
        rw [hnull] at htext
        exact htext
      exact ⟨(hhead h).1, h.keys, h.schema, _, ⟨h.named, (hhead h).2⟩, gaps, rfl, h.distinct, .inl ⟨hnull, htext⟩⟩
    | step gaps h before w after hsteps hbounded hbefore hw =>
      obtain ⟨o, hledger, hgap⟩ := ledgered_iff.mpr h.ledger
      exact ⟨(hhead h.1).1, h.keys, h.schema, _, ⟨h.named, (hhead h.1).2⟩, gaps, rfl, h.distinct,
        .inr ⟨o, hledger, hgap, _, ⟨hsteps, hbounded⟩, .inl ⟨before, w, after, rfl, hbefore, hw⟩⟩⟩
    | delivery gaps h before w after hdeliveries hbounded hbefore hw =>
      obtain ⟨o, hledger, hgap⟩ := ledgered_iff.mpr h.ledger
      obtain ⟨l, hl, hlength, hreads⟩ := h.steps
      obtain ⟨steps, hsteps⟩ := returns_steps.mpr hreads
      exact ⟨(hhead h.1.1).1, h.keys, h.schema, _, ⟨h.named, (hhead h.1.1).2⟩, gaps, rfl, h.distinct,
        .inr ⟨o, hledger, hgap, l, ⟨hl, hlength⟩, .inr ⟨steps, hsteps, _, ⟨hdeliveries, hbounded⟩,
          .inl ⟨before, w, after, rfl, hbefore, hw⟩⟩⟩⟩
    | taskId gaps h htext =>
      obtain ⟨o, hledger, hgap⟩ := ledgered_iff.mpr h.ledger
      obtain ⟨l, hl, hlength, hreads⟩ := h.steps
      obtain ⟨steps, hsteps⟩ := returns_steps.mpr hreads
      obtain ⟨deliveryList, deliveries, hlist, hdeliveries, hunverified⟩ := h.exists_deliveries
      exact ⟨(hhead h.1.1.1).1, h.keys, h.schema, _, ⟨h.named, (hhead h.1.1.1).2⟩, gaps, rfl, h.distinct,
        .inr ⟨o, hledger, hgap, l, ⟨hl, hlength⟩, .inr ⟨steps, hsteps, deliveryList, hlist,
          .inr ⟨deliveries, hdeliveries, hunverified, .inl htext⟩⟩⟩⟩
    | scope gaps h htask htext =>
      obtain ⟨o, hledger, hgap⟩ := ledgered_iff.mpr h.ledger
      obtain ⟨l, hl, hlength, hreads⟩ := h.steps
      obtain ⟨steps, hsteps⟩ := returns_steps.mpr hreads
      obtain ⟨deliveryList, deliveries, hlist, hdeliveries, hunverified⟩ := h.exists_deliveries
      obtain ⟨t, ht, hbounded⟩ := htask
      exact ⟨(hhead h.1.1.1).1, h.keys, h.schema, _, ⟨h.named, (hhead h.1.1.1).2⟩, gaps, rfl, h.distinct,
        .inr ⟨o, hledger, hgap, l, ⟨hl, hlength⟩, .inr ⟨steps, hsteps, deliveryList, hlist,
          .inr ⟨deliveries, hdeliveries, hunverified, .inr ⟨⟨t, hbounded⟩, ht, htext⟩⟩⟩⟩⟩

end LeanCtx.Store
