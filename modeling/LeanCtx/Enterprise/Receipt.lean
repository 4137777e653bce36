import LeanCtx.Enterprise.Outcome
import LeanCtx.Json.Printable
import LeanCtx.Session.Evidence

/-! What the receipts of outcomes are evidence of: the text that was answered, the value it is the canonical text of, the digests
    of both, and the task and the decision that were asked about. Two receipts of one identifier differ in their signature alone. -/

namespace LeanCtx

namespace Enterprise
open Json

/-- The hash tells the identities of two documents apart. -/
def Distinguishes (d d' : Json) : Prop := ∀ i i', (identityOf d).canonicalBytes? = some i →
  (identityOf d').canonicalBytes? = some i' → digestOf i = digestOf i' → i = i'

section
variable {d d' : Json} {data data' : Bytes} {receiptId : Digest} {acceptance acceptance' : Acceptance} {taskId taskId' : Str}
  {decision decision' : Digest}

/-- Documents of one identifier agree on everything but the signature. -/
theorem ReceiptJoins.without_signature_eq (h : ReceiptJoins d data receiptId acceptance taskId decision)
    (h' : ReceiptJoins d' data' receiptId acceptance' taskId' decision') (hsha : Distinguishes d d') :
    d.without ["signature"] = d'.without ["signature"] := by
  obtain ⟨hplain, f, rfl⟩ := isPlain_of_loads h.loads h.canonical
  obtain ⟨hplain', f', rfl⟩ := isPlain_of_loads h'.loads h'.canonical
  obtain ⟨i, hi, hdigest⟩ := h.identity
  obtain ⟨i', hi', hdigest'⟩ := h'.identity
  obtain rfl := hsha i i' hi hi' (hdigest.trans hdigest'.symm)
  have hidentity : identityOf (.obj f) = identityOf (.obj f') := by
    have heq := canonicalBytes?_inj (f := f.filter fun p => ["receipt_id", "signature"].all fun k => p.1 ≠ Str.lit k)
      (g := f'.filter fun p => ["receipt_id", "signature"].all fun k => p.1 ≠ Str.lit k) hi hi'
    exact (isPlain_without _ hplain).symm.trans (heq.trans (isPlain_without _ hplain'))
  refine without_eq_of_get? (isPlain_obj hplain).1 (isPlain_obj hplain').1 hidentity ?_
  have hsome : ∀ {v : Json}, v.get "receipt_id" = receiptId.json → v.get? "receipt_id" = some receiptId.json := by
    intro v hv
    rw [Json.get] at hv
    cases hget : v.get? "receipt_id" with
    | none =>
      rw [hget] at hv
      cases hv
    | some w =>
      rw [hget] at hv
      exact congrArg some hv
  rw [hsome h.receiptId, hsome h'.receiptId]

end

/-- What an accepted receipt holds: its text has the digest it is answered with, is the canonical text of a document, and the
    document is joined to the request. -/
structure OutcomeReceipt.Binds (r : OutcomeReceipt) (document : Json) (taskId receiptDigest contextDecisionDigest : Str) : Prop where
  digest : digestOf r.receiptDocumentJson.bytes = r.receiptDigest
  original : r.originalReceiptDigest.1 = receiptDigest
  joins : ∃ decision : Digest, decision.1 = contextDecisionDigest ∧
    ReceiptJoins document r.receiptDocumentJson.bytes r.receiptId r.acceptance taskId decision

/-- Accepted receipts are bound to their text and to the request, and two receipts of one identifier carry documents that agree on
    everything but the signature. -/
theorem outcome_receipts_bound {raw raw' : Bytes} {taskId receiptDigest decisionDigest tenantId : Str}
    {taskId' receiptDigest' decisionDigest' tenantId' : Str} {r r' : OutcomeReceipt}
    (h : parseEngineOutcomeResponse raw taskId receiptDigest decisionDigest tenantId = .ok r)
    (h' : parseEngineOutcomeResponse raw' taskId' receiptDigest' decisionDigest' tenantId' = .ok r') :
    ∃ document document', r.Binds document taskId receiptDigest decisionDigest ∧
      r'.Binds document' taskId' receiptDigest' decisionDigest' ∧
      (r.receiptId = r'.receiptId → Distinguishes document document' →
        document.without ["signature"] = document'.without ["signature"]) := by
  obtain ⟨-, haccepted⟩ := parseEngineOutcomeResponse_eq_ok.mp h
  obtain ⟨-, haccepted'⟩ := parseEngineOutcomeResponse_eq_ok.mp h'
  obtain ⟨decision, hdecision, document, hjoins⟩ := haccepted.joins
  obtain ⟨decision', hdecision', document', hjoins'⟩ := haccepted'.joins
  refine ⟨document, document', ⟨haccepted.digest, haccepted.original, decision, hdecision, hjoins⟩,
    ⟨haccepted'.digest, haccepted'.original, decision', hdecision', hjoins'⟩, fun hid hsha => ?_⟩
  rw [← hid] at hjoins'
  exact hjoins.without_signature_eq hjoins' hsha

/-- A receipt that is joined to a request, and that fits in a response, is answered by some bytes. -/
theorem OutcomeReceipt.exists_raw {r : OutcomeReceipt} {taskId receiptDigest decisionDigest : Str}
    (hfits : Json.Fits maxOutcomeResponseBytes r.toDict) (htask : isField maxOutcomeTaskBytes false true taskId = true)
    (horiginal : r.originalReceiptDigest.1 = receiptDigest) (hdigest : digestOf r.receiptDocumentJson.bytes = r.receiptDigest)
    (hjoins : ∃ decision : Digest, decision.1 = decisionDigest ∧
      ∃ document, ReceiptJoins document r.receiptDocumentJson.bytes r.receiptId r.acceptance taskId decision) :
    ∃ raw, parseEngineOutcomeResponse raw taskId receiptDigest decisionDigest r.tenantId = .ok r := by
  obtain ⟨⟨raw, hraw⟩, hlength⟩ := hfits
  rw [← length_canonicalBytes hraw] at hlength
  have houtcome : r.toDict.get "outcome" = r.outcome := get_mkObj _ _
  have hplain : IsPlain r.toDict := by
    have hinner : IsPlain r.outcome := by
      refine isPlain_mkObj ?_
      simp only [List.mem_cons, List.not_mem_nil, or_false, forall_eq_or_imp, forall_eq]
      exact ⟨rfl, rfl, rfl, rfl, rfl, rfl, rfl⟩
    refine isPlain_mkObj ?_
    simp only [List.mem_cons, List.not_mem_nil, or_false, forall_eq_or_imp, forall_eq]
    exact ⟨rfl, rfl, hinner⟩
  have hload : strictLoads? raw = some r.toDict := (strictLoads?_canonical hraw).trans (congrArg some hplain)
  have hwritable : r.outcome.Writable := by
    have hdocument := r.receiptDocumentJson.2
    simp only [isField, Bool.and_eq_true] at hdocument
    refine writable_mkObj ?_
    simp only [List.mem_cons, List.not_mem_nil, or_false, forall_eq_or_imp, forall_eq]
    exact ⟨writable_int (by decide), writable_digest _, writable_digest _, writable_digest _, writable_lit _, writable_bool _,
      writable_str hdocument.1.1.1⟩
  refine ⟨raw, parseEngineOutcomeResponse_eq_ok.mpr ⟨rfl, hlength, ⟨r.toDict, hload, hasExactly_mkObj_self _, get_mkObj _ _,
    get_mkObj _ _, ?_⟩, htask, horiginal, hdigest, hjoins⟩⟩
  rw [houtcome]
  exact ⟨hwritable, hasExactly_mkObj_self _, get_mkObj _ _, get_mkObj _ _, get_mkObj _ _, get_mkObj _ _, get_mkObj _ _,
    get_mkObj _ _, get_mkObj _ _⟩

/-! ### A receipt signed twice -/

namespace OutcomeSample
open InstanceResponse.Sample (fits_bare fits_one fits_digest fits_null fits_object isBare_append)

/-- The digest of the decision, of the receipt before and of its successor's predecessor. -/
def decision : Digest := digestOf [97]

def runtimeRef : Json :=
  mkObj [("kind", .str "runtime"), ("digest", decision.json), ("uri", .str (evidenceUri decision))]

/-- The document without its identifier and its signature. -/
def fields : List (String × Json) :=
  [("schema_version", .int 1), ("lineage", mkObj [("task_id", .str "t")]), ("chain", mkObj [("previous_receipt_id", decision.json)]),
    ("status", .null), ("values", .null), ("outcome", mkObj [("state", .str "accepted")]), ("evidence_refs", .arr [runtimeRef]),
    ("issued_at", .null), ("signer", .null)]

/-- The identifier: the digest of the canonical bytes of the fields. -/
def receiptId : Digest := digestOf ((canonicalBytes? (mkObj fields)).getD [])

def document (signature : String) : Json := mkObj (("receipt_id", receiptId.json) :: ("signature", .str signature) :: fields)

theorem fits_decision : Json.Fits 100 decision.json := fits_digest decision

theorem fits_uri : Json.Fits 200 (.str (evidenceUri decision)) :=
  (fits_str (isBare_append (by decide) decision.isBare_hex)).mono (by
    rw [List.length_append, Digest.hex, List.length_drop, decision.isBare.1]
    decide)

theorem fits_runtimeRef : Json.Fits 2200 runtimeRef := by
  refine fits_object (n := 200) rfl (by decide) (by decide) ?_
  simp only [List.mem_cons, List.not_mem_nil, or_false, forall_eq_or_imp, forall_eq]
  exact ⟨(fits_bare (by decide) (by decide)).mono (by decide), fits_decision.mono (by decide), fits_uri⟩

theorem fits_single {k : String} {v : Json} (hk : BareKeys 30 [k]) (hv : Json.Fits 100 v) : Json.Fits 2500 (mkObj [(k, v)]) :=
  fits_object (n := 100) rfl ⟨hk, Nat.le_add_left 1 8⟩ (by decide)
    (List.forall_mem_singleton.mpr hv)

theorem fits_fields : ∀ p ∈ fields, Json.Fits 2500 p.2 := by
  have hnull : Json.Fits 2500 .null := fits_null.mono (by decide)
  have hrefs : Json.Fits 2500 (.arr [runtimeRef]) :=
    (fits_arr (List.forall_mem_singleton.mpr fits_runtimeRef) (by decide)).mono (by decide)
  simp only [fields, List.mem_cons, List.not_mem_nil, or_false, forall_eq_or_imp, forall_eq]
  exact ⟨fits_one.mono (by decide),
    fits_single (by decide) (fits_bare (by decide) (by decide)), fits_single (by decide) fits_decision,
    hnull, hnull, fits_single (by decide) (fits_bare (by decide) (by decide)), hrefs, hnull, hnull⟩

theorem plain_fields : ∀ p ∈ fields, IsPlain p.2 := by
  have hsingle : ∀ {k : String} {v : Json}, IsPlain v → IsPlain (mkObj [(k, v)]) := fun h =>
    isPlain_mkObj (List.forall_mem_singleton.mpr h)
  have hruntime : IsPlain runtimeRef := by
    refine isPlain_mkObj ?_
    simp only [List.mem_cons, List.not_mem_nil, or_false, forall_eq_or_imp, forall_eq]
    exact ⟨rfl, rfl, rfl⟩
  simp only [fields, List.mem_cons, List.not_mem_nil, or_false, forall_eq_or_imp, forall_eq]
  exact ⟨rfl, hsingle rfl, hsingle rfl, rfl, rfl, hsingle rfl, isPlain_arr (List.forall_mem_singleton.mpr hruntime), rfl, rfl⟩

theorem fits_document {signature : String} (h : Json.Fits 100 (.str signature)) : Json.Fits 28000 (document signature) := by
  refine (fits_mkObj (n := 2500) (k := 30) (l := ["receipt_id", "signature", "schema_version", "lineage", "chain", "status",
    "values", "outcome", "evidence_refs", "issued_at", "signer"]) rfl (by decide) ?_).mono (by decide)
  exact List.forall_mem_cons.mpr ⟨(fits_digest receiptId).mono (by decide),
    List.forall_mem_cons.mpr ⟨h.mono (by decide), fits_fields⟩⟩

theorem isPlain_document (signature : String) : IsPlain (document signature) :=
  isPlain_mkObj (List.forall_mem_cons.mpr ⟨rfl, List.forall_mem_cons.mpr ⟨rfl, plain_fields⟩⟩)

/-- The identity of the document does not depend on its signature. -/
theorem identityOf_document (signature : String) : identityOf (document signature) = mkObj fields := by
  rw [identityOf, document, without_mkObj]
  rfl

theorem without_document (signature : String) :
    (document signature).without ["signature"] = mkObj (("receipt_id", receiptId.json) :: fields) := by
  rw [document, without_mkObj]
  rfl

theorem get_document (signature : String) (k : String) : (document signature).get k =
    (((("receipt_id", receiptId.json) :: ("signature", .str signature) :: fields).find? fun p => p.1 = k).map (·.2)).getD .null :=
  get_mkObj _ _

theorem hasKeys (k : String) : k ∈ ["receipt_id", "signature"] ++ fields.map (·.1) ↔ k ∈ receiptKeys := by
  simp only [fields, receiptKeys, List.map_cons, List.map_nil, List.cons_append, List.nil_append, List.mem_cons, List.not_mem_nil]
  tauto

theorem receiptJoins {signature : String} {data : Bytes} (hdata : (document signature).canonicalBytes? = some data) :
    ReceiptJoins (document signature) data receiptId .accepted "t" decision := by
  obtain ⟨i, hi⟩ := writable_mkObj fun p hp => (fits_fields p hp).1
  have hload : strictLoads? data = some (document signature) :=
    (strictLoads?_canonical hdata).trans (congrArg some (isPlain_document signature))
  have hid : digestOf i = receiptId := by
    rw [receiptId, hi]
    rfl
  have hchain : (document signature).get "chain" = mkObj [("previous_receipt_id", decision.json)] := get_document _ _
  have hlineage : (document signature).get "lineage" = mkObj [("task_id", .str "t")] := get_document _ _
  have hstate : (document signature).get "outcome" = mkObj [("state", .str "accepted")] := get_document _ _
  have hkind : runtimeRef.get "kind" = .str "runtime" := get_mkObj _ _
  have hrefs : runtimeRefs [runtimeRef] = [runtimeRef] := by
    rw [runtimeRefs, List.filter_singleton, hkind]
    rfl
  constructor
  case loads => exact hload
  case canonical => exact hdata
  case keys => exact hasExactly_mkObj.mpr fun k => Iff.rfl.trans (hasKeys k)
  case schema => exact get_document _ _
  case identity => exact ⟨i, by rw [identityOf_document, hi], hid⟩
  case receiptId => exact get_document _ _
  case state =>
    rw [hstate]
    exact get_mkObj _ _
  case previous =>
    rw [hchain]
    exact ⟨decision, get_mkObj _ _⟩
  case task =>
    rw [hlineage]
    exact get_mkObj _ _
  case evidence =>
    refine ⟨[runtimeRef], get_document _ _, by rw [hrefs]; exact List.cons_ne_nil _ _, fun r hr => ?_⟩
    rw [hrefs] at hr
    rw [List.mem_singleton.mp hr]
    exact ⟨get_mkObj _ _, get_mkObj _ _⟩

/-- The document under any short signature is accepted. -/
theorem exists_accepted (signature : String) (h : Json.Fits 100 (.str signature)) : ∃ raw r,
    parseEngineOutcomeResponse raw "t" decision.1 decision.1 "tenant" = .ok r ∧ r.receiptId = receiptId := by
  obtain ⟨⟨data, hdata⟩, hlength⟩ := fits_document h
  rw [← length_canonicalBytes hdata] at hlength
  obtain ⟨t, ht, hbytes⟩ := Option.bind_eq_some_iff.mp hdata
  have hutf8 := Str.length_utf8 hbytes
  have hscalar : t.all Str.isScalar = true ∧ t.flatMap Str.encodePoint = data := by
    unfold Str.utf8? at hbytes
    split_ifs at hbytes with hs
    exact ⟨hs, Option.some.inj hbytes⟩
  have hprintable := printable_text _ ht
  have hne : t ≠ [] := by
    obtain ⟨ts, -, rfl⟩ := Option.map_eq_some_iff.mp ht
    exact List.cons_ne_nil _ _
  have hfield : isField maxReceiptDocumentBytes false false t = true := by
    have hnul : ¬0 ∈ t := fun hmem => absurd (hprintable 0 hmem) (by decide)
    have hbound : t.utf8Length ≤ maxReceiptDocumentBytes := by
      rw [← hutf8]
      exact hlength.trans (by decide)
    simp [isField, hscalar.1, hne, hnul, hbound]
  have hdocument : Json.Fits 168100 (.str t) := (fits_text hscalar.1 (hutf8 ▸ hlength)).mono (by decide)
  have hbytes : Field.bytes (⟨t, hfield⟩ : Field maxReceiptDocumentBytes false false) = data := hscalar.2
  have hjoins : ReceiptJoins (document signature) (Field.bytes (⟨t, hfield⟩ : Field maxReceiptDocumentBytes false false)) receiptId
      .accepted "t" decision := hbytes.symm ▸ receiptJoins hdata
  suffices hfits : Json.Fits maxOutcomeResponseBytes
      (OutcomeReceipt.mk "tenant" receiptId (digestOf data) decision .accepted false ⟨t, hfield⟩).toDict by
    obtain ⟨raw, hraw⟩ := OutcomeReceipt.exists_raw hfits (by decide) rfl (congrArg digestOf hbytes) ⟨decision, rfl, _, hjoins⟩
    exact ⟨raw, _, hraw, rfl⟩
  have hmono : ∀ {v : Json}, Json.Fits 100 v → Json.Fits 168100 v := fun h => h.mono (by decide)
  have hname : Json.Fits 168100 (.str Acceptance.accepted.name) := hmono (fits_bare (by decide) (by decide))
  have hfalse : Json.Fits 100 (.bool false) := ⟨writable_bool false, by decide⟩
  have hdocument : Json.Fits 168100 (.str t) := (fits_text hscalar.1 (hutf8 ▸ hlength)).mono (by decide)
  refine (fits_mkObj (n := 1180000) (k := 30) (l := ["schema_version", "tenant_id", "outcome"]) rfl (by decide) ?_).mono
    (by decide)
  simp only [List.mem_cons, List.not_mem_nil, or_false, forall_eq_or_imp, forall_eq]
  refine ⟨fits_one.mono (by decide), (fits_bare (by decide) (by decide)).mono (by decide), ?_⟩
  refine (fits_mkObj (n := 168100) (k := 30) (l := outcomeKeys) rfl (by decide) ?_).mono (by decide)
  simp only [List.mem_cons, List.not_mem_nil, or_false, forall_eq_or_imp, forall_eq]
  exact ⟨hmono fits_one, hmono (fits_digest _), hmono (fits_digest _), hmono fits_decision, hname, hmono hfalse, hdocument⟩

end OutcomeSample

open OutcomeSample in
/-- Two signatures of one receipt are accepted, and the receipts agree on everything else. -/
theorem exists_outcome_receipts : ∃ raw raw' r r', parseEngineOutcomeResponse raw "t" decision.1 decision.1 "tenant" = .ok r ∧
    parseEngineOutcomeResponse raw' "t" decision.1 decision.1 "tenant" = .ok r' ∧ r.receiptId = r'.receiptId ∧
    ∃ d d', r.Binds d "t" decision.1 decision.1 ∧ r'.Binds d' "t" decision.1 decision.1 ∧
      (r.receiptId = r'.receiptId → Distinguishes d d' → d.without ["signature"] = d'.without ["signature"]) := by
  obtain ⟨raw, r, h, hid⟩ := exists_accepted "a" (InstanceResponse.Sample.fits_bare (by decide) (by decide))
  obtain ⟨raw', r', h', hid'⟩ := exists_accepted "b" (InstanceResponse.Sample.fits_bare (by decide) (by decide))
  exact ⟨raw, raw', r, r', h, h', hid.trans hid'.symm, outcome_receipts_bound h h'⟩

end Enterprise
end LeanCtx
