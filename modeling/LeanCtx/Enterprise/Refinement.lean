import LeanCtx.Enterprise.Execution
import LeanCtx.Json.Decoding
import LeanCtx.Workspace.Agreement

/-! The second version of an execution answer beside the first. It reads an envelope of its own and hands what is inside to the reader
    of the first version, written anew; that reader sees the value of a document and not its layout, so nothing is lost or gained. -/

namespace LeanCtx

namespace Json

/-- A text that is read as the value, whatever its layout: its encoding, its spaces, its escapes and the order of members. -/
def IsLayout (raw : Bytes) (v : Json) : Prop := ∃ w, strictLoads? raw = some w ∧ w.plain = v.plain

theorem isPlain_loads {raw : Bytes} {v : Json} (h : strictLoads? raw = some v) : IsPlain v := by
  obtain ⟨t, ht, -⟩ := Option.bind_eq_some_iff.mp h
  exact (tells_loads h ht).1

/-- All layouts of a value are read alike. -/
theorem IsLayout.loads {raw : Bytes} {v : Json} (h : IsLayout raw v) : strictLoads? raw = some v.plain := by
  obtain ⟨w, hw, heq⟩ := h
  rw [hw, ← heq, isPlain_loads hw]

theorem isLayout_canonical {raw : Bytes} {v : Json} (h : canonicalBytes? v = some raw) (hobj : v.isObj = true) : IsLayout raw v := by
  refine ⟨v.plain, ?_, plain_plain v⟩
  cases v with
  | obj f => exact strictLoads?_canonical h
  | _ => cases hobj

end Json

namespace Enterprise.Execution
open Json
open Planning (maxU64)

/-- The document of the first version that a second one is about. -/
def documentV1 (tenantId : Str) (revision : Nat) (nested : Json) : Json :=
  mkObj [("schema_version", .int 1), ("tenant_id", .str tenantId), ("governance_revision", .int revision), ("execution", nested)]

theorem writable_nested {tenantId : Str} {revision : Nat} {nested : Json} (h : Writable (documentV1 tenantId revision nested)) :
    Writable nested := by
  have hall := writable_of_mkObj (by simp) h
  simp only [List.mem_cons, List.not_mem_nil, or_false, forall_eq_or_imp, forall_eq] at hall
  exact hall.2.2.2

/-- The execution of a second version. -/
def executionV2 (nested : Json) (document : Str) : Json :=
  mkObj [("schema_version", .int 2), ("execution", nested), ("receipt_document_json", .str document)]

/-- The envelope of a second version, with its byte bounds: what is nested in it, the text of the receipt and its bytes. -/
structure EnvelopeV2 (raw : Bytes) (tenantId : Str) (revision : Nat) (nested : Json) (document : Str) (bytes : Bytes) : Prop where
  length : raw.length ≤ maxResponseV2Bytes + maxWrapperV2Bytes
  wrapper : ∃ value, strictLoads? raw = some value ∧ value.hasExactly wrapperKeys = true ∧ value.get "schema_version" = .int 2 ∧
    value.get "tenant_id" = .str tenantId ∧ value.get "governance_revision" = .int revision ∧
    (value.get "execution").hasExactly ["schema_version", "execution", "receipt_document_json"] = true ∧
    Writable (value.get "execution") ∧ (value.get "execution").get "schema_version" = .int 2 ∧
    (value.get "execution").get "execution" = nested ∧ (value.get "execution").get "receipt_document_json" = .str document
  bounded : revision ≤ maxU64
  object : nested.isObj = true
  receipt : document.utf8? = some bytes ∧ bytes.length ≤ maxReceiptDocumentBytes
  inner : ∃ b, canonicalBytes? (executionV2 nested document) = some b ∧ b.length ≤ maxResponseV2Bytes
  canonical : Writable (documentV1 tenantId revision nested)

/-- A text is the envelope of one execution and of one receipt. -/
theorem EnvelopeV2.unique {raw : Bytes} {tenantId : Str} {revision : Nat} {nested nested' : Json} {document document' : Str}
    {bytes bytes' : Bytes} (h : EnvelopeV2 raw tenantId revision nested document bytes)
    (h' : EnvelopeV2 raw tenantId revision nested' document' bytes') : nested = nested' ∧ document = document' ∧ bytes = bytes' := by
  obtain ⟨v, hv, -, -, -, -, -, -, -, rfl, hdocument⟩ := h.wrapper
  obtain ⟨w, hw, -, -, -, -, -, -, -, rfl, hdocument'⟩ := h'.wrapper
  cases hv.symm.trans hw
  obtain rfl := Json.str.inj (hdocument.symm.trans hdocument')
  exact ⟨rfl, rfl, Option.some.inj (h.receipt.1.symm.trans h'.receipt.1)⟩

section
variable {raw : Bytes} {request : Planning.Request} {sourceIds : List Str} {task plan : Json} {tenantId : Str} {revision : Nat} {bindingDigest : Str}
  {time : Option Str}

/-- Two texts that are read as one value are accepted alike. -/
theorem parse_congr {raw' : Bytes} (h : strictLoads? raw = strictLoads? raw') :
    parse raw request sourceIds task plan tenantId revision bindingDigest time =
      parse raw' request sourceIds task plan tenantId revision bindingDigest time := by
  unfold parse loads
  rw [h]

/-- What an accepted second version is: an envelope, and a first version that is accepted in its canonical text. -/
theorem parseV2_eq_ok {r : ResponseV2} : parseV2 raw request sourceIds task plan tenantId revision bindingDigest time = .ok r ↔
    ∃ nested bytes v1, EnvelopeV2 raw tenantId revision nested r.receiptDocument bytes ∧
      canonicalBytes? (documentV1 tenantId revision nested) = some v1 ∧
      parse v1 request sourceIds task plan tenantId revision bindingDigest time = .ok r.execution ∧
      r.execution.receipt.receiptDigest = digestOf bytes := by
  constructor
  · intro h
    simp only [parseV2, exactKeys, bind_eq_ok, ensure_eq_ok, exists_const, loads_eq_ok, integer_eq_ok, mapping_eq_ok] at h
    obtain ⟨hlength, value, hvalue, hkeys, hschema, htenant, found, ⟨hfound, hmax⟩, rfl, ⟨-, hwritable⟩, hexact, hversion, h⟩ := h
    split at h
    · next document hdocument =>
      split at h
      · cases h
      · next bytes hbytes =>
        simp only [bind_eq_ok, ensure_eq_ok, exists_const, wrapping_eq_ok, Planning.canonical_eq_ok, mapping_eq_ok, Except.ok.injEq] at h
        obtain ⟨hreceipt, ⟨hnested, -⟩, inner, hinner, hbound, v1, hv1, execution, hparse, hdigest, rfl⟩ := h
        exact ⟨_, bytes, v1, ⟨hlength, ⟨value, hvalue, hkeys, hschema, htenant, hfound, hexact, hwritable, hversion, rfl, hdocument⟩, hmax,
          hnested, ⟨hbytes, hreceipt⟩, ⟨inner, hinner, hbound⟩, ⟨v1, hv1⟩⟩, hv1, hparse, hdigest⟩
    · cases h
  · rintro ⟨nested, bytes, v1, henvelope, hv1, hparse, hdigest⟩
    obtain ⟨value, hvalue, hkeys, hschema, htenant, hfound, hexact, hwritable, hversion, rfl, hdocument⟩ := henvelope.wrapper
    obtain ⟨inner, hinner, hbound⟩ := henvelope.inner
    have hnested : Writable ((value.get "execution").get "execution") := writable_nested ⟨v1, hv1⟩
    simp only [parseV2, exactKeys, bind_eq_ok, ensure_eq_ok, exists_const, loads_eq_ok, integer_eq_ok, mapping_eq_ok]
    refine ⟨henvelope.length, value, hvalue, hkeys, hschema, htenant, revision, ⟨hfound, henvelope.bounded⟩, rfl,
      ⟨Instance.isObj_of_hasExactly hexact, hwritable⟩, hexact, hversion, ?_⟩
    rw [hdocument]
    simp only [henvelope.receipt.1, bind_eq_ok, ensure_eq_ok, exists_const, wrapping_eq_ok, Planning.canonical_eq_ok, mapping_eq_ok]
    exact ⟨henvelope.receipt.2, ⟨henvelope.object, hnested⟩, inner, hinner, hbound, v1, hv1, r.execution, hparse, hdigest, rfl⟩

/-- The second version is accepted exactly where its envelope is valid, its receipt's bytes have the digest of the inner receipt, and the
    first version of it is accepted, in whatever layout that is written; and it gives the same execution with the receipt's text. -/
theorem parseV2_refines (raw : Bytes) (request : Planning.Request) (sourceIds : List Str) (task plan : Json) (tenantId : Str) (revision : Nat)
    (bindingDigest : Str) (time : Option Str) :
    (∀ r, parseV2 raw request sourceIds task plan tenantId revision bindingDigest time = .ok r →
      ∃ nested bytes, EnvelopeV2 raw tenantId revision nested r.receiptDocument bytes) ∧
    ∀ nested document bytes, EnvelopeV2 raw tenantId revision nested document bytes →
      ∀ raw1, IsLayout raw1 (documentV1 tenantId revision nested) → ∀ r,
        parseV2 raw request sourceIds task plan tenantId revision bindingDigest time = .ok r ↔
          ∃ execution, parse raw1 request sourceIds task plan tenantId revision bindingDigest time = .ok execution ∧
            execution.receipt.receiptDigest = digestOf bytes ∧ r = ⟨execution, document⟩ := by
  refine ⟨fun r h => ?_, fun nested document bytes henvelope raw1 hlayout r => ?_⟩
  · obtain ⟨nested, bytes, -, henvelope, -⟩ := parseV2_eq_ok.mp h
    exact ⟨nested, bytes, henvelope⟩
  · have hsame : ∀ {v1}, canonicalBytes? (documentV1 tenantId revision nested) = some v1 → strictLoads? v1 = strictLoads? raw1 := fun hv1 =>
      (isLayout_canonical hv1 rfl).loads.trans hlayout.loads.symm
    constructor
    · intro h
      obtain ⟨nested', bytes', v1, henvelope', hv1, hparse, hdigest⟩ := parseV2_eq_ok.mp h
      obtain ⟨rfl, hdocument, rfl⟩ := henvelope.unique henvelope'
      exact ⟨r.execution, (parse_congr (hsame hv1)) ▸ hparse, hdigest, by rw [hdocument]⟩
    · rintro ⟨execution, hparse, hdigest, rfl⟩
      obtain ⟨v1, hv1⟩ := henvelope.canonical
      exact parseV2_eq_ok.mpr ⟨nested, bytes, v1, henvelope, hv1, (parse_congr (hsame hv1)).trans hparse, hdigest⟩

end
end Enterprise.Execution
end LeanCtx
