import LeanCtx.Workspace.Source

/-! The other records of a workspace: its identity, its policy, the entries of the project context, package pins,
    sessions and the receipts of events. -/

namespace LeanCtx

/-! ### Identity -/

/-- Who a workspace is. -/
structure WorkspaceIdentity where
  workspaceId : Uuid
  name : Text 128
  createdAt : DateTime
  stateId : Digest
deriving DecidableEq

namespace WorkspaceIdentity

def schema : String := "leanctx.workspace-identity/v1"

/-- What the identifier of the state is computed from. -/
def base (workspaceId : Uuid) (name : Text 128) (createdAt : DateTime) : Json :=
  Json.mkObj [("schema_version", .str schema), ("workspace_id", workspaceId.json), ("name", name.json),
    ("created_at", createdAt.json)]

/-- `WorkspaceIdentity(workspace_id, name, created_at)`. -/
def make (workspaceId : Uuid) (name : Text 128) (createdAt : DateTime) : Except Err WorkspaceIdentity :=
  (fun d => ⟨workspaceId, name, createdAt, d⟩) <$> digest (base workspaceId name createdAt)

def toDict (x : WorkspaceIdentity) : Json :=
  Json.mkObj [("schema_version", .str schema), ("workspace_id", x.workspaceId.json), ("name", x.name.json),
    ("created_at", x.createdAt.json), ("state_id", x.stateId.json)]

/-- `WorkspaceIdentity.from_dict`. -/
def fromDict (v : Json) : Except Err WorkspaceIdentity := do
  exact v ["schema_version", "workspace_id", "name", "created_at", "state_id"] "identity"
  ensure (v.get "schema_version" = .str schema) (.incompatible "unknown workspace identity schema")
  let x ← @catching Err Err _ (do
    let workspaceId ← uuid (v.get "workspace_id") "workspace_id"
    let name ← text (v.get "name") "name" 128
    let createdAt ← parseTimestamp (v.get "created_at") "created_at"
    make workspaceId name createdAt) fun _ => .incompatible "invalid workspace identity"
  ensure (v.get "state_id" = x.stateId.json) .corrupt
  return x

end WorkspaceIdentity

/-! ### Categories and the entries of the project context -/

/-- The categories of context entries, in the order of their names. -/
inductive Category
  | constraints
  | decisions
  | facts
  | sourceRefs
  | unresolvedQuestions
deriving DecidableEq

namespace Category

def name : Category → String
  | .constraints => "constraints"
  | .decisions => "decisions"
  | .facts => "facts"
  | .sourceRefs => "source_refs"
  | .unresolvedQuestions => "unresolved_questions"

def all : List Category := [.constraints, .decisions, .facts, .sourceRefs, .unresolvedQuestions]

theorem mem_all (x : Category) : x ∈ all := by cases x <;> decide

theorem name_injective : Function.Injective name := by
  intro x y h
  cases x <;> cases y <;> first | rfl | simp [name] at h

end Category

def maxValueBytes : Nat := 4096

def maxSourceIds : Nat := 16

def maxEntryRefs : Nat := 16

abbrev SessionId := Text 512

/-- An entry of the project context. -/
structure ProjectContextEntry where
  entryId : Uuid
  category : Category
  value : Text maxValueBytes
  sourceIds : Ids maxSourceIds
  sessionId : Option SessionId
  receiptRefs : Refs maxEntryRefs
  recoveryRefs : Refs maxEntryRefs
deriving DecidableEq

namespace ProjectContextEntry

def schema : String := "leanctx.project-context-entry/v1"

def toDict (x : ProjectContextEntry) : Json :=
  Json.mkObj [("schema_version", .str schema), ("entry_id", x.entryId.json), ("category", .str x.category.name),
    ("value", x.value.json), ("source_ids", x.sourceIds.json), ("session_id", optional Text.json x.sessionId),
    ("receipt_refs", x.receiptRefs.json), ("recovery_refs", x.recoveryRefs.json)]

/-- `ProjectContextEntry.from_dict`. -/
def fromDict (v : Json) : Except Err ProjectContextEntry := do
  exact v ["schema_version", "entry_id", "category", "value", "source_ids", "session_id", "receipt_refs",
    "recovery_refs"] "project context entry"
  ensure (v.get "schema_version" = .str schema) (.incompatible "unknown project context entry schema")
  for field in ["source_ids", "receipt_refs", "recovery_refs"] do
    match v.get field with
    | .arr _ => pure ()
    | _ => .error (.incompatible (field ++ " must be a JSON array"))
  @catching Err Err _ (do
    let entryId ← uuid (v.get "entry_id") "entry_id"
    let category ← memberOf Category.all Category.name (.validation "entry category is invalid") (v.get "category")
    let value ← text (v.get "value") "value" maxValueBytes
    let sourceIds ← ids (v.get "source_ids") "source_ids" maxSourceIds
    let sessionId ← optionalText (v.get "session_id") "session_id" 512
    let receiptRefs ← refs (v.get "receipt_refs") "receipt_refs" maxEntryRefs
    let recoveryRefs ← refs (v.get "recovery_refs") "recovery_refs" maxEntryRefs
    return ⟨entryId, category, value, sourceIds, sessionId, receiptRefs, recoveryRefs⟩) fun _ =>
      .incompatible "invalid project context entry"

/-- An entry reads back. -/
@[simp] theorem fromDict_toDict (x : ProjectContextEntry) : fromDict x.toDict = .ok x := by
  obtain ⟨entryId, category, value, sourceIds, sessionId, receiptRefs, recoveryRefs⟩ := x
  have hcategory := memberOf_name Category.mem_all Category.name_injective (.validation "entry category is invalid") category
  have hids := ids_json sourceIds "source_ids"
  have hreceipts := refs_json receiptRefs "receipt_refs"
  have hrecovery := refs_json recoveryRefs "recovery_refs"
  simp only [Ids.json, Refs.json] at hids hreceipts hrecovery
  simp [fromDict, toDict, Json.get_mkObj, Ids.json, Refs.json, hcategory, hids, hreceipts, hrecovery]

theorem writable_toDict (x : ProjectContextEntry) : x.toDict.Writable := by
  refine Json.writable_mkObj ?_
  simp [writable_lit, writable_text, writable_uuid, Ids.json, Refs.json, writable_map, writable_ref,
    writable_optional]

end ProjectContextEntry

/-- `_entry_from_input(value)`. -/
def entryFromInput (v : Json) : Except Err ProjectContextEntry :=
  match v with
  | .obj f => ProjectContextEntry.fromDict (.obj f)
  | _ => .error (.validation "entries must contain ProjectContextEntry values")

@[simp] theorem entryFromInput_toDict (x : ProjectContextEntry) : entryFromInput x.toDict = .ok x :=
  ProjectContextEntry.fromDict_toDict x

/-- `[entry.to_dict() for entry in entries]`. -/
def entriesJson (l : List ProjectContextEntry) : Json := .arr (l.map ProjectContextEntry.toDict)

theorem writable_entriesJson (l : List ProjectContextEntry) : (entriesJson l).Writable :=
  writable_map ProjectContextEntry.writable_toDict l

/-- `_state_context_bytes(entries)`. -/
def stateContextBytes (l : List ProjectContextEntry) : Except Err Nat := List.length <$> canonical (entriesJson l)

/-! ### Policy -/

/-- What a workspace may hold. The categories are kept in the order of their names. -/
structure WorkspacePolicy where
  allowedCategories : List Category
  maxEvents : Positive
  maxContextEntries : Positive
  maxEntryBytes : Positive
  maxContextBytes : Positive
  maxSources : Positive
  maxSessions : Positive
  allowExternalSources : Bool
  sorted : Category.all.filter (· ∈ allowedCategories) = allowedCategories
deriving DecidableEq

namespace WorkspacePolicy

def schema : String := "leanctx.workspace-policy/v1"

def toDict (x : WorkspacePolicy) : Json :=
  Json.mkObj [("schema_version", .str schema),
    ("allowed_categories", .arr (x.allowedCategories.map fun c => .str c.name)),
    ("max_events", x.maxEvents.json), ("max_context_entries", x.maxContextEntries.json),
    ("max_entry_bytes", x.maxEntryBytes.json), ("max_context_bytes", x.maxContextBytes.json),
    ("max_sources", x.maxSources.json), ("max_sessions", x.maxSessions.json),
    ("allow_external_sources", .bool x.allowExternalSources)]

/-- `WorkspacePolicy.from_dict`. -/
def fromDict (v : Json) : Except Err WorkspacePolicy := do
  exact v ["schema_version", "allowed_categories", "max_events", "max_context_entries", "max_entry_bytes",
    "max_context_bytes", "max_sources", "max_sessions", "allow_external_sources"] "workspace policy"
  ensure (v.get "schema_version" = .str schema) (.incompatible "unknown workspace policy schema")
  match v.get "allowed_categories" with
  | .arr items =>
    @catching Err Err _ (do
      let categories ← items.mapM
        (memberOf Category.all Category.name (.validation "allowed_categories contains an invalid category"))
      let maxEvents ← positiveInt (v.get "max_events") "max_events"
      let maxContextEntries ← positiveInt (v.get "max_context_entries") "max_context_entries"
      let maxEntryBytes ← positiveInt (v.get "max_entry_bytes") "max_entry_bytes"
      let maxContextBytes ← positiveInt (v.get "max_context_bytes") "max_context_bytes"
      let maxSources ← positiveInt (v.get "max_sources") "max_sources"
      let maxSessions ← positiveInt (v.get "max_sessions") "max_sessions"
      let external ← bool (v.get "allow_external_sources") "allow_external_sources"
      return ⟨Category.all.filter (· ∈ categories), maxEvents, maxContextEntries, maxEntryBytes, maxContextBytes,
        maxSources, maxSessions, external, by simp [List.mem_filter, Category.mem_all]⟩) fun _ =>
          .incompatible "invalid workspace policy"
  | _ => .error (.incompatible "allowed_categories must be a JSON array")

/-- A policy reads back. -/
@[simp] theorem fromDict_toDict (x : WorkspacePolicy) : fromDict x.toDict = .ok x := by
  obtain ⟨categories, maxEvents, maxEntries, maxEntryBytes, maxContextBytes, maxSources, maxSessions, external, hsorted⟩ := x
  have hcategories := mapM_map (l := categories) (f := memberOf Category.all Category.name
    (.validation "allowed_categories contains an invalid category")) (g := fun c => .str c.name)
    fun c => memberOf_name Category.mem_all Category.name_injective _ c
  simp [fromDict, toDict, Json.get_mkObj, hcategories, hsorted]

/-- `self.is_tightening(previous)`. -/
def isTightening (x previous : WorkspacePolicy) : Bool :=
  x.allowedCategories.all (fun c => previous.allowedCategories.contains c) &&
    x.maxEvents.1 ≤ previous.maxEvents.1 && x.maxContextEntries.1 ≤ previous.maxContextEntries.1 &&
    x.maxEntryBytes.1 ≤ previous.maxEntryBytes.1 && x.maxContextBytes.1 ≤ previous.maxContextBytes.1 &&
    x.maxSources.1 ≤ previous.maxSources.1 && x.maxSessions.1 ≤ previous.maxSessions.1 &&
    (!x.allowExternalSources || previous.allowExternalSources)

/-- The bounds are short enough to be written. -/
def Small (x : WorkspacePolicy) : Prop :=
  ∀ n ∈ [x.maxEvents, x.maxContextEntries, x.maxEntryBytes, x.maxContextBytes, x.maxSources, x.maxSessions],
    (natText n.1).length ≤ Json.maxIntDigits

theorem writable_toDict {x : WorkspacePolicy} (h : x.Small) : x.toDict.Writable := by
  have hint : ∀ n : Positive, (natText n.1).length ≤ Json.maxIntDigits → Json.Writable n.json := fun n hn =>
    Json.writable_int (by simpa using hn)
  simp only [Small, List.mem_cons, List.not_mem_nil, or_false, forall_eq_or_imp, forall_eq] at h
  obtain ⟨h1, h2, h3, h4, h5, h6⟩ := h
  refine Json.writable_mkObj ?_
  simp [writable_lit, writable_map, hint _ h1, hint _ h2, hint _ h3, hint _ h4, hint _ h5, hint _ h6, Json.writable_bool]

theorem isTightening_refl (x : WorkspacePolicy) : x.isTightening x = true := by
  simp only [isTightening, Bool.and_eq_true, List.all_eq_true, List.contains_iff_mem, decide_eq_true_eq, le_refl,
    and_true, Bool.or_eq_true, Bool.not_eq_true']
  exact ⟨fun c hc => hc, by cases x.allowExternalSources <;> simp⟩

theorem mem_of_isTightening {x previous : WorkspacePolicy} (h : x.isTightening previous = true) {c : Category}
    (hc : c ∈ x.allowedCategories) : c ∈ previous.allowedCategories := by
  simp only [isTightening, Bool.and_eq_true, List.all_eq_true, List.contains_iff_mem] at h
  exact h.1.1.1.1.1.1.1 c hc

end WorkspacePolicy

/-! ### Package pins -/

inductive SignatureState
  | signedValid
  | unsigned
deriving DecidableEq

namespace SignatureState

def name : SignatureState → String
  | .signedValid => "signed_valid"
  | .unsigned => "unsigned"

def all : List SignatureState := [.signedValid, .unsigned]

theorem mem_all (x : SignatureState) : x ∈ all := by cases x <;> decide

theorem name_injective : Function.Injective name := by
  intro x y h
  cases x <;> cases y <;> first | rfl | simp [name] at h

end SignatureState

inductive TrustState
  | trusted
  | untrusted
  | unknown
deriving DecidableEq

namespace TrustState

def name : TrustState → String
  | .trusted => "trusted"
  | .untrusted => "untrusted"
  | .unknown => "unknown"

def all : List TrustState := [.trusted, .untrusted, .unknown]

theorem mem_all (x : TrustState) : x ∈ all := by cases x <;> decide

theorem name_injective : Function.Injective name := by
  intro x y h
  cases x <;> cases y <;> first | rfl | simp [name] at h

end TrustState

/-- A public key: 64 lowercase hexadecimal digits. -/
def isSignerKey (s : Str) : Bool := s.length == 64 && s.all Sha256.isHex

abbrev SignerKey := {s : Str // isSignerKey s = true}

abbrev PinKey := Text 128 ×ₗ Text 64

/-- A package that a workspace has pinned. A signed package names its signer. -/
structure PackagePin where
  name : Text 128
  version : Text 64
  artifactDigest : Digest
  manifestDigest : Digest
  contentHash : Digest
  signatureState : SignatureState
  signerPublicKey : Option SignerKey
  trustState : TrustState
  signer : signerPublicKey.isSome = decide (signatureState = .signedValid)
deriving DecidableEq

namespace PackagePin

def schema : String := "leanctx.package-pin/v1"

def toDict (x : PackagePin) : Json :=
  Json.mkObj [("schema_version", .str schema), ("name", x.name.json), ("version", x.version.json),
    ("artifact_digest", x.artifactDigest.json), ("manifest_digest", x.manifestDigest.json),
    ("content_hash", x.contentHash.json), ("signature_state", .str x.signatureState.name),
    ("signer_public_key", optional (fun k => .str k.1) x.signerPublicKey), ("trust_state", .str x.trustState.name),
    ("policy_decision", .str "admitted")]

/-- The signer that a pin with a signature state names. -/
def signerKey (state : SignatureState) (v : Json) : Except Err (Option SignerKey) :=
  match state, v with
  | .signedValid, .str s =>
    if h : isSignerKey s = true then .ok (some ⟨s, h⟩) else .error (.validation "package pin signer key is invalid")
  | .signedValid, _ => .error (.validation "package pin signer key is invalid")
  | .unsigned, .null => .ok none
  | .unsigned, _ => .error (.validation "unsigned package pin cannot name a signer")

/-- `PackagePin(…)` of the values of a dictionary. -/
def make (v : Json) : Except Err PackagePin := do
  let name ← text (v.get "name") "package pin name" 128
  let version ← text (v.get "version") "package pin version" 64
  let artifactDigest ← digestValue (v.get "artifact_digest") "package pin artifact_digest"
  let manifestDigest ← digestValue (v.get "manifest_digest") "package pin manifest_digest"
  let contentHash ← digestValue (v.get "content_hash") "package pin content_hash"
  let signatureState ← memberOf SignatureState.all SignatureState.name
    (.validation "package pin signature state is invalid") (v.get "signature_state")
  let trustState ← memberOf TrustState.all TrustState.name (.validation "package pin trust state is invalid")
    (v.get "trust_state")
  ensure (v.get "policy_decision" = .str "admitted") .policy
  ensure (v.get "schema_version" = .str schema) (.incompatible "package pin schema is unsupported")
  let signerPublicKey ← signerKey signatureState (v.get "signer_public_key")
  if h : signerPublicKey.isSome = decide (signatureState = .signedValid) then
    .ok ⟨name, version, artifactDigest, manifestDigest, contentHash, signatureState, signerPublicKey, trustState, h⟩
  else .error (.validation "package pin signer key is invalid")

/-- `PackagePin.from_dict`. -/
def fromDict (v : Json) : Except Err PackagePin := do
  exact v ["schema_version", "name", "version", "artifact_digest", "manifest_digest", "content_hash",
    "signature_state", "signer_public_key", "trust_state", "policy_decision"] "package pin"
  catching (make v) fun
    | .typeError => .incompatible "package pin is invalid"
    | e => e

/-- A pin reads back. -/
@[simp] theorem fromDict_toDict (x : PackagePin) : fromDict x.toDict = .ok x := by
  obtain ⟨name, version, artifact, manifest, content, signature, key, trust, hsigner⟩ := x
  have hsignature := memberOf_name SignatureState.mem_all SignatureState.name_injective
    (.validation "package pin signature state is invalid") signature
  have htrust := memberOf_name TrustState.mem_all TrustState.name_injective
    (.validation "package pin trust state is invalid") trust
  have hkey : signerKey signature (optional (fun k => .str k.1) key) = .ok key := by
    cases signature <;> cases key with
    | none => simp_all [signerKey, optional]
    | some k => simp_all [signerKey, optional, k.2]
  simp [fromDict, toDict, make, Json.get_mkObj, hsignature, htrust, hkey, hsigner]

/-- The key of a pin: its name, then its version. -/
def key (x : PackagePin) : PinKey := toLex (x.name, x.version)

theorem writable_toDict (x : PackagePin) : x.toDict.Writable := by
  have hkey : ∀ k : SignerKey, Json.Writable (.str k.1) := fun k => Json.writable_str <| by
    have h := k.2
    simp only [isSignerKey, Bool.and_eq_true, List.all_eq_true] at h
    exact List.all_eq_true.mpr fun c hc => isScalar_of_isHex (h.2 c hc)
  refine Json.writable_mkObj ?_
  simp [writable_lit, writable_text, writable_digest, writable_optional hkey]

end PackagePin

/-- Pins in the order of their names and versions. -/
def sortPins (l : List PackagePin) : List PackagePin := l.insertionSort fun p q => p.key ≤ q.key

/-- `_package_lock(pins)`. -/
def packageLock (pins : List PackagePin) : Except Err (Option Digest) :=
  if pins = [] then .ok none
  else some <$> domainDigest "leanctx.package.lock.v1" (.arr ((sortPins pins).map PackagePin.toDict))

/-! ### Sessions and receipts -/

/-- `_session_record(session_id, task_id, source_ids)`: what a workspace keeps of a session. -/
structure SessionRecord where
  sessionId : SessionId
  taskId : Text 512
  sourceIds : Ids maxSourceIds
deriving DecidableEq

def SessionRecord.toDict (x : SessionRecord) : Json :=
  Json.mkObj [("session_id", x.sessionId.json), ("task_id", x.taskId.json), ("source_ids", x.sourceIds.json)]

/-- The kinds of events. -/
inductive EventKind
  | workspaceCreated
  | sourceAttached
  | sourceUpdated
  | policyTightened
  | sessionAttached
  | contextCommitted
  | checkpointCreated
  | workspaceRestored
  | workspaceSeeded
  | workspaceSealed
  | packagePinned
  | workspaceForked
  | handoffApplied
  | workspaceCompleted
  | workspaceAborted
deriving DecidableEq

namespace EventKind

def name : EventKind → String
  | .workspaceCreated => "workspace_created"
  | .sourceAttached => "source_attached"
  | .sourceUpdated => "source_updated"
  | .policyTightened => "policy_tightened"
  | .sessionAttached => "session_attached"
  | .contextCommitted => "context_committed"
  | .checkpointCreated => "checkpoint_created"
  | .workspaceRestored => "workspace_restored"
  | .workspaceSeeded => "workspace_seeded"
  | .workspaceSealed => "workspace_sealed"
  | .packagePinned => "package_pinned"
  | .workspaceForked => "workspace_forked"
  | .handoffApplied => "handoff_applied"
  | .workspaceCompleted => "workspace_completed"
  | .workspaceAborted => "workspace_aborted"

def all : List EventKind :=
  [.workspaceCreated, .sourceAttached, .sourceUpdated, .policyTightened, .sessionAttached, .contextCommitted,
    .checkpointCreated, .workspaceRestored, .workspaceSeeded, .workspaceSealed, .packagePinned, .workspaceForked,
    .handoffApplied, .workspaceCompleted, .workspaceAborted]

theorem mem_all (x : EventKind) : x ∈ all := by cases x <;> decide

theorem name_injective : Function.Injective name := by
  intro x y h
  cases x <;> cases y <;> first | rfl | simp [name] at h

end EventKind

def maxReceiptIds : Nat := 4096

def maxReceiptRefs : Nat := 4096

/-- The receipt of an event. -/
structure WorkspaceReceipt where
  workspaceId : Uuid
  stateId : Digest
  sequence : Positive
  eventId : Uuid
  eventKind : EventKind
  eventDigest : Digest
  stateDigest : Digest
  sourceIds : Ids maxReceiptIds
  sessionId : Option SessionId
  engineReceiptRefs : Refs maxReceiptRefs
  recoveryRefs : Refs maxReceiptRefs
deriving DecidableEq

end LeanCtx
