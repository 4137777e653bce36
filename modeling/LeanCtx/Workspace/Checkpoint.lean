import LeanCtx.Python.Dict
import LeanCtx.Workspace.Record
import LeanCtx.Workspace.Sensitive

/-! Checkpoints: a logical state of a workspace with the digests that bind it. A checkpoint is built only after
    its logical state has been decomposed into typed parts and every digest and projection recomputed. -/

namespace LeanCtx

def maxSources : Nat := 128

def maxPackagePins : Nat := 128

def maxCheckpointBytes : Nat := 8 * 1024 * 1024

def logicalStateSchema : String := "leanctx.workspace.state/v1"

/-- The parts of a logical state. -/
structure LogicalState where
  policy : WorkspacePolicy
  sources : Dict SourceId SourceAnchor
  entries : List ProjectContextEntry
  packagePins : Dict PinKey PackagePin
  packageLockDigest : Option Digest
deriving DecidableEq

namespace LogicalState

/-- The logical state of a workspace as a JSON value. -/
def toDict (x : LogicalState) (workspaceId : Uuid) : Json :=
  Json.mkObj [("schema_version", .str logicalStateSchema), ("workspace_id", workspaceId.json),
    ("policy", x.policy.toDict), ("sources", .arr (x.sources.sortedValues.map SourceAnchor.toDict)),
    ("entries", entriesJson x.entries), ("package_pins", .arr (x.packagePins.sortedValues.map PackagePin.toDict)),
    ("package_lock_digest", optional Digest.json x.packageLockDigest)]

/-- The recovery references of the entries. -/
def recoveryRefs (x : LogicalState) : List (Ref 512) := sortedUnion (x.entries.flatMap fun e => e.recoveryRefs.1)

end LogicalState

/-- `_logical_state_components(value, workspace_id)`. -/
def logicalStateComponents (v : Json) (workspaceId : Uuid) : Except Err LogicalState := do
  exact v ["schema_version", "workspace_id", "policy", "sources", "entries", "package_pins", "package_lock_digest"]
    "logical_state"
  ensure (v.get "schema_version" = .str logicalStateSchema) (.incompatible "logical state schema is unsupported")
  ensure (v.get "workspace_id" = workspaceId.json) .conflict
  match v.get "sources", v.get "entries", v.get "package_pins" with
  | .arr rawSources, .arr rawEntries, .arr rawPins => do
    ensure (rawSources.length ≤ maxSources ∧ rawEntries.length ≤ 256 ∧ rawPins.length ≤ maxPackagePins) .policy
    let bytes ← canonical v
    ensure (bytes.length ≤ maxCheckpointBytes) .policy
    let policy ← WorkspacePolicy.fromDict (v.get "policy")
    let anchors ← rawSources.mapM fun a => SourceAnchor.fromDict a true
    let entries ← rawEntries.mapM entryFromInput
    let pins ← rawPins.mapM PackagePin.fromDict
    ensure (Json.pyEq (.arr (anchors.map SourceAnchor.toDict)) (.arr rawSources) = true)
      (.incompatible "source anchor projection is not canonical")
    ensure (Json.pyEq (entriesJson entries) (.arr rawEntries) = true)
      (.incompatible "ProjectContext projection is not canonical")
    ensure (Json.pyEq (.arr (pins.map PackagePin.toDict)) (.arr rawPins) = true)
      (.incompatible "package pin projection is not canonical")
    let sources := Dict.ofItems (anchors.map fun a => (a.sourceId, a))
    ensure ((anchors.map (·.sourceId)).Nodup) (.incompatible "duplicate source anchor")
    ensure ((anchors.map (·.sourceId)).Pairwise (· < ·)) (.incompatible "source anchors are not sorted")
    ensure (∀ e ∈ entries, ∀ i ∈ e.sourceIds.1, sources.contains i = true)
      (.incompatible "ProjectContext references an unknown source")
    ensure ((entries.map (·.entryId)).Nodup) (.incompatible "duplicate ProjectContext entry")
    ensure ((pins.map PackagePin.key).Pairwise (· < ·)) (.incompatible "package pins are duplicated or unsorted")
    let lock ← packageLock pins
    ensure (v.get "package_lock_digest" = optional Digest.json lock) .corrupt
    return ⟨policy, sources, entries, Dict.ofItems (pins.map fun p => (p.key, p)), lock⟩
  | _, _, _ => .error (.incompatible "logical state arrays are required")

/-- The fields of a checkpoint, before it is known that they belong together. -/
structure CheckpointFields where
  checkpointId : Uuid
  workspaceId : Uuid
  stateDigest : Digest
  workspaceStateRef : Ref 512
  logicalState : Json
  sourceAnchors : List Json
  recoveryRefs : List (Ref 512)
  packagePins : List Json
  packageLockDigest : Option Digest
  policyDigest : Digest
  projectContextDigest : Digest
  lineageStateId : Ref 512
  engineIdentity : Json
  envelopeDigest : Digest
deriving DecidableEq

namespace CheckpointFields

def schema : String := "leanctx.context-checkpoint/v2"

def contract : String := "leanctx-product-sdk-research/p6"

/-- The identity of the instance that a checkpoint is for. -/
def engine : Json :=
  Json.mkObj [("interface_version", .str "1.0.0"), ("schema_version", .int 1), ("transport_version", .int 1)]

/-- `self.lineage`. -/
def lineage (x : CheckpointFields) : Json :=
  Json.mkObj [("kind", .str "workspace"), ("workspace_id", x.workspaceId.json), ("state_id", x.lineageStateId.json)]

/-- `self._unsigned_dict()`, as a list of fields. -/
def unsignedFields (x : CheckpointFields) : List (String × Json) :=
  [("schema_version", .str schema), ("checkpoint_id", x.checkpointId.json), ("workspace_id", x.workspaceId.json),
    ("state_digest", x.stateDigest.json), ("state_schema_version", .str logicalStateSchema),
    ("workspace_state_ref", x.workspaceStateRef.json), ("logical_state", x.logicalState),
    ("source_anchors", .arr x.sourceAnchors), ("recovery_refs", .arr (x.recoveryRefs.map Ref.json)),
    ("package_pins", .arr x.packagePins), ("package_lock_digest", optional Digest.json x.packageLockDigest),
    ("policy_digest", x.policyDigest.json), ("project_context_digest", x.projectContextDigest.json),
    ("lineage", x.lineage), ("engine_identity", x.engineIdentity), ("sdk_contract", .str contract)]

/-- `self.to_dict()`. -/
def toDict (x : CheckpointFields) : Json :=
  Json.mkObj (x.unsignedFields ++ [("envelope_digest", x.envelopeDigest.json)])

/-- `_checkpoint_envelope_digest(self._unsigned_dict())`. -/
def envelope (x : CheckpointFields) : Except Err Digest :=
  domainDigest "leanctx.checkpoint.envelope.v2" (Json.mkObj x.unsignedFields)

/-- `_validate_checkpoint_projections(checkpoint)`. -/
def validateProjections (x : CheckpointFields) : Except Err Unit := do
  let l ← logicalStateComponents x.logicalState x.workspaceId
  let policyDigest ← domainDigest "leanctx.workspace.policy.v1" l.policy.toDict
  let contextDigest ← domainDigest "leanctx.project-context.state.v1" (entriesJson l.entries)
  ensure (Json.pyEq (.arr x.sourceAnchors) (.arr (l.sources.sortedValues.map SourceAnchor.toDict)) = true ∧
    x.recoveryRefs = l.recoveryRefs ∧
    Json.pyEq (.arr x.packagePins) (.arr (l.packagePins.sortedValues.map PackagePin.toDict)) = true ∧
    x.packageLockDigest = l.packageLockDigest ∧ x.policyDigest = policyDigest ∧
    x.projectContextDigest = contextDigest) .corrupt

/-- What the constructor checks of the fields together. -/
def check (x : CheckpointFields) : Except Err Unit := do
  ensure (Json.pyEq x.engineIdentity engine = true) (.incompatible "Instance checkpoint identity is unsupported")
  rejectSensitive x.logicalState "logical_state"
  rejectSensitive (.arr x.packagePins) "package_pins"
  let expected ← domainDigest "leanctx.workspace.state.v1" x.logicalState
  ensure (x.stateDigest = expected) .corrupt
  x.validateProjections
  let envelope ← x.envelope
  ensure (x.envelopeDigest = envelope) .corrupt

end CheckpointFields

/-- A checkpoint: `ContextCheckpointV2`. -/
structure ContextCheckpoint extends CheckpointFields where
  valid : toCheckpointFields.check = .ok ()
deriving DecidableEq

namespace ContextCheckpoint
open CheckpointFields

/-- A checkpoint of fields that belong together. -/
def make (x : CheckpointFields) : Except Err ContextCheckpoint := certify x.check fun h => ⟨x, h⟩

theorem make_eq_ok {x : CheckpointFields} {y : ContextCheckpoint} : make x = .ok y ↔ y.toCheckpointFields = x :=
  certify_eq_ok.trans ⟨fun ⟨_, e⟩ => e ▸ rfl, fun e => e ▸ ⟨y.valid, rfl⟩⟩

/-- `ContextCheckpointV2.from_dict`. -/
def fromDict (v : Json) : Except Err ContextCheckpoint := do
  exact v ["schema_version", "checkpoint_id", "workspace_id", "state_digest", "state_schema_version",
    "workspace_state_ref", "logical_state", "source_anchors", "recovery_refs", "package_pins", "package_lock_digest",
    "policy_digest", "project_context_digest", "lineage", "engine_identity", "sdk_contract", "envelope_digest"]
    "checkpoint"
  match v.get "source_anchors", v.get "recovery_refs", v.get "package_pins" with
  | .arr sourceAnchors, .arr rawRefs, .arr packagePins => do
    match v.get "logical_state", v.get "lineage", v.get "engine_identity" with
    | .obj logical, .obj lineage, .obj engineIdentity => do
      let checkpointId ← uuid (v.get "checkpoint_id") "checkpoint_id"
      let workspaceId ← uuid (v.get "workspace_id") "workspace_id"
      let stateDigest ← digestValue (v.get "state_digest") "state_digest"
      let policyDigest ← digestValue (v.get "policy_digest") "policy_digest"
      let contextDigest ← digestValue (v.get "project_context_digest") "project_context_digest"
      let envelopeDigest ← digestValue (v.get "envelope_digest") "envelope_digest"
      let lock ← optionalDigest (v.get "package_lock_digest") "package_lock_digest"
      ensure (v.get "schema_version" = .str schema) (.incompatible "checkpoint schema is unsupported")
      ensure (v.get "state_schema_version" = .str logicalStateSchema)
        (.incompatible "logical state schema is unsupported")
      ensure (v.get "sdk_contract" = .str contract) (.incompatible "SDK checkpoint contract is unsupported")
      let stateRef ← ref (v.get "workspace_state_ref") "workspace_state_ref" 512
      ensure (Str.lit "event:sha256:" <+: stateRef.1) (.validation "workspace_state_ref must bind an event digest")
      ensure (sourceAnchors.length ≤ maxSources) .policy
      ensure (packagePins.length ≤ maxPackagePins) .policy
      ensure (rawRefs.length ≤ maxReceiptRefs) .policy
      let recoveryRefs ← rawRefs.mapM fun r => ref r "recovery_refs" 512
      ensure recoveryRefs.Nodup (.validation "recovery_refs must contain unique values")
      let bytes ← canonical (.obj logical)
      ensure (bytes.length ≤ maxCheckpointBytes) .policy
      exact (.obj lineage) ["kind", "workspace_id", "state_id"] "checkpoint lineage"
      ensure ((Json.obj lineage).get "kind" = .str "workspace") .conflict
      let lineageWorkspace ← uuid ((Json.obj lineage).get "workspace_id") "lineage.workspace_id"
      ensure (lineageWorkspace = workspaceId) .conflict
      let lineageStateId ← ref ((Json.obj lineage).get "state_id") "lineage.state_id" 512
      exact (.obj engineIdentity) ["interface_version", "schema_version", "transport_version"] "engine_identity"
      make ⟨checkpointId, workspaceId, stateDigest, stateRef, .obj logical, sourceAnchors, recoveryRefs, packagePins,
        lock, policyDigest, contextDigest, lineageStateId, .obj engineIdentity, envelopeDigest⟩
    | _, _, _ => .error (.incompatible "checkpoint mappings are required")
  | _, _, _ => .error (.incompatible "checkpoint arrays are required")

end ContextCheckpoint
end LeanCtx
