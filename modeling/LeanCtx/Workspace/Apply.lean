import LeanCtx.Workspace.Provenance

/-! What an event does to the state of a workspace: `_apply_event`. Each kind of event has its own checks and its own
    effect; all of them end by recording the event and its receipt. -/

namespace LeanCtx

/-- `_event_payload_keys(kind)`. -/
def payloadKeys : EventKind → List String
  | .workspaceCreated => ["identity", "policy"]
  | .sourceAttached => ["anchor"]
  | .sourceUpdated => ["anchor", "previous_anchor_digest"]
  | .policyTightened => ["policy", "previous_policy_digest"]
  | .sessionAttached => ["session_id", "task_id", "source_ids"]
  | .contextCommitted => ["entries", "provenance"]
  | .checkpointCreated => ["checkpoint"]
  | .workspaceRestored => ["checkpoint_id", "checkpoint_envelope_digest"]
  | .workspaceSeeded => ["checkpoint", "package", "admission"]
  | .workspaceSealed => ["checkpoint_id", "checkpoint_envelope_digest", "package"]
  | .packagePinned => ["pin", "previous_lock_digest"]
  | .workspaceForked => ["fork", "inherited_state"]
  | .handoffApplied => ["handoff", "admission"]
  | .workspaceCompleted => []
  | .workspaceAborted => ["reason_code"]

/-- What every payload must satisfy. -/
def checkPayload (e : Event) : Except Failure Unit := projecting do
  rejectSensitive e.payload "payload"
  exact e.payload (payloadKeys e.kind) (e.kind.name ++ " payload")

namespace State

/-- The event `workspace_created`. -/
def create (e : Event) : Except Failure State := do
  let failure : Err → Failure := fun
    | .incompatible _ => .incompatible
    | .keyError => .incompatible
    | .typeError => .incompatible
    | _ => .corrupt
  let identity ← catching (WorkspaceIdentity.fromDict (e.payload.get "identity")) failure
  let policy ← catching (WorkspacePolicy.fromDict (e.payload.get "policy")) failure
  ensure (Json.pyEq identity.toDict (e.payload.get "identity") = true ∧
    Json.pyEq policy.toDict (e.payload.get "policy") = true) .incompatible
  ensure (identity.workspaceId = e.workspaceId) .corrupt
  return created identity policy

/-! ### Sources and policy -/

/-- The anchor that an event holds. Verified trust is taken from a replayed journal, or where the caller has
    shown its evidence. -/
def eventAnchor (allowVerified : Bool) (payload : Json) : Except Failure SourceAnchor := do
  let anchor ← projecting (SourceAnchor.fromDict (payload.get "anchor") allowVerified)
  projecting (rejectSensitive anchor.toDict "anchor")
  ensure (Json.pyEq anchor.toDict (payload.get "anchor") = true) .incompatible
  return anchor

/-- `_anchor_digest(anchor)`. -/
def anchorDigest (anchor : SourceAnchor) : Except Err Digest := LeanCtx.digest anchor.toDict

/-- The event `source_attached`. -/
def attachSource (s : State) (allowVerified : Bool) (payload : Json) : Except Failure State := do
  let anchor ← eventAnchor allowVerified payload
  ensure (s.sources.contains anchor.sourceId = false) .corrupt
  ensure (s.sources.size + 1 ≤ s.policy.maxSources.1) .incompatible
  projecting (s.ensureExternalAllowed anchor)
  return { s with sources := s.sources.set anchor.sourceId anchor }

/-- The event `source_updated`. -/
def updateSource (s : State) (allowVerified : Bool) (payload : Json) : Except Failure State := do
  let anchor ← eventAnchor allowVerified payload
  match s.sources.get? anchor.sourceId with
  | none => .error .corrupt
  | some current => do
    let previous ← projecting (digestValue (payload.get "previous_anchor_digest") "previous_anchor_digest")
    let expected ← projecting (anchorDigest current)
    ensure (previous = expected) .corrupt
    projecting (s.ensureExternalAllowed anchor)
    return { s with sources := s.sources.set anchor.sourceId anchor }

/-- The event `policy_tightened`. -/
def tightenPolicy (s : State) (payload : Json) : Except Failure State := do
  let policy ← projecting (WorkspacePolicy.fromDict (payload.get "policy"))
  let previous ← projecting (digestValue (payload.get "previous_policy_digest") "previous_policy_digest")
  ensure (Json.pyEq policy.toDict (payload.get "policy") = true) .incompatible
  let expected ← projecting (LeanCtx.digest s.policy.toDict)
  ensure (previous = expected) .corrupt
  ensure (policy.isTightening s.policy = true) .incompatible
  ensure (∀ e ∈ s.entries, e.category ∈ policy.allowedCategories) .incompatible
  ensure (policy.allowExternalSources = true ∨ ∀ a ∈ s.sources.values, a.kind = .filesystem) .incompatible
  projecting ({ s with policy }.ensureBounds true)
  return { s with policy }

/-! ### Sessions and entries -/

/-- The event `session_attached`. -/
def attachSession (s : State) (payload : Json) : Except Failure State := do
  let sessionId ← projecting (text (payload.get "session_id") "session_id" 512)
  let taskId ← projecting (text (payload.get "task_id") "task_id" 512)
  let sourceIds ← projecting (ids (payload.get "source_ids") "source_ids" maxSourceIds)
  ensure (Json.pyEq sourceIds.json (payload.get "source_ids") = true ∧ sourceIds.1 ≠ []) .incompatible
  ensure (sessionId ∉ s.sessions.map (·.sessionId)) .corrupt
  ensure (∀ i ∈ sourceIds.1, s.sources.contains i = true) .corrupt
  ensure (s.sessions.length + 1 ≤ s.policy.maxSessions.1) .incompatible
  return { s with sessions := s.sessions ++ [⟨sessionId, taskId, sourceIds⟩] }

/-- What a committed entry must satisfy. -/
def checkEntry (s : State) (x : ProjectContextEntry) : Except Failure Unit := do
  ensure (∀ i ∈ x.sourceIds.1, s.sources.contains i = true) .corrupt
  ensure (∀ i ∈ x.sessionId, i ∈ s.sessions.map (·.sessionId)) .corrupt
  ensure (x.category ∈ s.policy.allowedCategories) .incompatible
  ensure (x.value.1.utf8Length ≤ s.policy.maxEntryBytes.1) .incompatible

/-- The event `context_committed`. -/
def commitContext (s : State) (payload : Json) : Except Failure State :=
  match payload.get "entries" with
  | .arr raw => do
    ensure (raw ≠ []) .incompatible
    let entries ← projecting (raw.mapM entryFromInput)
    ensure (Json.pyEq (entriesJson entries) (.arr raw) = true) .incompatible
    validateContextProvenance s (payload.get "provenance") entries
    ensure (∀ x ∈ entries, x.entryId ∉ s.entries.map (·.entryId)) .corrupt
    entries.forM s.checkEntry
    projecting ({ s with entries := s.entries ++ entries }.ensureBounds true)
    return { s with entries := s.entries ++ entries }
  | _ => .error .incompatible

/-! ### Forks -/

/-- An item of a list that `dict` takes for a key and a value. -/
def dictItem (v : Json) : Except Err (Str × Json) :=
  match v with
  | .arr [.str k, v] => .ok (k, v)
  | .str [a, b] => .ok ([a], .str [b])
  | .obj [(a, _), (b, _)] => .ok (a, .str b)
  | _ => .error .typeError

/-- `dict(value, key=item)`. -/
def dictWith (v : Json) (key : String) (item : Json) : Except Err Json :=
  match v with
  | .obj f => .ok (.obj (Json.insertField (Str.lit key) item f))
  | .arr l => do
    let f ← l.mapM dictItem
    return .obj (Json.insertField (Str.lit key) item (f.foldl (fun g p => Json.insertField p.1 p.2 g) []))
  | _ => .error .typeError

/-- The state of a fork: the content of its parent, the sources without their local files. -/
def forked (s : State) (parent : LogicalState) (lineage : ForkLineage) : State :=
  { s with
    sources := parent.sources.mapValues SourceAnchor.portable
    entries := parent.entries
    packagePins := parent.packagePins
    packageLockDigest := parent.packageLockDigest
    forkLineage := some lineage }

/-- The event `workspace_forked`. -/
def fork (s : State) (eventId : Uuid) (payload : Json) : Except Failure State := do
  ensure (s.events.length = 1 ∧ s.forkLineage = none) .corrupt
  ensure (s.sources.items = [] ∧ s.entries = [] ∧ s.sessions = [] ∧ s.packagePins.items = []) .corrupt
  let fork ← projecting (WorkspaceFork.fromDict (payload.get "fork"))
  let inherited := payload.get "inherited_state"
  let logical ← projecting (dictWith inherited "workspace_id" fork.source.workspaceId.json)
  let parent ← projecting (logicalStateComponents logical fork.source.workspaceId)
  let content ← projecting (domainDigest "leanctx.fork.inherited-content.v1" inherited)
  ensure (fork.childWorkspaceId = s.identity.workspaceId ∧ fork.lineage.forkEventId = eventId ∧
    fork.policyInheritance.parentPolicy = parent.policy ∧ fork.policyInheritance.effectiveChildPolicy = s.policy ∧
    fork.packageLockDigest = parent.packageLockDigest ∧ fork.inheritedContentDigest = content) .corrupt
  projecting ((s.forked parent fork.lineage).ensureBounds true)
  return s.forked parent fork.lineage

/-! ### Handoffs -/

/-- The lineage of two workspaces agrees on the checkpoint that both were forked from. -/
def siblings (a b : ForkLineage) : Prop :=
  a.parentWorkspaceId = b.parentWorkspaceId ∧ a.parentCheckpointId = b.parentCheckpointId ∧
    a.parentCheckpointStateDigest = b.parentCheckpointStateDigest ∧
    a.parentCheckpointEnvelopeDigest = b.parentCheckpointEnvelopeDigest ∧ a.childWorkspaceId ≠ b.childWorkspaceId ∧
    a.forkId ≠ b.forkId ∧ a.forkEventRef ≠ b.forkEventRef

instance (a b : ForkLineage) : Decidable (siblings a b) := by unfold siblings; infer_instance

/-- A reference is to the checkpoint that a workspace was forked from. -/
def parentOf (source : WorkspaceStateRef) (b : ForkLineage) : Prop :=
  source.workspaceId = b.parentWorkspaceId ∧ source.checkpointId = b.parentCheckpointId ∧
    source.stateDigest = b.parentCheckpointStateDigest ∧
    source.checkpointEnvelopeDigest = b.parentCheckpointEnvelopeDigest

instance (source : WorkspaceStateRef) (b : ForkLineage) : Decidable (parentOf source b) := by
  unfold parentOf
  infer_instance

/-- A stored checkpoint is the one that a reference names. -/
def isSource (source : WorkspaceStateRef) (c : ContextCheckpoint) : Prop :=
  c.stateDigest = source.stateDigest ∧ c.envelopeDigest = source.checkpointEnvelopeDigest

instance (source : WorkspaceStateRef) (c : ContextCheckpoint) : Decidable (isSource source c) := by
  unfold isSource
  infer_instance

/-- `lineage_ok` of an event that applies a handoff. -/
def lineageOk (s : State) (source : WorkspaceStateRef) : Bool :=
  if source.workspaceId = s.identity.workspaceId then
    (s.checkpoints.get? source.checkpointId).any (fun c => isSource source c) && source.forkLineage = s.forkLineage
  else match source.forkLineage, s.forkLineage with
    | none, some b => decide (parentOf source b)
    | some a, some b => decide (siblings a b)
    | _, none => false

/-- The sources that a handoff brings: those that the receiver does not have. -/
def importedSources (s : State) (decision : Decision) (raw : List Json) :
    Except Failure (Dict SourceId SourceAnchor) :=
  raw.foldlM (fun imported v => do
    let anchor ← projecting (SourceAnchor.fromDict v true)
    match s.sources.get? anchor.sourceId with
    | none => do
      ensure (decision = .degraded) .corrupt
      return imported.set anchor.sourceId anchor
    | some existing => do
      ensure (Json.pyEq existing.toDict anchor.toDict = true) .corrupt
      return imported) .empty

/-- The receiver has pinned the packages of a handoff. -/
def checkPins (s : State) (raw : List Json) : Except Failure Unit :=
  raw.forM fun v => do
    let pin ← projecting (PackagePin.fromDict v)
    ensure ((s.packagePins.get? pin.key).any (fun existing => Json.pyEq existing.toDict pin.toDict) = true) .corrupt

/-- The entries that a handoff adds: those that the receiver does not have. The accumulator holds the entries
    known so far. -/
def appendedEntries (s : State) (imported : Dict SourceId SourceAnchor) (raw : List Json) :
    Except Failure (List ProjectContextEntry) :=
  raw.foldlM (fun appended v => do
    let x ← projecting (ProjectContextEntry.fromDict v)
    match (s.entries ++ appended).reverse.find? fun y => y.entryId = x.entryId with
    | some existing => do
      ensure (Json.pyEq existing.toDict x.toDict = true) .corrupt
      return appended
    | none => do
      ensure (x.category ∈ s.policy.allowedCategories) .incompatible
      ensure (∀ i ∈ x.sourceIds.1, s.sources.contains i = true ∨ imported.contains i = true) .corrupt
      return appended ++ [x]) []

/-- No handoff of that identifier has been applied yet. -/
def checkNotApplied (s : State) (record : AppliedHandoff) : Except Failure Unit :=
  match s.appliedHandoffs.get? record.handoffId with
  | some previous => .error (if previous = record then .incompatible else .corrupt)
  | none => .ok ()

/-- An admission says of the sources what the receiver finds. -/
def checkDecision (admission : HandoffAdmission) (imported : Dict SourceId SourceAnchor) : Except Failure Unit :=
  if imported.items ≠ [] ∨ admission.sourceResult = .unavailable then
    ensure (admission.decision = .degraded ∧ admission.sourceResult = .unavailable) .corrupt
  else ensure (admission.decision = .admitted ∧ admission.sourceResult = .available) .corrupt

/-- The state with what a handoff brings. -/
def handedOver (s : State) (imported : Dict SourceId SourceAnchor) (appended : List ProjectContextEntry)
    (record : AppliedHandoff) : State :=
  { s with
    sources := s.sources.update imported
    entries := s.entries ++ appended
    appliedHandoffs := s.appliedHandoffs.set record.handoffId record }

/-- The event `handoff_applied`. -/
def applyHandoff (s : State) (eventId : Uuid) (payload : Json) : Except Failure State := do
  let handoff ← projecting (ContextHandoff.fromDict (payload.get "handoff"))
  let admission ← projecting (HandoffAdmission.fromDict (payload.get "admission"))
  ensure (admission.handoffId = handoff.handoffId ∧ admission.handoffDigest = handoff.handoffDigest ∧
    admission.receiverWorkspaceId = s.identity.workspaceId ∧ admission.decision ≠ .rejected ∧
    handoff.targetWorkspaceId = s.identity.workspaceId) .corrupt
  ensure (s.lineageOk handoff.source = true ∧ admission.lineageResult = .verified ∧ admission.targetResult = .matching ∧
    admission.policyResult = .monotonic ∧ admission.packageResult = .exact ∧ admission.conflicts.entries = [] ∧
    s.policy.isTightening handoff.requiredPolicyFloor = true) .corrupt
  let record : AppliedHandoff := ⟨handoff.handoffId, handoff.handoffDigest, eventId⟩
  s.checkNotApplied record
  let imported ← s.importedSources admission.decision handoff.sourceAnchors
  checkDecision admission imported
  s.checkPins handoff.packageRefs
  let appended ← s.appendedEntries imported handoff.selectedEntries
  projecting (imported.values.forM (s.handedOver imported appended record).ensureExternalAllowed)
  projecting ((s.handedOver imported appended record).ensureBounds true)
  return s.handedOver imported appended record

/-! ### Packages, checkpoints and restores -/

/-- No package of that name and version has been pinned yet. -/
def checkNotPinned (s : State) (pin : PackagePin) : Except Failure Unit :=
  match s.packagePins.get? pin.key with
  | some existing => .error (if Json.pyEq existing.toDict pin.toDict then .incompatible else .corrupt)
  | none => .ok ()

/-- The event `package_pinned`. -/
def pinPackage (s : State) (payload : Json) : Except Failure State := do
  let pin ← projecting (PackagePin.fromDict (payload.get "pin"))
  let previous ← projecting (optionalDigest (payload.get "previous_lock_digest") "previous package lock digest")
  ensure (previous = s.packageLockDigest) .corrupt
  s.checkNotPinned pin
  ensure (∀ x ∈ s.packagePins.values, x.name = pin.name → x.artifactDigest = pin.artifactDigest) .corrupt
  ensure (s.packagePins.size + 1 ≤ maxPackagePins) .incompatible
  let lock ← projecting (packageLock (s.packagePins.set pin.key pin).values)
  return { s with packagePins := s.packagePins.set pin.key pin, packageLockDigest := lock }

def maxCheckpoints : Nat := 512

/-- The event `checkpoint_created`. -/
def createCheckpoint (s : State) (payload : Json) : Except Failure State := do
  let c ← projectingConflict (ContextCheckpoint.fromDict (payload.get "checkpoint"))
  let l ← projectingConflict (logicalStateComponents c.logicalState s.identity.workspaceId)
  ensure (s.checkpoints.contains c.checkpointId = false) .corrupt
  ensure (s.checkpoints.size + 1 ≤ maxCheckpoints) .incompatible
  ensure (c.workspaceId = s.identity.workspaceId) .corrupt
  ensure (c.lineageStateId.1 = s.identity.stateId.1) .corrupt
  ensure (c.workspaceStateRef.1 = Str.lit "event:" ++ previousText s.lastEventDigest) .corrupt
  let logicalDigest ← projecting s.logicalDigest
  ensure (c.stateDigest = logicalDigest) .corrupt
  ensure (Json.pyEq c.logicalState s.logicalState = true) .corrupt
  ensure (Json.pyEq (.arr (l.sources.values.map SourceAnchor.toDict)) (.arr c.sourceAnchors) = true) .corrupt
  ensure (c.recoveryRefs = l.recoveryRefs) .corrupt
  let policyDigest ← projecting (domainDigest "leanctx.workspace.policy.v1" l.policy.toDict)
  ensure (c.policyDigest = policyDigest) .corrupt
  let contextDigest ← projecting (domainDigest "leanctx.project-context.state.v1" (entriesJson l.entries))
  ensure (c.projectContextDigest = contextDigest) .corrupt
  projecting (verifyCheckpointTrust s l.sources.values)
  return { s with checkpoints := s.checkpoints.set c.checkpointId c }

/-- The state with its logical part replaced. -/
def withLogical (s : State) (l : LogicalState) : State :=
  { s with
    policy := l.policy
    sources := l.sources
    entries := l.entries
    packagePins := l.packagePins
    packageLockDigest := l.packageLockDigest }

/-- The checkpoint that a payload names by its identifier and envelope. -/
def namedCheckpoint (s : State) (payload : Json) : Except Failure ContextCheckpoint := do
  let checkpointId ← projecting (uuid (payload.get "checkpoint_id") "checkpoint_id")
  let envelope ← projecting (digestValue (payload.get "checkpoint_envelope_digest") "checkpoint_envelope_digest")
  match s.checkpoints.get? checkpointId with
  | some c => do
    ensure (c.envelopeDigest = envelope) .corrupt
    return c
  | none => .error .corrupt

/-- The event `workspace_restored`. -/
def restore (s : State) (payload : Json) : Except Failure State := do
  let c ← s.namedCheckpoint payload
  let target ← projectingConflict (logicalStateComponents c.logicalState s.identity.workspaceId)
  ensure (target.policy.isTightening s.policy = true) .incompatible
  projecting ((s.withLogical target).ensureBounds true)
  projecting (target.sources.values.forM (s.withLogical target).ensureExternalAllowed)
  return s.withLogical target

/-! ### Packages that carry a checkpoint -/

def packageKeys : List String :=
  ["name", "version", "package_digest", "content_hash", "signature_state", "signer_public_key"]

/-- Who vouches for a seed: a signed package whose signer is trusted. -/
def vouched (package admission : Json) : Bool :=
  package.get "signature_state" = .str "signed_valid" && admission.get "trusted_signer" = .bool true

/-- What the package and the admission of a seed must satisfy. -/
def checkSeed (package admission : Json) : Except Err Unit := do
  exact package packageKeys "seed package"
  exact admission ["trusted_signer", "allow_unsigned"] "seed admission"
  let _ ← digestValue (package.get "package_digest") "seed package package_digest"
  let _ ← digestValue (package.get "content_hash") "seed package content_hash"
  let signature ← memberOf SignatureState.all SignatureState.name
    (.incompatible "seed signature state is unsupported") (package.get "signature_state")
  match admission.get "trusted_signer", admission.get "allow_unsigned" with
  | .bool trusted, .bool allowUnsigned => do
    ensure (signature = .signedValid → trusted = true) .policy
    ensure (signature = .unsigned → allowUnsigned = true) .policy
  | _, _ => .error (.incompatible "seed admission flags are invalid")

/-- The state with the content of a checkpoint, which it keeps. -/
def seeded (s : State) (target : LogicalState) (c : ContextCheckpoint) : State :=
  { s with
    sources := target.sources
    entries := target.entries
    packagePins := target.packagePins
    packageLockDigest := target.packageLockDigest
    checkpoints := s.checkpoints.set c.checkpointId c }

/-- The event `workspace_seeded`. -/
def seed (s : State) (payload : Json) : Except Failure State := do
  ensure (s.sources.items = [] ∧ s.entries = [] ∧ s.checkpoints.items = [] ∧ s.events.length = 1) .incompatible
  let c ← projectingConflict (ContextCheckpoint.fromDict (payload.get "checkpoint"))
  let package := payload.get "package"
  let admission := payload.get "admission"
  projectingConflict (checkSeed package admission)
  let target ← projectingConflict (logicalStateComponents c.logicalState s.identity.workspaceId)
  let stateDigest ← projecting (domainDigest "leanctx.workspace.state.v1" c.logicalState)
  ensure (c.workspaceId = s.identity.workspaceId ∧ Json.pyEq target.policy.toDict s.policy.toDict = true ∧
    c.stateDigest = stateDigest) .corrupt
  ensure ((∃ a ∈ target.sources.values, a.trust.level = .verified) → vouched package admission = true) .incompatible
  projecting ({ s.seeded target c with policy := target.policy }.ensureBounds true)
  projecting (target.sources.values.forM (s.seeded target c).ensureExternalAllowed)
  return s.seeded target c

/-- The event `workspace_sealed`, which changes nothing. -/
def sealWorkspace (s : State) (payload : Json) : Except Failure State := do
  let package := payload.get "package"
  projecting (exact package packageKeys "sealed package")
  let _ ← projecting (digestValue (package.get "package_digest") "package_digest")
  let _ ← projecting (digestValue (package.get "content_hash") "content_hash")
  let _ ← s.namedCheckpoint payload
  return s

/-- The event `workspace_aborted`. -/
def abort (s : State) (payload : Json) : Except Failure State := do
  let _ ← projecting (text (payload.get "reason_code") "reason_code" 128)
  return { s with lifecycle := .aborted }

/-! ### Events -/

/-- What an event does to a state, before it is recorded. -/
def effect (s : State) (allowVerified : Bool) (e : Event) : Except Failure State :=
  match e.kind with
  | .workspaceCreated => .error .corrupt
  | .sourceAttached => s.attachSource allowVerified e.payload
  | .sourceUpdated => s.updateSource allowVerified e.payload
  | .policyTightened => s.tightenPolicy e.payload
  | .sessionAttached => s.attachSession e.payload
  | .contextCommitted => s.commitContext e.payload
  | .workspaceForked => s.fork e.eventId e.payload
  | .handoffApplied => s.applyHandoff e.eventId e.payload
  | .packagePinned => s.pinPackage e.payload
  | .checkpointCreated => s.createCheckpoint e.payload
  | .workspaceRestored => s.restore e.payload
  | .workspaceSeeded => s.seed e.payload
  | .workspaceSealed => s.sealWorkspace e.payload
  | .workspaceCompleted => .ok { s with lifecycle := .completed }
  | .workspaceAborted => s.abort e.payload

/-- The state with an event at the end of its journal. -/
def withEvent (s : State) (e : Event) : State :=
  { s with events := s.events ++ [e], lastEventDigest := some e.eventDigest }

/-- Recording an event: the bounds of the policy, and the receipt. -/
def recordEvent (s : State) (e : Event) : Except Failure State := do
  projecting ((s.withEvent e).ensureBounds false)
  let receipt ← projecting (receiptForEvent (s.withEvent e) e)
  ensure (s.receipts.contains e.eventId = false) .corrupt
  return { s.withEvent e with receipts := s.receipts.set e.eventId receipt }

end State

/-- `_apply_event(state, event, …)`, the state before the first event being none. -/
def applyEvent (allowVerified : Bool) (s : Option State) (e : Event) : Except Failure State := do
  checkPayload e
  match s with
  | none => do
    ensure (e.kind = .workspaceCreated) .corrupt
    let s ← State.create e
    s.recordEvent e
  | some s => do
    ensure (e.kind ≠ .workspaceCreated) .corrupt
    ensure (s.lifecycle = .active) .incompatible
    let s' ← s.effect allowVerified e
    s'.recordEvent e

end LeanCtx
