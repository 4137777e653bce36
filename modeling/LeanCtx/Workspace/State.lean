import LeanCtx.Workspace.Handoff

/-! Events and the state of a workspace after them: what it holds, the digests of it and the receipts it keeps. -/

namespace LeanCtx

/-- `_ZERO_DIGEST`, which the first event names as its predecessor. -/
def zeroDigest : Str := List.replicate 64 48

/-- The digest of an event, or the text that stands for no event. -/
def previousText (d : Option Digest) : Str := (d.map Subtype.val).getD zeroDigest

/-! ### Events -/

/-- An event of a workspace. -/
structure Event where
  workspaceId : Uuid
  sequence : Positive
  eventId : Uuid
  kind : EventKind
  payload : Json
  previousDigest : Option Digest
  eventDigest : Digest
deriving DecidableEq

namespace Event

def schema : String := "leanctx.workspace-event/v1"

/-- What the digest of an event is computed from. -/
def unsignedFields (workspaceId : Uuid) (sequence : Positive) (eventId : Uuid) (kind : EventKind) (payload : Json)
    (previous : Option Digest) : List (String × Json) :=
  [("schema_version", .str schema), ("workspace_id", workspaceId.json), ("sequence", sequence.json),
    ("event_id", eventId.json), ("kind", .str kind.name), ("payload", payload),
    ("previous_digest", .str (previousText previous))]

def unsigned (e : Event) : List (String × Json) :=
  unsignedFields e.workspaceId e.sequence e.eventId e.kind e.payload e.previousDigest

def toDict (e : Event) : Json := Json.mkObj (e.unsigned ++ [("event_digest", e.eventDigest.json)])

/-- `_event_record(workspace_id, sequence, event_id, kind, payload, previous_digest)`. -/
def record (workspaceId : Uuid) (sequence : Positive) (eventId : Uuid) (kind : EventKind) (payload : Json)
    (previous : Option Digest) : Except Err Event :=
  (fun d => ⟨workspaceId, sequence, eventId, kind, payload.plain, previous, d⟩) <$>
    digest (Json.mkObj (unsignedFields workspaceId sequence eventId kind payload.plain previous))

end Event

/-! ### States -/

inductive Lifecycle
  | active
  | completed
  | aborted
deriving DecidableEq

def Lifecycle.name : Lifecycle → String
  | .active => "active"
  | .completed => "completed"
  | .aborted => "aborted"

/-- What a workspace keeps of a handoff that it has applied. -/
structure AppliedHandoff where
  handoffId : Uuid
  handoffDigest : Digest
  eventId : Uuid
deriving DecidableEq

def AppliedHandoff.toDict (x : AppliedHandoff) : Json :=
  Json.mkObj [("handoff_id", x.handoffId.json), ("handoff_digest", x.handoffDigest.json), ("event_id", x.eventId.json)]

/-- The state of a workspace that has been created: `_WorkspaceState`. Before its first event a workspace has
    no state. -/
structure State where
  identity : WorkspaceIdentity
  policy : WorkspacePolicy
  lifecycle : Lifecycle
  sources : Dict SourceId SourceAnchor
  sessions : List SessionRecord
  entries : List ProjectContextEntry
  checkpoints : Dict Uuid ContextCheckpoint
  packagePins : Dict PinKey PackagePin
  packageLockDigest : Option Digest
  forkLineage : Option ForkLineage
  appliedHandoffs : Dict Uuid AppliedHandoff
  events : List Event
  receipts : Dict Uuid WorkspaceReceipt
  lastEventDigest : Option Digest
deriving DecidableEq

namespace State

/-- The state that an event creates. -/
def created (identity : WorkspaceIdentity) (policy : WorkspacePolicy) : State where
  identity
  policy
  lifecycle := .active
  sources := .empty
  sessions := []
  entries := []
  checkpoints := .empty
  packagePins := .empty
  packageLockDigest := none
  forkLineage := none
  appliedHandoffs := .empty
  events := []
  receipts := .empty
  lastEventDigest := none

/-- The part of the state that a checkpoint holds. -/
def logical (s : State) : LogicalState where
  policy := s.policy
  sources := s.sources
  entries := s.entries
  packagePins := s.packagePins
  packageLockDigest := s.packageLockDigest

/-- `state.logical_state()`. -/
def logicalState (s : State) : Json := s.logical.toDict s.identity.workspaceId

/-- `state.logical_digest()`. -/
def logicalDigest (s : State) : Except Err Digest := domainDigest "leanctx.workspace.state.v1" s.logicalState

/-- `state.digest()`. -/
def digest (s : State) : Except Err Digest :=
  LeanCtx.digest <| Json.mkObj [("identity", s.identity.toDict),
    ("latest_sources_sorted_by_id", .arr (s.sources.sortedValues.map SourceAnchor.toDict)),
    ("policy", s.policy.toDict), ("sessions_in_event_order", .arr (s.sessions.map SessionRecord.toDict)),
    ("entries_in_event_order", entriesJson s.entries), ("fork_lineage", optional ForkLineage.toDict s.forkLineage),
    ("applied_handoffs", .arr (s.appliedHandoffs.sortedValues.map AppliedHandoff.toDict)),
    ("lifecycle", .str s.lifecycle.name), ("last_event_digest", .str (previousText s.lastEventDigest))]

/-- `_ensure_external_allowed(state, anchor)`. -/
def ensureExternalAllowed (s : State) (anchor : SourceAnchor) : Except Err Unit :=
  ensure (anchor.kind = .filesystem ∨ s.policy.allowExternalSources = true) .policy

/-- `_ensure_state_bounds(state, extra_event=…)`, with the policy that the state holds. -/
def ensureBounds (s : State) (extraEvent : Bool) : Except Err Unit := do
  ensure (s.events.length + (if extraEvent then 1 else 0) ≤ s.policy.maxEvents.1) .policy
  ensure (s.sources.size ≤ s.policy.maxSources.1) .policy
  ensure (s.sessions.length ≤ s.policy.maxSessions.1) .policy
  ensure (s.entries.length ≤ s.policy.maxContextEntries.1) .policy
  ensure (s.packagePins.size ≤ maxPackagePins) .policy
  ensure (∀ e ∈ s.entries, e.value.1.utf8Length ≤ s.policy.maxEntryBytes.1) .policy
  let bytes ← stateContextBytes s.entries
  ensure (bytes ≤ s.policy.maxContextBytes.1) .policy

end State

/-! ### Receipts -/

/-- What a receipt says of the payload of its event. -/
structure ReceiptParts where
  sourceIds : Json
  sessionId : Json
  engineReceiptRefs : Json
  recoveryRefs : Json

namespace ReceiptParts

/-- The parts of an event that names no source and no session. -/
def empty : ReceiptParts := ⟨.arr [], .null, .arr [], .arr []⟩

/-- The session of entries that belong to one session. -/
def sessionOf (l : List ProjectContextEntry) : Option SessionId :=
  match sortedUnion (l.filterMap (·.sessionId)) with
  | [session] => some session
  | _ => none

/-- The parts of an event. -/
def ofEvent (e : Event) : Except Err ReceiptParts :=
  match e.kind with
  | .sourceAttached | .sourceUpdated =>
    match (e.payload.get "anchor").get "source_id" with
    | .str s => .ok { empty with sourceIds := .arr [.str s] }
    | _ => .error (.incompatible "event anchor source_id is invalid")
  | .sessionAttached => do
    match e.payload.get "source_ids" with
    | .arr l => ensure (l.all Json.isStr = true) (.incompatible "event source_ids are invalid")
    | _ => .error (.incompatible "event source_ids are invalid")
    match e.payload.get "session_id" with
    | .str s => return { empty with sourceIds := e.payload.get "source_ids", sessionId := .str s }
    | _ => .error (.incompatible "event session_id is invalid")
  | .contextCommitted =>
    match e.payload.get "entries" with
    | .arr l => do
      let entries ← l.mapM entryFromInput
      return ⟨.arr ((sortedUnion (entries.flatMap fun e => e.sourceIds.1)).map Text.json),
        optional Text.json (sessionOf entries), .arr ((sortedUnion (entries.flatMap fun e => e.receiptRefs.1)).map Ref.json),
        .arr ((sortedUnion (entries.flatMap fun e => e.recoveryRefs.1)).map Ref.json)⟩
    | _ => .error (.incompatible "event entries are invalid")
  | _ => .ok empty

end ReceiptParts

/-- `_receipt_for_event(state, event)`. -/
def receiptForEvent (s : State) (e : Event) : Except Err WorkspaceReceipt := do
  let parts ← ReceiptParts.ofEvent e
  let stateDigest ← s.digest
  let sourceIds ← ids parts.sourceIds "source_ids" maxReceiptIds
  let sessionId ← optionalText parts.sessionId "session_id" 512
  let engineRefs ← refs parts.engineReceiptRefs "engine_receipt_refs" maxReceiptRefs
  let recoveryRefs ← refs parts.recoveryRefs "recovery_refs" maxReceiptRefs
  return ⟨s.identity.workspaceId, s.identity.stateId, e.sequence, e.eventId, e.kind, e.eventDigest, stateDigest, sourceIds,
    sessionId, engineRefs, recoveryRefs⟩

end LeanCtx
