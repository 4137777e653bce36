import LeanCtx.Workspace.Forking

/-! The operations of a workspace that read its journal, make a record of what they read and append it. -/

namespace LeanCtx
open Json

/-- `_append(kind, payload, event_id=…)` of a payload with the keys of its kind. -/
def appendEvent (workspaceId : Uuid) (files : List EventFile) (r : Request) : List EventFile × Except Err Appended :=
  match rejectSensitive r.payload "payload" with
  | .error err => (files, .error err)
  | .ok _ => append workspaceId files r

/-- The fields of the checkpoint that `checkpoint` makes of a state, without its envelope. -/
def State.checkpointFields (s : State) (checkpointId : Uuid) (stateDigest policyDigest contextDigest : Digest) :
    List (String × Json) :=
  [("schema_version", .str CheckpointFields.schema), ("checkpoint_id", checkpointId.json),
    ("workspace_id", s.identity.workspaceId.json), ("state_digest", stateDigest.json),
    ("state_schema_version", .str logicalStateSchema),
    ("workspace_state_ref", .str (Str.lit "event:" ++ previousText s.lastEventDigest)),
    ("logical_state", s.logicalState.plain), ("source_anchors", s.logicalState.get "sources"),
    ("recovery_refs", .arr (s.logical.recoveryRefs.map Ref.json)), ("package_pins", s.logicalState.get "package_pins"),
    ("package_lock_digest", s.logicalState.get "package_lock_digest"), ("policy_digest", policyDigest.json),
    ("project_context_digest", contextDigest.json),
    ("lineage", mkObj [("kind", .str "workspace"), ("workspace_id", s.identity.workspaceId.json),
      ("state_id", s.identity.stateId.json)]),
    ("engine_identity", CheckpointFields.engine), ("sdk_contract", .str CheckpointFields.contract)]

/-- The checkpoint that `checkpoint(checkpoint_id=…)` makes of a state. -/
def State.takeCheckpoint (s : State) (checkpointId : Uuid) : Except Err ContextCheckpoint := do
  ensure (s.lifecycle = .active) .lifecycle
  let stateDigest ← s.logicalDigest
  let policyDigest ← domainDigest "leanctx.workspace.policy.v1" s.policy.toDict
  let contextDigest ← domainDigest "leanctx.project-context.state.v1" (entriesJson s.entries)
  let unsigned := s.checkpointFields checkpointId stateDigest policyDigest contextDigest
  let envelope ← domainDigest "leanctx.checkpoint.envelope.v2" (mkObj unsigned)
  ContextCheckpoint.fromDict (mkObj (unsigned ++ [("envelope_digest", envelope.json)]))

/-- `checkpoint(checkpoint_id=…, event_id=…)`: the journal after it, and the checkpoint. -/
def checkpointWorkspace (workspaceId : Uuid) (files : List EventFile) (checkpointId eventId : Uuid) :
    List EventFile × Except Err ContextCheckpoint :=
  match readState workspaceId files >>= fun s => s.takeCheckpoint checkpointId with
  | .error err => (files, .error err)
  | .ok c =>
    let r := appendEvent workspaceId files ⟨.checkpointCreated, mkObj [("checkpoint", c.toDict)], eventId, false, .ok ()⟩
    (r.1, (fun _ => c) <$> r.2)

/-- `fork(name, from_checkpoint=…, …)` up to the publication of the child: the journal of the parent after it, and the child. A
    fork without a checkpoint takes one first, under the identifiers that it chooses. -/
def forkWorkspace (workspaceId : Uuid) (files : List EventFile) (fromCheckpoint : Option ContextCheckpoint)
    (checkpointId eventId : Uuid) (a : ForkArguments) : List EventFile × Except Err Birth :=
  match fromCheckpoint with
  | some c => (files, readState workspaceId files >>= fun s => s.forkFrom c a)
  | none =>
    match checkpointWorkspace workspaceId files checkpointId eventId with
    | (files', .error err) => (files', .error err)
    | (files', .ok c) => (files', readState workspaceId files' >>= fun s => s.forkFrom c a)

/-- A fork of a checkpoint that is given leaves the journal of the parent as it is, and makes its child of the state that
    the journal projects to. -/
theorem forkWorkspace_some {workspaceId : Uuid} {files : List EventFile} {c : ContextCheckpoint} {i j : Uuid}
    {a : ForkArguments} : (forkWorkspace workspaceId files (some c) i j a).1 = files ∧ ∀ b s,
      project workspaceId files = .ok s →
        ((forkWorkspace workspaceId files (some c) i j a).2 = .ok b ↔ s.forkFrom c a = .ok b) := by
  refine ⟨rfl, fun b s hs => ?_⟩
  rw [forkWorkspace, readState, hs]
  rfl

end LeanCtx
