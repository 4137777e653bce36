import LeanCtx.Workspace.Checkpoint

/-! Forks: references to checkpoints, the lineage of a forked workspace, the policy that it inherits and the record
    of the fork. -/

namespace LeanCtx

/-! ### Lineage -/

/-- Where a forked workspace comes from: `ForkLineageV1`. -/
structure ForkLineage where
  childWorkspaceId : Uuid
  parentWorkspaceId : Uuid
  parentCheckpointId : Uuid
  parentCheckpointStateDigest : Digest
  parentCheckpointEnvelopeDigest : Digest
  forkId : Uuid
  forkEventId : Uuid
  distinct : childWorkspaceId ≠ parentWorkspaceId
deriving DecidableEq

namespace ForkLineage

def schema : String := "leanctx.fork-lineage/v1"

def contract : String := "leanctx.workspace-fork/v1"

/-- `fork_event_ref`. -/
def forkEventRef (x : ForkLineage) : Str := Str.lit "event-id:" ++ x.forkEventId.1

def toDict (x : ForkLineage) : Json :=
  Json.mkObj [("schema_version", .str schema), ("child_workspace_id", x.childWorkspaceId.json),
    ("parent_workspace_id", x.parentWorkspaceId.json), ("parent_checkpoint_id", x.parentCheckpointId.json),
    ("parent_checkpoint_state_digest", x.parentCheckpointStateDigest.json),
    ("parent_checkpoint_envelope_digest", x.parentCheckpointEnvelopeDigest.json), ("fork_contract", .str contract),
    ("fork_id", x.forkId.json), ("fork_event_ref", .str x.forkEventRef)]

/-- The event that a `fork_event_ref` names. -/
def eventRef (v : Json) : Except Err Uuid :=
  match v with
  | .str s =>
    if Str.lit "event-id:" <+: s then uuid (.str (s.drop 9)) "fork event id"
    else .error (.validation "fork_event_ref must be an event-id reference")
  | _ => .error (.validation "fork_event_ref must be an event-id reference")

/-- `ForkLineageV1.from_dict`. -/
def fromDict (v : Json) : Except Err ForkLineage := do
  exact v ["schema_version", "child_workspace_id", "parent_workspace_id", "parent_checkpoint_id",
    "parent_checkpoint_state_digest", "parent_checkpoint_envelope_digest", "fork_contract", "fork_id",
    "fork_event_ref"] "ForkLineageV1"
  ensure (v.get "schema_version" = .str schema ∧ v.get "fork_contract" = .str contract)
    (.incompatible "unsupported fork lineage")
  let child ← uuid (v.get "child_workspace_id") "child_workspace_id"
  let parent ← uuid (v.get "parent_workspace_id") "parent_workspace_id"
  if h : child ≠ parent then do
    let checkpoint ← uuid (v.get "parent_checkpoint_id") "parent_checkpoint_id"
    let state ← digestValue (v.get "parent_checkpoint_state_digest") "parent checkpoint state digest"
    let envelope ← digestValue (v.get "parent_checkpoint_envelope_digest") "parent checkpoint envelope digest"
    let forkId ← uuid (v.get "fork_id") "fork_id"
    let event ← eventRef (v.get "fork_event_ref")
    return ⟨child, parent, checkpoint, state, envelope, forkId, event, h⟩
  else .error .conflict

@[simp] theorem eventRef_forkEventRef (x : ForkLineage) : eventRef (.str x.forkEventRef) = .ok x.forkEventId := by
  have hstart : Str.lit "event-id:" <+: x.forkEventRef := List.prefix_append _ _
  have hdrop : x.forkEventRef.drop 9 = x.forkEventId.1 :=
    List.drop_left' (show (Str.lit "event-id:").length = 9 by decide)
  rw [eventRef, if_pos hstart, hdrop]
  exact uuid_json x.forkEventId _

/-- A lineage reads back. -/
@[simp] theorem fromDict_toDict (x : ForkLineage) : fromDict x.toDict = .ok x := by
  obtain ⟨child, parent, checkpoint, state, envelope, forkId, event, h⟩ := x
  have hevent := eventRef_forkEventRef ⟨child, parent, checkpoint, state, envelope, forkId, event, h⟩
  simp [fromDict, toDict, Json.get_mkObj, h, hevent]

theorem writable_forkEventRef (x : ForkLineage) : Json.Writable (.str x.forkEventRef) := Json.writable_str <| by
  rw [forkEventRef, List.all_append, Bool.and_eq_true]
  exact ⟨Json.isScalar_lit _, isScalar_of_isUuid x.forkEventId.2⟩

theorem writable_toDict (x : ForkLineage) : x.toDict.Writable := by
  refine Json.writable_mkObj ?_
  simp [writable_lit, writable_uuid, writable_digest, writable_forkEventRef]

end ForkLineage

/-! ### References to checkpoints -/

/-- A reference to a checkpoint of a workspace: `WorkspaceStateRefV1`. -/
structure WorkspaceStateRef where
  workspaceId : Uuid
  checkpointId : Uuid
  stateDigest : Digest
  checkpointEnvelopeDigest : Digest
  forkLineage : Option ForkLineage
  lineage : ∀ l ∈ forkLineage, l.childWorkspaceId = workspaceId
deriving DecidableEq

namespace WorkspaceStateRef

def schema : String := "leanctx.workspace-state-ref/v1"

/-- `WorkspaceStateRefV1(…)`. -/
def make (workspaceId checkpointId : Uuid) (stateDigest envelope : Digest) (lineage : Option ForkLineage) :
    Except Err WorkspaceStateRef :=
  if h : ∀ l ∈ lineage, l.childWorkspaceId = workspaceId then
    .ok ⟨workspaceId, checkpointId, stateDigest, envelope, lineage, h⟩
  else .error .conflict

/-- `WorkspaceStateRefV1.from_checkpoint(checkpoint, fork_lineage=…)`. -/
def fromCheckpoint (c : ContextCheckpoint) (lineage : Option ForkLineage) : Except Err WorkspaceStateRef :=
  make c.workspaceId c.checkpointId c.stateDigest c.envelopeDigest lineage

def toDict (x : WorkspaceStateRef) : Json :=
  Json.mkObj [("schema_version", .str schema), ("workspace_id", x.workspaceId.json),
    ("checkpoint_id", x.checkpointId.json), ("state_digest", x.stateDigest.json),
    ("checkpoint_envelope_digest", x.checkpointEnvelopeDigest.json),
    ("fork_lineage", optional ForkLineage.toDict x.forkLineage)]

/-- `WorkspaceStateRefV1.from_dict`. -/
def fromDict (v : Json) : Except Err WorkspaceStateRef := do
  exact v ["schema_version", "workspace_id", "checkpoint_id", "state_digest", "checkpoint_envelope_digest",
    "fork_lineage"] "WorkspaceStateRefV1"
  ensure (v.get "schema_version" = .str schema) (.incompatible "unsupported WorkspaceStateRefV1 schema")
  let lineage ← SourceAnchor.nested ForkLineage.fromDict (v.get "fork_lineage")
  let workspaceId ← uuid (v.get "workspace_id") "workspace_id"
  let checkpointId ← uuid (v.get "checkpoint_id") "checkpoint_id"
  let stateDigest ← digestValue (v.get "state_digest") "state_digest"
  let envelope ← digestValue (v.get "checkpoint_envelope_digest") "checkpoint_envelope_digest"
  make workspaceId checkpointId stateDigest envelope lineage

/-- A reference reads back. -/
@[simp] theorem fromDict_toDict (x : WorkspaceStateRef) : fromDict x.toDict = .ok x := by
  obtain ⟨workspaceId, checkpointId, stateDigest, envelope, lineage, h⟩ := x
  have hlineage : SourceAnchor.nested ForkLineage.fromDict (optional ForkLineage.toDict lineage) = .ok lineage :=
    nested_optional (fun _ => mkObj_ne_null _) fun l _ => ForkLineage.fromDict_toDict l
  have hmake : make workspaceId checkpointId stateDigest envelope lineage = .ok ⟨workspaceId, checkpointId, stateDigest,
      envelope, lineage, h⟩ := dif_pos h
  simp [fromDict, toDict, Json.get_mkObj, hlineage, hmake]

theorem writable_toDict (x : WorkspaceStateRef) : x.toDict.Writable := by
  refine Json.writable_mkObj ?_
  simp [writable_lit, writable_uuid, writable_digest, writable_optional ForkLineage.writable_toDict]

end WorkspaceStateRef

/-! ### Inherited policies -/

/-- The policy of a child, which tightens its parent's: `PolicyInheritanceV1`. The requested policy is the
    effective one. -/
structure PolicyInheritance where
  parentPolicy : WorkspacePolicy
  effectiveChildPolicy : WorkspacePolicy
  parentPolicyDigest : Digest
  inheritanceDigest : Digest
  tightening : effectiveChildPolicy.isTightening parentPolicy = true
deriving DecidableEq

namespace PolicyInheritance

def schema : String := "leanctx.policy-inheritance/v1"

/-- `relation`. -/
def relation (parent child : WorkspacePolicy) : String := if child = parent then "equal" else "tightened"

def baseFields (parent child : WorkspacePolicy) (parentDigest : Digest) : List (String × Json) :=
  [("schema_version", .str schema), ("parent_policy", parent.toDict), ("parent_policy_digest", parentDigest.json),
    ("requested_child_policy", child.toDict), ("effective_child_policy", child.toDict),
    ("relation", .str (relation parent child))]

/-- `PolicyInheritanceV1.create(parent, requested)`. -/
def create (parent : WorkspacePolicy) (requested : Option WorkspacePolicy) : Except Err PolicyInheritance :=
  if h : (requested.getD parent).isTightening parent = true then do
    let parentDigest ← parallelDigest "leanctx.workspace.policy.v1" parent.toDict
    let inheritance ← parallelDigest "leanctx.policy-inheritance.v1"
      (Json.mkObj (baseFields parent (requested.getD parent) parentDigest))
    return ⟨parent, requested.getD parent, parentDigest, inheritance, h⟩
  else .error .policy

def toDict (x : PolicyInheritance) : Json :=
  Json.mkObj (baseFields x.parentPolicy x.effectiveChildPolicy x.parentPolicyDigest ++
    [("inheritance_digest", x.inheritanceDigest.json)])

/-- `PolicyInheritanceV1.from_dict`. -/
def fromDict (v : Json) : Except Err PolicyInheritance := do
  exact v ["schema_version", "parent_policy", "parent_policy_digest", "requested_child_policy",
    "effective_child_policy", "relation", "inheritance_digest"] "PolicyInheritanceV1"
  ensure (v.get "schema_version" = .str schema) (.incompatible "unsupported policy inheritance")
  let parent ← WorkspacePolicy.fromDict (v.get "parent_policy")
  let requested ← WorkspacePolicy.fromDict (v.get "requested_child_policy")
  let effective ← WorkspacePolicy.fromDict (v.get "effective_child_policy")
  let expected ← create parent (some requested)
  ensure (effective = expected.effectiveChildPolicy ∧ Json.pyEq expected.toDict v = true) .conflict
  return expected

/-- What `create` builds reads back. -/
theorem fromDict_create {parent : WorkspacePolicy} {requested : Option WorkspacePolicy} {x : PolicyInheritance}
    (h : create parent requested = .ok x) : fromDict x.toDict = .ok x := by
  have hx : create x.parentPolicy (some x.effectiveChildPolicy) = .ok x := by
    unfold create at h
    split_ifs at h with ht
    obtain ⟨d, hd, h⟩ := bind_eq_ok.mp h
    obtain ⟨i, hi, h⟩ := bind_eq_ok.mp h
    cases h
    simp only [create, Option.getD_some, hd, hi, ok_bind]
    exact dif_pos ht
  simp [fromDict, toDict, baseFields, Json.get_mkObj, hx]

end PolicyInheritance

/-! ### The record of a fork -/

/-- `_portable_anchor(value)`. -/
def portableAnchor (v : Json) : Json :=
  match v with
  | .obj f => .obj (Json.insertField (Str.lit "engine_binding") .null f)
  | v => v

/-- A list of sources without their local files. -/
def clearBindings (v : Json) : Json :=
  match v with
  | .arr l => .arr (l.map portableAnchor)
  | v => v

/-- The logical state without its workspace, its sources without their local files: `_content_state`. -/
def contentState (logical : Json) : Json :=
  match logical with
  | .obj f => .obj ((f.filter fun p => p.1 ≠ Str.lit "workspace_id").map fun p =>
      if p.1 = Str.lit "sources" then (p.1, clearBindings p.2) else p)
  | v => v

/-- The fields of a fork, before it is known that they belong together. -/
structure ForkFields where
  forkId : Uuid
  source : WorkspaceStateRef
  childWorkspaceId : Uuid
  childName : Text 128
  lineage : ForkLineage
  policyInheritance : PolicyInheritance
  packageLockDigest : Option Digest
  inheritedContentDigest : Digest
  executionRef : Option (Text 512)
  forkDigest : Digest
deriving DecidableEq

namespace ForkFields

def schema : String := "leanctx.workspace-fork/v1"

def digestFields (x : ForkFields) : List (String × Json) :=
  [("schema_version", .str schema), ("fork_id", x.forkId.json), ("source", x.source.toDict),
    ("child_workspace_id", x.childWorkspaceId.json), ("child_name", x.childName.json), ("lineage", x.lineage.toDict),
    ("policy_inheritance", x.policyInheritance.toDict),
    ("package_lock_digest", optional Digest.json x.packageLockDigest),
    ("inherited_content_digest", x.inheritedContentDigest.json),
    ("execution_ref", optional Text.json x.executionRef)]

def toDict (x : ForkFields) : Json := Json.mkObj (x.digestFields ++ [("fork_digest", x.forkDigest.json)])

/-- What the constructor checks of the fields together. -/
def check (x : ForkFields) : Except Err Unit := do
  ensure (x.forkId = x.lineage.forkId ∧ x.childWorkspaceId = x.lineage.childWorkspaceId) .conflict
  ensure (x.source.workspaceId = x.lineage.parentWorkspaceId ∧ x.source.checkpointId = x.lineage.parentCheckpointId ∧
    x.source.stateDigest = x.lineage.parentCheckpointStateDigest ∧
    x.source.checkpointEnvelopeDigest = x.lineage.parentCheckpointEnvelopeDigest) .conflict
  parallelRejectSensitive
    (Json.mkObj [("child_name", x.childName.json), ("execution_ref", optional Text.json x.executionRef)])
  let expected ← parallelDigest "leanctx.workspace-fork.v1" (Json.mkObj x.digestFields)
  ensure (x.forkDigest = expected) .conflict

end ForkFields

/-- The record of a fork: `WorkspaceForkV1`. -/
structure WorkspaceFork extends ForkFields where
  valid : toForkFields.check = .ok ()
deriving DecidableEq

namespace WorkspaceFork
open ForkFields

def make (x : ForkFields) : Except Err WorkspaceFork := certify x.check fun h => ⟨x, h⟩

theorem make_eq_ok {x : ForkFields} {y : WorkspaceFork} : make x = .ok y ↔ y.toForkFields = x :=
  certify_eq_ok.trans ⟨fun ⟨_, e⟩ => e ▸ rfl, fun e => e ▸ ⟨y.valid, rfl⟩⟩

/-- `WorkspaceForkV1.from_dict`. -/
def fromDict (v : Json) : Except Err WorkspaceFork := do
  exact v ["schema_version", "fork_id", "source", "child_workspace_id", "child_name", "lineage", "policy_inheritance",
    "package_lock_digest", "inherited_content_digest", "execution_ref", "fork_digest"] "WorkspaceForkV1"
  ensure (v.get "schema_version" = .str schema) (.incompatible "unsupported WorkspaceForkV1")
  let source ← WorkspaceStateRef.fromDict (v.get "source")
  let lineage ← ForkLineage.fromDict (v.get "lineage")
  let policy ← PolicyInheritance.fromDict (v.get "policy_inheritance")
  let forkId ← uuid (v.get "fork_id") "fork_id"
  let child ← uuid (v.get "child_workspace_id") "child_workspace_id"
  let name ← parallelText (v.get "child_name") "child_name" 128
  let lock ← optionalDigest (v.get "package_lock_digest") "package_lock_digest"
  let content ← digestValue (v.get "inherited_content_digest") "inherited_content_digest"
  let forkDigest ← digestValue (v.get "fork_digest") "fork_digest"
  let execution ← SourceAnchor.nested (fun v => parallelText v "execution_ref" 512) (v.get "execution_ref")
  make ⟨forkId, source, child, name, lineage, policy, lock, content, execution, forkDigest⟩

/-- `WorkspaceForkV1.create(checkpoint, child_workspace_id, child_name, event_id, …)` with the fork's identifier
    chosen. -/
def create (c : ContextCheckpoint) (child : Uuid) (name : Text 128) (eventId : Uuid)
    (requested : Option WorkspacePolicy) (forkId : Uuid) (execution : Option (Text 512)) : Except Err WorkspaceFork := do
  let parent ← WorkspacePolicy.fromDict (c.logicalState.get "policy")
  let policy ← PolicyInheritance.create parent requested
  if h : child ≠ c.workspaceId then do
    let lineage : ForkLineage := ⟨child, c.workspaceId, c.checkpointId, c.stateDigest, c.envelopeDigest, forkId, eventId, h⟩
    let content ← parallelDigest "leanctx.fork.inherited-content.v1" (contentState c.logicalState)
    let source ← WorkspaceStateRef.fromCheckpoint c none
    let fields : ForkFields := ⟨forkId, source, child, name, lineage, policy, c.packageLockDigest, content, execution, content⟩
    let forkDigest ← parallelDigest "leanctx.workspace-fork.v1" (Json.mkObj fields.digestFields)
    make { fields with forkDigest }
  else .error .conflict

end WorkspaceFork
end LeanCtx
