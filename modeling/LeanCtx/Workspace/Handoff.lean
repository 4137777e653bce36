import LeanCtx.Workspace.Conflict

/-! Handoffs: the selected entries that one workspace hands to another, and the receiver's decision about them. -/

namespace LeanCtx

/-! ### Handoffs -/

def maxHandoffEntries : Nat := 64

def maxHandoffAnchors : Nat := 128

def maxHandoffRecoveryRefs : Nat := 512

def maxHandoffPackageRefs : Nat := 128

def maxHandoffBytes : Nat := 256 * 1024

/-- `tuple(value)`. -/
def pyTuple (v : Json) : Except Err (List Json) :=
  match v with
  | .arr l => .ok l
  | .str s => .ok (s.map fun c => .str [c])
  | .obj f => .ok (f.map fun p => .str p.1)
  | _ => .error .typeError

/-- The fields of a handoff, before it is known that they belong together. -/
structure HandoffFields where
  handoffId : Uuid
  source : WorkspaceStateRef
  targetWorkspaceId : Uuid
  targetRole : Option (Text 128)
  task : Task (16 * 1024)
  selectedEntries : List Json
  sourceAnchors : List Json
  recoveryRefs : Texts maxHandoffRecoveryRefs
  packageRefs : List Json
  requiredPolicyFloor : WorkspacePolicy
  handoffDigest : Digest
deriving DecidableEq

namespace HandoffFields

def schema : String := "leanctx.context-handoff/v1"

def bounds : Json :=
  Json.mkObj [("max_entries", .int maxHandoffEntries), ("max_source_anchors", .int maxHandoffAnchors),
    ("max_recovery_refs", .int maxHandoffRecoveryRefs), ("max_package_refs", .int maxHandoffPackageRefs),
    ("max_bytes", .int maxHandoffBytes)]

/-- `self._unsigned_dict()`, as a list of fields. -/
def unsignedFields (x : HandoffFields) : List (String × Json) :=
  [("schema_version", .str schema), ("handoff_id", x.handoffId.json), ("source", x.source.toDict),
    ("target", Json.mkObj [("workspace_id", x.targetWorkspaceId.json), ("role", optional Text.json x.targetRole)]),
    ("task", x.task.json), ("selected_entries", .arr x.selectedEntries), ("source_anchors", .arr x.sourceAnchors),
    ("recovery_refs", x.recoveryRefs.json), ("package_refs", .arr x.packageRefs),
    ("required_policy_floor", x.requiredPolicyFloor.toDict), ("bounds", bounds)]

def toDict (x : HandoffFields) : Json := Json.mkObj (x.unsignedFields ++ [("handoff_digest", x.handoffDigest.json)])

/-- The entries that are handed over. -/
def entries (x : HandoffFields) : Except Err (List ProjectContextEntry) :=
  x.selectedEntries.mapM ProjectContextEntry.fromDict

/-- The sources that the entries refer to. -/
def anchors (x : HandoffFields) : Except Err (List SourceAnchor) :=
  x.sourceAnchors.mapM fun a => SourceAnchor.fromDict a true

/-- The packages that the sender has pinned. -/
def pins (x : HandoffFields) : Except Err (List PackagePin) := x.packageRefs.mapM PackagePin.fromDict

/-- What the constructor checks of the fields together. -/
def check (x : HandoffFields) : Except Err Unit := do
  ensure (x.selectedEntries ≠ [] ∧ x.selectedEntries.length ≤ maxHandoffEntries) .policy
  ensure (x.sourceAnchors.length ≤ maxHandoffAnchors) .policy
  ensure (x.packageRefs.length ≤ maxHandoffPackageRefs) .policy
  let entries ← x.entries
  ensure ((entries.map (·.entryId)).Pairwise (· < ·)) (.validation "handoff entries are not canonical")
  let anchors ← x.anchors
  ensure (∀ a ∈ anchors, a.engineBinding = none) (.validation "handoff anchors must be portable")
  ensure (Json.pyEq (.arr (anchors.map SourceAnchor.toDict)) (.arr x.sourceAnchors) = true)
    (.validation "handoff anchors are not canonical")
  ensure ((anchors.map (·.sourceId)).Pairwise (· < ·)) (.validation "handoff anchors are not canonical")
  ensure (∀ e ∈ entries, ∀ i ∈ e.sourceIds.1, i ∈ anchors.map (·.sourceId)) .conflict
  let pins ← x.pins
  ensure ((pins.map fun p => toLex (p.name, toLex (p.version, p.artifactDigest))).Pairwise (· < ·))
    (.validation "handoff package refs are not canonical")
  parallelRejectSensitive (Json.mkObj x.unsignedFields)
  let expected ← parallelDigest "leanctx.context-handoff.v1" (Json.mkObj x.unsignedFields)
  ensure (x.handoffDigest = expected) .conflict

end HandoffFields

/-- The entries handed from one workspace to another: `ContextHandoffV1`. -/
structure ContextHandoff extends HandoffFields where
  valid : toHandoffFields.check = .ok ()
deriving DecidableEq

namespace ContextHandoff
open HandoffFields

def make (x : HandoffFields) : Except Err ContextHandoff := certify x.check fun h => ⟨x, h⟩

theorem make_eq_ok {x : HandoffFields} {y : ContextHandoff} : make x = .ok y ↔ y.toHandoffFields = x :=
  certify_eq_ok.trans ⟨fun ⟨_, e⟩ => e ▸ rfl, fun e => e ▸ ⟨y.valid, rfl⟩⟩

/-- `handoff.source_lineage`. -/
def sourceLineage (x : ContextHandoff) : Option ForkLineage := x.source.forkLineage

/-- `ContextHandoffV1.from_dict`. -/
def fromDict (v : Json) : Except Err ContextHandoff := do
  exact v ["schema_version", "handoff_id", "source", "target", "task", "selected_entries", "source_anchors",
    "recovery_refs", "package_refs", "required_policy_floor", "bounds", "handoff_digest"] "ContextHandoffV1"
  ensure (v.get "schema_version" = .str schema) (.incompatible "unsupported ContextHandoffV1")
  exact (v.get "target") ["workspace_id", "role"] "handoff target"
  ensure (Json.pyEq (v.get "bounds") bounds = true) (.incompatible "handoff bounds are incompatible")
  let source ← WorkspaceStateRef.fromDict (v.get "source")
  let selectedEntries ← pyTuple (v.get "selected_entries")
  let sourceAnchors ← pyTuple (v.get "source_anchors")
  let rawRecovery ← pyTuple (v.get "recovery_refs")
  let packageRefs ← pyTuple (v.get "package_refs")
  let floor ← WorkspacePolicy.fromDict (v.get "required_policy_floor")
  let handoffId ← uuid (v.get "handoff_id") "handoff_id"
  let target ← uuid ((v.get "target").get "workspace_id") "target_workspace_id"
  let task ← taskText (v.get "task") "task" (16 * 1024)
  let handoffDigest ← digestValue (v.get "handoff_digest") "handoff_digest"
  let role ← SourceAnchor.nested (fun v => parallelText v "target_role" 128) ((v.get "target").get "role")
  let recoveryRefs ← sortedUniqueText (.arr rawRecovery) "recovery_refs" maxHandoffRecoveryRefs
  let x ← make ⟨handoffId, source, target, role, task, selectedEntries, sourceAnchors, recoveryRefs, packageRefs, floor,
    handoffDigest⟩
  ensure (Json.pyEq x.toDict v = true) .conflict
  return x

/-- A handoff reads back. -/
@[simp] theorem fromDict_toDict (x : ContextHandoff) : fromDict x.toDict = .ok x := by
  obtain ⟨⟨handoffId, source, target, role, task, entries, anchors, recovery, pins, floor, handoffDigest⟩, hvalid⟩ := x
  have hrole : SourceAnchor.nested (fun v => parallelText v "target_role" 128) (optional Text.json role) = .ok role :=
    nested_optional Text.json_ne_null fun t _ => parallelText_json t _
  have hrecovery := sortedUniqueText_json recovery "recovery_refs"
  simp only [Texts.json] at hrecovery
  have hmake : make ⟨handoffId, source, target, role, task, entries, anchors, recovery, pins, floor, handoffDigest⟩ =
      .ok ⟨⟨handoffId, source, target, role, task, entries, anchors, recovery, pins, floor, handoffDigest⟩, hvalid⟩ :=
    make_eq_ok.mpr rfl
  simp [fromDict, toDict, unsignedFields, Json.get_mkObj, hrole, Texts.json, pyTuple, hrecovery, hmake]

end ContextHandoff

/-! ### Admission -/

inductive TargetResult
  | matching
  | mismatch
deriving DecidableEq

namespace TargetResult

def name : TargetResult → String
  | .matching => "match"
  | .mismatch => "mismatch"

def all : List TargetResult := [.matching, .mismatch]

theorem mem_all (x : TargetResult) : x ∈ all := by cases x <;> decide

theorem name_injective : Function.Injective name := by
  intro x y h
  cases x <;> cases y <;> first | rfl | simp [name] at h

end TargetResult

inductive LineageResult
  | verified
  | unverified
deriving DecidableEq

namespace LineageResult

def name : LineageResult → String
  | .verified => "verified"
  | .unverified => "unverified"

def all : List LineageResult := [.verified, .unverified]

theorem mem_all (x : LineageResult) : x ∈ all := by cases x <;> decide

theorem name_injective : Function.Injective name := by
  intro x y h
  cases x <;> cases y <;> first | rfl | simp [name] at h

end LineageResult

inductive PolicyResult
  | monotonic
  | downgrade
deriving DecidableEq

namespace PolicyResult

def name : PolicyResult → String
  | .monotonic => "monotonic"
  | .downgrade => "downgrade"

def all : List PolicyResult := [.monotonic, .downgrade]

theorem mem_all (x : PolicyResult) : x ∈ all := by cases x <;> decide

theorem name_injective : Function.Injective name := by
  intro x y h
  cases x <;> cases y <;> first | rfl | simp [name] at h

end PolicyResult

inductive PackageResult
  | exact
  | mismatch
deriving DecidableEq

namespace PackageResult

def name : PackageResult → String
  | .exact => "exact"
  | .mismatch => "mismatch"

def all : List PackageResult := [.exact, .mismatch]

theorem mem_all (x : PackageResult) : x ∈ all := by cases x <;> decide

theorem name_injective : Function.Injective name := by
  intro x y h
  cases x <;> cases y <;> first | rfl | simp [name] at h

end PackageResult

inductive SourceResult
  | available
  | unavailable
  | mismatch
deriving DecidableEq

namespace SourceResult

def name : SourceResult → String
  | .available => "available"
  | .unavailable => "unavailable"
  | .mismatch => "mismatch"

def all : List SourceResult := [.available, .unavailable, .mismatch]

theorem mem_all (x : SourceResult) : x ∈ all := by cases x <;> decide

theorem name_injective : Function.Injective name := by
  intro x y h
  cases x <;> cases y <;> first | rfl | simp [name] at h

end SourceResult

inductive Decision
  | admitted
  | rejected
  | degraded
deriving DecidableEq

namespace Decision

def name : Decision → String
  | .admitted => "admitted"
  | .rejected => "rejected"
  | .degraded => "degraded"

def all : List Decision := [.admitted, .rejected, .degraded]

theorem mem_all (x : Decision) : x ∈ all := by cases x <;> decide

theorem name_injective : Function.Injective name := by
  intro x y h
  cases x <;> cases y <;> first | rfl | simp [name] at h

end Decision

/-- The fields of an admission, before it is known that they belong together. -/
structure AdmissionFields where
  handoffId : Uuid
  handoffDigest : Digest
  receiverWorkspaceId : Uuid
  targetResult : TargetResult
  lineageResult : LineageResult
  policyResult : PolicyResult
  packageResult : PackageResult
  sourceResult : SourceResult
  conflicts : ConflictReport
  decision : Decision
  reasonCodes : Texts 16
  admissionDigest : Digest
deriving DecidableEq

namespace AdmissionFields

def schema : String := "leanctx.handoff-admission/v1"

/-- `self._unsigned_dict()`, as a list of fields. -/
def unsignedFields (x : AdmissionFields) : List (String × Json) :=
  [("schema_version", .str schema), ("handoff_id", x.handoffId.json), ("handoff_digest", x.handoffDigest.json),
    ("receiver_workspace_id", x.receiverWorkspaceId.json), ("target_result", .str x.targetResult.name),
    ("lineage_result", .str x.lineageResult.name), ("policy_result", .str x.policyResult.name),
    ("package_result", .str x.packageResult.name), ("source_result", .str x.sourceResult.name),
    ("conflicts", x.conflicts.toDict), ("decision", .str x.decision.name), ("reason_codes", x.reasonCodes.json)]

def toDict (x : AdmissionFields) : Json :=
  Json.mkObj (x.unsignedFields ++ [("admission_digest", x.admissionDigest.json)])

/-- `hard_failure`. -/
def hardFailure (x : AdmissionFields) : Bool :=
  x.targetResult ≠ .matching || x.lineageResult ≠ .verified || x.policyResult ≠ .monotonic || x.packageResult ≠ .exact ||
    x.sourceResult = .mismatch || x.conflicts.entries ≠ []

/-- What the constructor checks of the fields together. -/
def check (x : AdmissionFields) : Except Err Unit := do
  ensure (¬(x.decision = .admitted ∧ (x.hardFailure = true ∨ x.sourceResult ≠ .available ∨ x.reasonCodes.1 ≠ [])))
    .conflict
  ensure (¬(x.decision = .degraded ∧ (x.hardFailure = true ∨ x.sourceResult ≠ .unavailable ∨
    x.reasonCodes.1.map Subtype.val ≠ [Str.lit "SOURCE_UNAVAILABLE"]))) .conflict
  ensure (¬(x.decision = .rejected ∧ x.hardFailure = false)) .conflict
  let expected ← parallelDigest "leanctx.handoff-admission.v1" (Json.mkObj x.unsignedFields)
  ensure (x.admissionDigest = expected) .conflict

end AdmissionFields

/-- The receiver's decision about a handoff: `HandoffAdmissionV1`. -/
structure HandoffAdmission extends AdmissionFields where
  valid : toAdmissionFields.check = .ok ()
deriving DecidableEq

namespace HandoffAdmission
open AdmissionFields

def make (x : AdmissionFields) : Except Err HandoffAdmission := certify x.check fun h => ⟨x, h⟩

theorem make_eq_ok {x : AdmissionFields} {y : HandoffAdmission} : make x = .ok y ↔ y.toAdmissionFields = x :=
  certify_eq_ok.trans ⟨fun ⟨_, e⟩ => e ▸ rfl, fun e => e ▸ ⟨y.valid, rfl⟩⟩

/-- `HandoffAdmissionV1.from_dict`. -/
def fromDict (v : Json) : Except Err HandoffAdmission := do
  exact v ["schema_version", "handoff_id", "handoff_digest", "receiver_workspace_id", "target_result", "lineage_result",
    "policy_result", "package_result", "source_result", "conflicts", "decision", "reason_codes", "admission_digest"]
    "HandoffAdmissionV1"
  ensure (v.get "schema_version" = .str schema) (.incompatible "unsupported HandoffAdmissionV1")
  match v.get "reason_codes" with
  | .arr _ => pure ()
  | _ => .error (.incompatible "unsupported HandoffAdmissionV1")
  let conflicts ← ConflictReport.fromDict (v.get "conflicts")
  let handoffId ← uuid (v.get "handoff_id") "handoff_id"
  let handoffDigest ← digestValue (v.get "handoff_digest") "handoff_digest"
  let receiver ← uuid (v.get "receiver_workspace_id") "receiver_workspace_id"
  let decision ← memberOf Decision.all Decision.name (.validation "admission decision is invalid") (v.get "decision")
  let target ← memberOf TargetResult.all TargetResult.name (.validation "target result is invalid")
    (v.get "target_result")
  let lineage ← memberOf LineageResult.all LineageResult.name (.validation "lineage result is invalid")
    (v.get "lineage_result")
  let policy ← memberOf PolicyResult.all PolicyResult.name (.validation "policy result is invalid")
    (v.get "policy_result")
  let package ← memberOf PackageResult.all PackageResult.name (.validation "package result is invalid")
    (v.get "package_result")
  let source ← memberOf SourceResult.all SourceResult.name (.validation "source result is invalid")
    (v.get "source_result")
  let reasons ← sortedUniqueText (v.get "reason_codes") "reason_codes" 16
  let admissionDigest ← digestValue (v.get "admission_digest") "admission_digest"
  let x ← make ⟨handoffId, handoffDigest, receiver, target, lineage, policy, package, source, conflicts, decision, reasons,
    admissionDigest⟩
  ensure (Json.pyEq x.toDict v = true) .conflict
  return x

/-- An admission reads back. -/
@[simp] theorem fromDict_toDict (x : HandoffAdmission) : fromDict x.toDict = .ok x := by
  obtain ⟨⟨handoffId, handoffDigest, receiver, target, lineage, policy, package, source, conflicts, decision, reasons,
    admissionDigest⟩, hvalid⟩ := x
  have hdecision := memberOf_name Decision.mem_all Decision.name_injective
    (.validation "admission decision is invalid") decision
  have htarget := memberOf_name TargetResult.mem_all TargetResult.name_injective
    (.validation "target result is invalid") target
  have hlineage := memberOf_name LineageResult.mem_all LineageResult.name_injective
    (.validation "lineage result is invalid") lineage
  have hpolicy := memberOf_name PolicyResult.mem_all PolicyResult.name_injective
    (.validation "policy result is invalid") policy
  have hpackage := memberOf_name PackageResult.mem_all PackageResult.name_injective
    (.validation "package result is invalid") package
  have hsource := memberOf_name SourceResult.mem_all SourceResult.name_injective
    (.validation "source result is invalid") source
  have hreasons := sortedUniqueText_json reasons "reason_codes"
  simp only [Texts.json] at hreasons
  have hmake : make ⟨handoffId, handoffDigest, receiver, target, lineage, policy, package, source, conflicts, decision,
      reasons, admissionDigest⟩ = .ok ⟨⟨handoffId, handoffDigest, receiver, target, lineage, policy, package, source,
      conflicts, decision, reasons, admissionDigest⟩, hvalid⟩ := make_eq_ok.mpr rfl
  simp [fromDict, toDict, unsignedFields, Json.get_mkObj, hdecision, htarget, hlineage, hpolicy, hpackage, hsource,
    hreasons, Texts.json, hmake]

end HandoffAdmission
end LeanCtx
