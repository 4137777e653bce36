import LeanCtx.Workspace.Handing
import LeanCtx.Workspace.Reporting

/-! Reconciliation of two checkpoints that come from one: `NarrowReconciliationV1.between`, and what it makes when the two sides are
    exchanged. -/

namespace LeanCtx
open Json

inductive ReconciliationMode
  | knowledge
  | decisions
  | acceptedHandoff
deriving DecidableEq

namespace ReconciliationMode

def name : ReconciliationMode → String
  | .knowledge => "knowledge"
  | .decisions => "decisions"
  | .acceptedHandoff => "accepted_handoff"

/-- The categories of entries that a mode reconciles. -/
def allowed : ReconciliationMode → List String
  | .knowledge => ["facts", "constraints", "unresolved_questions"]
  | .decisions => ["decisions"]
  | .acceptedHandoff => ["facts", "decisions", "constraints", "unresolved_questions"]

/-- `value.get("category") in allowed`. -/
def allows (m : ReconciliationMode) (v : Json) : Bool := m.allowed.any fun c => v.get "category" = .str (Str.lit c)

end ReconciliationMode

inductive ReconciliationResult
  | applicable
  | manualRequired
deriving DecidableEq

def ReconciliationResult.name : ReconciliationResult → String
  | .applicable => "applicable"
  | .manualRequired => "manual_required"

/-! ### The record -/

/-- The fields of a reconciliation, before it is known that they belong together. -/
structure ReconciliationFields where
  reconciliationId : Uuid
  commonAncestor : WorkspaceStateRef
  left : WorkspaceStateRef
  right : WorkspaceStateRef
  mode : ReconciliationMode
  selectedEntryIds : Texts 512
  conflicts : ConflictReport
  result : ReconciliationResult
  reconciliationDigest : Digest
deriving DecidableEq

namespace ReconciliationFields

def schema : String := "leanctx.narrow-reconciliation/v1"

def unsignedFields (x : ReconciliationFields) : List (String × Json) :=
  [("schema_version", .str schema), ("reconciliation_id", x.reconciliationId.json), ("common_ancestor", x.commonAncestor.toDict),
    ("left", x.left.toDict), ("right", x.right.toDict), ("mode", .str x.mode.name), ("selected_entry_ids", x.selectedEntryIds.json),
    ("conflicts", x.conflicts.toDict), ("result", .str x.result.name)]

/-- What the constructor checks of the fields together. -/
def check (x : ReconciliationFields) : Except Err Unit := do
  ensure (x.result = .manualRequired ↔ x.conflicts.entries ≠ []) .conflict
  ensure (x.conflicts.base = some x.commonAncestor ∧ x.conflicts.left = x.left ∧ x.conflicts.right = x.right ∧
    x.conflicts.ancestry = .diverged) .conflict
  let expected ← parallelDigest "leanctx.narrow-reconciliation.v1" (mkObj x.unsignedFields)
  ensure (x.reconciliationDigest = expected) .conflict

end ReconciliationFields

/-- `NarrowReconciliationV1`. -/
structure NarrowReconciliation extends ReconciliationFields where
  valid : toReconciliationFields.check = .ok ()
deriving DecidableEq

namespace NarrowReconciliation
open ReconciliationFields

def make (x : ReconciliationFields) : Except Err NarrowReconciliation := certify x.check fun h => ⟨x, h⟩

theorem make_eq_ok {x : ReconciliationFields} {y : NarrowReconciliation} : make x = .ok y ↔ y.toReconciliationFields = x :=
  certify_eq_ok.trans ⟨fun ⟨_, e⟩ => e ▸ rfl, fun e => e ▸ ⟨y.valid, rfl⟩⟩

/-! ### `between` -/

/-- The handoff is from the left checkpoint and was admitted against the right one. -/
def handed (h : ContextHandoff) (x : HandoffAdmission) (left right : ContextCheckpoint) : Prop :=
  x.decision = .admitted ∧ x.handoffId = h.handoffId ∧ x.handoffDigest = h.handoffDigest ∧
    h.source.workspaceId = left.workspaceId ∧ h.source.checkpointId = left.checkpointId ∧ h.source.stateDigest = left.stateDigest ∧
    h.source.checkpointEnvelopeDigest = left.envelopeDigest ∧ h.targetWorkspaceId = right.workspaceId ∧
    x.receiverWorkspaceId = right.workspaceId ∧ x.conflicts.left = h.source ∧
    x.conflicts.right.workspaceId = right.workspaceId ∧ x.conflicts.right.checkpointId = right.checkpointId ∧
    x.conflicts.right.stateDigest = right.stateDigest ∧ x.conflicts.right.checkpointEnvelopeDigest = right.envelopeDigest

instance (h : ContextHandoff) (x : HandoffAdmission) (left right : ContextCheckpoint) : Decidable (handed h x left right) := by
  unfold handed
  infer_instance

/-- The entries that an accepted handoff restricts a reconciliation to. -/
def acceptedIds (mode : ReconciliationMode) (handoff : Option ContextHandoff) (admission : Option HandoffAdmission)
    (left right : ContextCheckpoint) : Except Err (Option (List Str)) :=
  match mode with
  | .acceptedHandoff =>
    match handoff, admission with
    | some h, some x => do
      ensure (handed h x left right) .conflict
      let entries ← h.selectedEntries.mapM ProjectContextEntry.fromDict
      return some (entries.map fun e => e.entryId.1)
    | _, _ => .error (.validation "accepted_handoff mode requires exact handoff and admission")
  | _ => do
    ensure (handoff = none ∧ admission = none) (.validation "handoff evidence is only valid in accepted_handoff mode")
    return none

/-- `entries.get(key)`. -/
def entryAt (l : List (Str × Json)) (key : Str) : Option Json := (l.find? fun p => p.1 = key).map (·.2)

/-- Whether an entry is not as in the common ancestor. -/
def isChanged (ancestor : List (Str × Json)) (key : Str) (v : Json) : Except Err Bool :=
  match entryAt ancestor key with
  | none => return true
  | some w => do
    let mine ← parallelCanonical v
    let theirs ← parallelCanonical w
    return decide (mine ≠ theirs)

/-- The entries that are not as in the common ancestor. -/
def changedEntries (ancestor : List (Str × Json)) : List (Str × Json) → Except Err (List (Str × Json))
  | [] => return []
  | (key, v) :: l => do
    let kept ← isChanged ancestor key v
    let rest ← changedEntries ancestor l
    return if kept then (key, v) :: rest else rest

/-- `_evidence_ref(checkpoint, value)`. -/
def evidenceRef (c : ContextCheckpoint) (v : Json) : Except Err EvidenceRef :=
  let texts (l : List Str) : Json := .arr ((sortedUnion l).map .str)
  EvidenceRef.make c.workspaceId c.checkpointId c.stateDigest (texts (textsOf (v.get "source_ids") ++ textsOf (.arr [v.get "source_id"])))
    (texts (textsOf (v.get "receipt_refs"))) (texts (textsOf (v.get "recovery_refs")))

/-- What becomes of a changed entry. -/
inductive Outcome
  | skipped
  | selected (key : Str)
  | conflict (e : ConflictEntry)

/-- A side of a reconciliation: a checkpoint, and its entries that are not as in the common ancestor. -/
structure Side where
  checkpoint : ContextCheckpoint
  changed : List (Str × Json)

/-- The evidence of an entry in the common ancestor, where it has the entry. -/
def baseEvidence (ancestor : ContextCheckpoint) : Option Json → Except Err (List EvidenceRef)
  | none => return []
  | some b => (fun ref => [ref]) <$> evidenceRef ancestor b

/-- The conflict of an entry that both sides have changed. -/
def conflictOf (ancestor : ContextCheckpoint) (base : Option Json) (left right : ContextCheckpoint) (key : Str) (l r : Json) :
    Except Err ConflictEntry := do
  let refs ← baseEvidence ancestor base
  let leftRef ← evidenceRef left l
  let rightRef ← evidenceRef right r
  let stableKey ← parallelText (.str key) "stable_key" 512
  ConflictEntry.create (if l.get "category" = .str (Str.lit "decisions") then .decision else .projectContext) stableKey
    (base.getD .null) l r (refs ++ [leftRef, rightRef])

/-- One turn of the loop of `between`. -/
def reconcileKey (mode : ReconciliationMode) (accepted : Option (List Str)) (ancestor : ContextCheckpoint) (base : List (Str × Json))
    (left right : Side) (key : Str) : Except Err Outcome :=
  if accepted.any (fun ids => decide (key ∉ ids)) = true then return .skipped
  else match entryAt left.changed key, entryAt right.changed key with
    | none, none => return .skipped
    | some l, none => return if mode.allows l = true then .selected key else .skipped
    | none, some r => return if mode.allows r = true then .selected key else .skipped
    | some l, some r =>
      if mode.allows l = true ∧ mode.allows r = true then do
        let mine ← parallelCanonical l
        let theirs ← parallelCanonical r
        if mine ≠ theirs then
          return .conflict (← conflictOf ancestor (entryAt base key) left.checkpoint right.checkpoint key l r)
        else return .selected key
      else return .skipped

/-- The keys that are selected. -/
def selectedKeys (l : List Outcome) : List Str := l.filterMap fun
  | .selected key => some key
  | _ => none

/-- The conflicts that are found. -/
def foundConflicts (l : List Outcome) : List ConflictEntry := l.filterMap fun
  | .conflict e => some e
  | _ => none

/-- The turns of the loop of `between`. -/
def outcomes (mode : ReconciliationMode) (accepted : Option (List Str)) (ancestor left right : ContextCheckpoint) :
    Except Err (List Outcome) := do
  let base ← keyed (ancestor.logicalState.get "entries") "entry_id" "entries"
  let leftEntries ← keyed (left.logicalState.get "entries") "entry_id" "entries"
  let rightEntries ← keyed (right.logicalState.get "entries") "entry_id" "entries"
  let leftChanged ← changedEntries base leftEntries
  let rightChanged ← changedEntries base rightEntries
  (sortedUnion (leftChanged.map (·.1) ++ rightChanged.map (·.1))).mapM
    (reconcileKey mode accepted ancestor base ⟨left, leftChanged⟩ ⟨right, rightChanged⟩)

/-- What a reconciliation is asked for beside its checkpoints. -/
structure Arguments where
  mode : ReconciliationMode
  reconciliationId : Uuid
  handoff : Option ContextHandoff
  admission : Option HandoffAdmission

/-- A checkpoint with the lineage of its workspace. -/
structure Branch where
  checkpoint : ContextCheckpoint
  lineage : Option ForkLineage

/-- `NarrowReconciliationV1.between(ancestor, left, right, mode=…, …)`. -/
def between (a : Arguments) (ancestor : ContextCheckpoint) (left right : Branch) : Except Err NarrowReconciliation := do
  let accepted ← acceptedIds a.mode a.handoff a.admission left.checkpoint right.checkpoint
  let l ← outcomes a.mode accepted ancestor left.checkpoint right.checkpoint
  let ancestorRef ← WorkspaceStateRef.fromCheckpoint ancestor none
  let leftRef ← WorkspaceStateRef.fromCheckpoint left.checkpoint left.lineage
  let rightRef ← WorkspaceStateRef.fromCheckpoint right.checkpoint right.lineage
  let report ← ConflictReport.create (some ancestorRef) leftRef rightRef .diverged (foundConflicts l)
  let result : ReconciliationResult := if foundConflicts l = [] then .applicable else .manualRequired
  let selected ← sortedUniqueText (.arr ((selectedKeys l).map .str)) "selected_entry_ids" 512
  let payload := mkObj [("schema_version", .str schema), ("reconciliation_id", a.reconciliationId.json),
    ("common_ancestor", ancestorRef.toDict), ("left", leftRef.toDict), ("right", rightRef.toDict), ("mode", .str a.mode.name),
    ("selected_entry_ids", selected.json), ("conflicts", report.toDict), ("result", .str result.name)]
  let d ← parallelDigest "leanctx.narrow-reconciliation.v1" payload
  make ⟨a.reconciliationId, ancestorRef, leftRef, rightRef, a.mode, selected, report, result, d⟩

end NarrowReconciliation
end LeanCtx
