import LeanCtx.Workspace.Fork

/-! Conflicts between two states: the evidence of an item, an entry on which two states differ, and the report of all
    such entries. -/

namespace LeanCtx

/-! ### Evidence -/

/-- Where an item comes from: `EvidenceRefV1`. -/
structure EvidenceRef where
  workspaceId : Uuid
  checkpointId : Uuid
  stateDigest : Digest
  sourceIds : Texts 128
  receiptRefs : Texts 512
  recoveryRefs : Texts 512
deriving DecidableEq

namespace EvidenceRef

def schema : String := "leanctx.evidence-ref/v1"

def toDict (x : EvidenceRef) : Json :=
  Json.mkObj [("schema_version", .str schema), ("workspace_id", x.workspaceId.json),
    ("checkpoint_id", x.checkpointId.json), ("state_digest", x.stateDigest.json), ("source_ids", x.sourceIds.json),
    ("receipt_refs", x.receiptRefs.json), ("recovery_refs", x.recoveryRefs.json)]

/-- `EvidenceRefV1(…)` of lists of texts. -/
def make (workspaceId checkpointId : Uuid) (stateDigest : Digest) (sourceIds receiptRefs recoveryRefs : Json) :
    Except Err EvidenceRef := do
  let sourceIds ← sortedUniqueText sourceIds "source_ids" 128
  let receiptRefs ← sortedUniqueText receiptRefs "receipt_refs" 512
  let recoveryRefs ← sortedUniqueText recoveryRefs "recovery_refs" 512
  return ⟨workspaceId, checkpointId, stateDigest, sourceIds, receiptRefs, recoveryRefs⟩

/-- `EvidenceRefV1.from_dict`. -/
def fromDict (v : Json) : Except Err EvidenceRef := do
  exact v ["schema_version", "workspace_id", "checkpoint_id", "state_digest", "source_ids", "receipt_refs",
    "recovery_refs"] "EvidenceRefV1"
  ensure (v.get "schema_version" = .str schema) (.incompatible "unsupported EvidenceRefV1")
  match v.get "source_ids", v.get "receipt_refs", v.get "recovery_refs" with
  | .arr _, .arr _, .arr _ => pure ()
  | _, _, _ => .error (.incompatible "unsupported EvidenceRefV1")
  let workspaceId ← uuid (v.get "workspace_id") "workspace_id"
  let checkpointId ← uuid (v.get "checkpoint_id") "checkpoint_id"
  let stateDigest ← digestValue (v.get "state_digest") "state_digest"
  make workspaceId checkpointId stateDigest (v.get "source_ids") (v.get "receipt_refs") (v.get "recovery_refs")

/-- The evidence of an entry in a state: `_evidence_ref(checkpoint, value)`. -/
def ofEntry (workspaceId checkpointId : Uuid) (stateDigest : Digest) (x : ProjectContextEntry) : Except Err EvidenceRef :=
  make workspaceId checkpointId stateDigest x.sourceIds.json x.receiptRefs.json x.recoveryRefs.json

/-- Evidence reads back. -/
@[simp] theorem fromDict_toDict (x : EvidenceRef) : fromDict x.toDict = .ok x := by
  obtain ⟨workspaceId, checkpointId, stateDigest, sourceIds, receiptRefs, recoveryRefs⟩ := x
  have hsources := sortedUniqueText_json sourceIds "source_ids"
  have hreceipts := sortedUniqueText_json receiptRefs "receipt_refs"
  have hrecovery := sortedUniqueText_json recoveryRefs "recovery_refs"
  simp only [Texts.json] at hsources hreceipts hrecovery
  simp [fromDict, toDict, Json.get_mkObj, make, Texts.json, hsources, hreceipts, hrecovery]

theorem writable_toDict (x : EvidenceRef) : x.toDict.Writable := by
  refine Json.writable_mkObj ?_
  simp [writable_lit, writable_uuid, writable_digest, Texts.json, writable_map, writable_text]

/-- The canonical bytes, by which evidence is sorted. -/
def sortKey (x : EvidenceRef) : List Nat := (x.toDict.canonicalBytes?.getD []).map UInt8.toNat

/-- `sorted(refs, key=lambda ref: _canonical(ref.to_dict()))`. -/
def sort (l : List EvidenceRef) : List EvidenceRef := l.insertionSort fun a b => a.sortKey ≤ b.sortKey

end EvidenceRef

/-! ### Conflicting entries -/

inductive ConflictCategory
  | projectContext
  | sourceRevision
  | package
  | policy
  | decision
deriving DecidableEq

namespace ConflictCategory

def name : ConflictCategory → String
  | .projectContext => "PROJECT_CONTEXT"
  | .sourceRevision => "SOURCE_REVISION"
  | .package => "PACKAGE"
  | .policy => "POLICY"
  | .decision => "DECISION"

def all : List ConflictCategory := [.projectContext, .sourceRevision, .package, .policy, .decision]

theorem mem_all (x : ConflictCategory) : x ∈ all := by cases x <;> decide

theorem name_injective : Function.Injective name := by
  intro x y h
  cases x <;> cases y <;> first | rfl | simp [name] at h

end ConflictCategory

/-- The fields of a conflict, before it is known that they belong together. A side without a value is null. -/
structure ConflictFields where
  category : ConflictCategory
  stableKey : Text 512
  base : Json
  left : Json
  right : Json
  evidenceRefs : List EvidenceRef
  conflictId : Digest
deriving DecidableEq

namespace ConflictFields

def schema : String := "leanctx.conflict-entry/v1"

def payloadFields (x : ConflictFields) : List (String × Json) :=
  [("schema_version", .str schema), ("category", .str x.category.name), ("stable_key", x.stableKey.json),
    ("base", x.base), ("left", x.left), ("right", x.right),
    ("evidence_refs", .arr (x.evidenceRefs.map EvidenceRef.toDict)), ("resolution", .str "manual_required")]

def toDict (x : ConflictFields) : Json := Json.mkObj (x.payloadFields ++ [("conflict_id", x.conflictId.json)])

/-- What the constructor checks of the fields together. -/
def check (x : ConflictFields) : Except Err Unit := do
  ensure (x.evidenceRefs = EvidenceRef.sort x.evidenceRefs) (.validation "conflict evidence refs are not canonical")
  let expected ← parallelDigest "leanctx.conflict-entry.v1" (Json.mkObj x.payloadFields)
  ensure (x.conflictId = expected) .conflict

end ConflictFields

/-- An entry on which two states differ: `ConflictEntryV1`. -/
structure ConflictEntry extends ConflictFields where
  valid : toConflictFields.check = .ok ()
deriving DecidableEq

namespace ConflictEntry
open ConflictFields

def make (x : ConflictFields) : Except Err ConflictEntry := certify x.check fun h => ⟨x, h⟩

theorem make_eq_ok {x : ConflictFields} {y : ConflictEntry} : make x = .ok y ↔ y.toConflictFields = x :=
  certify_eq_ok.trans ⟨fun ⟨_, e⟩ => e ▸ rfl, fun e => e ▸ ⟨y.valid, rfl⟩⟩

/-- `ConflictEntryV1.create(category, stable_key, base=…, left=…, right=…, evidence_refs=…)`. -/
def create (category : ConflictCategory) (stableKey : Text 512) (base left right : Json) (evidence : List EvidenceRef) :
    Except Err ConflictEntry := do
  let evidenceRefs := EvidenceRef.sort evidence
  let payload := Json.mkObj [("schema_version", .str schema), ("category", .str category.name),
    ("stable_key", stableKey.json), ("base", base), ("left", left), ("right", right),
    ("evidence_refs", .arr (evidenceRefs.map EvidenceRef.toDict)), ("resolution", .str "manual_required")]
  let conflictId ← parallelDigest "leanctx.conflict-entry.v1" payload
  make ⟨category, stableKey, base, left, right, evidenceRefs, conflictId⟩

/-- `ConflictEntryV1.from_dict`. -/
def fromDict (v : Json) : Except Err ConflictEntry := do
  exact v ["schema_version", "category", "stable_key", "base", "left", "right", "evidence_refs", "resolution",
    "conflict_id"] "ConflictEntryV1"
  ensure (v.get "schema_version" = .str schema ∧ v.get "resolution" = .str "manual_required")
    (.incompatible "invalid conflict entry")
  match v.get "evidence_refs" with
  | .arr refs => do
    let evidence ← refs.mapM EvidenceRef.fromDict
    let category ← memberOf ConflictCategory.all ConflictCategory.name (.validation "conflict category is invalid")
      (v.get "category")
    let stableKey ← parallelText (v.get "stable_key") "stable_key" 512
    let x ← create category stableKey (v.get "base") (v.get "left") (v.get "right") evidence
    ensure (Json.pyEq x.toDict v = true) .conflict
    return x
  | _ => .error (.incompatible "invalid conflict entry")

/-- A conflict reads back. -/
@[simp] theorem fromDict_toDict (x : ConflictEntry) : fromDict x.toDict = .ok x := by
  obtain ⟨⟨category, stableKey, base, left, right, evidence, conflictId⟩, hvalid⟩ := x
  have hcheck := hvalid
  simp only [check, bind_eq_ok, ensure_eq_ok] at hcheck
  obtain ⟨_, hsorted, expected, hdigest, rfl⟩ := hcheck
  have hcategory := memberOf_name ConflictCategory.mem_all ConflictCategory.name_injective
    (.validation "conflict category is invalid") category
  have hevidence := mapM_map EvidenceRef.fromDict_toDict evidence
  have hcreate : create category stableKey base left right evidence =
      .ok ⟨⟨category, stableKey, base, left, right, evidence, conflictId⟩, hvalid⟩ := by
    simp only [payloadFields] at hdigest
    simp only [create, ← hsorted, hdigest, ok_bind, make_eq_ok]
  simp [fromDict, toDict, payloadFields, Json.get_mkObj, hcategory, hevidence, hcreate]

/-- The key by which the conflicts of a report are sorted. -/
def sortKey (x : ConflictEntry) : Str ×ₗ Str ×ₗ Str :=
  toLex (Str.lit x.category.name, toLex (x.stableKey.1, x.conflictId.1))

/-- `sorted(entries, key=lambda item: (item.category, item.stable_key, item.conflict_id))`. -/
def sort (l : List ConflictEntry) : List ConflictEntry := l.insertionSort fun a b => a.sortKey ≤ b.sortKey

end ConflictEntry

/-! ### Reports -/

inductive Ancestry
  | exact
  | diverged
  | unknown
deriving DecidableEq

namespace Ancestry

def name : Ancestry → String
  | .exact => "exact"
  | .diverged => "diverged"
  | .unknown => "unknown"

def all : List Ancestry := [.exact, .diverged, .unknown]

theorem mem_all (x : Ancestry) : x ∈ all := by cases x <;> decide

theorem name_injective : Function.Injective name := by
  intro x y h
  cases x <;> cases y <;> first | rfl | simp [name] at h

end Ancestry

def maxConflicts : Nat := 256

/-- The fields of a report, before it is known that they belong together. -/
structure ReportFields where
  base : Option WorkspaceStateRef
  left : WorkspaceStateRef
  right : WorkspaceStateRef
  ancestry : Ancestry
  entries : List ConflictEntry
  reportId : Digest
deriving DecidableEq

namespace ReportFields

def schema : String := "leanctx.conflict-report/v1"

def unsignedFields (x : ReportFields) : List (String × Json) :=
  [("schema_version", .str schema), ("base", optional WorkspaceStateRef.toDict x.base), ("left", x.left.toDict),
    ("right", x.right.toDict), ("ancestry", .str x.ancestry.name),
    ("entries", .arr (x.entries.map fun e => e.toDict))]

def toDict (x : ReportFields) : Json := Json.mkObj (x.unsignedFields ++ [("report_id", x.reportId.json)])

/-- What the constructor checks of the fields together. -/
def check (x : ReportFields) : Except Err Unit := do
  ensure (x.entries.length ≤ maxConflicts) .policy
  ensure (x.entries = ConflictEntry.sort x.entries) (.validation "conflict entries are not canonical")
  let expected ← parallelDigest "leanctx.conflict-report.v1" (Json.mkObj x.unsignedFields)
  ensure (x.reportId = expected) .conflict

end ReportFields

/-- The conflicts between two states: `ConflictReportV1`. -/
structure ConflictReport extends ReportFields where
  valid : toReportFields.check = .ok ()
deriving DecidableEq

namespace ConflictReport
open ReportFields

def make (x : ReportFields) : Except Err ConflictReport := certify x.check fun h => ⟨x, h⟩

theorem make_eq_ok {x : ReportFields} {y : ConflictReport} : make x = .ok y ↔ y.toReportFields = x :=
  certify_eq_ok.trans ⟨fun ⟨_, e⟩ => e ▸ rfl, fun e => e ▸ ⟨y.valid, rfl⟩⟩

/-- `ConflictReportV1.create(base, left, right, ancestry, entries)`. -/
def create (base : Option WorkspaceStateRef) (left right : WorkspaceStateRef) (ancestry : Ancestry)
    (entries : List ConflictEntry) : Except Err ConflictReport := do
  let selected := ConflictEntry.sort entries
  ensure (selected.length ≤ maxConflicts) .policy
  let unsigned := Json.mkObj [("schema_version", .str schema), ("base", optional WorkspaceStateRef.toDict base),
    ("left", left.toDict), ("right", right.toDict), ("ancestry", .str ancestry.name),
    ("entries", .arr (selected.map fun e => e.toDict))]
  let reportId ← parallelDigest "leanctx.conflict-report.v1" unsigned
  make ⟨base, left, right, ancestry, selected, reportId⟩

/-- `ConflictReportV1.from_dict`. -/
def fromDict (v : Json) : Except Err ConflictReport := do
  exact v ["schema_version", "base", "left", "right", "ancestry", "entries", "report_id"] "ConflictReportV1"
  ensure (v.get "schema_version" = .str schema) (.incompatible "unsupported ConflictReportV1")
  match v.get "entries" with
  | .arr rawEntries => do
    let base ← SourceAnchor.nested WorkspaceStateRef.fromDict (v.get "base")
    let left ← WorkspaceStateRef.fromDict (v.get "left")
    let right ← WorkspaceStateRef.fromDict (v.get "right")
    let entries ← rawEntries.mapM ConflictEntry.fromDict
    let ancestry ← memberOf Ancestry.all Ancestry.name (.validation "ancestry is invalid") (v.get "ancestry")
    let x ← create base left right ancestry entries
    ensure (Json.pyEq x.toDict v = true) .conflict
    return x
  | _ => .error (.incompatible "unsupported ConflictReportV1")

/-- A report reads back. -/
@[simp] theorem fromDict_toDict (x : ConflictReport) : fromDict x.toDict = .ok x := by
  obtain ⟨⟨base, left, right, ancestry, entries, reportId⟩, hvalid⟩ := x
  have hcheck := hvalid
  simp only [check, bind_eq_ok, ensure_eq_ok] at hcheck
  obtain ⟨_, hlength, _, hsorted, expected, hdigest, rfl⟩ := hcheck
  have hancestry := memberOf_name Ancestry.mem_all Ancestry.name_injective (.validation "ancestry is invalid") ancestry
  have hentries := mapM_map (f := ConflictEntry.fromDict) (g := fun e => e.toDict) ConflictEntry.fromDict_toDict entries
  have hbase : SourceAnchor.nested WorkspaceStateRef.fromDict (optional WorkspaceStateRef.toDict base) = .ok base :=
    nested_optional (fun _ => mkObj_ne_null _) fun r _ => WorkspaceStateRef.fromDict_toDict r
  have hcreate : create base left right ancestry entries =
      .ok ⟨⟨base, left, right, ancestry, entries, reportId⟩, hvalid⟩ := by
    simp only [unsignedFields] at hdigest
    simp only [create, ← hsorted, ensure_true hlength, hdigest, ok_bind, make_eq_ok]
  simp [fromDict, toDict, unsignedFields, Json.get_mkObj, hancestry, hentries, hbase, hcreate]

end ConflictReport
end LeanCtx
