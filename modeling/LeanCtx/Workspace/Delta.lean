import LeanCtx.Workspace.Reconciling

/-! Deltas: `DeltaItemV1`, and what `ContextDeltaV1` finds between two checkpoints. -/

namespace LeanCtx
open Json

/-! ### Items -/

inductive DeltaCategory
  | source
  | projectContext
  | package
  | policy
  | lineage
deriving DecidableEq

inductive DeltaAction
  | added
  | removed
  | revisionChanged
  | freshnessChanged
  | recoveryAvailabilityChanged
  | superseded
  | contradicted
  | provenanceChanged
  | pinAdded
  | pinRemoved
  | digestChanged
  | trustChanged
  | effectiveChanged
  | forkAncestry
  | checkpointReference
deriving DecidableEq

namespace DeltaAction

def name : DeltaAction → String
  | .added => "added"
  | .removed => "removed"
  | .revisionChanged => "revision_changed"
  | .freshnessChanged => "freshness_changed"
  | .recoveryAvailabilityChanged => "recovery_availability_changed"
  | .superseded => "superseded"
  | .contradicted => "contradicted"
  | .provenanceChanged => "provenance_changed"
  | .pinAdded => "pin_added"
  | .pinRemoved => "pin_removed"
  | .digestChanged => "digest_changed"
  | .trustChanged => "trust_changed"
  | .effectiveChanged => "effective_changed"
  | .forkAncestry => "fork_ancestry"
  | .checkpointReference => "checkpoint_reference"

def all : List DeltaAction :=
  [.added, .removed, .revisionChanged, .freshnessChanged, .recoveryAvailabilityChanged, .superseded, .contradicted, .provenanceChanged,
    .pinAdded, .pinRemoved, .digestChanged, .trustChanged, .effectiveChanged, .forkAncestry, .checkpointReference]

theorem mem_all (x : DeltaAction) : x ∈ all := by cases x <;> decide

theorem name_injective : Function.Injective name := by
  intro x y h
  cases x <;> cases y <;> first | rfl | simp [name] at h

end DeltaAction

namespace DeltaCategory

def name : DeltaCategory → String
  | .source => "source"
  | .projectContext => "project_context"
  | .package => "package"
  | .policy => "policy"
  | .lineage => "lineage"

def all : List DeltaCategory := [.source, .projectContext, .package, .policy, .lineage]

theorem mem_all (x : DeltaCategory) : x ∈ all := by cases x <;> decide

theorem name_injective : Function.Injective name := by
  intro x y h
  cases x <;> cases y <;> first | rfl | simp [name] at h

/-- `_DELTA_ACTIONS[category]`. -/
def actions : DeltaCategory → List DeltaAction
  | .source => [.added, .removed, .revisionChanged, .freshnessChanged, .recoveryAvailabilityChanged]
  | .projectContext => [.added, .removed, .superseded, .contradicted, .provenanceChanged]
  | .package => [.pinAdded, .pinRemoved, .digestChanged, .trustChanged]
  | .policy => [.effectiveChanged]
  | .lineage => [.forkAncestry, .checkpointReference]

end DeltaCategory

/-- A difference between two checkpoints: `DeltaItemV1`. A side without a value is null. -/
structure DeltaItem where
  category : DeltaCategory
  action : DeltaAction
  stableKey : Text 512
  before : Json
  after : Json
  evidenceRefs : List EvidenceRef
  allowed : action ∈ category.actions
  evidenced : evidenceRefs ≠ []
  sorted : evidenceRefs = EvidenceRef.sort evidenceRefs
deriving DecidableEq

namespace DeltaItem

def schema : String := "leanctx.delta-item/v1"

theorem sort_ne_nil {refs : List EvidenceRef} (h : refs ≠ []) : EvidenceRef.sort refs ≠ [] := by
  rw [Ne, ← List.length_eq_zero_iff, (EvidenceRef.sort_perm refs).length_eq, List.length_eq_zero_iff]
  exact h

/-- `DeltaItemV1(category, action, stable_key, before, after, evidence_refs)`. -/
def make (category : DeltaCategory) (action : DeltaAction) (stableKey before after : Json) (refs : List EvidenceRef) :
    Except Err DeltaItem :=
  if ha : action ∈ category.actions then do
    let key ← parallelText stableKey "stable_key" 512
    if hr : refs ≠ [] then
      return ⟨category, action, key, before, after, EvidenceRef.sort refs, ha, sort_ne_nil hr, (EvidenceRef.sort_sort refs).symm⟩
    else .error (.validation "factual delta item requires EvidenceRefV1")
  else .error (.validation "delta category/action pair is invalid")

def toDict (x : DeltaItem) : Json :=
  mkObj [("schema_version", .str schema), ("category", .str x.category.name), ("action", .str x.action.name),
    ("stable_key", x.stableKey.json), ("before", x.before), ("after", x.after),
    ("evidence_refs", .arr (x.evidenceRefs.map EvidenceRef.toDict))]

/-- `DeltaItemV1.from_dict`. -/
def fromDict (v : Json) : Except Err DeltaItem := do
  exact v ["schema_version", "category", "action", "stable_key", "before", "after", "evidence_refs"] "DeltaItemV1"
  ensure (v.get "schema_version" = .str schema) (.incompatible "unsupported DeltaItemV1")
  match v.get "evidence_refs" with
  | .arr raw => do
    let refs ← raw.mapM EvidenceRef.fromDict
    let category ← memberOf DeltaCategory.all DeltaCategory.name (.validation "delta category is invalid") (v.get "category")
    let action ← memberOf DeltaAction.all DeltaAction.name (.validation "delta category/action pair is invalid") (v.get "action")
    let x ← make category action (v.get "stable_key") (v.get "before") (v.get "after") refs
    ensure (pyEq x.toDict v = true) .conflict
    return x
  | _ => .error (.incompatible "unsupported DeltaItemV1")

/-- The key by which the items of a delta are sorted. -/
def sortKey (x : DeltaItem) (d : Digest) : Str ×ₗ Str ×ₗ Str ×ₗ Str :=
  toLex (Str.lit x.category.name, toLex (x.stableKey.1, toLex (Str.lit x.action.name, d.1)))

/-- An item with the key by which it is sorted. -/
def keyedItem (x : DeltaItem) : Except Err ((Str ×ₗ Str ×ₗ Str ×ₗ Str) × DeltaItem) :=
  (fun d => (x.sortKey d, x)) <$> parallelDigest "leanctx.delta-item.v1" x.toDict

/-- `sorted(items, key=lambda item: (item.category, item.stable_key, item.action, _digest(…)))`. -/
def sort (l : List DeltaItem) : Except Err (List DeltaItem) := do
  let keyed ← l.mapM keyedItem
  return (keyed.insertionSort fun a b => a.1 ≤ b.1).map (·.2)

end DeltaItem

/-! ### Deltas -/

def maxDeltaItems : Nat := 512

def maxDeltaBytes : Nat := 512 * 1024

/-- What a delta holds beside its identifier. -/
structure DeltaContent where
  base : WorkspaceStateRef
  target : WorkspaceStateRef
  items : List DeltaItem
  conflicts : ConflictReport
deriving DecidableEq

namespace DeltaContent

def schema : String := "leanctx.context-delta/v1"

def bounds : Json := mkObj [("max_items", .int maxDeltaItems), ("max_bytes", .int maxDeltaBytes)]

/-- `self._unsigned_dict()`, as a list of fields. -/
def unsignedFields (x : DeltaContent) : List (String × Json) :=
  [("schema_version", .str schema), ("base", x.base.toDict), ("target", x.target.toDict), ("items", .arr (x.items.map DeltaItem.toDict)),
    ("conflicts", x.conflicts.toDict), ("bounds", bounds)]

/-- What the constructor checks of the content, and the identifier that it expects. -/
def expectedId (x : DeltaContent) : Except Err Digest := do
  ensure (x.items.length ≤ maxDeltaItems) .policy
  let expected ← DeltaItem.sort x.items
  ensure (pyEq (.arr (x.items.map DeltaItem.toDict)) (.arr (expected.map DeltaItem.toDict)) = true)
    (.validation "delta items are not canonical")
  ensure (x.conflicts.base = some x.base ∧ x.conflicts.left = x.base ∧ x.conflicts.right = x.target) .conflict
  let bytes ← parallelCanonical (mkObj x.unsignedFields)
  ensure (bytes.length ≤ maxDeltaBytes) .policy
  parallelDigest "leanctx.context-delta.v1" (mkObj x.unsignedFields)

end DeltaContent

/-- The fields of a delta, before it is known that they belong together. -/
structure DeltaFields extends DeltaContent where
  deltaId : Digest
deriving DecidableEq

namespace DeltaFields

def toDict (x : DeltaFields) : Json := mkObj (x.unsignedFields ++ [("delta_id", x.deltaId.json)])

/-- What the constructor checks of the fields together. -/
def check (x : DeltaFields) : Except Err Unit := do
  let expected ← x.expectedId
  ensure (x.deltaId = expected) .conflict

end DeltaFields

/-- `ContextDeltaV1`. -/
structure ContextDelta extends DeltaFields where
  valid : toDeltaFields.check = .ok ()
deriving DecidableEq

namespace ContextDelta
open DeltaContent

def make (x : DeltaFields) : Except Err ContextDelta := certify x.check fun h => ⟨x, h⟩

theorem make_eq_ok {x : DeltaFields} {y : ContextDelta} : make x = .ok y ↔ y.toDeltaFields = x :=
  certify_eq_ok.trans ⟨fun ⟨_, e⟩ => e ▸ rfl, fun e => e ▸ ⟨y.valid, rfl⟩⟩

/-- `ContextDeltaV1.from_dict`. A recorded identifier that is not the expected one is a conflict, as any other difference is. -/
def fromDict (v : Json) : Except Err ContextDelta := do
  exact v ["schema_version", "base", "target", "items", "conflicts", "bounds", "delta_id"] "ContextDeltaV1"
  ensure (v.get "schema_version" = .str schema) (.incompatible "unsupported ContextDeltaV1")
  match v.get "items" with
  | .arr rawItems => do
    ensure (pyEq (v.get "bounds") bounds = true) (.incompatible "delta bounds are incompatible")
    let base ← WorkspaceStateRef.fromDict (v.get "base")
    let target ← WorkspaceStateRef.fromDict (v.get "target")
    let items ← rawItems.mapM DeltaItem.fromDict
    let conflicts ← ConflictReport.fromDict (v.get "conflicts")
    let content : DeltaContent := ⟨base, target, items, conflicts⟩
    let x ← make ⟨content, ← content.expectedId⟩
    ensure (pyEq x.toDict v = true) .conflict
    return x
  | _ => .error (.incompatible "unsupported ContextDeltaV1")

/-! ### What is found -/

/-- The items and the conflicts that are found. -/
structure Differences where
  items : List DeltaItem
  conflicts : List ConflictEntry

/-- The two checkpoints that are compared. -/
structure Pair where
  base : ContextCheckpoint
  target : ContextCheckpoint

/-- The evidence of a key, of the sides that have it. -/
def Pair.evidence (p : Pair) (before after : Option Json) : Except Err (List EvidenceRef) := do
  let left ← NarrowReconciliation.baseEvidence p.base before
  let right ← NarrowReconciliation.baseEvidence p.target after
  return left ++ right

/-- One turn of a loop of `between`: a key that only one side has, or that both have with other contents. -/
def turn (category : DeltaCategory) (onlyAfter onlyBefore : DeltaAction) (evidence : Option Json → Option Json → Except Err (List EvidenceRef))
    (changed : List EvidenceRef → Json → Json → Except Err Differences) (key : Str) (before after : Option Json) :
    Except Err Differences := do
  let refs ← evidence before after
  match before, after with
  | none, none => return ⟨[], []⟩
  | none, some a => return ⟨[← DeltaItem.make category onlyAfter (.str key) .null a refs], []⟩
  | some b, none => return ⟨[← DeltaItem.make category onlyBefore (.str key) b .null refs], []⟩
  | some b, some a => do
    let mine ← parallelCanonical b
    let theirs ← parallelCanonical a
    if mine = theirs then return ⟨[], []⟩ else changed refs b a

/-- The conflict of a key whose contents differ. -/
def conflictAt (category : ConflictCategory) (key : Str) (b a : Json) (refs : List EvidenceRef) : Except Err ConflictEntry := do
  let stableKey ← parallelText (.str key) "stable_key" 512
  ConflictEntry.create category stableKey .null b a refs

/-- What has changed of a source. -/
def sourceActions (b a : Json) : List DeltaAction :=
  let changed (field : String) (action : DeltaAction) : List DeltaAction := if pyEq (b.get field) (a.get field) = true then [] else [action]
  changed "revision" .revisionChanged ++ changed "freshness" .freshnessChanged ++ changed "recovery" .recoveryAvailabilityChanged

/-- A source without the fields that may change. -/
def remaining (v : Json) : Json :=
  match v with
  | .obj f => .obj (f.filter fun p => p.1 ∉ ["revision", "freshness", "recovery"].map Str.lit)
  | v => v

def changedSource (key : Str) (refs : List EvidenceRef) (b a : Json) : Except Err Differences := do
  ensure (sourceActions b a ≠ []) .conflict
  let mine ← parallelCanonical (remaining b)
  let theirs ← parallelCanonical (remaining a)
  ensure (mine = theirs) .conflict
  let items ← (sourceActions b a).mapM fun action => DeltaItem.make .source action (.str key) b a refs
  if .revisionChanged ∈ sourceActions b a then return ⟨items, [← conflictAt .sourceRevision key b a refs]⟩ else return ⟨items, []⟩

def changedEntry (key : Str) (refs : List EvidenceRef) (b a : Json) : Except Err Differences := do
  if pyEq (b.get "category") (a.get "category") = true ∧ pyEq (b.get "value") (a.get "value") = true then
    return ⟨[← DeltaItem.make .projectContext .provenanceChanged (.str key) b a refs], []⟩
  else do
    let item ← DeltaItem.make .projectContext .contradicted (.str key) b a refs
    let conflict ← conflictAt (if a.get "category" = .str (Str.lit "decisions") then .decision else .projectContext) key b a refs
    return ⟨[item], [conflict]⟩

def changedPin (key : Str) (refs : List EvidenceRef) (b a : Json) : Except Err Differences := do
  let action : DeltaAction := if pyEq (b.get "trust_state") (a.get "trust_state") = true then .digestChanged else .trustChanged
  let item ← DeltaItem.make .package action (.str key) b a refs
  let conflict ← conflictAt .package key b a refs
  return ⟨[item], [conflict]⟩

/-- `package_key(value)`, of a pin whose name and version are texts. -/
def packageKey (v : Json) : Str :=
  let part (k : String) : Str := (textsOf (.arr [v.get k])).headD []
  part "name" ++ Str.lit "@" ++ part "version"

/-- `{package_key(value): value for value in pins}`, of pins with different keys. -/
def keyedPins (v : Json) : Except Err (List (Str × Json)) := do
  let pins := itemsOf v
  ensure (pins.all Json.isObj = true) .typeError
  ensure (pins.map packageKey).Nodup .conflict
  return pins.map fun p => (packageKey p, p)

/-- A loop of `between`, over the keys of both sides. -/
def compare (left right : List (Str × Json)) (f : Str → Option Json → Option Json → Except Err Differences) : Except Err Differences := do
  let l ← (sortedUnion (left.map (·.1) ++ right.map (·.1))).mapM fun key =>
    f key (NarrowReconciliation.entryAt left key) (NarrowReconciliation.entryAt right key)
  return ⟨l.flatMap (·.items), l.flatMap (·.conflicts)⟩

/-- The sources of a checkpoint, without their local files. -/
def sourcesOf (c : ContextCheckpoint) : Json := clearBindings (c.logicalState.plain.get "sources")

/-- The part of the policy, where it differs. -/
def comparePolicy (p : Pair) : Except Err Differences := do
  let b := p.base.logicalState.plain.get "policy"
  let a := p.target.logicalState.plain.get "policy"
  let mine ← parallelCanonical b
  let theirs ← parallelCanonical a
  if mine = theirs then return ⟨[], []⟩
  else do
    let refs ← p.evidence (some .null) (some .null)
    let item ← DeltaItem.make .policy .effectiveChanged (.str (Str.lit "workspace-policy")) b a refs
    let conflict ← conflictAt .policy (Str.lit "workspace-policy") b a refs
    return ⟨[item], [conflict]⟩

/-- The item of the lineage, which every delta has. -/
def lineageItem (p : Pair) : Except Err DeltaItem := do
  let ref (c : ContextCheckpoint) : Json := mkObj [("workspace_id", c.workspaceId.json), ("checkpoint_id", c.checkpointId.json)]
  let refs ← p.evidence (some .null) (some .null)
  DeltaItem.make .lineage (if p.base.workspaceId ≠ p.target.workspaceId then .forkAncestry else .checkpointReference)
    p.target.workspaceId.json (ref p.base) (ref p.target) refs

/-- The parts of a delta, in the order in which they are found. -/
structure Parts where
  sources : Differences
  entries : Differences
  pins : Differences
  policy : Differences
  lineage : DeltaItem

/-- All items that are found. -/
def Parts.items (x : Parts) : List DeltaItem := x.sources.items ++ x.entries.items ++ x.pins.items ++ x.policy.items ++ [x.lineage]

/-- All conflicts that are found. -/
def Parts.conflicts (x : Parts) : List ConflictEntry :=
  x.sources.conflicts ++ x.entries.conflicts ++ x.pins.conflicts ++ x.policy.conflicts

/-- The loops of `between`. -/
def parts (p : Pair) : Except Err Parts := do
  let leftSources ← keyed (sourcesOf p.base) "source_id" "sources"
  let rightSources ← keyed (sourcesOf p.target) "source_id" "sources"
  let sources ← compare leftSources rightSources fun key => turn .source .added .removed p.evidence (changedSource key) key
  let leftEntries ← keyed (p.base.logicalState.plain.get "entries") "entry_id" "entries"
  let rightEntries ← keyed (p.target.logicalState.plain.get "entries") "entry_id" "entries"
  let entries ← compare leftEntries rightEntries fun key => turn .projectContext .added .removed p.evidence (changedEntry key) key
  let leftPins ← keyedPins (p.base.logicalState.plain.get "package_pins")
  let rightPins ← keyedPins (p.target.logicalState.plain.get "package_pins")
  -- a pin names no evidence of its own
  let evidence (before after : Option Json) : Except Err (List EvidenceRef) :=
    p.evidence (before.map fun _ => .null) (after.map fun _ => .null)
  let pins ← compare leftPins rightPins fun key => turn .package .pinAdded .pinRemoved evidence (changedPin key) key
  let policy ← comparePolicy p
  let lineage ← lineageItem p
  return ⟨sources, entries, pins, policy, lineage⟩

/-- `_between_verified(base, target, ancestry=…, base_lineage=…, target_lineage=…)`. -/
def betweenVerified (p : Pair) (ancestry : Ancestry) (baseLineage targetLineage : Option ForkLineage) : Except Err ContextDelta := do
  let baseRef ← WorkspaceStateRef.fromCheckpoint p.base baseLineage
  let targetRef ← WorkspaceStateRef.fromCheckpoint p.target targetLineage
  let found ← parts p
  let selected ← DeltaItem.sort found.items
  ensure (selected.length ≤ maxDeltaItems) .policy
  let report ← ConflictReport.create (some baseRef) baseRef targetRef ancestry found.conflicts
  let payload := mkObj [("schema_version", .str schema), ("base", baseRef.toDict), ("target", targetRef.toDict),
    ("items", .arr (selected.map DeltaItem.toDict)), ("conflicts", report.toDict), ("bounds", bounds)]
  let bytes ← parallelCanonical payload
  ensure (bytes.length ≤ maxDeltaBytes) .policy
  let d ← parallelDigest "leanctx.context-delta.v1" payload
  make ⟨⟨baseRef, targetRef, selected, report⟩, d⟩

/-- `ContextDeltaV1.between(base, target)`. -/
def between (p : Pair) : Except Err ContextDelta := betweenVerified p .unknown none none

end ContextDelta

/-- `context_delta(base, target)`. -/
def State.contextDelta (s : State) (p : ContextDelta.Pair) : Except Err ContextDelta := do
  s.checkStored p.target
  if p.base.workspaceId = p.target.workspaceId then s.checkStored p.base
  else match s.forkLineage with
    | none => .error .conflict
    | some l => ensure (l.parentWorkspaceId = p.base.workspaceId ∧ l.parentCheckpointId = p.base.checkpointId ∧
        l.parentCheckpointStateDigest = p.base.stateDigest ∧ l.parentCheckpointEnvelopeDigest = p.base.envelopeDigest) .conflict
  ContextDelta.betweenVerified p .exact (if p.base.workspaceId = s.identity.workspaceId then s.forkLineage else none) s.forkLineage

end LeanCtx
