import LeanCtx.Workspace.Operations
import LeanCtx.Workspace.Storing

/-! Taking a checkpoint: `checkpoint` of a workspace within its policy is accepted exactly where the format of a checkpoint has
    room for it. The format has bounds of its own, which no policy needs to respect. -/

namespace LeanCtx
open Json

/-! ### Dictionaries and pins in order -/

theorem Dict.length_sortedValues {κ ν : Type} [DecidableEq κ] [LinearOrder κ] (d : Dict κ ν) : d.sortedValues.length = d.size := by
  rw [sortedValues, List.length_map, List.length_insertionSort, size]

/-- The lock of pins does not depend on their order. -/
theorem packageLock_perm {m n : List PackagePin} (hperm : m.Perm n) (hkeys : (m.map PackagePin.key).Nodup) :
    packageLock m = packageLock n := by
  have hsorted : ∀ k : List PackagePin, (sortPins k).Pairwise fun p q => p.key ≤ q.key := fun k => by
    have : Std.Total fun p q : PackagePin => p.key ≤ q.key := ⟨fun p q => le_total p.key q.key⟩
    have : IsTrans PackagePin fun p q => p.key ≤ q.key := ⟨fun _ _ _ => le_trans⟩
    exact List.pairwise_insertionSort _ k
  have hsort : (sortPins m).Perm (sortPins n) :=
    (List.perm_insertionSort _ m).trans (hperm.trans (List.perm_insertionSort _ n).symm)
  have heq : sortPins m = sortPins n := by
    refine hsort.eq_of_pairwise (fun p q hp hq hpq hqp => ?_) (hsorted m) (hsorted n)
    have hp := (List.perm_insertionSort _ m).mem_iff.mp hp
    have hq := hperm.mem_iff.mpr ((List.perm_insertionSort _ n).mem_iff.mp hq)
    exact List.inj_on_of_nodup_map hkeys hp hq (le_antisymm hpq hqp)
  have hnil : m = [] ↔ n = [] := by
    rw [← List.length_eq_zero_iff, ← List.length_eq_zero_iff, hperm.length_eq]
  rw [packageLock, packageLock, heq]
  simp only [hnil]

theorem mapM_map_of_forall {γ δ ε : Type} {f : γ → Except ε δ} {g : δ → γ} {l : List δ} (h : ∀ a ∈ l, f (g a) = .ok a) :
    (l.map g).mapM f = .ok l := by
  induction l with
  | nil => rfl
  | cons a l ih =>
    rw [List.map_cons, List.mapM_cons, h a List.mem_cons_self, ok_bind, ih fun b hb => h b (List.mem_cons_of_mem _ hb)]
    rfl

/-- A dictionary whose values hold their keys is made of its values in order again. -/
theorem Dict.ofItems_sortedValues {κ ν : Type} [DecidableEq κ] [LinearOrder κ] {d : Dict κ ν} {f : ν → κ}
    (h : ∀ p ∈ d.items, f p.2 = p.1) : Dict.ofItems (d.sortedValues.map fun a => (f a, a)) = d.sort ∧
      (d.sortedValues.map f).Pairwise (· < ·) := by
  have hitems : (d.sortedValues.map fun a => (f a, a)) = d.sort.items := by
    rw [← Dict.values_sort, Dict.values, List.map_map]
    refine (List.map_congr_left fun p hp => ?_).trans (List.map_id _)
    exact Prod.ext (h p (Dict.mem_items_sort.mp hp)) rfl
  have hkeys : d.sortedValues.map f = d.sort.items.map Prod.fst := by
    rw [← hitems, List.map_map]
    rfl
  refine ⟨Dict.ext ?_, hkeys ▸ Dict.pairwise_keys_sort⟩
  rw [hitems, Dict.items_ofItems d.sort.nodup]

theorem PackagePin.isPlain_toDict (x : PackagePin) : IsPlain x.toDict := by
  refine isPlain_mkObj ?_
  simp only [List.mem_cons, List.not_mem_nil, or_false, forall_eq_or_imp, forall_eq]
  exact ⟨rfl, rfl, rfl, rfl, rfl, rfl, rfl, isPlain_optional (f := fun k : SignerKey => .str k.1) (fun _ => rfl) _, rfl, rfl⟩

theorem isPlain_map {α : Type} {f : α → Json} {m : List α} (h : ∀ a ∈ m, IsPlain (f a)) : IsPlain (.arr (m.map f)) :=
  isPlain_arr fun v hv => by
    obtain ⟨a, ha, rfl⟩ := List.mem_map.mp hv
    exact h a ha

/-! ### Logical states in order -/

namespace LogicalState
variable {l : LogicalState} {ws : Uuid}

/-- The logical state with its sources and pins in order, as it is read back. -/
def sort (l : LogicalState) : LogicalState := { l with sources := l.sources.sort, packagePins := l.packagePins.sort }

theorem toDict_sort : l.sort.toDict ws = l.toDict ws := by
  rw [toDict, toDict, sort, Dict.sortedValues_sort, Dict.sortedValues_sort]

/-- The bounds that the format of a checkpoint sets. -/
structure HasRoom (l : LogicalState) (ws : Uuid) : Prop where
  sources : l.sources.size ≤ maxSources
  entries : l.entries.length ≤ 256
  pins : l.packagePins.size ≤ maxPackagePins
  refs : l.recoveryRefs.length ≤ maxReceiptRefs
  bytes : byteLength (l.toDict ws) ≤ maxCheckpointBytes

/-- A sound logical state of entries with distinct identifiers reads back where the format has room for it. -/
theorem Sound.reads (h : l.Sound) (hroom : l.HasRoom ws) (hdistinct : (l.entries.map (·.entryId)).Nodup)
    (hwritable : Writable (l.toDict ws)) : logicalStateComponents (l.sort.toDict ws) ws = .ok l.sort := by
  obtain ⟨b, hb⟩ := canonical_of_writable hwritable
  have hlength := length_canonicalBytes (canonical_eq_ok.mp hb)
  have hbytes : b.length ≤ maxCheckpointBytes := hlength ▸ hroom.bytes
  have hcounts : l.sources.sortedValues.length ≤ maxSources ∧ l.entries.length ≤ 256 ∧
      l.packagePins.sortedValues.length ≤ maxPackagePins := by
    rw [Dict.length_sortedValues, Dict.length_sortedValues]
    exact ⟨hroom.sources, hroom.entries, hroom.pins⟩
  have hanchors : (l.sources.sortedValues.map SourceAnchor.toDict).mapM (fun a => SourceAnchor.fromDict a true) =
      .ok l.sources.sortedValues := mapM_map_of_forall fun a ha =>
    SourceAnchor.fromDict_toDict (h.sources a (Dict.mem_sortedValues.mp ha)).stable fun _ => rfl
  have hentries := mapM_map (f := entryFromInput) entryFromInput_toDict l.entries
  have hpins := mapM_map (f := PackagePin.fromDict) PackagePin.fromDict_toDict l.packagePins.sortedValues
  obtain ⟨hsources, hsorted⟩ := Dict.ofItems_sortedValues (d := l.sources) (f := SourceAnchor.sourceId) fun p hp =>
    h.keyed p.1 p.2 (Dict.get?_eq_some.mpr hp)
  obtain ⟨hpinned, hpinsSorted⟩ := Dict.ofItems_sortedValues (d := l.packagePins) (f := PackagePin.key) h.pinned
  have hknown : ∀ x ∈ l.entries, ∀ i ∈ x.sourceIds.1, l.sources.sort.contains i = true := fun x hx i hi => by
    rw [Dict.contains, Dict.get?_sort]
    exact h.referenced x hx i hi
  have hlock : packageLock l.packagePins.sortedValues = .ok l.packageLockDigest := by
    refine (packageLock_perm ?_ ?_).trans h.lock
    · exact (List.perm_insertionSort _ l.packagePins.items).map Prod.snd
    · exact hpinsSorted.imp fun {_ _} => ne_of_lt
  have hexact : exact (l.toDict ws) ["schema_version", "workspace_id", "policy", "sources", "entries", "package_pins",
      "package_lock_digest"] "logical_state" = .ok () := exact_mkObj rfl _
  have hgets : (l.toDict ws).get "schema_version" = .str logicalStateSchema ∧ (l.toDict ws).get "workspace_id" = ws.json ∧
      (l.toDict ws).get "policy" = l.policy.toDict ∧
      (l.toDict ws).get "package_lock_digest" = optional Digest.json l.packageLockDigest := by
    simp [toDict, get_mkObj]
  have harrays : (l.toDict ws).get "sources" = .arr (l.sources.sortedValues.map SourceAnchor.toDict) ∧
      (l.toDict ws).get "entries" = .arr (l.entries.map ProjectContextEntry.toDict) ∧
      (l.toDict ws).get "package_pins" = .arr (l.packagePins.sortedValues.map PackagePin.toDict) := by
    simp [toDict, get_mkObj, entriesJson]
  have hcounts' : (l.sources.sortedValues.map SourceAnchor.toDict).length ≤ maxSources ∧
      (l.entries.map ProjectContextEntry.toDict).length ≤ 256 ∧
      (l.packagePins.sortedValues.map PackagePin.toDict).length ≤ maxPackagePins := by
    rw [List.length_map, List.length_map, List.length_map]
    exact hcounts
  have hnodup : (l.sources.sortedValues.map (·.sourceId)).Nodup := hsorted.imp fun {_ _} => ne_of_lt
  have hentriesEq : pyEq (entriesJson l.entries) (.arr (l.entries.map ProjectContextEntry.toDict)) = true := pyEq_refl _
  rw [toDict_sort, logicalStateComponents]
  simp only [hgets, harrays]
  rw [hexact, ok_bind, ensure_of_true, ok_bind, ensure_of_true, ok_bind, ensure_true hcounts', ok_bind, hb, ok_bind,
    ensure_true hbytes, ok_bind, WorkspacePolicy.fromDict_toDict, ok_bind, hanchors, ok_bind, hentries, ok_bind, hpins, ok_bind,
    ensure_true (pyEq_refl _), ok_bind, ensure_true hentriesEq, ok_bind, ensure_true (pyEq_refl _), ok_bind,
    ensure_true hnodup, ok_bind, ensure_true hsorted, ok_bind, hsources, ensure_true hknown, ok_bind,
    ensure_true hdistinct, ok_bind, ensure_true hpinsSorted, ok_bind, hlock, ok_bind, ensure_true rfl, ok_bind, hpinned]
  rfl

/-- A sound logical state holds no secret. -/
theorem Sound.safe (h : l.Sound) : Safe (l.toDict ws) := by
  refine safe_mkObj logicalStateKeys rfl (by decide) ?_
  simp only [List.mem_cons, List.not_mem_nil, or_false, forall_eq_or_imp, forall_eq]
  refine ⟨safe_name (by decide), safe_uuid _, l.policy.safe_toDict,
    safe_map fun a ha => (h.sources a (Dict.mem_sortedValues.mp ha)).safe, safe_map h.entries,
    safe_map fun p hp => h.pins p (Dict.mem_sortedValues.mp hp), ?_⟩
  cases l.packageLockDigest with
  | none => exact safe_null
  | some d => exact safe_digest d

/-- A sound logical state has its keys in order everywhere. -/
theorem Sound.plain (h : l.Sound) : IsPlain (l.toDict ws) := by
  refine isPlain_mkObj ?_
  simp only [List.mem_cons, List.not_mem_nil, or_false, forall_eq_or_imp, forall_eq]
  exact ⟨rfl, rfl, l.policy.isPlain_toDict, isPlain_map fun a ha => (h.sources a (Dict.mem_sortedValues.mp ha)).plain,
    isPlain_map fun x _ => x.isPlain_toDict, isPlain_map fun p _ => PackagePin.isPlain_toDict p,
    isPlain_optional (f := Digest.json) (fun _ => rfl) _⟩

/-- A logical state is written where the bounds of its policy and its sources are. -/
theorem writable_toDict (hpolicy : l.policy.Small) (hsources : ∀ a ∈ l.sources.values, Writable a.toDict) : Writable (l.toDict ws) := by
  refine writable_mkObj ?_
  simp only [List.mem_cons, List.not_mem_nil, or_false, forall_eq_or_imp, forall_eq]
  exact ⟨writable_lit _, writable_uuid _, WorkspacePolicy.writable_toDict hpolicy, writable_arr fun v hv => by
    obtain ⟨a, ha, rfl⟩ := List.mem_map.mp hv
    exact hsources a (Dict.mem_sortedValues.mp ha), writable_entriesJson _, writable_map PackagePin.writable_toDict _,
    writable_optional writable_digest _⟩

/-- A sound logical state that can be written is stored where the format has room for it. -/
theorem Sound.storable (h : l.Sound) (hroom : l.HasRoom ws) (hdistinct : (l.entries.map (·.entryId)).Nodup)
    (hpolicy : l.policy.Small) (hsources : ∀ a ∈ l.sources.values, Writable a.toDict) : l.sort.Storable ws := by
  have hwritable : Writable (l.toDict ws) := writable_toDict hpolicy hsources
  refine ⟨h.reads hroom hdistinct hwritable, ?_, hroom.refs, hpolicy, fun a ha => ?_⟩
  · rw [toDict_sort]
    exact h.safe
  · have ha : a ∈ l.sources.sortedValues := ha
    exact hsources a (Dict.mem_sortedValues.mp ha)

end LogicalState

/-! ### The checkpoint of a state -/

namespace State
variable {s : State} {checkpointId : Uuid} {c : ContextCheckpoint}

/-- A checkpoint that holds the logical state of a workspace and names its last event. -/
structure TakenAs (s : State) (checkpointId : Uuid) (c : ContextCheckpoint) : Prop where
  checkpointId : c.checkpointId = checkpointId
  workspace : c.workspaceId = s.identity.workspaceId
  stateRef : c.workspaceStateRef.1 = Str.lit "event:" ++ previousText s.lastEventDigest
  lineage : c.lineageStateId.1 = s.identity.stateId.1
  content : c.toCheckpointFields.Of s.logical.sort

/-- A checkpoint of a state is the one that `checkpoint` makes of it. -/
theorem takeCheckpoint_of_takenAs (h : s.TakenAs checkpointId c) (hactive : s.lifecycle = .active)
    (hstorable : s.logical.sort.Storable s.identity.workspaceId) (hplain : IsPlain s.logicalState) :
    s.takeCheckpoint checkpointId = .ok c := by
  have hlogical : c.logicalState = s.logicalState := by
    rw [h.content.logicalState, LogicalState.toDict_sort, h.workspace, State.logicalState]
  have hvalid := c.valid
  simp only [CheckpointFields.check, CheckpointFields.validateProjections, CheckpointFields.envelope, bind_eq_ok, ensure_eq_ok,
    exists_const] at hvalid
  obtain ⟨-, _, -, _, -, _, -, -, ⟨l, hl, policyDigest, hpolicy, contextDigest, hcontext, hagree⟩, envelope,
    henvelope, hsealed⟩ := hvalid
  rw [h.content.logicalState, h.workspace, hstorable.reads] at hl
  obtain rfl := Except.ok.inj hl
  have hfields : s.checkpointFields checkpointId c.stateDigest c.policyDigest c.projectContextDigest = c.unsignedFields := by
    have hget : s.logicalState.get "sources" = .arr (s.logical.sort.sources.sortedValues.map SourceAnchor.toDict) ∧
        s.logicalState.get "package_pins" = .arr (s.logical.sort.packagePins.sortedValues.map PackagePin.toDict) ∧
        s.logicalState.get "package_lock_digest" = optional Digest.json s.logical.sort.packageLockDigest := by
      rw [State.logicalState, ← LogicalState.toDict_sort]
      simp [LogicalState.toDict, get_mkObj]
    have hrefs : s.logical.recoveryRefs = c.recoveryRefs := h.content.recoveryRefs.symm
    have href : c.workspaceStateRef.json = .str (Str.lit "event:" ++ previousText s.lastEventDigest) :=
      congrArg Json.str h.stateRef
    have hstateId : c.lineageStateId.json = s.identity.stateId.json := congrArg Json.str h.lineage
    have hkeys : s.logicalState.plain = s.logicalState := hplain
    rw [checkpointFields, hget.1, hget.2.1, hget.2.2, hrefs, hkeys, CheckpointFields.unsignedFields, CheckpointFields.lineage,
      h.checkpointId, h.workspace, hlogical, h.content.sourceAnchors, h.content.packagePins, h.content.packageLockDigest,
      h.content.engineIdentity, href, hstateId]
  have hread := LogicalState.Storable.fromDict_toDict (c := c) (h.workspace ▸ hstorable) h.content
  have hstate' : s.logicalDigest = .ok c.stateDigest := by
    rw [State.logicalDigest, ← hlogical]
    exact c.stateDigest_eq
  have hpolicy' : domainDigest "leanctx.workspace.policy.v1" s.policy.toDict = .ok c.policyDigest := by
    rw [hagree.2.2.2.2.1]
    exact hpolicy
  have hcontext' : domainDigest "leanctx.project-context.state.v1" (entriesJson s.entries) = .ok c.projectContextDigest := by
    rw [hagree.2.2.2.2.2]
    exact hcontext
  rw [takeCheckpoint, ensure_true hactive, ok_bind, hstate', ok_bind, hpolicy', ok_bind, hcontext', ok_bind, hfields]
  dsimp only
  rw [henvelope, ok_bind, ← hsealed]
  exact hread

/-- A workspace whose logical state is stored has the checkpoint that `checkpoint` makes of it. -/
theorem exists_takenAs (hstorable : s.logical.sort.Storable s.identity.workspaceId) {d : Digest}
    (hlast : s.lastEventDigest = some d) (checkpointId : Uuid) : ∃ c, s.TakenAs checkpointId c := by
  obtain ⟨c, hid, hws, href, hlineage, hcontent⟩ := hstorable.exists_checkpoint checkpointId d.eventRef s.identity.stateId.ref
    d.prefix_eventRef
  refine ⟨c, hid, hws, ?_, ?_, hcontent⟩
  · rw [href, hlast]
    rfl
  · rw [hlineage]
    rfl

/-- The record of a checkpoint of a sound state can be written, holds no secret and has its keys in order. -/
theorem record_of_takenAs (h : s.TakenAs checkpointId c) (hsound : s.logical.Sound) {d : Digest}
    (hlast : s.lastEventDigest = some d) : Writable c.toDict ∧ Safe c.toDict ∧ IsPlain c.toDict := by
  have hstate : s.logical.sort.toDict c.workspaceId = s.logicalState := by
    rw [LogicalState.toDict_sort, h.workspace, State.logicalState]
  have hanchors : ∀ a ∈ s.logical.sort.sources.sortedValues, a.Sound := fun a ha =>
    hsound.sources a (Dict.mem_sortedValues.mp (Dict.sortedValues_sort (d := s.logical.sources) ▸ ha))
  have hpins : ∀ x ∈ s.logical.sort.packagePins.sortedValues, Safe x.toDict := fun x hx =>
    hsound.pins x (Dict.mem_sortedValues.mp (Dict.sortedValues_sort (d := s.logical.packagePins) ▸ hx))
  have href : c.workspaceStateRef = d.eventRef := Subtype.ext (by
    rw [h.stateRef, hlast]
    rfl)
  have hlineage : c.lineageStateId = s.identity.stateId.ref := Subtype.ext h.lineage
  refine ⟨?_, ?_, ?_⟩
  · have hvalid := c.valid
    simp only [CheckpointFields.check, CheckpointFields.envelope, bind_eq_ok, ensure_eq_ok, exists_const] at hvalid
    obtain ⟨-, _, -, _, -, _, -, -, _, -, envelope, henvelope, -⟩ := hvalid
    obtain ⟨b, hb, -⟩ := domainDigest_eq_ok.mp henvelope
    have hall := writable_of_mkObj (by simp [CheckpointFields.unsignedFields]) ⟨b, hb⟩
    refine writable_mkObj fun p hp => ?_
    rcases List.mem_append.mp hp with hp | hp
    · exact hall p hp
    · rw [List.mem_singleton.mp hp]
      exact writable_digest _
  · refine safe_checkpoint h.content (hstate ▸ hsound.safe) (safe_map fun a ha => (hanchors a ha).safe) (safe_map hpins)
      (fun r hr => ?_) (href ▸ safe_eventRef d) (hlineage ▸ safe_digestRef _)
    obtain ⟨x, hx, hr⟩ := List.mem_flatMap.mp (mem_sortedUnion.mp hr)
    have hall := safe_of_mkObj (by simp) (hsound.entries x hx)
    simp only [List.mem_cons, List.not_mem_nil, or_false, forall_eq_or_imp, forall_eq] at hall
    obtain ⟨-, -, -, -, -, -, -, hrecovery⟩ := hall
    exact safe_items hrecovery _ (List.mem_map_of_mem hr)
  · rw [LogicalState.Storable.toDict_eq, h.content.logicalState, hstate, h.content.sourceAnchors, h.content.packagePins,
      h.content.engineIdentity]
    refine isPlain_mkObj ?_
    simp only [List.mem_cons, List.not_mem_nil, or_false, forall_eq_or_imp, forall_eq]
    refine ⟨rfl, rfl, rfl, rfl, rfl, rfl, hsound.plain, isPlain_map fun a ha => (hanchors a ha).plain,
      isPlain_map fun _ _ => rfl, isPlain_map fun x _ => PackagePin.isPlain_toDict x,
      isPlain_optional (f := Digest.json) (fun _ => rfl) _, rfl, rfl, isPlain_mkObj ?_, rfl, rfl, rfl⟩
    simp only [List.mem_cons, List.not_mem_nil, or_false, forall_eq_or_imp, forall_eq]
    exact ⟨rfl, rfl, rfl⟩

/-- A workspace takes the checkpoint of itself that `checkpoint` makes. -/
theorem takes_of_takenAs {e : Event} (h : s.TakenAs checkpointId c) (hs : s.Stored) (hactive : s.lifecycle = .active)
    (hstorable : s.logical.sort.Storable s.identity.workspaceId) (hbounds : s.ensureBounds true = .ok ())
    (hunverified : ∀ a ∈ s.sources.values, a.trust.level ≠ .verified) (hnew : s.checkpoints.contains checkpointId = false)
    (hroom : s.checkpoints.size < maxCheckpoints) (hkind : e.kind = .checkpointCreated)
    (hpayload : e.payload = mkObj [("checkpoint", c.toDict)]) (hfresh : s.receipts.get? e.eventId = none) :
    s.TakesCheckpoint e c s.logical.sort := by
  obtain ⟨hsound, hwritten, d, hlast⟩ := hs
  refine ⟨hkind, hpayload, hactive, hwritten, h.workspace, hstorable, h.content, LogicalState.toDict_sort.symm,
    Dict.sortedValues_sort.trans Dict.values_sort.symm, fun a ha => ?_, h.checkpointId ▸ hnew, hroom, h.lineage, h.stateRef,
    (record_of_takenAs h hsound.logical hlast).2.1, hbounds, by rw [Dict.contains, hfresh]; rfl⟩
  exact hunverified a (Dict.mem_sortedValues.mp ha)

end State

/-! ### The operation -/

/-- The checkpoints that a workspace keeps, and the logical state, leave room for one more. -/
structure State.HasRoom (s : State) : Prop where
  logical : s.logical.HasRoom s.identity.workspaceId
  checkpoints : s.checkpoints.size < maxCheckpoints

/-- The file of the next event has a name that no file of the journal has. -/
theorem ne_eventFileName {workspaceId : Uuid} {files : List EventFile} {s : State} {e : Event}
    (hs : project workspaceId files = .ok s) (he : e.sequence = nextSequence (some s)) :
    ∀ f ∈ files, f.name ≠ eventFileName e := by
  obtain ⟨hnames, hfold, -⟩ := project_eq_ok.mp hs
  intro f hf hname
  by_cases hsequence : e.sequence.1 < 10 ^ sequenceWidth
  · obtain ⟨k, hex, hk, hlt⟩ := (foldlM_extend hfold).2 f (mem_sortFiles.mpr hf)
    rw [hname, matchEventName_eventFileName hsequence, he] at hk
    simp only [Option.some.injEq, Prod.mk.injEq] at hk
    omega
  · -- a longer sequence makes a longer name than any that is read
    have hlong := lt_length_paddedText (w := sequenceWidth) (by decide) (not_lt.mp hsequence)
    have hlength := eventFileName_length e
    have hread := hnames f hf
    rw [hname, matchEventName] at hread
    split_ifs at hread with hmatch
    · have hmatch := hmatch.1
      omega
    · cases hread

/-- A workspace of entries with distinct identifiers, without verified sources, takes a checkpoint where there is room. -/
theorem checkpointWorkspace_of_hasRoom {workspaceId : Uuid} {files : List EventFile} {s : State} {checkpointId eventId : Uuid}
    (hs : project workspaceId files = .ok s) (hactive : s.lifecycle = .active) (hbounds : s.ensureBounds true = .ok ())
    (hunverified : ∀ a ∈ s.sources.values, a.trust.level ≠ .verified) (hdistinct : (s.entries.map (·.entryId)).Nodup)
    (hnew : s.checkpoints.contains checkpointId = false) (hfresh : s.receipts.get? eventId = none) (hroom : s.HasRoom) :
    ∃ c, (checkpointWorkspace workspaceId files checkpointId eventId).2 = .ok c := by
  have hstored := stored_of_project hs
  have hid := (project_eq_ok.mp hs).2.2
  obtain ⟨hsound, hwritten, d, hlast⟩ := hstored
  have hstorable := hsound.logical.storable hroom.logical hdistinct hwritten.policy hwritten.sources
  obtain ⟨c, hc⟩ := State.exists_takenAs hstorable hlast checkpointId
  obtain ⟨hwritable, hsafe, hplain⟩ := State.record_of_takenAs hc hsound.logical hlast
  have htake := State.takeCheckpoint_of_takenAs hc hactive hstorable hsound.logical.plain
  have hbudget : s.events.length + 1 ≤ s.policy.maxEvents.1 := (State.ensureBounds_eq_ok.mp hbounds).1
  have hdigits : (natText (nextSequence (some s)).1).length ≤ maxIntDigits := by
    have hmax : (natText s.policy.maxEvents.1).length ≤ maxIntDigits := hwritten.policy _ List.mem_cons_self
    rw [length_natText_le (by decide)] at hmax ⊢
    exact lt_of_le_of_lt hbudget hmax
  have hpayload : Writable (mkObj [("checkpoint", c.toDict)]) := writable_mkObj (by simpa using hwritable)
  obtain ⟨e, he⟩ := exists_record workspaceId (nextSequence (some s)) eventId .checkpointCreated s.lastEventDigest hdigits hpayload
  obtain ⟨data, hdata⟩ := Event.exists_canonical he
  obtain ⟨-, -, hseq, heventId, hkind, hpayload', -⟩ := Event.sealed_record he
  have hkeys : IsPlain (mkObj [("checkpoint", c.toDict)]) := isPlain_mkObj (by simpa using hplain)
  obtain ⟨receipt, ht⟩ := applyEvent_checkpoint (State.takes_of_takenAs hc ⟨hsound, hwritten, d, hlast⟩ hactive hstorable hbounds
    hunverified hnew hroom.checkpoints hkind (hpayload'.trans hkeys) (heventId ▸ hfresh)) false
  obtain ⟨receipt', happend⟩ := append_publish
    (r := ⟨.checkpointCreated, mkObj [("checkpoint", c.toDict)], eventId, false, .ok ()⟩) hs hfresh hactive hbudget he ht rfl hdata
    (ne_eventFileName hs hseq)
  have hreject : rejectSensitive (mkObj [("checkpoint", c.toDict)]) "payload" = .ok () :=
    rejectSensitive_of_safe (safe_mkObj ["checkpoint"] rfl (all_insensitive (by decide)) (by simpa using hsafe)) _
  refine ⟨c, ?_⟩
  rw [checkpointWorkspace, readState, hs, catching_ok, ok_bind, htake]
  simp only [appendEvent, hreject, happend]
  rfl

/-! ### What an accepted checkpoint shows -/

/-- A logical state that reads back is within the bounds of the format. -/
theorem LogicalState.bounds_of_components {l l' : LogicalState} {ws ws' : Uuid}
    (h : logicalStateComponents (l.toDict ws) ws' = .ok l') : l.sources.size ≤ maxSources ∧ l.entries.length ≤ 256 ∧
      l.packagePins.size ≤ maxPackagePins ∧ byteLength (l.toDict ws) ≤ maxCheckpointBytes := by
  have hget : (l.toDict ws).get "sources" = .arr (l.sources.sortedValues.map SourceAnchor.toDict) ∧
      (l.toDict ws).get "entries" = .arr (l.entries.map ProjectContextEntry.toDict) ∧
      (l.toDict ws).get "package_pins" = .arr (l.packagePins.sortedValues.map PackagePin.toDict) := by
    simp [toDict, get_mkObj, entriesJson]
  simp only [logicalStateComponents, hget, bind_eq_ok, ensure_eq_ok, exists_const, List.length_map,
    Dict.length_sortedValues] at h
  obtain ⟨_, -, -, -, ⟨hsources, hentries, hpins⟩, b, hb, hlength, -⟩ := h
  exact ⟨hsources, hentries, hpins, length_canonicalBytes (canonical_eq_ok.mp hb) ▸ hlength⟩

theorem ContextCheckpoint.length_recoveryRefs {v : Json} {c : ContextCheckpoint} (h : fromDict v = .ok c) :
    ∀ l, v.get "recovery_refs" = .arr l → l.length ≤ maxReceiptRefs := by
  intro l hl
  simp only [fromDict, hl, bind_eq_ok] at h
  obtain ⟨_, -, h⟩ := h
  split at h
  · next hrefs _ =>
    cases hrefs
    split at h
    · simp only [bind_eq_ok, ensure_eq_ok, exists_const] at h
      obtain ⟨_, -, _, -, _, -, _, -, _, -, _, -, _, -, -, -, -, _, -, -, -, -, hlength, -⟩ := h
      exact hlength
    · cases h
  · cases h

/-- The logical state of a checkpoint that was made of a workspace has room in the format. -/
theorem LogicalState.HasRoom.of_takeCheckpoint {s : State} {checkpointId : Uuid} {c : ContextCheckpoint} (hsound : s.logical.Sound)
    (h : s.takeCheckpoint checkpointId = .ok c) : s.logical.HasRoom s.identity.workspaceId := by
  simp only [State.takeCheckpoint, bind_eq_ok, ensure_eq_ok, exists_const] at h
  obtain ⟨-, stateDigest, -, policyDigest, -, contextDigest, -, envelope, -, hread⟩ := h
  have hlogical := ContextCheckpoint.logicalState_of_fromDict hread
  have hrefs := ContextCheckpoint.length_recoveryRefs hread (s.logical.recoveryRefs.map Ref.json) (by
    simp [State.checkpointFields, get_mkObj])
  rw [List.length_map] at hrefs
  have hplain : s.logicalState.plain = s.logicalState := hsound.plain
  have hget : (mkObj (s.checkpointFields checkpointId stateDigest policyDigest contextDigest ++
      [("envelope_digest", envelope.json)])).get "logical_state" = s.logicalState.plain := by
    simp [State.checkpointFields, get_mkObj]
  rw [hget, hplain] at hlogical
  have hvalid := c.valid
  simp only [CheckpointFields.check, CheckpointFields.validateProjections, bind_eq_ok, ensure_eq_ok, exists_const] at hvalid
  obtain ⟨-, _, -, _, -, _, -, -, ⟨l, hl, -⟩, -⟩ := hvalid
  rw [hlogical] at hl
  obtain ⟨hsources, hentries, hpins, hbytes⟩ := bounds_of_components hl
  exact ⟨hsources, hentries, hpins, hrefs, hbytes⟩

/-- A checkpoint that was stored had a place among the checkpoints. -/
theorem State.size_of_createCheckpoint {s s' : State} {p : Json} (h : s.createCheckpoint p = .ok s') :
    s.checkpoints.size < maxCheckpoints := by
  simp only [createCheckpoint, bind_eq_ok, ensure_eq_ok, projecting_eq_ok, projectingConflict_eq_ok, exists_const] at h
  obtain ⟨_, -, _, -, -, hsize, -⟩ := h
  exact hsize

/-- A workspace whose checkpoint was accepted had room for it. -/
theorem hasRoom_of_checkpointWorkspace {workspaceId : Uuid} {files : List EventFile} {s : State} {checkpointId eventId : Uuid}
    {c : ContextCheckpoint} (hs : project workspaceId files = .ok s) (hfresh : s.receipts.get? eventId = none)
    (h : (checkpointWorkspace workspaceId files checkpointId eventId).2 = .ok c) : s.HasRoom := by
  obtain ⟨hsound, -, -⟩ := stored_of_project hs
  unfold checkpointWorkspace at h
  split at h
  · cases h
  · next c' htake =>
    rw [readState, hs, catching_ok, ok_bind] at htake
    refine ⟨.of_takeCheckpoint hsound.logical htake, ?_⟩
    unfold appendEvent at h
    split at h
    · cases h
    · dsimp only at h
      cases happend : append workspaceId files
          ⟨.checkpointCreated, mkObj [("checkpoint", c'.toDict)], eventId, false, .ok ()⟩ with
      | mk files' result =>
        rw [happend] at h
        cases result with
        | error e => cases h
        | ok a =>
          obtain ⟨t, ht, hcase⟩ := append_eq_ok happend
          obtain rfl := Except.ok.inj (hs.symm.trans ht)
          obtain ⟨-, -, hreceipt⟩ | ⟨-, e, data, he, happly, -⟩ := hcase
          · rw [hfresh] at hreceipt
            cases hreceipt
          · obtain ⟨-, -, -, u, heffect, -⟩ := applyEvent_some.mp happly
            have hkind := (Event.sealed_record he).2.2.2.2.1
            rw [State.effect, hkind] at heffect
            exact State.size_of_createCheckpoint heffect

/-- What `checkpoint` needs of a workspace besides room: it is active and within its policy, its sources are declared, and the
    identifiers of the checkpoint and of its event are new. -/
structure State.Checkpointable (s : State) (checkpointId eventId : Uuid) : Prop where
  active : s.lifecycle = .active
  bounds : s.ensureBounds true = .ok ()
  unverified : ∀ a ∈ s.sources.values, a.trust.level ≠ .verified
  new : s.checkpoints.contains checkpointId = false
  fresh : s.receipts.get? eventId = none

/-- A workspace within its policy, whose entries have distinct identifiers, takes a checkpoint exactly where the format of
    checkpoints has room for it. -/
theorem checkpoints_iff_hasRoom (workspaceId : Uuid) (files : List EventFile) (s : State) (checkpointId eventId : Uuid)
    (hs : project workspaceId files = .ok s) (h : s.Checkpointable checkpointId eventId)
    (hdistinct : (s.entries.map (·.entryId)).Nodup) :
    (∃ c, (checkpointWorkspace workspaceId files checkpointId eventId).2 = .ok c) ↔ s.HasRoom :=
  ⟨fun ⟨_, hc⟩ => hasRoom_of_checkpointWorkspace hs h.fresh hc, fun hroom =>
    checkpointWorkspace_of_hasRoom hs h.active h.bounds h.unverified hdistinct h.new h.fresh hroom⟩

/-- A sample workspace takes a checkpoint, and has room for it. -/
theorem exists_checkpoints_iff_hasRoom : ∃ files s, project (numberedUuid 0) files = .ok s ∧
    s.Checkpointable (numberedUuid 0) (numberedUuid 2) ∧
    ((∃ c, (checkpointWorkspace (numberedUuid 0) files (numberedUuid 0) (numberedUuid 2)).2 = .ok c) ↔ s.HasRoom) := by
  obtain ⟨files, s, hs, hsample, hcheckpoints, -⟩ := exists_sample
  have h : s.Checkpointable (numberedUuid 0) (numberedUuid 2) := by
    refine ⟨hsample.lifecycle, hsample.bounds (by decide), fun a ha => ?_, ?_, hsample.fresh 2 (by decide) (by decide)⟩
    · rw [hsample.sources] at ha
      cases ha
    · rw [hcheckpoints]
      rfl
  exact ⟨files, s, hs, h, checkpoints_iff_hasRoom _ files s _ _ hs h (by rw [hsample.entries]; exact List.nodup_nil)⟩

/-! ### A workspace that outgrows the format -/

/-- More entries than a checkpoint has room for. -/
def manyEntries : List ProjectContextEntry := (List.range 257).map longEntry

theorem exists_longEntry {x : ProjectContextEntry} (hx : x ∈ manyEntries) : ∃ n < 257, longEntry n = x := by
  obtain ⟨n, hn, rfl⟩ := List.mem_map.mp hx
  exact ⟨n, List.mem_range.mp hn, rfl⟩

theorem fits_manyEntries : Json.Fits 1105358 (entriesJson manyEntries) := by
  have hlength : (manyEntries.map ProjectContextEntry.toDict).length = 257 := by simp [manyEntries]
  have hfits := fits_arr (l := manyEntries.map ProjectContextEntry.toDict) (n := 4300) (fun v hv => by
    obtain ⟨x, hx, rfl⟩ := List.mem_map.mp hv
    obtain ⟨n, -, rfl⟩ := exists_longEntry hx
    exact ⟨(longEntry n).writable_toDict, (byteLength_longEntry n).le⟩) (by
    rw [Ne, ← List.length_eq_zero_iff, hlength]
    decide)
  rw [hlength] at hfits
  exact hfits

/-- The policy of a sample workspace has room for the entries. -/
theorem ensureBounds_manyEntries {s : State} {extra : Bool} (hpolicy : s.policy = openPolicy) (hentries : s.entries = manyEntries)
    (hevents : s.events.length ≤ 1000) (hsources : s.sources.size ≤ 1000) (hsessions : s.sessions.length ≤ 1000)
    (hpins : s.packagePins.size ≤ 128) : s.ensureBounds extra = .ok () := by
  have hroom : (openPolicy.maxEvents.1, openPolicy.maxSources.1, openPolicy.maxSessions.1, openPolicy.maxContextEntries.1,
      openPolicy.maxEntryBytes.1, openPolicy.maxContextBytes.1) =
      (1000000000, 1000000000, 1000000000, 1000000000, 1000000000, 1000000000) := rfl
  simp only [Prod.mk.injEq] at hroom
  obtain ⟨b, hb⟩ := canonical_of_writable fits_manyEntries.1
  have hlength : b.length ≤ 1105358 := length_canonicalBytes (canonical_eq_ok.mp hb) ▸ fits_manyEntries.2
  have hcount : manyEntries.length = 257 := by simp [manyEntries]
  refine State.ensureBounds_eq_ok.mpr ⟨?_, ?_, ?_, ?_, hpins, fun x hx => ?_, b.length, ?_, ?_⟩
  · rw [hpolicy, hroom.1]
    split_ifs <;> omega
  · rw [hpolicy, hroom.2.1]
    omega
  · rw [hpolicy, hroom.2.2.1]
    omega
  · rw [hpolicy, hentries, hroom.2.2.2.1]
    omega
  · obtain ⟨n, -, rfl⟩ := exists_longEntry (hentries ▸ hx)
    rw [hpolicy, hroom.2.2.2.2.1, utf8Length_longEntry]
    decide
  · rw [hentries, stateContextBytes, hb]
    rfl
  · rw [hpolicy, hroom.2.2.2.2.2]
    omega

/-- A sample workspace commits more entries than a checkpoint has room for. -/
theorem exists_manyEntries : ∃ files s, project (numberedUuid 0) files = .ok s ∧
    s.Checkpointable (numberedUuid 0) (numberedUuid 3) ∧ s.entries = manyEntries := by
  obtain ⟨files, s, hs, hsample, hcheckpoints, -⟩ := exists_sample
  have hwritable := writable_commitPayload manyEntries
  have hnext : (nextSequence (some s)).1 = 2 := congrArg Nat.succ hsample.events
  obtain ⟨e, he⟩ := exists_record (numberedUuid 0) (nextSequence (some s)) (numberedUuid 2) .contextCommitted s.lastEventDigest
    (by rw [hnext]; decide) hwritable
  obtain ⟨-, -, -, hid, hkind, hpayload, -⟩ := Event.sealed_record he
  have hnil : s.entries ++ manyEntries = manyEntries := by rw [hsample.entries, List.nil_append]
  have hbounds : ({ s with entries := s.entries ++ manyEntries } : State).ensureBounds true = .ok () :=
    ensureBounds_manyEntries hsample.policy hnil (hsample.events.trans_le (by decide))
      (by rw [hsample.sources]; exact Nat.zero_le _) (by rw [hsample.sessions]; exact Nat.zero_le _)
      (by rw [hsample.pins]; exact Nat.zero_le _)
  have htakes : s.Takes e manyEntries := by
    refine ⟨hkind, hpayload.trans (plain_commitPayload _), hsample.lifecycle, hsample.written, ?_, fun x hx => ?_, fun x hx => ?_,
      fun x hx => ?_, fun x hx => ?_, hbounds, hsample.newEvent (by decide) hid⟩
    · rw [Ne, ← List.length_eq_zero_iff]
      simp [manyEntries]
    · obtain ⟨n, -, rfl⟩ := exists_longEntry hx
      exact ⟨rfl, rfl, rfl, rfl⟩
    · obtain ⟨n, -, rfl⟩ := exists_longEntry hx
      refine safe_of_not_telling fun c hc => ?_
      rw [List.eq_of_mem_replicate hc]
      decide
    · rw [hsample.entries]
      exact List.not_mem_nil
    · obtain ⟨n, -, rfl⟩ := exists_longEntry hx
      rw [hsample.policy, utf8Length_longEntry]
      exact ⟨Category.mem_all _, by decide⟩
  obtain ⟨receipt, ht⟩ := applyEvent_commit htakes false
  have hbudget : s.events.length + 1 ≤ s.policy.maxEvents.1 := by
    rw [hsample.events, hsample.policy]
    decide
  have hfits := fits_mkObj (f := [("entries", entriesJson manyEntries), ("provenance", .null)]) (n := 1105358) (k := 10) rfl
    (by decide) (by
      simp only [List.mem_cons, List.not_mem_nil, or_false, forall_eq_or_imp, forall_eq]
      exact ⟨fits_manyEntries, writable_null, by decide⟩)
  have hbytes : recordBytes (s.events.length + 1) .contextCommitted (commitPayload manyEntries) ≤ maxEventBytes := by
    have hlength : byteLength (mkObj [("entries", entriesJson manyEntries), ("provenance", .null)]) ≤
        1 + 2 * (10 + 1105358 + 4) := hfits.2
    have hsmall : (Str.lit EventKind.contextCommitted.name).length + (natText (1 + 1)).length ≤ 100 := by decide
    have hmax : maxEventBytes = 16777216 := rfl
    rw [hsample.events, recordBytes, commitPayload, hmax]
    generalize byteLength (mkObj [("entries", entriesJson manyEntries), ("provenance", .null)]) = n at hlength ⊢
    omega
  obtain ⟨files', receipt', -, hproject⟩ := append_of_applyEvent
    (r := ⟨.contextCommitted, commitPayload manyEntries, numberedUuid 2, false, .ok ()⟩) hs (hsample.fresh 2 (by decide) (by decide))
    hsample.lifecycle hbudget he ht rfl hbytes (by rw [hsample.events]; decide)
  refine ⟨files', _, hproject, ⟨hsample.lifecycle, ?_, ?_, ?_, ?_⟩, hnil⟩
  · refine ensureBounds_manyEntries hsample.policy hnil ?_ (by rw [hsample.sources]; exact Nat.zero_le _)
      (by rw [hsample.sessions]; exact Nat.zero_le _) (by rw [hsample.pins]; exact Nat.zero_le _)
    show (s.events ++ [e]).length ≤ 1000
    rw [List.length_append, hsample.events, List.length_singleton]
    decide
  · intro a ha
    have ha : a ∈ s.sources.values := ha
    rw [hsample.sources] at ha
    cases ha
  · rw [hcheckpoints]
    rfl
  · refine (Dict.get?_set_of_ne _ _ fun h => ?_).trans (hsample.fresh 3 (by decide) (by decide))
    exact absurd (numberedUuid_inj (by decide) (by decide) (hid.symm.trans h)) (by decide)

/-- Not every workspace within its policy takes a checkpoint. -/
theorem not_checkpointable : ¬∀ (workspaceId : Uuid) (files : List EventFile) (s : State) (checkpointId eventId : Uuid),
    project workspaceId files = .ok s → s.Checkpointable checkpointId eventId →
      ∃ c, (checkpointWorkspace workspaceId files checkpointId eventId).2 = .ok c := by
  intro hall
  obtain ⟨files, s, hs, h, hentries⟩ := exists_manyEntries
  obtain ⟨c, hc⟩ := hall _ files s _ _ hs h
  have hroom := (hasRoom_of_checkpointWorkspace hs h.fresh hc).logical.entries
  have hcount : s.logical.entries.length = 257 := by
    rw [State.logical, hentries]
    simp [manyEntries]
  omega

end LeanCtx
