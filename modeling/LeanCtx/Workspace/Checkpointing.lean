import LeanCtx.Workspace.Accept
import LeanCtx.Workspace.Canonical

/-! Checkpoints of logical states: a logical state that reads back has a checkpoint, and the checkpoint reads back too. -/

namespace LeanCtx
open Json

namespace CheckpointFields

/-- The fields of the checkpoint of a logical state, without the digests. -/
structure Of (x : CheckpointFields) (l : LogicalState) : Prop where
  logicalState : x.logicalState = l.toDict x.workspaceId
  sourceAnchors : x.sourceAnchors = l.sources.sortedValues.map SourceAnchor.toDict
  recoveryRefs : x.recoveryRefs = l.recoveryRefs
  packagePins : x.packagePins = l.packagePins.sortedValues.map PackagePin.toDict
  packageLockDigest : x.packageLockDigest = l.packageLockDigest
  engineIdentity : x.engineIdentity = engine
  stateRef : Str.lit "event:sha256:" <+: x.workspaceStateRef.1

end CheckpointFields

/-- What a logical state must satisfy to have a checkpoint. -/
structure LogicalState.Storable (l : LogicalState) (workspaceId : Uuid) : Prop where
  reads : logicalStateComponents (l.toDict workspaceId) workspaceId = .ok l
  safe : Safe (l.toDict workspaceId)
  refs : l.recoveryRefs.length ≤ maxReceiptRefs
  policy : l.policy.Small
  sources : ∀ a ∈ l.sources.values, Writable a.toDict

namespace LogicalState.Storable
variable {l : LogicalState} {ws : Uuid}

theorem bounds (h : l.Storable ws) : l.sources.sortedValues.length ≤ maxSources ∧
    l.packagePins.sortedValues.length ≤ maxPackagePins ∧
    ∃ b, canonical (l.toDict ws) = .ok b ∧ b.length ≤ maxCheckpointBytes := by
  have hreads := h.reads
  have hget : (l.toDict ws).get "sources" = .arr (l.sources.sortedValues.map SourceAnchor.toDict) ∧
      (l.toDict ws).get "entries" = .arr (l.entries.map ProjectContextEntry.toDict) ∧
      (l.toDict ws).get "package_pins" = .arr (l.packagePins.sortedValues.map PackagePin.toDict) := by
    simp [LogicalState.toDict, get_mkObj, entriesJson]
  simp only [logicalStateComponents, hget, bind_eq_ok, ensure_eq_ok, exists_const, List.length_map] at hreads
  obtain ⟨_, -, -, -, ⟨hsources, -, hpins⟩, b, hb, hlength, -⟩ := hreads
  exact ⟨hsources, hpins, b, hb, hlength⟩

theorem writable_sources (h : l.Storable ws) : Writable (.arr (l.sources.sortedValues.map SourceAnchor.toDict)) :=
  writable_arr fun v hv => by
    obtain ⟨a, ha, rfl⟩ := List.mem_map.mp hv
    exact h.sources a (Dict.mem_sortedValues.mp ha)

theorem writable (h : l.Storable ws) : (l.toDict ws).Writable := by
  obtain ⟨-, -, b, hb, -⟩ := h.bounds
  exact ⟨b, canonical_eq_ok.mp hb⟩

/-- The strings of the pins are among those of the state. -/
theorem safe_pins (h : l.Storable ws) : Safe (.arr (l.packagePins.sortedValues.map PackagePin.toDict)) := by
  intro s hs
  refine h.safe s ?_
  have hmem : (Str.lit "package_pins", .arr (l.packagePins.sortedValues.map PackagePin.toDict)) ∈
      sortFields (([("schema_version", .str logicalStateSchema), ("workspace_id", ws.json), ("policy", l.policy.toDict),
        ("sources", .arr (l.sources.sortedValues.map SourceAnchor.toDict)), ("entries", entriesJson l.entries),
        ("package_pins", .arr (l.packagePins.sortedValues.map PackagePin.toDict)),
        ("package_lock_digest", optional Digest.json l.packageLockDigest)] : List (String × Json)).map
          fun p => (Str.lit p.1, p.2)) := by
    rw [(perm_sortFields (by simp)).mem_iff]
    simp
  exact mem_stringsFields.mpr ⟨_, hmem, Or.inr hs⟩

/-- A logical state that can be stored has a checkpoint of any name. -/
theorem exists_checkpoint (h : l.Storable ws) (checkpointId : Uuid) (stateRef lineageStateId : Ref 512)
    (href : Str.lit "event:sha256:" <+: stateRef.1) : ∃ c : ContextCheckpoint, c.checkpointId = checkpointId ∧
      c.workspaceId = ws ∧ c.workspaceStateRef = stateRef ∧ c.lineageStateId = lineageStateId ∧
      c.toCheckpointFields.Of l := by
  obtain ⟨stateDigest, hstate⟩ := domainDigest_of_writable "leanctx.workspace.state.v1" h.writable
  obtain ⟨policyDigest, hpolicy⟩ := domainDigest_of_writable "leanctx.workspace.policy.v1"
    (WorkspacePolicy.writable_toDict h.policy)
  obtain ⟨contextDigest, hcontext⟩ := domainDigest_of_writable "leanctx.project-context.state.v1"
    (writable_entriesJson l.entries)
  let x (d : Digest) : CheckpointFields := ⟨checkpointId, ws, stateDigest, stateRef, l.toDict ws,
    l.sources.sortedValues.map SourceAnchor.toDict, l.recoveryRefs, l.packagePins.sortedValues.map PackagePin.toDict,
    l.packageLockDigest, policyDigest, contextDigest, lineageStateId, CheckpointFields.engine, d⟩
  have hlineage : (x stateDigest).lineage.Writable := writable_mkObj <| by simp [writable_lit, writable_uuid, writable_ref]
  have hunsigned : (Json.mkObj (x stateDigest).unsignedFields).Writable := by
    refine writable_mkObj ?_
    simp only [CheckpointFields.unsignedFields, List.mem_cons, List.not_mem_nil, or_false, forall_eq_or_imp, forall_eq]
    exact ⟨writable_lit _, writable_uuid _, writable_uuid _, writable_digest _, writable_lit _, writable_ref _, h.writable,
      h.writable_sources, writable_map writable_ref _, writable_map PackagePin.writable_toDict _,
      writable_optional writable_digest _, writable_digest _, writable_digest _, hlineage, by
        refine writable_mkObj ?_
        simp only [List.mem_cons, List.not_mem_nil, or_false, forall_eq_or_imp, forall_eq]
        exact ⟨writable_lit _, writable_int (by decide), writable_int (by decide)⟩, writable_lit _⟩
  obtain ⟨envelope, henvelope⟩ := domainDigest_of_writable "leanctx.checkpoint.envelope.v2" hunsigned
  have henvelope' : (x envelope).envelope = .ok envelope := henvelope
  have hprojections : (x envelope).validateProjections = .ok () := by
    rw [CheckpointFields.validateProjections, h.reads, ok_bind, hpolicy, ok_bind, hcontext, ok_bind]
    exact ensure_true ⟨pyEq_refl _, rfl, pyEq_refl _, rfl, rfl, rfl⟩ _
  have hcheck : (x envelope).check = .ok () := by
    rw [CheckpointFields.check, ensure_true (pyEq_refl _), ok_bind, rejectSensitive_of_safe h.safe, ok_bind,
      rejectSensitive_of_safe h.safe_pins, ok_bind, hstate, ok_bind, ensure_true rfl, ok_bind, hprojections, ok_bind,
      henvelope', ok_bind, ensure_true rfl]
  exact ⟨⟨x envelope, hcheck⟩, rfl, rfl, rfl, rfl, ⟨rfl, rfl, rfl, rfl, rfl, rfl, href⟩⟩

/-- The fields of a checkpoint, in the order in which they are written down. -/
theorem toDict_eq (x : CheckpointFields) : x.toDict = Json.mkObj [("schema_version", .str CheckpointFields.schema),
    ("checkpoint_id", x.checkpointId.json), ("workspace_id", x.workspaceId.json), ("state_digest", x.stateDigest.json),
    ("state_schema_version", .str logicalStateSchema), ("workspace_state_ref", x.workspaceStateRef.json),
    ("logical_state", x.logicalState), ("source_anchors", .arr x.sourceAnchors),
    ("recovery_refs", .arr (x.recoveryRefs.map Ref.json)), ("package_pins", .arr x.packagePins),
    ("package_lock_digest", optional Digest.json x.packageLockDigest), ("policy_digest", x.policyDigest.json),
    ("project_context_digest", x.projectContextDigest.json), ("lineage", x.lineage), ("engine_identity", x.engineIdentity),
    ("sdk_contract", .str CheckpointFields.contract), ("envelope_digest", x.envelopeDigest.json)] := rfl

/-- The checkpoint of a logical state reads back. -/
theorem fromDict_toDict {c : ContextCheckpoint} (h : l.Storable c.workspaceId) (hc : c.toCheckpointFields.Of l) :
    ContextCheckpoint.fromDict c.toDict = .ok c := by
  obtain ⟨hsources, hpins, b, hb, hlength⟩ := h.bounds
  have hmake : ContextCheckpoint.make c.toCheckpointFields = .ok c := ContextCheckpoint.make_eq_ok.mpr rfl
  obtain ⟨f, hf⟩ : ∃ f, l.toDict c.workspaceId = .obj f := ⟨_, rfl⟩
  obtain ⟨g, hg⟩ : ∃ g, c.lineage = .obj g := ⟨_, rfl⟩
  obtain ⟨engine, hengine⟩ : ∃ e, CheckpointFields.engine = .obj e := ⟨_, rfl⟩
  have hkind : (Json.obj g).get "kind" = .str "workspace" := by
    rw [← hg, CheckpointFields.lineage]
    simp [get_mkObj]
  have hws : (Json.obj g).get "workspace_id" = c.workspaceId.json := by
    rw [← hg, CheckpointFields.lineage]
    simp [get_mkObj]
  have hstate : (Json.obj g).get "state_id" = c.lineageStateId.json := by
    rw [← hg, CheckpointFields.lineage]
    simp [get_mkObj]
  have hlineage : exact (.obj g) ["kind", "workspace_id", "state_id"] "checkpoint lineage" = .ok () := by
    rw [← hg]
    exact exact_mkObj rfl _
  have hidentity : exact (.obj engine) ["interface_version", "schema_version", "transport_version"] "engine_identity" =
      .ok () := by
    rw [← hengine]
    exact exact_mkObj rfl _
  have hrefs : (c.recoveryRefs.map Ref.json).mapM (fun r => ref r "recovery_refs" 512) = .ok c.recoveryRefs :=
    mapM_map (fun r => ref_json r "recovery_refs") _
  have hnodup : c.recoveryRefs.Nodup := by
    rw [hc.recoveryRefs]
    exact (sorted_sortedUnion _).imp fun {_ _} => ne_of_lt
  have hlogical := hc.logicalState.trans hf
  have hcanonical : canonical (.obj f) = .ok b := hf ▸ hb
  have hanchors : c.sourceAnchors.length ≤ maxSources := by rwa [hc.sourceAnchors, List.length_map]
  have hpackages : c.packagePins.length ≤ maxPackagePins := by rwa [hc.packagePins, List.length_map]
  have hcount : c.recoveryRefs.length ≤ maxReceiptRefs := hc.recoveryRefs ▸ h.refs
  have hmake' : ContextCheckpoint.make ⟨c.checkpointId, c.workspaceId, c.stateDigest, c.workspaceStateRef, .obj f,
      c.sourceAnchors, c.recoveryRefs, c.packagePins, c.packageLockDigest, c.policyDigest, c.projectContextDigest,
      c.lineageStateId, .obj engine, c.envelopeDigest⟩ = .ok c := by
    rw [← hlogical, ← hengine, ← hc.engineIdentity]
    exact hmake
  unfold ContextCheckpoint.fromDict
  rw [toDict_eq]
  simp [get_mkObj, hg, hlogical, hc.engineIdentity, hengine, hkind, hws, hstate, hlineage, hidentity, hrefs, hnodup,
    hcanonical, hlength, hanchors, hpackages, hcount, hc.stateRef, hmake']

end LogicalState.Storable

/-! ### References to digests -/

theorem Digest.ascii (d : Digest) : d.1.length = 71 ∧ ∀ c ∈ d.1, 32 ≤ c ∧ c ≤ 126 := by
  obtain ⟨s, hs⟩ := d
  simp only [isDigest, Bool.and_eq_true, decide_eq_true_eq, lit_sha256, beq_iff_eq] at hs
  obtain ⟨⟨⟨t, rfl⟩, hlength⟩, hhex⟩ := hs
  refine ⟨hlength, fun c hc => ?_⟩
  rcases List.mem_append.mp hc with hc | hc
  · simp only [List.mem_cons, List.not_mem_nil, or_false] at hc
    omega
  · have hchar := List.all_eq_true.mp hhex c (by simpa using hc)
    simp only [Sha256.isHex, Bool.or_eq_true, Bool.and_eq_true, decide_eq_true_eq] at hchar
    omega

/-- A digest as a reference. -/
def Digest.ref (d : Digest) : Ref 512 :=
  ⟨d.1, isRef_of_ascii d.ascii.2 (fun h => by have := d.ascii.1; rw [h] at this; cases this) (by rw [d.ascii.1]; decide)⟩

theorem lit_event : Str.lit "event:" = [101, 118, 101, 110, 116, 58] := by decide

/-- The reference to the event of a digest. -/
def Digest.eventRef (d : Digest) : Ref 512 :=
  ⟨Str.lit "event:" ++ d.1, isRef_of_ascii (fun c hc => by
    rcases List.mem_append.mp hc with hc | hc
    · rw [lit_event] at hc
      simp only [List.mem_cons, List.not_mem_nil, or_false] at hc
      omega
    · exact d.ascii.2 c hc) (by rw [lit_event]; simp) (by rw [List.length_append, d.ascii.1, lit_event]; decide)⟩

theorem Digest.prefix_eventRef (d : Digest) : Str.lit "event:sha256:" <+: d.eventRef.1 := by
  obtain ⟨s, hs⟩ := d
  simp only [isDigest, Bool.and_eq_true, decide_eq_true_eq] at hs
  obtain ⟨⟨⟨t, rfl⟩, -⟩, -⟩ := hs
  have hlit : Str.lit "event:sha256:" = Str.lit "event:" ++ Str.lit "sha256:" := by decide
  rw [hlit]
  exact ⟨t, List.append_assoc _ _ _⟩

theorem safe_eventRef (d : Digest) : Safe d.eventRef.json := safe_of_not_telling fun c hc => by
  rcases List.mem_append.mp hc with hc | hc
  · rw [lit_event] at hc
    simp only [List.mem_cons, List.not_mem_nil, or_false] at hc
    unfold Telling
    omega
  · exact d.not_telling c hc

theorem safe_digestRef (d : Digest) : Safe d.ref.json := safe_digest d

/-- A checkpoint of a logical state holds no secret if its references do not. -/
theorem safe_checkpoint {c : ContextCheckpoint} {l : LogicalState} (hc : c.toCheckpointFields.Of l)
    (hstate : Safe (l.toDict c.workspaceId)) (hanchors : Safe (.arr (l.sources.sortedValues.map SourceAnchor.toDict)))
    (hpins : Safe (.arr (l.packagePins.sortedValues.map PackagePin.toDict))) (hrefs : ∀ r ∈ l.recoveryRefs, Safe r.json)
    (href : Safe c.workspaceStateRef.json) (hlineage : Safe c.lineageStateId.json) : Safe c.toDict := by
  rw [LogicalState.Storable.toDict_eq]
  refine safe_mkObj ["schema_version", "checkpoint_id", "workspace_id", "state_digest", "state_schema_version",
    "workspace_state_ref", "logical_state", "source_anchors", "recovery_refs", "package_pins", "package_lock_digest",
    "policy_digest", "project_context_digest", "lineage", "engine_identity", "sdk_contract", "envelope_digest"] rfl
    (all_insensitive (by decide)) ?_
  simp only [List.mem_cons, List.not_mem_nil, or_false, forall_eq_or_imp, forall_eq]
  refine ⟨safe_name (by decide), safe_uuid _, safe_uuid _, safe_digest _, safe_str (by decide), href,
    hc.logicalState ▸ hstate, hc.sourceAnchors ▸ hanchors, safe_map (by rwa [hc.recoveryRefs]), hc.packagePins ▸ hpins, ?_,
    safe_digest _, safe_digest _, ?_, ?_, safe_str (by decide), safe_digest _⟩
  · cases c.packageLockDigest with
    | none => exact safe_null
    | some d => exact safe_digest d
  · refine safe_mkObj ["kind", "workspace_id", "state_id"] rfl (all_insensitive (by decide)) ?_
    simp only [List.mem_cons, List.not_mem_nil, or_false, forall_eq_or_imp, forall_eq]
    exact ⟨safe_str (by decide), safe_uuid _, hlineage⟩
  · rw [hc.engineIdentity]
    refine safe_mkObj ["interface_version", "schema_version", "transport_version"] rfl (all_insensitive (by decide)) ?_
    simp only [List.mem_cons, List.not_mem_nil, or_false, forall_eq_or_imp, forall_eq]
    exact ⟨safe_str (by decide), fun _ hs => absurd hs List.not_mem_nil, fun _ hs => absurd hs List.not_mem_nil⟩

/-! ### Logical states without sources and packages -/

namespace LogicalState
variable {policy : WorkspacePolicy} {entries : List ProjectContextEntry} {ws : Uuid}

/-- A logical state of a policy and entries. -/
def bare (policy : WorkspacePolicy) (entries : List ProjectContextEntry) : LogicalState :=
  ⟨policy, .empty, entries, .empty, none⟩

theorem safe_bare (hbare : ∀ x ∈ entries, x.Bare) (hsafe : ∀ x ∈ entries, Safe x.value.json) :
    Safe ((bare policy entries).toDict ws) := by
  refine safe_mkObj ["schema_version", "workspace_id", "policy", "sources", "entries", "package_pins",
    "package_lock_digest"] rfl (all_insensitive (by decide)) ?_
  simp only [List.mem_cons, List.not_mem_nil, or_false, forall_eq_or_imp, forall_eq]
  exact ⟨safe_name (by decide), safe_uuid _, policy.safe_toDict, safe_arr (fun _ hv => absurd hv List.not_mem_nil),
    safe_map fun x hx => ProjectContextEntry.safe_toDict (hsafe x hx) (hbare x hx).sourceIds (hbare x hx).sessionId
      (hbare x hx).receiptRefs (hbare x hx).recoveryRefs, safe_arr (fun _ hv => absurd hv List.not_mem_nil), safe_null⟩

/-- A few bare entries of different names can be stored. -/
theorem storable_bare (hsmall : policy.Small) (hcount : entries.length ≤ 256) (hdistinct : (entries.map (·.entryId)).Nodup)
    (hbare : ∀ x ∈ entries, x.Bare) (hsafe : ∀ x ∈ entries, Safe x.value.json)
    (hlength : byteLength ((bare policy entries).toDict ws) ≤ maxCheckpointBytes) : (bare policy entries).Storable ws := by
  have hwritable : ((bare policy entries).toDict ws).Writable := by
    refine writable_mkObj ?_
    simp only [List.mem_cons, List.not_mem_nil, or_false, forall_eq_or_imp, forall_eq]
    exact ⟨writable_lit _, writable_uuid _, WorkspacePolicy.writable_toDict hsmall,
      writable_arr (fun _ hv => absurd hv List.not_mem_nil), writable_entriesJson _,
      writable_arr (fun _ hv => absurd hv List.not_mem_nil), writable_null⟩
  obtain ⟨b, hb⟩ := canonical_of_writable hwritable
  have hb' := length_canonicalBytes (canonical_eq_ok.mp hb)
  have hfits : b.length ≤ maxCheckpointBytes := hb' ▸ hlength
  have hrefs : (bare policy entries).recoveryRefs = [] := by
    have hnone : (entries.flatMap fun x => x.recoveryRefs.1) = [] :=
      List.flatMap_eq_nil_iff.mpr fun x hx => (hbare x hx).recoveryRefs
    rw [recoveryRefs, bare, hnone]
    rfl
  have hsources : ∀ x ∈ entries, ∀ i ∈ x.sourceIds.1,
      (Dict.ofItems (([] : List SourceAnchor).map fun a => (a.sourceId, a))).contains i = true := fun x hx i hi => by
    rw [(hbare x hx).sourceIds] at hi
    cases hi
  refine ⟨?_, safe_bare hbare hsafe, by rw [hrefs]; exact Nat.zero_le _, hsmall, fun _ ha => absurd ha List.not_mem_nil⟩
  have hentries := mapM_map (f := entryFromInput) entryFromInput_toDict entries
  rw [logicalStateComponents, hb]
  simp [toDict, bare, get_mkObj, entriesJson, hcount, hfits, hentries, hdistinct, Dict.sortedValues, Dict.empty]
  rw [ensure_true hsources]
  rfl

end LogicalState
/-! ### Seeds and restores -/

theorem ContextCheckpoint.stateDigest_eq (c : ContextCheckpoint) :
    domainDigest "leanctx.workspace.state.v1" c.logicalState = .ok c.stateDigest := by
  have h := c.valid
  simp only [CheckpointFields.check, bind_eq_ok, ensure_eq_ok, exists_const] at h
  obtain ⟨-, _, -, _, -, d, hd, hstate, -⟩ := h
  rw [hd, hstate]

/-- A package without a signature. -/
def unsignedPackage (d : Digest) : Json :=
  Json.mkObj [("name", .str "seed"), ("version", .str "1"), ("package_digest", d.json), ("content_hash", d.json),
    ("signature_state", .str "unsigned"), ("signer_public_key", .null)]

/-- The admission of packages without a signature. -/
def unsignedAdmission : Json := Json.mkObj [("trusted_signer", .bool false), ("allow_unsigned", .bool true)]

/-- The payload of a seed from a package without a signature. -/
def seedPayload (c : ContextCheckpoint) (d : Digest) : List (String × Json) :=
  [("checkpoint", c.toDict), ("package", unsignedPackage d), ("admission", unsignedAdmission)]

theorem checkSeed_unsigned (d : Digest) : State.checkSeed (unsignedPackage d) unsignedAdmission = .ok () := by
  have hsignature := memberOf_name SignatureState.mem_all SignatureState.name_injective
    (.incompatible "seed signature state is unsupported") .unsigned
  have hname : SignatureState.unsigned.name = "unsigned" := rfl
  rw [hname] at hsignature
  simp [State.checkSeed, unsignedPackage, unsignedAdmission, State.packageKeys, get_mkObj, hsignature]

/-- What a state needs to take a seed from a package without a signature. -/
structure State.TakesSeed (s : State) (e : Event) (c : ContextCheckpoint) (l : LogicalState) (d : Digest) : Prop where
  kind : e.kind = .workspaceSeeded
  payload : e.payload = Json.mkObj (seedPayload c d)
  active : s.lifecycle = .active
  fresh : s.sources.items = [] ∧ s.entries = [] ∧ s.checkpoints.items = [] ∧ s.events.length = 1
  storable : l.Storable s.identity.workspaceId
  workspace : c.workspaceId = s.identity.workspaceId
  content : c.toCheckpointFields.Of l
  policy : l.policy = s.policy
  local_ : ∀ a ∈ l.sources.values, a.trust.level ≠ .verified ∧ a.kind = .filesystem
  safe : Safe c.toDict
  bounds : (s.seeded l c).ensureBounds true = .ok ()
  newEvent : s.receipts.contains e.eventId = false

theorem applyEvent_seed {s : State} {e : Event} {c : ContextCheckpoint} {l : LogicalState} {d : Digest}
    (h : s.TakesSeed e c l d) (allow : Bool) : ∃ receipt, applyEvent allow (some s) e =
      .ok { (s.seeded l c).withEvent e with receipts := s.receipts.set e.eventId receipt } := by
  have hstorable : l.Storable c.workspaceId := h.workspace ▸ h.storable
  have hread := hstorable.fromDict_toDict h.content
  have hgets : (Json.mkObj (seedPayload c d)).get "checkpoint" = c.toDict ∧
      (Json.mkObj (seedPayload c d)).get "package" = unsignedPackage d ∧
      (Json.mkObj (seedPayload c d)).get "admission" = unsignedAdmission := by simp [seedPayload, get_mkObj]
  have hcheck : checkPayload e = .ok () := by
    refine checkPayload_of_safe h.payload (by rw [h.kind]; rfl)
      (safe_mkObj ["checkpoint", "package", "admission"] rfl (all_insensitive (by decide)) ?_)
    simp only [seedPayload, List.mem_cons, List.not_mem_nil, or_false, forall_eq_or_imp, forall_eq]
    refine ⟨h.safe, safe_mkObj ["name", "version", "package_digest", "content_hash", "signature_state", "signer_public_key"] rfl
      (all_insensitive (by decide)) ?_, safe_mkObj ["trusted_signer", "allow_unsigned"] rfl (all_insensitive (by decide)) ?_⟩
    · simp only [List.mem_cons, List.not_mem_nil, or_false, forall_eq_or_imp, forall_eq]
      exact ⟨safe_str (by decide), safe_str (by decide), safe_digest _, safe_digest _,
        safe_str (by decide), safe_null⟩
    · simp only [List.mem_cons, List.not_mem_nil, or_false, forall_eq_or_imp, forall_eq]
      exact ⟨safe_bool _, safe_bool _⟩
  have hlogical : logicalStateComponents c.logicalState s.identity.workspaceId = .ok l := by
    rw [h.content.logicalState, h.workspace]
    exact h.storable.reads
  have hagree : c.workspaceId = s.identity.workspaceId ∧ pyEq l.policy.toDict s.policy.toDict = true ∧
      c.stateDigest = c.stateDigest := ⟨h.workspace, by rw [h.policy]; exact pyEq_refl _, rfl⟩
  have hvouched : (∃ a ∈ l.sources.values, a.trust.level = .verified) →
      State.vouched (unsignedPackage d) unsignedAdmission = true := fun ⟨a, ha, hv⟩ => absurd hv (h.local_ a ha).1
  have hbounds : ({ s.seeded l c with policy := l.policy } : State).ensureBounds true = .ok () := by
    rw [h.policy]
    exact h.bounds
  have hexternal : l.sources.values.forM (s.seeded l c).ensureExternalAllowed = .ok () := forM_eq_ok.mpr fun a ha =>
    State.ensureExternalAllowed_eq_ok.mpr (Or.inl (h.local_ a ha).2)
  have heffect : s.effect allow e = .ok (s.seeded l c) := by
    rw [State.effect, h.kind]
    simp only [h.payload, State.seed, hgets]
    rw [ensure_true h.fresh, ok_bind, hread, projectingConflict_eq_ok.mpr rfl, ok_bind, checkSeed_unsigned,
      projectingConflict_eq_ok.mpr rfl, ok_bind, hlogical, projectingConflict_eq_ok.mpr rfl, ok_bind, c.stateDigest_eq,
      projecting_ok, ok_bind, ensure_true hagree, ok_bind, ensure_true hvouched, ok_bind, hbounds, projecting_ok, ok_bind,
      hexternal]
    rfl
  obtain ⟨receipt, hrecord⟩ := State.recordEvent_of_empty (s := s.seeded l c) (e := e)
    ⟨h.policy ▸ h.storable.policy, h.storable.sources⟩ (by rw [ReceiptParts.ofEvent, h.kind])
    ((State.ensureBounds_withEvent _ e).trans h.bounds) h.newEvent
  exact ⟨receipt, applyEvent_some.mpr ⟨hcheck, by rw [h.kind]; decide, h.active, _, heffect, hrecord⟩⟩

/-- The payload that names a checkpoint. -/
def restorePayload (c : ContextCheckpoint) : List (String × Json) :=
  [("checkpoint_id", c.checkpointId.json), ("checkpoint_envelope_digest", c.envelopeDigest.json)]

/-- What a state needs to be restored to a checkpoint of a logical state. -/
structure State.TakesRestore (s : State) (e : Event) (c : ContextCheckpoint) (l : LogicalState) : Prop where
  kind : e.kind = .workspaceRestored
  payload : e.payload = Json.mkObj (restorePayload c)
  active : s.lifecycle = .active
  stored : s.checkpoints.get? c.checkpointId = some c
  target : logicalStateComponents c.logicalState s.identity.workspaceId = .ok l
  written : (s.withLogical l).Written
  tight : l.policy.isTightening s.policy = true
  external : ∀ a ∈ l.sources.values, a.kind = .filesystem ∨ l.policy.allowExternalSources = true
  bounds : (s.withLogical l).ensureBounds true = .ok ()
  newEvent : s.receipts.contains e.eventId = false

theorem applyEvent_restore {s : State} {e : Event} {c : ContextCheckpoint} {l : LogicalState} (h : s.TakesRestore e c l)
    (allow : Bool) : ∃ receipt, applyEvent allow (some s) e =
      .ok { (s.withLogical l).withEvent e with receipts := s.receipts.set e.eventId receipt } := by
  have hgets : (Json.mkObj (restorePayload c)).get "checkpoint_id" = c.checkpointId.json ∧
      (Json.mkObj (restorePayload c)).get "checkpoint_envelope_digest" = c.envelopeDigest.json := by
    simp [restorePayload, get_mkObj]
  have hcheck : checkPayload e = .ok () := by
    refine checkPayload_of_safe h.payload (by rw [h.kind]; rfl)
      (safe_mkObj ["checkpoint_id", "checkpoint_envelope_digest"] rfl (all_insensitive (by decide)) ?_)
    simp only [restorePayload, List.mem_cons, List.not_mem_nil, or_false, forall_eq_or_imp, forall_eq]
    exact ⟨safe_uuid _, safe_digest _⟩
  have hnamed : s.namedCheckpoint (Json.mkObj (restorePayload c)) = .ok c := by
    rw [State.namedCheckpoint, hgets.1, hgets.2, uuid_json, digestValue_json, projecting_ok, ok_bind, projecting_ok, ok_bind,
      h.stored]
    simp only [ensure_of_true, ok_bind]
    rfl
  have hexternal : l.sources.values.forM (s.withLogical l).ensureExternalAllowed = .ok () := forM_eq_ok.mpr fun a ha =>
    State.ensureExternalAllowed_eq_ok.mpr (h.external a ha)
  have heffect : s.effect allow e = .ok (s.withLogical l) := by
    rw [State.effect, h.kind]
    simp only [h.payload, State.restore]
    rw [hnamed, ok_bind, h.target, projectingConflict_eq_ok.mpr rfl, ok_bind, ensure_true h.tight, ok_bind, h.bounds,
      projecting_ok, ok_bind, hexternal]
    rfl
  obtain ⟨receipt, hrecord⟩ := State.recordEvent_of_empty (s := s.withLogical l) (e := e) h.written
    (by rw [ReceiptParts.ofEvent, h.kind]) ((State.ensureBounds_withEvent _ e).trans h.bounds) h.newEvent
  exact ⟨receipt, applyEvent_some.mpr ⟨hcheck, by rw [h.kind]; decide, h.active, _, heffect, hrecord⟩⟩

/-- What a state needs to keep a checkpoint of itself. -/
structure State.TakesCheckpoint (s : State) (e : Event) (c : ContextCheckpoint) (l : LogicalState) : Prop where
  kind : e.kind = .checkpointCreated
  payload : e.payload = Json.mkObj [("checkpoint", c.toDict)]
  active : s.lifecycle = .active
  written : s.Written
  workspace : c.workspaceId = s.identity.workspaceId
  storable : l.Storable s.identity.workspaceId
  content : c.toCheckpointFields.Of l
  logical : s.logicalState = l.toDict s.identity.workspaceId
  ordered : l.sources.sortedValues = l.sources.values
  unverified : ∀ a ∈ l.sources.values, a.trust.level ≠ .verified
  new : s.checkpoints.contains c.checkpointId = false
  room : s.checkpoints.size + 1 ≤ maxCheckpoints
  lineage : c.lineageStateId.1 = s.identity.stateId.1
  stateRef : c.workspaceStateRef.1 = Str.lit "event:" ++ previousText s.lastEventDigest
  safe : Safe c.toDict
  bounds : s.ensureBounds true = .ok ()
  newEvent : s.receipts.contains e.eventId = false

theorem applyEvent_checkpoint {s : State} {e : Event} {c : ContextCheckpoint} {l : LogicalState}
    (h : s.TakesCheckpoint e c l) (allow : Bool) : ∃ receipt, applyEvent allow (some s) e =
      .ok { ({ s with checkpoints := s.checkpoints.set c.checkpointId c } : State).withEvent e with
        receipts := s.receipts.set e.eventId receipt } := by
  have hstorable : l.Storable c.workspaceId := h.workspace ▸ h.storable
  have hread := hstorable.fromDict_toDict h.content
  have hget : (Json.mkObj [("checkpoint", c.toDict)]).get "checkpoint" = c.toDict := by simp [get_mkObj]
  have hcheck : checkPayload e = .ok () := by
    refine checkPayload_of_safe h.payload (by rw [h.kind]; rfl) (safe_mkObj ["checkpoint"] rfl (all_insensitive (by decide)) ?_)
    simpa using h.safe
  have hsame : c.logicalState = s.logicalState := by rw [h.content.logicalState, h.workspace, h.logical]
  have hlogical : logicalStateComponents c.logicalState s.identity.workspaceId = .ok l := by
    rw [h.content.logicalState, h.workspace]
    exact h.storable.reads
  have hdigest : s.logicalDigest = .ok c.stateDigest := by
    rw [State.logicalDigest, ← hsame]
    exact c.stateDigest_eq
  have hvalid := c.valid
  simp only [CheckpointFields.check, CheckpointFields.validateProjections, bind_eq_ok, ensure_eq_ok, exists_const] at hvalid
  obtain ⟨-, _, -, _, -, _, -, -, ⟨l', hl', policyDigest, hpolicy, contextDigest, hcontext, hagree⟩, -⟩ := hvalid
  rw [h.content.logicalState, h.workspace, h.storable.reads] at hl'
  obtain rfl := Except.ok.inj hl'
  have hanchors : pyEq (.arr (l.sources.values.map SourceAnchor.toDict)) (.arr c.sourceAnchors) = true := by
    rw [h.content.sourceAnchors, h.ordered]
    exact pyEq_refl _
  have htrust : verifyCheckpointTrust s l.sources.values = .ok () := forM_eq_ok.mpr fun a ha => if_neg (h.unverified a ha)
  have heq : pyEq c.logicalState s.logicalState = true := by
    rw [hsame]
    exact pyEq_refl _
  have heffect : s.effect allow e = .ok { s with checkpoints := s.checkpoints.set c.checkpointId c } := by
    rw [State.effect, h.kind]
    simp only [h.payload, State.createCheckpoint, hget]
    rw [hread, projectingConflict_eq_ok.mpr rfl, ok_bind, hlogical, projectingConflict_eq_ok.mpr rfl, ok_bind,
      ensure_true h.new, ok_bind, ensure_true h.room, ok_bind, ensure_true h.workspace, ok_bind, ensure_true h.lineage,
      ok_bind, ensure_true h.stateRef, ok_bind, hdigest, projecting_ok, ok_bind, ensure_true rfl, ok_bind,
      ensure_true heq, ok_bind, ensure_true hanchors, ok_bind, ensure_true h.content.recoveryRefs, ok_bind, hpolicy,
      projecting_ok, ok_bind, ensure_true hagree.2.2.2.2.1, ok_bind, hcontext, projecting_ok, ok_bind,
      ensure_true hagree.2.2.2.2.2, ok_bind, htrust]
    rfl
  obtain ⟨receipt, hrecord⟩ := State.recordEvent_of_empty (e := e)
    (s := { s with checkpoints := s.checkpoints.set c.checkpointId c }) ⟨h.written.policy, h.written.sources⟩
    (by rw [ReceiptParts.ofEvent, h.kind]) ((State.ensureBounds_withEvent _ e).trans h.bounds) h.newEvent
  exact ⟨receipt, applyEvent_some.mpr ⟨hcheck, by rw [h.kind]; decide, h.active, _, heffect, hrecord⟩⟩

end LeanCtx
