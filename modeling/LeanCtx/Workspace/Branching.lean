import LeanCtx.Workspace.Forking
import LeanCtx.Workspace.Sampling

/-! Forks of sample workspaces: a checkpoint of a workspace without content has a fork, and the child takes its two events. -/

namespace LeanCtx
open Json

/-! ### The record of a fork -/

theorem PolicyInheritance.exists_create {parent : WorkspacePolicy} {requested : Option WorkspacePolicy}
    (hparent : parent.Small) (hchild : (requested.getD parent).Small)
    (htight : (requested.getD parent).isTightening parent = true) : ∃ x, create parent requested = .ok x := by
  have hp := WorkspacePolicy.writable_toDict hparent
  have hc := WorkspacePolicy.writable_toDict hchild
  obtain ⟨d, hd⟩ := domainDigest_of_writable "leanctx.workspace.policy.v1" hp
  have hbase : (mkObj (baseFields parent (requested.getD parent) d)).Writable :=
    writable_mkObj (by simp [baseFields, writable_lit, writable_digest, hp, hc])
  obtain ⟨i, hi⟩ := domainDigest_of_writable "leanctx.policy-inheritance.v1" hbase
  rw [← parallelDigest_eq_ok] at hd hi
  refine ⟨⟨parent, requested.getD parent, d, i, htight⟩, ?_⟩
  rw [create, dif_pos htight, hd, ok_bind, hi]
  rfl

theorem PolicyInheritance.writable_toDict {x : PolicyInheritance} (hparent : x.parentPolicy.Small)
    (hchild : x.effectiveChildPolicy.Small) : Writable x.toDict := by
  have hp := WorkspacePolicy.writable_toDict hparent
  have hc := WorkspacePolicy.writable_toDict hchild
  exact writable_mkObj (by simp [baseFields, writable_lit, writable_digest, hp, hc])

theorem PolicyInheritance.safe_toDict (x : PolicyInheritance) : Safe x.toDict := by
  refine safe_mkObj ["schema_version", "parent_policy", "parent_policy_digest", "requested_child_policy",
    "effective_child_policy", "relation", "inheritance_digest"] rfl (all_insensitive (by decide)) ?_
  simp only [baseFields, List.cons_append, List.nil_append, List.mem_cons, List.not_mem_nil, or_false, forall_eq_or_imp,
    forall_eq]
  refine ⟨safe_name (by decide), WorkspacePolicy.safe_toDict _, safe_digest _, WorkspacePolicy.safe_toDict _,
    WorkspacePolicy.safe_toDict _, ?_, safe_digest _⟩
  unfold relation
  split_ifs <;> exact safe_str (by decide)

theorem ForkLineage.safe_toDict (x : ForkLineage) : Safe x.toDict := by
  refine safe_mkObj ["schema_version", "child_workspace_id", "parent_workspace_id", "parent_checkpoint_id",
    "parent_checkpoint_state_digest", "parent_checkpoint_envelope_digest", "fork_contract", "fork_id", "fork_event_ref"] rfl
    (all_insensitive (by decide)) ?_
  simp only [List.mem_cons, List.not_mem_nil, or_false, forall_eq_or_imp, forall_eq]
  refine ⟨safe_name (by decide), safe_uuid _, safe_uuid _, safe_uuid _, safe_digest _, safe_digest _,
    safe_str (by decide), safe_uuid _, safe_of_not_telling fun c hc => ?_⟩
  have hlit : ∀ c ∈ Str.lit "event-id:", ¬Telling c := by decide
  exact (List.mem_append.mp hc).elim (hlit c) (x.forkEventId.not_telling c)

theorem WorkspaceStateRef.safe_toDict (x : WorkspaceStateRef) : Safe x.toDict := by
  refine safe_mkObj ["schema_version", "workspace_id", "checkpoint_id", "state_digest", "checkpoint_envelope_digest",
    "fork_lineage"] rfl (all_insensitive (by decide)) ?_
  simp only [List.mem_cons, List.not_mem_nil, or_false, forall_eq_or_imp, forall_eq]
  refine ⟨safe_name (by decide), safe_uuid _, safe_uuid _, safe_digest _, safe_digest _, ?_⟩
  cases x.forkLineage with
  | none => exact safe_null
  | some l => exact l.safe_toDict

/-- The fields of a fork, in the order in which they are written down. -/
theorem ForkFields.toDict_eq (x : ForkFields) : x.toDict = mkObj [("schema_version", .str schema),
    ("fork_id", x.forkId.json), ("source", x.source.toDict), ("child_workspace_id", x.childWorkspaceId.json),
    ("child_name", x.childName.json), ("lineage", x.lineage.toDict), ("policy_inheritance", x.policyInheritance.toDict),
    ("package_lock_digest", optional Digest.json x.packageLockDigest),
    ("inherited_content_digest", x.inheritedContentDigest.json), ("execution_ref", optional Text.json x.executionRef),
    ("fork_digest", x.forkDigest.json)] := rfl

/-- The record of a fork reads back, if the policies of it do. -/
theorem WorkspaceFork.fromDict_toDict {f : WorkspaceFork}
    (hpolicy : PolicyInheritance.fromDict f.policyInheritance.toDict = .ok f.policyInheritance) :
    fromDict f.toDict = .ok f := by
  have hexecution : SourceAnchor.nested (fun v => parallelText v "execution_ref" 512)
      (optional Text.json f.executionRef) = .ok f.executionRef :=
    nested_optional Text.json_ne_null fun t _ => parallelText_json t _
  have hlock := optionalDigest_json f.packageLockDigest "package_lock_digest"
  have hmake : make ⟨f.forkId, f.source, f.childWorkspaceId, f.childName, f.lineage, f.policyInheritance,
      f.packageLockDigest, f.inheritedContentDigest, f.executionRef, f.forkDigest⟩ = .ok f := make_eq_ok.mpr rfl
  rw [fromDict, ForkFields.toDict_eq]
  simp [get_mkObj, hpolicy, hexecution, hlock, hmake]

theorem ForkFields.safe_toDict {x : ForkFields} (hname : Safe x.childName.json) (hexecution : x.executionRef = none) :
    Safe x.toDict := by
  rw [toDict_eq]
  refine safe_mkObj ["schema_version", "fork_id", "source", "child_workspace_id", "child_name", "lineage",
    "policy_inheritance", "package_lock_digest", "inherited_content_digest", "execution_ref", "fork_digest"] rfl
    (all_insensitive (by decide)) ?_
  simp only [List.mem_cons, List.not_mem_nil, or_false, forall_eq_or_imp, forall_eq]
  refine ⟨safe_name (by decide), safe_uuid _, x.source.safe_toDict, safe_uuid _, hname, x.lineage.safe_toDict,
    x.policyInheritance.safe_toDict, ?_, safe_digest _, by rw [hexecution]; exact safe_null, safe_digest _⟩
  cases x.packageLockDigest with
  | none => exact safe_null
  | some d => exact safe_digest d

theorem PolicyInheritance.isPlain_toDict (x : PolicyInheritance) : IsPlain x.toDict := by
  refine isPlain_mkObj ?_
  simp only [baseFields, List.cons_append, List.nil_append, List.mem_cons, List.not_mem_nil, or_false, forall_eq_or_imp,
    forall_eq]
  exact ⟨rfl, WorkspacePolicy.isPlain_toDict _, rfl, WorkspacePolicy.isPlain_toDict _, WorkspacePolicy.isPlain_toDict _, rfl, rfl⟩

theorem ForkLineage.isPlain_toDict (x : ForkLineage) : IsPlain x.toDict := by
  refine isPlain_mkObj ?_
  simp only [List.mem_cons, List.not_mem_nil, or_false, forall_eq_or_imp, forall_eq]
  exact ⟨rfl, rfl, rfl, rfl, rfl, rfl, rfl, rfl, rfl⟩

theorem isPlain_optional {α : Type} {f : α → Json} (h : ∀ a, IsPlain (f a)) (o : Option α) : IsPlain (optional f o) := by
  cases o with
  | none => rfl
  | some a => exact h a

theorem WorkspaceStateRef.isPlain_toDict (x : WorkspaceStateRef) : IsPlain x.toDict := by
  refine isPlain_mkObj ?_
  simp only [List.mem_cons, List.not_mem_nil, or_false, forall_eq_or_imp, forall_eq]
  exact ⟨rfl, rfl, rfl, rfl, rfl, isPlain_optional ForkLineage.isPlain_toDict _⟩

theorem ForkFields.isPlain_toDict (x : ForkFields) : IsPlain x.toDict := by
  rw [toDict_eq]
  refine isPlain_mkObj ?_
  simp only [List.mem_cons, List.not_mem_nil, or_false, forall_eq_or_imp, forall_eq]
  exact ⟨rfl, rfl, x.source.isPlain_toDict, rfl, rfl, x.lineage.isPlain_toDict, x.policyInheritance.isPlain_toDict,
    isPlain_optional (f := Digest.json) (fun _ => rfl) _, rfl, isPlain_optional (f := Text.json) (fun _ => rfl) _, rfl⟩

/-! ### Forks of a checkpoint of sample content -/

/-- A checkpoint of a sample workspace. -/
structure SampleCheckpoint (c : ContextCheckpoint) (l : List ProjectContextEntry) : Prop where
  entries : SampleEntries l
  content : c.toCheckpointFields.Of (.bare openPolicy l)
  small : Writable c.toDict ∧ byteLength c.toDict ≤ 140000

theorem SampleCheckpoint.logicalState {c : ContextCheckpoint} {l : List ProjectContextEntry} (h : SampleCheckpoint c l) :
    c.logicalState = (LogicalState.bare openPolicy l).toDict c.workspaceId := h.content.logicalState

theorem SampleCheckpoint.policy {c : ContextCheckpoint} {l : List ProjectContextEntry} (h : SampleCheckpoint c l) :
    WorkspacePolicy.fromDict (c.logicalState.get "policy") = .ok openPolicy := by
  have hget : c.logicalState.get "policy" = openPolicy.toDict := by
    rw [h.logicalState, LogicalState.toDict]
    simp [get_mkObj, LogicalState.bare]
  rw [hget, WorkspacePolicy.fromDict_toDict]

/-- What the fork of a checkpoint of sample content inherits. -/
def sampleContent (l : List ProjectContextEntry) : Json :=
  mkObj [("schema_version", .str logicalStateSchema), ("policy", openPolicy.toDict), ("sources", .arr []),
    ("entries", entriesJson l), ("package_pins", .arr []), ("package_lock_digest", .null)]

theorem contentState_bare (l : List ProjectContextEntry) (ws : Uuid) :
    contentState ((LogicalState.bare openPolicy l).toDict ws) = sampleContent l := by
  rw [LogicalState.toDict, contentState_mkObj]
  rfl

theorem dictWith_sampleContent (l : List ProjectContextEntry) (ws : Uuid) :
    State.dictWith (sampleContent l) "workspace_id" ws.json = .ok ((LogicalState.bare openPolicy l).toDict ws) := by
  have hne : Str.lit "workspace_id" ≠ Str.lit "schema_version" := by decide
  have hswap := sortFields_eq (agree_swap (p := (Str.lit "workspace_id", ws.json))
    (q := (Str.lit "schema_version", .str (Str.lit logicalStateSchema))) ([("policy", openPolicy.toDict), ("sources", .arr []),
      ("entries", entriesJson l), ("package_pins", .arr []), ("package_lock_digest", Json.null)].map fun p => (Str.lit p.1, p.2))
    hne)
  exact congrArg (fun f => Except.ok (Json.obj f)) hswap

theorem sampleContent_eq {l : List ProjectContextEntry} (h : SampleEntries l) (ws : Uuid) : (sampleContent l).Writable ∧
    IsPlain (sampleContent l) ∧ Safe (sampleContent l) ∧
    inheritedState ((LogicalState.bare openPolicy l).toDict ws) = sampleContent l ∧
    State.dictWith (sampleContent l) "workspace_id" ws.json = .ok ((LogicalState.bare openPolicy l).toDict ws) := by
  refine ⟨?_, ?_, ?_, ?_, dictWith_sampleContent l ws⟩
  · refine writable_mkObj ?_
    simp only [List.mem_cons, List.not_mem_nil, or_false, forall_eq_or_imp, forall_eq]
    exact ⟨writable_lit _, WorkspacePolicy.writable_toDict small_openPolicy, writable_arr fun _ h => absurd h List.not_mem_nil,
      writable_entriesJson _, writable_arr fun _ h => absurd h List.not_mem_nil, writable_null⟩
  · rcases h with rfl | rfl
    · unfold IsPlain
      decide
    · unfold IsPlain
      decide
  · rcases h with rfl | rfl
    · unfold Safe
      decide
    · unfold Safe
      decide
  · rw [inheritedState, (LogicalState.isPlain_bare openPolicy l ws : _ = _), contentState_bare]

/-- A policy has room for sample content. -/
structure WorkspacePolicy.Roomy (x : WorkspacePolicy) : Prop where
  events : 3 ≤ x.maxEvents.1
  entries : 1 ≤ x.maxContextEntries.1
  entryBytes : 1000 ≤ x.maxEntryBytes.1
  contextBytes : 1000 ≤ x.maxContextBytes.1

/-- A fork of the sample workspace under a narrower policy, or the same. -/
structure ForkArguments.Sample (a : ForkArguments) : Prop where
  name : a.name = sampleName
  execution : a.executionRef = none
  year : 1000 ≤ a.now.year
  small : (a.policy.getD openPolicy).Small
  roomy : (a.policy.getD openPolicy).Roomy
  tight : (a.policy.getD openPolicy).isTightening openPolicy = true
  distinct : a.createdEventId ≠ a.eventId

/-- The fields of the fork of a checkpoint. -/
def forkFields (c : ContextCheckpoint) (a : ForkArguments) (policy : PolicyInheritance) (content : Digest)
    (h : a.workspaceId ≠ c.workspaceId) (d : Digest) : ForkFields where
  forkId := a.forkId
  source := ⟨c.workspaceId, c.checkpointId, c.stateDigest, c.envelopeDigest, none, nofun⟩
  childWorkspaceId := a.workspaceId
  childName := a.name
  lineage := ⟨a.workspaceId, c.workspaceId, c.checkpointId, c.stateDigest, c.envelopeDigest, a.forkId, a.eventId, h⟩
  policyInheritance := policy
  packageLockDigest := c.packageLockDigest
  inheritedContentDigest := content
  executionRef := a.executionRef
  forkDigest := d

theorem WorkspaceFork.exists_create {c : ContextCheckpoint} {a : ForkArguments} {parent : WorkspacePolicy}
    {policy : PolicyInheritance} {content : Digest}
    (hparent : WorkspacePolicy.fromDict (c.logicalState.get "policy") = .ok parent)
    (hpolicy : PolicyInheritance.create parent a.policy = .ok policy) (hwrite : Writable policy.toDict)
    (hne : a.workspaceId ≠ c.workspaceId)
    (hcontent : parallelDigest "leanctx.fork.inherited-content.v1" (contentState c.logicalState) = .ok content)
    (hsecret : parallelRejectSensitive (mkObj [("child_name", a.name.json),
      ("execution_ref", optional Text.json a.executionRef)]) = .ok ()) :
    ∃ f d, create c a.workspaceId a.name a.eventId a.policy a.forkId a.executionRef = .ok f ∧
      f.toForkFields = forkFields c a policy content hne d ∧ Writable f.toDict := by
  have hfields : Writable (mkObj (forkFields c a policy content hne content).digestFields) := writable_mkObj (by
    simp [ForkFields.digestFields, forkFields, writable_lit, writable_uuid, writable_text, writable_digest,
      WorkspaceStateRef.writable_toDict, ForkLineage.writable_toDict, hwrite, writable_optional writable_digest,
      writable_optional writable_text])
  obtain ⟨d, hd⟩ := domainDigest_of_writable "leanctx.workspace-fork.v1" hfields
  rw [← parallelDigest_eq_ok] at hd
  have hcheck : (forkFields c a policy content hne d).check = .ok () := by
    rw [ForkFields.check, ensure_true ⟨rfl, rfl⟩, ok_bind, ensure_true ⟨rfl, rfl, rfl, rfl⟩, ok_bind]
    rw [show (forkFields c a policy content hne d).childName = a.name from rfl,
      show (forkFields c a policy content hne d).executionRef = a.executionRef from rfl, hsecret, ok_bind,
      show (forkFields c a policy content hne d).digestFields = (forkFields c a policy content hne content).digestFields from rfl,
      hd, ok_bind]
    exact ensure_true rfl _
  have hsource : WorkspaceStateRef.fromCheckpoint c none =
      .ok ⟨c.workspaceId, c.checkpointId, c.stateDigest, c.envelopeDigest, none, nofun⟩ := by
    rw [WorkspaceStateRef.fromCheckpoint, WorkspaceStateRef.make, dif_pos]
  refine ⟨⟨forkFields c a policy content hne d, hcheck⟩, d, ?_, rfl, ?_⟩
  · rw [create, hparent, ok_bind, hpolicy, ok_bind, dif_pos hne, hcontent, ok_bind, hsource, ok_bind]
    refine bind_eq_ok.mpr ⟨d, hd, ?_⟩
    exact make_eq_ok.mpr rfl
  · have hall := writable_of_mkObj (by simp [ForkFields.digestFields]) hfields
    refine writable_mkObj fun p hp => ?_
    rcases List.mem_append.mp hp with hp | hp
    · exact hall p hp
    · rw [List.mem_singleton.mp hp]
      exact writable_digest _

theorem SampleCheckpoint.exists_fork {c : ContextCheckpoint} {a : ForkArguments} {l : List ProjectContextEntry}
    (h : SampleCheckpoint c l) (ha : a.Sample) (hne : a.workspaceId ≠ c.workspaceId) :
    ∃ f d policy content, WorkspaceFork.create c a.workspaceId a.name a.eventId a.policy a.forkId a.executionRef = .ok f ∧
      f.toForkFields = forkFields c a policy content hne d ∧ policy.parentPolicy = openPolicy ∧
      PolicyInheritance.fromDict policy.toDict = .ok policy ∧ Writable f.toDict := by
  obtain ⟨policy, hpolicy⟩ := PolicyInheritance.exists_create small_openPolicy ha.small ha.tight
  obtain ⟨hopen, hchild⟩ := PolicyInheritance.create_eq_ok hpolicy
  have hcontent : contentState c.logicalState = sampleContent l := by rw [h.logicalState, contentState_bare]
  obtain ⟨content, hdigest⟩ := domainDigest_of_writable "leanctx.fork.inherited-content.v1"
    (sampleContent_eq h.entries c.workspaceId).1
  rw [← parallelDigest_eq_ok, ← hcontent] at hdigest
  have hsecret : parallelRejectSensitive (mkObj [("child_name", a.name.json), ("execution_ref", optional Text.json
      a.executionRef)]) = .ok () := by
    rw [ha.name, ha.execution]
    exact ensure_true (by decide) _
  obtain ⟨f, d, hf, hfields, hwrite⟩ := WorkspaceFork.exists_create h.policy hpolicy
    (PolicyInheritance.writable_toDict (hopen ▸ small_openPolicy) (hchild ▸ ha.small)) hne hdigest hsecret
  exact ⟨f, d, policy, content, hf, hfields, hopen, PolicyInheritance.fromDict_create hpolicy, hwrite⟩

/-! ### The child -/

/-- What a new workspace needs to take the fork of a checkpoint of sample content. -/
structure State.TakesFork (s : State) (e : Event) (f : WorkspaceFork) (l : List ProjectContextEntry) : Prop where
  content : SampleEntries l
  kind : e.kind = .workspaceForked
  payload : e.payload = mkObj [("fork", f.toDict), ("inherited_state", sampleContent l)]
  active : s.lifecycle = .active
  fresh : s.events.length = 1 ∧ s.forkLineage = none
  empty : s.sources.items = [] ∧ s.entries = [] ∧ s.sessions = [] ∧ s.packagePins.items = []
  reads : PolicyInheritance.fromDict f.policyInheritance.toDict = .ok f.policyInheritance
  name : f.childName = sampleName
  execution : f.executionRef = none
  child : f.childWorkspaceId = s.identity.workspaceId
  event : f.lineage.forkEventId = e.eventId
  parentPolicy : f.policyInheritance.parentPolicy = openPolicy
  childPolicy : f.policyInheritance.effectiveChildPolicy = s.policy
  lock : f.packageLockDigest = none
  digest : domainDigest "leanctx.fork.inherited-content.v1" (sampleContent l) = .ok f.inheritedContentDigest
  small : s.policy.Small
  roomy : s.policy.Roomy
  newEvent : s.receipts.contains e.eventId = false

theorem applyEvent_fork {s : State} {e : Event} {f : WorkspaceFork} {l : List ProjectContextEntry} (h : s.TakesFork e f l) (allow : Bool) :
    ∃ receipt, applyEvent allow (some s) e =
      .ok { (s.forked (.bare openPolicy l) f.lineage).withEvent e with receipts := s.receipts.set e.eventId receipt } := by
  obtain ⟨hwritable, -, hsafe, -, hlogical⟩ := sampleContent_eq h.content f.source.workspaceId
  have hgets : (mkObj [("fork", f.toDict), ("inherited_state", sampleContent l)]).get "fork" = f.toDict ∧
      (mkObj [("fork", f.toDict), ("inherited_state", sampleContent l)]).get "inherited_state" = sampleContent l := by
    simp [get_mkObj]
  have hcheck : checkPayload e = .ok () := by
    refine checkPayload_of_safe h.payload (by rw [h.kind]; rfl)
      (safe_mkObj ["fork", "inherited_state"] rfl (all_insensitive (by decide)) ?_)
    simp only [List.mem_cons, List.not_mem_nil, or_false, forall_eq_or_imp, forall_eq]
    exact ⟨ForkFields.safe_toDict (by rw [h.name]; exact safe_str (by decide)) h.execution, hsafe⟩
  have hagree : f.childWorkspaceId = s.identity.workspaceId ∧ f.lineage.forkEventId = e.eventId ∧
      f.policyInheritance.parentPolicy = (LogicalState.bare openPolicy l).policy ∧
      f.policyInheritance.effectiveChildPolicy = s.policy ∧
      f.packageLockDigest = (LogicalState.bare openPolicy l).packageLockDigest ∧
      f.inheritedContentDigest = f.inheritedContentDigest :=
    ⟨h.child, h.event, h.parentPolicy, h.childPolicy, h.lock, rfl⟩
  have hbounds : (s.forked (.bare openPolicy l) f.lineage).ensureBounds true = .ok () := by
    obtain ⟨b, hb⟩ := canonical_of_writable (writable_entriesJson l)
    have hlength : b.length ≤ 1000 := (length_canonicalBytes (canonical_eq_ok.mp hb)) ▸ h.content.length_le.2
    refine State.ensureBounds_eq_ok.mpr ⟨?_, Nat.zero_le _, ?_, h.content.length_le.1.trans h.roomy.entries, Nat.zero_le _,
      fun x hx => (h.content.value_le x hx).trans h.roomy.entryBytes, b.length, ?_, hlength.trans h.roomy.contextBytes⟩
    · show s.events.length + 1 ≤ s.policy.maxEvents.1
      rw [h.fresh.1]
      exact (show 2 ≤ 3 by decide).trans h.roomy.events
    · show s.sessions.length ≤ s.policy.maxSessions.1
      rw [h.empty.2.2.1]
      exact Nat.zero_le _
    · show stateContextBytes l = .ok b.length
      rw [stateContextBytes, hb]
      rfl
  have heffect : s.effect allow e = .ok (s.forked (.bare openPolicy l) f.lineage) := by
    rw [State.effect, h.kind]
    simp only [h.payload, State.fork, hgets]
    rw [ensure_true h.fresh, ok_bind, ensure_true h.empty, ok_bind, WorkspaceFork.fromDict_toDict h.reads, projecting_ok,
      ok_bind, hlogical, projecting_ok, ok_bind, (h.content.storable _).reads, projecting_ok, ok_bind, h.digest,
      projecting_ok, ok_bind, ensure_true hagree, ok_bind, hbounds]
    rfl
  have hwritten : (s.forked (.bare openPolicy l) f.lineage).Written := ⟨h.small, fun _ ha => absurd ha List.not_mem_nil⟩
  obtain ⟨receipt, hrecord⟩ := State.recordEvent_of_empty (e := e) hwritten (by rw [ReceiptParts.ofEvent, h.kind])
    ((State.ensureBounds_withEvent _ e).trans hbounds) h.newEvent
  exact ⟨receipt, applyEvent_some.mpr ⟨hcheck, by rw [h.kind]; decide, h.active, _, heffect, hrecord⟩⟩

/-- The child of a fork of sample content. -/
structure State.SampleChild (t : State) (a : ForkArguments) (l : List ProjectContextEntry) : Prop where
  policy : t.policy = a.policy.getD openPolicy
  lifecycle : t.lifecycle = .active
  sources : t.sources = .empty
  sessions : t.sessions = []
  entries : t.entries = l
  pins : t.packagePins = .empty
  lock : t.packageLockDigest = none
  workspace : t.identity.workspaceId = a.workspaceId
  events : t.events.length = 2
  fresh : ∀ i, a.createdEventId ≠ i → a.eventId ≠ i → t.receipts.get? i = none
  last : ∃ d, t.lastEventDigest = some d
  checkpoints : t.checkpoints = .empty
  appliedHandoffs : t.appliedHandoffs = .empty

/-- The fork of a checkpoint of sample content that is stored succeeds. -/
theorem SampleCheckpoint.exists_forkFrom {s : State} {c : ContextCheckpoint} {a : ForkArguments} {l : List ProjectContextEntry}
    (h : SampleCheckpoint c l) (ha : a.Sample) (hne : a.workspaceId ≠ c.workspaceId) (hactive : s.lifecycle = .active)
    (hstored : s.checkpoints.get? c.checkpointId = some c) :
    ∃ b, s.forkFrom c a = .ok b ∧ b.child.SampleChild a l := by
  obtain ⟨bytes, hbytes⟩ := canonical_of_writable h.small.1
  have hcheck : s.checkStored c = .ok () := by
    rw [State.checkStored, hstored]
    simp only [hbytes, ok_bind, ensure_of_true]
  have hname : Safe a.name.json := ha.name ▸ safe_str (by decide)
  obtain ⟨identity, hown, hws, hname', htime⟩ := WorkspaceIdentity.exists_own a.workspaceId a.name a.now ha.year
  have hidentity : WorkspaceIdentity.make a.workspaceId a.name a.now = .ok identity := by
    have hid := hown.stateId
    rw [hws, hname', htime] at hid
    rw [WorkspaceIdentity.make, hid, ← hws, ← hname', ← htime]
    rfl
  obtain ⟨f, d, policy, content, hf, hfields, hopen, hreads, hwrite⟩ := h.exists_fork ha hne
  have hrecord := WorkspaceFork.create_eq_ok hf
  have hparent : f.policyInheritance.parentPolicy = openPolicy := by
    rw [hfields]
    exact hopen
  have hchild : f.policyInheritance.effectiveChildPolicy = a.policy.getD openPolicy := by rw [hrecord.childPolicy, hparent]
  obtain ⟨hcontent, hcontent', -, hinherited, -⟩ := sampleContent_eq h.entries c.workspaceId
  rw [← h.logicalState] at hinherited
  obtain ⟨first, receipt, hfirst, hcreated⟩ := exists_created hown (hname' ▸ hname) ha.small ((show 2 ≤ 1000 by decide).trans ha.roomy.contextBytes) a.createdEventId false
  rw [hws, ← hchild] at hfirst
  -- the two events are recorded
  have hpayload : Writable (mkObj (forkPayload f c.logicalState)) := writable_mkObj (by
    simp [forkPayload, hwrite, hinherited, hcontent])
  obtain ⟨second, hsecond⟩ := exists_record a.workspaceId (.succ .one) a.eventId .workspaceForked (some first.eventDigest)
    (show (natText 2).length ≤ maxIntDigits by decide) hpayload
  obtain ⟨-, -, -, hid, hkind, hpayload', -⟩ := Event.sealed_record hsecond
  have hplain : (mkObj (forkPayload f c.logicalState)).plain =
      mkObj [("fork", f.toDict.plain), ("inherited_state", sampleContent l)] := by
    rw [plain_mkObj, forkPayload, hinherited, List.map_cons, List.map_cons, List.map_nil, hcontent']
  have hself : f.toDict.plain = f.toDict := f.isPlain_toDict
  obtain ⟨receipt', hforked⟩ := applyEvent_fork (e := second) (f := f)
    (s := { (State.created identity (a.policy.getD openPolicy)).withEvent first with
      receipts := Dict.empty.set a.createdEventId receipt })
    { content := h.entries
      kind := hkind
      payload := by rw [hpayload', hplain, hself]
      active := rfl
      fresh := ⟨rfl, rfl⟩
      empty := ⟨rfl, rfl, rfl, rfl⟩
      reads := by rw [hfields]; exact hreads
      name := by rw [hfields]; exact ha.name
      execution := by rw [hfields]; exact ha.execution
      child := by rw [hfields]; exact hws.symm
      event := by rw [hfields, hid]; rfl
      parentPolicy := by rw [hfields]; exact hopen
      childPolicy := hchild
      lock := by rw [hrecord.lock, h.content.packageLockDigest]; rfl
      digest := by
        have hdigest := hrecord.content
        rwa [h.logicalState, contentState_bare] at hdigest
      small := ha.small
      roomy := ha.roomy
      newEvent := by
        rw [hid, Dict.contains, Dict.get?_set_of_ne _ _ ha.distinct]
        rfl } false
  refine ⟨⟨first, second, ?_⟩, ?fork, ?child⟩
  case fork =>
    rw [State.forkFrom, ensure_true hactive, ok_bind, hcheck, ok_bind, rejectSensitive_of_safe hname, ok_bind, hidentity, ok_bind,
      hf, ok_bind, hfirst, ok_bind, hsecond, ok_bind, hcreated, catching_ok, ok_bind, hforked, catching_ok, ok_bind]
    rfl
  case child =>
    refine ⟨rfl, rfl, rfl, rfl, rfl, rfl, rfl, hws, rfl, fun i hcreated hforked => ?_, ⟨_, rfl⟩, rfl, rfl⟩
    exact (Dict.get?_set_of_ne _ _ (by rw [hid]; exact hforked)).trans (Dict.get?_set_of_ne _ _ hcreated)

end LeanCtx
