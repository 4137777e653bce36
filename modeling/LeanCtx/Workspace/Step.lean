import LeanCtx.Workspace.Apply

/-! What an accepted event did: one lemma for each kind of event, with every check that it passed and the state that
    it left. Invariants are derived from these lemmas and never from the definitions. -/

namespace LeanCtx.State
variable {s s' : State} {allow : Bool} {p : Json} {e : Event}

/-! ### Sources and policy -/

theorem ensureExternalAllowed_eq_ok {a : SourceAnchor} {u : Unit} :
    s.ensureExternalAllowed a = .ok u ↔ a.kind = .filesystem ∨ s.policy.allowExternalSources = true := by
  simp [ensureExternalAllowed]

theorem eventAnchor_eq_ok {a : SourceAnchor} (h : eventAnchor allow p = .ok a) :
    SourceAnchor.fromDict (p.get "anchor") allow = .ok a ∧ Json.pyEq a.toDict (p.get "anchor") = true := by
  simp only [eventAnchor, bind_eq_ok, ensure_eq_ok, projecting_eq_ok, pure_eq_ok, exists_const] at h
  obtain ⟨b, hb, _, -, heq, rfl⟩ := h
  exact ⟨hb, heq⟩

theorem attachSource_eq_ok (h : s.attachSource allow p = .ok s') : ∃ a, eventAnchor allow p = .ok a ∧
    s.sources.contains a.sourceId = false ∧ s.sources.size + 1 ≤ s.policy.maxSources.1 ∧
    (a.kind = .filesystem ∨ s.policy.allowExternalSources = true) ∧
    s' = { s with sources := s.sources.set a.sourceId a } := by
  simp only [attachSource, bind_eq_ok, ensure_eq_ok, projecting_eq_ok, ensureExternalAllowed_eq_ok, exists_const,
    pure_eq_ok] at h
  obtain ⟨a, ha, hnew, hsize, hexternal, rfl⟩ := h
  exact ⟨a, ha, hnew, hsize, hexternal, rfl⟩

theorem updateSource_eq_ok (h : s.updateSource allow p = .ok s') : ∃ a current d, eventAnchor allow p = .ok a ∧
    s.sources.get? a.sourceId = some current ∧ p.get "previous_anchor_digest" = Digest.json d ∧
    anchorDigest current = .ok d ∧ (a.kind = .filesystem ∨ s.policy.allowExternalSources = true) ∧
    s' = { s with sources := s.sources.set a.sourceId a } := by
  simp only [updateSource, bind_eq_ok] at h
  obtain ⟨a, ha, h⟩ := h
  split at h
  · cases h
  · next current hcurrent =>
    simp only [bind_eq_ok, ensure_eq_ok, projecting_eq_ok, ensureExternalAllowed_eq_ok, exists_const, pure_eq_ok,
      digestValue_eq_ok] at h
    obtain ⟨d, hd, d', hd', rfl, hexternal, rfl⟩ := h
    exact ⟨a, current, d, ha, hcurrent, hd, hd', hexternal, rfl⟩

theorem tightenPolicy_eq_ok (h : s.tightenPolicy p = .ok s') : ∃ policy d,
    WorkspacePolicy.fromDict (p.get "policy") = .ok policy ∧ p.get "previous_policy_digest" = Digest.json d ∧
    LeanCtx.digest s.policy.toDict = .ok d ∧ policy.isTightening s.policy = true ∧
    (∀ x ∈ s.entries, x.category ∈ policy.allowedCategories) ∧
    (policy.allowExternalSources = true ∨ ∀ a ∈ s.sources.values, a.kind = .filesystem) ∧
    s' = { s with policy } := by
  simp only [tightenPolicy, bind_eq_ok, ensure_eq_ok, projecting_eq_ok, exists_const, pure_eq_ok, digestValue_eq_ok] at h
  obtain ⟨policy, hpolicy, d, hd, -, d', hd', rfl, htight, hentries, hsources, _, -, rfl⟩ := h
  exact ⟨policy, d, hpolicy, hd, hd', htight, hentries, hsources, rfl⟩

/-! ### Sessions and entries -/

theorem attachSession_eq_ok (h : s.attachSession p = .ok s') : ∃ r : SessionRecord,
    text (p.get "session_id") "session_id" 512 = .ok r.sessionId ∧
    text (p.get "task_id") "task_id" 512 = .ok r.taskId ∧
    ids (p.get "source_ids") "source_ids" maxSourceIds = .ok r.sourceIds ∧
    r.sessionId ∉ s.sessions.map (·.sessionId) ∧ (∀ i ∈ r.sourceIds.1, s.sources.contains i = true) ∧
    s' = { s with sessions := s.sessions ++ [r] } := by
  simp only [attachSession, bind_eq_ok, ensure_eq_ok, projecting_eq_ok, exists_const, pure_eq_ok] at h
  obtain ⟨sessionId, hsession, taskId, htask, sourceIds, hids, -, hnew, hsources, -, rfl⟩ := h
  exact ⟨⟨sessionId, taskId, sourceIds⟩, hsession, htask, hids, hnew, hsources, rfl⟩

theorem checkEntry_eq_ok {x : ProjectContextEntry} {u : Unit} (h : s.checkEntry x = .ok u) :
    (∀ i ∈ x.sourceIds.1, s.sources.contains i = true) ∧ (∀ i ∈ x.sessionId, i ∈ s.sessions.map (·.sessionId)) ∧
    x.category ∈ s.policy.allowedCategories ∧ x.value.1.utf8Length ≤ s.policy.maxEntryBytes.1 := by
  simpa only [checkEntry, bind_eq_ok, ensure_eq_ok, exists_const] using h

theorem commitContext_eq_ok (h : s.commitContext p = .ok s') : ∃ raw entries, p.get "entries" = .arr raw ∧ raw ≠ [] ∧
    raw.mapM entryFromInput = .ok entries ∧ Json.pyEq (entriesJson entries) (.arr raw) = true ∧
    validateContextProvenance s (p.get "provenance") entries = .ok () ∧
    (∀ x ∈ entries, x.entryId ∉ s.entries.map (·.entryId)) ∧ (∀ x ∈ entries, s.checkEntry x = .ok ()) ∧
    s' = { s with entries := s.entries ++ entries } := by
  unfold commitContext at h
  split at h
  · next raw hraw =>
    simp only [bind_eq_ok, ensure_eq_ok, projecting_eq_ok, exists_const, pure_eq_ok, forM_eq_ok] at h
    obtain ⟨hne, entries, hentries, heq, _, hprov, hnew, hchecks, _, -, rfl⟩ := h
    exact ⟨raw, entries, hraw, hne, hentries, heq, hprov, hnew, hchecks, rfl⟩
  · cases h

/-! ### Forks and handoffs -/

theorem fork_eq_ok {i : Uuid} (h : s.fork i p = .ok s') : ∃ f logical parent,
    s.events.length = 1 ∧ s.sessions = [] ∧ WorkspaceFork.fromDict (p.get "fork") = .ok f ∧
    dictWith (p.get "inherited_state") "workspace_id" f.source.workspaceId.json = .ok logical ∧
    logicalStateComponents logical f.source.workspaceId = .ok parent ∧
    f.policyInheritance.effectiveChildPolicy = s.policy ∧ s' = s.forked parent f.lineage := by
  simp only [fork, bind_eq_ok, ensure_eq_ok, projecting_eq_ok, exists_const, pure_eq_ok] at h
  obtain ⟨⟨hevents, -⟩, ⟨-, -, hsessions, -⟩, f, hf, logical, hlogical, parent, hparent, content, -, hagree, _, -, rfl⟩ := h
  exact ⟨f, logical, parent, hevents, hsessions, hf, hlogical, hparent, hagree.2.2.2.1, rfl⟩

theorem checkNotApplied_eq_ok {r : AppliedHandoff} {u : Unit} :
    s.checkNotApplied r = .ok u ↔ s.appliedHandoffs.get? r.handoffId = none := by
  unfold checkNotApplied
  split <;> simp_all

/-- What a handoff adds: entries of it that the receiver allows and whose sources it has or gets. -/
theorem appendedEntries_eq_ok {imported : Dict SourceId SourceAnchor} {raw : List Json} {l : List ProjectContextEntry}
    (h : s.appendedEntries imported raw = .ok l) : ∀ x ∈ l, (∃ v ∈ raw, ProjectContextEntry.fromDict v = .ok x) ∧
      x.category ∈ s.policy.allowedCategories ∧
      ∀ i ∈ x.sourceIds.1, s.sources.contains i = true ∨ imported.contains i = true := by
  refine foldlM_invariant (P := fun l => ∀ x ∈ l, (∃ v ∈ raw, ProjectContextEntry.fromDict v = .ok x) ∧
    x.category ∈ s.policy.allowedCategories ∧
    ∀ i ∈ x.sourceIds.1, s.sources.contains i = true ∨ imported.contains i = true) (by simp) ?_ h
  intro l v l' hv hl hstep
  simp only [bind_eq_ok, projecting_eq_ok] at hstep
  obtain ⟨x, hx, hstep⟩ := hstep
  split at hstep
  · simp only [bind_eq_ok, ensure_eq_ok, exists_const, pure_eq_ok] at hstep
    obtain ⟨-, rfl⟩ := hstep
    exact hl
  · simp only [bind_eq_ok, ensure_eq_ok, exists_const, pure_eq_ok] at hstep
    obtain ⟨hcategory, hsources, rfl⟩ := hstep
    intro y hy
    rcases List.mem_append.mp hy with hy | hy
    · exact hl y hy
    · obtain rfl := List.mem_singleton.mp hy
      exact ⟨⟨v, hv, hx⟩, hcategory, hsources⟩

theorem applyHandoff_eq_ok {i : Uuid} (h : s.applyHandoff i p = .ok s') : ∃ handoff admission imported appended,
    ContextHandoff.fromDict (p.get "handoff") = .ok handoff ∧
    HandoffAdmission.fromDict (p.get "admission") = .ok admission ∧ s.lineageOk handoff.source = true ∧
    handoff.targetWorkspaceId = s.identity.workspaceId ∧ s.policy.isTightening handoff.requiredPolicyFloor = true ∧
    s.appliedHandoffs.get? handoff.handoffId = none ∧
    s.importedSources admission.decision handoff.sourceAnchors = .ok imported ∧ s.checkPins handoff.packageRefs = .ok () ∧
    s.appendedEntries imported handoff.selectedEntries = .ok appended ∧
    (∀ a ∈ imported.values, a.kind = .filesystem ∨ s.policy.allowExternalSources = true) ∧
    s' = s.handedOver imported appended ⟨handoff.handoffId, handoff.handoffDigest, i⟩ := by
  simp only [applyHandoff, bind_eq_ok, ensure_eq_ok, projecting_eq_ok, exists_const, pure_eq_ok, forM_eq_ok,
    checkNotApplied_eq_ok, ensureExternalAllowed_eq_ok] at h
  obtain ⟨handoff, hhandoff, admission, hadmission, hids, hresults, hnew, imported, himported, _, -, _, hpins, appended,
    happended, hexternal, _, -, rfl⟩ := h
  exact ⟨handoff, admission, imported, appended, hhandoff, hadmission, hresults.1, hids.2.2.2.2, hresults.2.2.2.2.2.2,
    hnew, himported, hpins, happended, hexternal, rfl⟩

/-! ### Packages, checkpoints and restores -/

theorem checkNotPinned_eq_ok {pin : PackagePin} {u : Unit} :
    s.checkNotPinned pin = .ok u ↔ s.packagePins.get? pin.key = none := by
  unfold checkNotPinned
  split <;> simp_all

theorem pinPackage_eq_ok (h : s.pinPackage p = .ok s') : ∃ pin lock, PackagePin.fromDict (p.get "pin") = .ok pin ∧
    optionalDigest (p.get "previous_lock_digest") "previous package lock digest" = .ok s.packageLockDigest ∧
    s.packagePins.get? pin.key = none ∧ packageLock (s.packagePins.set pin.key pin).values = .ok lock ∧
    s' = { s with packagePins := s.packagePins.set pin.key pin, packageLockDigest := lock } := by
  simp only [pinPackage, bind_eq_ok, ensure_eq_ok, projecting_eq_ok, exists_const, pure_eq_ok, checkNotPinned_eq_ok] at h
  obtain ⟨pin, hpin, previous, hprevious, rfl, hnew, -, -, lock, hlock, rfl⟩ := h
  exact ⟨pin, lock, hpin, hprevious, hnew, hlock, rfl⟩

theorem createCheckpoint_eq_ok (h : s.createCheckpoint p = .ok s') : ∃ c l,
    ContextCheckpoint.fromDict (p.get "checkpoint") = .ok c ∧
    logicalStateComponents c.logicalState s.identity.workspaceId = .ok l ∧ s.checkpoints.contains c.checkpointId = false ∧
    c.workspaceId = s.identity.workspaceId ∧
    c.workspaceStateRef.1 = Str.lit "event:" ++ previousText s.lastEventDigest ∧ s.logicalDigest = .ok c.stateDigest ∧
    Json.pyEq c.logicalState s.logicalState = true ∧
    s' = { s with checkpoints := s.checkpoints.set c.checkpointId c } := by
  simp only [createCheckpoint, bind_eq_ok, ensure_eq_ok, projecting_eq_ok, projectingConflict_eq_ok, exists_const,
    pure_eq_ok] at h
  obtain ⟨c, hc, l, hl, hnew, -, hws, -, href, d, hd, rfl, hlogical, -, -, pd, -, -, cd, -, -, _, -, rfl⟩ := h
  exact ⟨c, l, hc, hl, hnew, hws, href, hd, hlogical, rfl⟩

theorem namedCheckpoint_eq_ok {c : ContextCheckpoint} (h : s.namedCheckpoint p = .ok c) :
    ∃ i : Uuid, p.get "checkpoint_id" = i.json ∧ s.checkpoints.get? i = some c ∧
    p.get "checkpoint_envelope_digest" = c.envelopeDigest.json := by
  simp only [namedCheckpoint, bind_eq_ok, projecting_eq_ok, uuid_eq_ok, digestValue_eq_ok] at h
  obtain ⟨i, hi, d, hd, h⟩ := h
  split at h
  · next c' hc =>
    simp only [bind_eq_ok, ensure_eq_ok, exists_const, pure_eq_ok] at h
    obtain ⟨rfl, rfl⟩ := h
    exact ⟨i, hi, hc, hd⟩
  · cases h

theorem restore_eq_ok (h : s.restore p = .ok s') : ∃ c target, s.namedCheckpoint p = .ok c ∧
    logicalStateComponents c.logicalState s.identity.workspaceId = .ok target ∧
    target.policy.isTightening s.policy = true ∧
    (∀ a ∈ target.sources.values, a.kind = .filesystem ∨ target.policy.allowExternalSources = true) ∧
    s' = s.withLogical target := by
  simp only [restore, bind_eq_ok, ensure_eq_ok, projecting_eq_ok, projectingConflict_eq_ok, exists_const, pure_eq_ok,
    forM_eq_ok, ensureExternalAllowed_eq_ok] at h
  obtain ⟨c, hc, target, htarget, htight, _, -, hexternal, rfl⟩ := h
  exact ⟨c, target, hc, htarget, htight, hexternal, rfl⟩

/-! ### Packages that carry a checkpoint -/

theorem seed_eq_ok (h : s.seed p = .ok s') : ∃ c target, s.sources.items = [] ∧ s.checkpoints.items = [] ∧
    s.events.length = 1 ∧ ContextCheckpoint.fromDict (p.get "checkpoint") = .ok c ∧
    logicalStateComponents c.logicalState s.identity.workspaceId = .ok target ∧
    Json.pyEq target.policy.toDict s.policy.toDict = true ∧
    (∀ a ∈ target.sources.values, a.kind = .filesystem ∨ s.policy.allowExternalSources = true) ∧
    s' = s.seeded target c := by
  simp only [seed, bind_eq_ok, ensure_eq_ok, projecting_eq_ok, projectingConflict_eq_ok, exists_const, pure_eq_ok,
    forM_eq_ok, ensureExternalAllowed_eq_ok] at h
  obtain ⟨⟨hsources, -, hcheckpoints, hevents⟩, c, hc, _, -, target, htarget, d, -, ⟨-, hpolicy, -⟩, -, _, -, hexternal,
    rfl⟩ := h
  exact ⟨c, target, hsources, hcheckpoints, hevents, hc, htarget, hpolicy, hexternal, rfl⟩

theorem sealWorkspace_eq_ok (h : s.sealWorkspace p = .ok s') : s' = s := by
  simp only [sealWorkspace, bind_eq_ok, projecting_eq_ok, pure_eq_ok] at h
  obtain ⟨_, -, _, -, _, -, _, -, rfl⟩ := h
  rfl

theorem abort_eq_ok (h : s.abort p = .ok s') : s' = { s with lifecycle := .aborted } := by
  simp only [abort, bind_eq_ok, projecting_eq_ok, pure_eq_ok] at h
  obtain ⟨_, -, rfl⟩ := h
  rfl

/-! ### Events -/

theorem create_eq_ok (h : create e = .ok s') : ∃ identity policy, identity.workspaceId = e.workspaceId ∧
    WorkspacePolicy.fromDict (e.payload.get "policy") = .ok policy ∧ s' = created identity policy := by
  simp only [create, bind_eq_ok, catching_eq_ok, ensure_eq_ok, exists_const, pure_eq_ok] at h
  obtain ⟨identity, -, policy, hpolicy, -, hws, rfl⟩ := h
  exact ⟨identity, policy, hws, hpolicy, rfl⟩

theorem recordEvent_eq_ok : s.recordEvent e = .ok s' ↔ ∃ receipt, (s.withEvent e).ensureBounds false = .ok () ∧
    receiptForEvent (s.withEvent e) e = .ok receipt ∧ s.receipts.contains e.eventId = false ∧
    { s.withEvent e with receipts := s.receipts.set e.eventId receipt } = s' := by
  simp only [recordEvent, bind_eq_ok, projecting_eq_ok, ensure_eq_ok, exists_const, pure_eq_ok]
  constructor
  · rintro ⟨_, hbounds, receipt, h⟩
    exact ⟨receipt, hbounds, h⟩
  · rintro ⟨receipt, hbounds, h⟩
    exact ⟨(), hbounds, receipt, h⟩

/-- What no event changes: who the workspace is, its journal and the receipts of it. -/
theorem effect_frame (h : s.effect allow e = .ok s') : s'.identity = s.identity ∧ s'.events = s.events ∧
    s'.receipts = s.receipts ∧ s'.lastEventDigest = s.lastEventDigest := by
  unfold effect at h
  split at h
  · cases h
  · obtain ⟨a, -, -, -, -, rfl⟩ := attachSource_eq_ok h
    exact ⟨rfl, rfl, rfl, rfl⟩
  · obtain ⟨a, _, _, -, -, -, -, -, rfl⟩ := updateSource_eq_ok h
    exact ⟨rfl, rfl, rfl, rfl⟩
  · obtain ⟨_, _, -, -, -, -, -, -, rfl⟩ := tightenPolicy_eq_ok h
    exact ⟨rfl, rfl, rfl, rfl⟩
  · obtain ⟨_, -, -, -, -, -, rfl⟩ := attachSession_eq_ok h
    exact ⟨rfl, rfl, rfl, rfl⟩
  · obtain ⟨_, _, -, -, -, -, -, -, -, rfl⟩ := commitContext_eq_ok h
    exact ⟨rfl, rfl, rfl, rfl⟩
  · obtain ⟨_, _, _, -, -, -, -, -, -, rfl⟩ := fork_eq_ok h
    exact ⟨rfl, rfl, rfl, rfl⟩
  · obtain ⟨_, _, _, _, -, -, -, -, -, -, -, -, -, -, rfl⟩ := applyHandoff_eq_ok h
    exact ⟨rfl, rfl, rfl, rfl⟩
  · obtain ⟨_, _, -, -, -, -, rfl⟩ := pinPackage_eq_ok h
    exact ⟨rfl, rfl, rfl, rfl⟩
  · obtain ⟨_, _, -, -, -, -, -, -, -, rfl⟩ := createCheckpoint_eq_ok h
    exact ⟨rfl, rfl, rfl, rfl⟩
  · obtain ⟨_, _, -, -, -, -, rfl⟩ := restore_eq_ok h
    exact ⟨rfl, rfl, rfl, rfl⟩
  · obtain ⟨_, _, -, -, -, -, -, -, -, rfl⟩ := seed_eq_ok h
    exact ⟨rfl, rfl, rfl, rfl⟩
  · obtain rfl := sealWorkspace_eq_ok h
    exact ⟨rfl, rfl, rfl, rfl⟩
  · cases h
    exact ⟨rfl, rfl, rfl, rfl⟩
  · obtain rfl := abort_eq_ok h
    exact ⟨rfl, rfl, rfl, rfl⟩

end State

open State

theorem applyEvent_none {allow : Bool} {e : Event} {s' : State} : applyEvent allow none e = .ok s' ↔
    checkPayload e = .ok () ∧ e.kind = .workspaceCreated ∧ ∃ s, State.create e = .ok s ∧ s.recordEvent e = .ok s' := by
  simp only [applyEvent, bind_eq_ok, ensure_eq_ok, exists_const]
  exact ⟨fun ⟨_, h⟩ => h, fun h => ⟨(), h⟩⟩

theorem applyEvent_some {allow : Bool} {s : State} {e : Event} {s' : State} : applyEvent allow (some s) e = .ok s' ↔
    checkPayload e = .ok () ∧ e.kind ≠ .workspaceCreated ∧ s.lifecycle = .active ∧
      ∃ t, s.effect allow e = .ok t ∧ t.recordEvent e = .ok s' := by
  simp only [applyEvent, bind_eq_ok, ensure_eq_ok, exists_const]
  exact ⟨fun ⟨_, h⟩ => h, fun h => ⟨(), h⟩⟩

end LeanCtx
