import LeanCtx.Workspace.References

/-! Journals of sample workspaces: an event that a state accepts is appended to its journal and read again, so a run of a few
    small events is a run of a journal. -/

namespace LeanCtx
open Json

/-- An event that the state accepts and that is small enough to be read again is appended, and the journal projects to the
    state after it. -/
theorem append_of_applyEvent {workspaceId : Uuid} {files : List EventFile} {r : Request} {s t : State} {e : Event}
    (hs : project workspaceId files = .ok s) (hfresh : s.receipts.get? r.eventId = none) (hactive : s.lifecycle = .active)
    (hbudget : s.events.length + 1 ≤ s.policy.maxEvents.1)
    (he : Event.record workspaceId (nextSequence (some s)) r.eventId r.kind r.payload s.lastEventDigest = .ok e)
    (ht : applyEvent r.verified (some s) e = .ok t) (hpublish : r.prePublish = .ok ())
    (hbytes : recordBytes (s.events.length + 1) r.kind r.payload ≤ maxEventBytes)
    (hsequence : s.events.length + 1 < 10 ^ sequenceWidth) :
    ∃ files' receipt, append workspaceId files r = (files', .ok ⟨files', t, receipt⟩) ∧ project workspaceId files' = .ok t := by
  obtain ⟨data, hdata⟩ := Event.exists_canonical he
  have hseq := (Event.sealed_record he).2.2.1
  have hnames : ∀ f ∈ files, f.name ≠ eventFileName e := by
    intro f hf hname
    obtain ⟨k, hex, hk, hlt⟩ := (foldlM_extend (project_eq_ok.mp hs).2.1).2 f (mem_sortFiles.mpr hf)
    rw [hname, matchEventName_eventFileName (by rw [hseq]; exact hsequence), hseq] at hk
    simp only [Option.some.injEq, Prod.mk.injEq] at hk
    omega
  obtain ⟨receipt, happend⟩ := append_publish hs hfresh hactive hbudget he ht hpublish hdata hnames
  exact ⟨_, receipt, happend, (project_append_of_fits hs happend (Or.inr ⟨hbytes, hsequence⟩)).1⟩

theorem byteLength_eventRef (d : Digest) : byteLength d.eventRef.json = 79 := by
  refine (byteLength_str fun c hc => ?_).trans (by
    rw [Digest.eventRef, List.length_append, d.isBare.1, lit_event]
    rfl)
  rcases List.mem_append.mp hc with hc | hc
  · rw [lit_event] at hc
    simp only [List.mem_cons, List.not_mem_nil, or_false] at hc
    unfold IsBare
    omega
  · exact d.isBare.2 c hc

/-- An object with short keys and short values is short. -/
theorem small_mkObj {f : List (String × Json)} {m : Nat} (ks : List String) (hks : f.map (·.1) = ks)
    (hkeys : ks.all (fun k => decide ((quote (Str.lit k)).utf8Length ≤ 38)) = true) (hnodup : ks.Nodup) (hne : f ≠ [])
    (h : ∀ p ∈ f, Writable p.2 ∧ byteLength p.2 ≤ m) :
    Writable (mkObj f) ∧ byteLength (mkObj f) ≤ 1 + f.length * (m + 40) := by
  refine ⟨writable_mkObj fun p hp => (h p hp).1, ?_⟩
  rw [byteLength_mkObj (fun p hp => (h p hp).1) (hks ▸ hnodup) hne]
  have hle : ∀ n ∈ f.map fun p => (quote (Str.lit p.1)).utf8Length + byteLength p.2 + 2, n ≤ m + 40 := by
    intro n hn
    obtain ⟨p, hp, rfl⟩ := List.mem_map.mp hn
    have hkey : (quote (Str.lit p.1)).utf8Length ≤ 38 := by
      simpa using List.all_eq_true.mp hkeys p.1 (hks ▸ List.mem_map_of_mem hp)
    have hvalue := (h p hp).2
    omega
  have hsum := List.sum_le_card_nsmul _ _ hle
  rw [List.length_map, smul_eq_mul] at hsum
  omega

/-! ### Sample content -/

/-- The entries of a sample workspace. -/
def SampleEntries (l : List ProjectContextEntry) : Prop := l = [] ∨ l = [decision]

namespace SampleEntries
variable {l : List ProjectContextEntry}

theorem nil : SampleEntries [] := Or.inl rfl

theorem one : SampleEntries [decision] := Or.inr rfl

theorem bare (h : SampleEntries l) : ∀ x ∈ l, x.Bare := by
  rcases h with rfl | rfl
  · nofun
  · intro x hx
    rw [List.mem_singleton.mp hx]
    exact ⟨rfl, rfl, rfl, rfl⟩

theorem safe (h : SampleEntries l) : ∀ x ∈ l, Safe x.value.json := by
  rcases h with rfl | rfl
  · nofun
  · intro x hx
    rw [List.mem_singleton.mp hx]
    exact safe_str (by decide)

theorem length_le (h : SampleEntries l) : l.length ≤ 1 ∧ byteLength (entriesJson l) ≤ 1000 := by
  rcases h with rfl | rfl
  · exact ⟨by decide, by decide⟩
  · exact ⟨by decide, by decide +kernel⟩

theorem nodup (h : SampleEntries l) : (l.map (·.entryId)).Nodup := by
  rcases h with rfl | rfl
  · exact List.nodup_nil
  · exact List.nodup_singleton _

theorem value_le (h : SampleEntries l) : ∀ x ∈ l, x.value.1.utf8Length ≤ 1000 := by
  rcases h with rfl | rfl
  · nofun
  · intro x hx
    rw [List.mem_singleton.mp hx]
    decide

theorem recoveryRefs (h : SampleEntries l) : (LogicalState.bare openPolicy l).recoveryRefs = [] := by
  rcases h with rfl | rfl <;> decide

/-- The logical state of sample entries is short. -/
theorem length_bare (h : SampleEntries l) (ws : Uuid) : Writable ((LogicalState.bare openPolicy l).toDict ws) ∧
    byteLength ((LogicalState.bare openPolicy l).toDict ws) ≤ 8000 := by
  have hschema : byteLength (.str (Str.lit logicalStateSchema)) ≤ 1000 := by decide
  have hpolicy : byteLength openPolicy.toDict ≤ 1000 := by decide +kernel
  have hnil : Writable (.arr []) ∧ byteLength (.arr []) ≤ 1000 :=
    ⟨writable_arr fun _ h => absurd h List.not_mem_nil, by decide⟩
  refine (small_mkObj (m := 1000) ["schema_version", "workspace_id", "policy", "sources", "entries", "package_pins",
    "package_lock_digest"] rfl (by decide) (by decide) (by simp) ?_).imp_right fun h => h.trans (show 1 + 7 * 1040 ≤ 8000 by decide)
  simp only [List.mem_cons, List.not_mem_nil, or_false, forall_eq_or_imp, forall_eq]
  exact ⟨⟨writable_lit _, hschema⟩, ⟨writable_uuid _, by rw [byteLength_uuid]; decide⟩,
    ⟨WorkspacePolicy.writable_toDict small_openPolicy, hpolicy⟩, hnil, ⟨writable_entriesJson _, h.length_le.2⟩, hnil, writable_null,
    show byteLength .null ≤ 1000 by decide⟩

theorem storable (h : SampleEntries l) (ws : Uuid) : (LogicalState.bare openPolicy l).Storable ws :=
  LogicalState.storable_bare small_openPolicy (h.length_le.1.trans (by decide)) h.nodup h.bare h.safe
    ((h.length_bare ws).2.trans (by decide))

theorem ensureBounds (h : SampleEntries l) {s : State} {extra : Bool} (hpolicy : s.policy = openPolicy) (hentries : s.entries = l)
    (hevents : s.events.length ≤ 1000) (hsources : s.sources.size ≤ 1000) (hsessions : s.sessions.length ≤ 1000)
    (hpins : s.packagePins.size ≤ 128) : s.ensureBounds extra = .ok () := by
  have hroom : (openPolicy.maxEvents.1, openPolicy.maxSources.1, openPolicy.maxSessions.1, openPolicy.maxContextEntries.1,
      openPolicy.maxEntryBytes.1, openPolicy.maxContextBytes.1) =
      (1000000000, 1000000000, 1000000000, 1000000000, 1000000000, 1000000000) := rfl
  simp only [Prod.mk.injEq] at hroom
  obtain ⟨b, hb⟩ := canonical_of_writable (writable_entriesJson l)
  have hlength : b.length ≤ 1000 := (length_canonicalBytes (canonical_eq_ok.mp hb)) ▸ h.length_le.2
  have hcount := h.length_le.1
  refine State.ensureBounds_eq_ok.mpr ⟨?_, ?_, ?_, ?_, hpins, fun x hx => ?_, b.length, ?_, ?_⟩
  · rw [hpolicy, hroom.1]
    split_ifs <;> omega
  · rw [hpolicy, hroom.2.1]
    omega
  · rw [hpolicy, hroom.2.2.1]
    omega
  · rw [hpolicy, hentries, hroom.2.2.2.1]
    omega
  · have hvalue := h.value_le x (hentries ▸ hx)
    rw [hpolicy, hroom.2.2.2.2.1]
    omega
  · rw [hentries, stateContextBytes, hb]
    rfl
  · rw [hpolicy, hroom.2.2.2.2.2]
    omega

end SampleEntries

theorem WorkspacePolicy.isPlain_toDict (x : WorkspacePolicy) : IsPlain x.toDict := by
  refine isPlain_mkObj ?_
  simp only [List.mem_cons, List.not_mem_nil, or_false, forall_eq_or_imp, forall_eq]
  refine ⟨rfl, isPlain_arr fun v hv => ?_, rfl, rfl, rfl, rfl, rfl, rfl, rfl⟩
  obtain ⟨c, -, rfl⟩ := List.mem_map.mp hv
  rfl

theorem LogicalState.isPlain_bare (policy : WorkspacePolicy) (l : List ProjectContextEntry) (ws : Uuid) :
    IsPlain ((LogicalState.bare policy l).toDict ws) := by
  have hentries : IsPlain (entriesJson l) := by
    unfold IsPlain
    rw [entriesJson, plain, plainList_eq, List.map_map]
    exact congrArg Json.arr (List.map_congr_left fun x _ => x.isPlain_toDict)
  refine isPlain_mkObj ?_
  simp only [List.mem_cons, List.not_mem_nil, or_false, forall_eq_or_imp, forall_eq]
  exact ⟨rfl, rfl, policy.isPlain_toDict, rfl, hentries, rfl, rfl⟩

/-- The record of a checkpoint of sample entries is small. -/
theorem small_checkpoint {c : ContextCheckpoint} {l : List ProjectContextEntry} {d d' : Digest} (hl : SampleEntries l)
    (hc : c.toCheckpointFields.Of (.bare openPolicy l))
    (href : c.workspaceStateRef = d.eventRef) (hlineage : c.lineageStateId = d'.ref) :
    Writable c.toDict ∧ byteLength c.toDict ≤ 140000 := by
  have hstr : ∀ s ∈ [CheckpointFields.schema, logicalStateSchema, CheckpointFields.contract, "workspace"],
      byteLength (.str (Str.lit s)) ≤ 100 := by decide
  have hengine : Writable CheckpointFields.engine ∧ byteLength CheckpointFields.engine ≤ 100 :=
    ⟨Option.isSome_iff_exists.mp (by decide), by decide⟩
  simp only [List.mem_cons, List.not_mem_nil, or_false, forall_eq_or_imp, forall_eq] at hstr
  obtain ⟨hschema, hstate, hcontract, hworkspace⟩ := hstr
  have huuid : ∀ u : Uuid, Writable u.json ∧ byteLength u.json ≤ 8000 := fun u =>
    ⟨writable_uuid u, by rw [byteLength_uuid]; decide⟩
  have hdigest : ∀ d : Digest, Writable d.json ∧ byteLength d.json ≤ 8000 := fun d =>
    ⟨writable_digest d, by rw [byteLength_digest]; decide⟩
  have hnil : Writable (.arr []) ∧ byteLength (.arr []) ≤ 8000 :=
    ⟨writable_arr fun _ h => absurd h List.not_mem_nil, by decide⟩
  have hline : Writable c.lineage ∧ byteLength c.lineage ≤ 8000 := by
    rw [CheckpointFields.lineage, hlineage]
    refine (small_mkObj (m := 100) ["kind", "workspace_id", "state_id"] rfl (by decide) (by decide) (by simp) ?_).imp_right
      fun h => h.trans (show 1 + 3 * 140 ≤ 8000 by decide)
    simp only [List.mem_cons, List.not_mem_nil, or_false, forall_eq_or_imp, forall_eq]
    exact ⟨⟨writable_lit _, hworkspace⟩, ⟨writable_uuid _, by rw [byteLength_uuid]; decide⟩, writable_ref _,
      (byteLength_digest d').trans_le (by decide)⟩
  have hrefs : c.recoveryRefs = [] := hc.recoveryRefs.trans hl.recoveryRefs
  have hanchors : c.sourceAnchors = [] := hc.sourceAnchors.trans rfl
  have hpins : c.packagePins = [] := hc.packagePins.trans rfl
  have hlock : c.packageLockDigest = none := hc.packageLockDigest.trans rfl
  rw [LogicalState.Storable.toDict_eq, hrefs, hanchors, hpins, hlock, hc.engineIdentity, hc.logicalState, href]
  refine (small_mkObj (m := 8000) ["schema_version", "checkpoint_id", "workspace_id", "state_digest",
    "state_schema_version", "workspace_state_ref", "logical_state", "source_anchors", "recovery_refs", "package_pins",
    "package_lock_digest", "policy_digest", "project_context_digest", "lineage", "engine_identity", "sdk_contract",
    "envelope_digest"] rfl (by decide) (by decide) (by simp) ?_).imp_right fun h => h.trans (show 1 + 17 * 8040 ≤ 140000 by decide)
  simp only [List.mem_cons, List.not_mem_nil, or_false, forall_eq_or_imp, forall_eq]
  exact ⟨⟨writable_lit _, hschema.trans (by decide)⟩, huuid _, huuid _, hdigest _, ⟨writable_lit _, hstate.trans (by decide)⟩,
    ⟨writable_ref _, (byteLength_eventRef d).trans_le (by decide)⟩, hl.length_bare _, hnil, hnil, hnil, ⟨writable_null, by decide⟩,
    hdigest _, hdigest _, hline, ⟨hengine.1, hengine.2.trans (by decide)⟩, ⟨writable_lit _, hcontract.trans (by decide)⟩,
    hdigest _⟩

/-! ### Sample workspaces -/

/-- A workspace of the open policy with some entries after some events, of the identifiers with the first numbers. -/
structure State.Sample (s : State) (ws : Uuid) (l : List ProjectContextEntry) (n : Nat) : Prop where
  content : SampleEntries l
  policy : s.policy = openPolicy
  lifecycle : s.lifecycle = .active
  sources : s.sources = .empty
  sessions : s.sessions = []
  entries : s.entries = l
  pins : s.packagePins = .empty
  lock : s.packageLockDigest = none
  workspace : s.identity.workspaceId = ws
  events : s.events.length = n
  fresh : ∀ k, n < k → k < 20 → s.receipts.get? (numberedUuid k) = none
  last : ∃ d, s.lastEventDigest = some d

section
variable {s : State} {ws : Uuid} {l : List ProjectContextEntry} {n : Nat}

theorem State.Sample.logical (h : s.Sample ws l n) : s.logical = .bare openPolicy l := by
  rw [State.logical, h.policy, h.sources, h.entries, h.pins, h.lock]
  rfl

theorem State.Sample.written (h : s.Sample ws l n) : s.Written :=
  ⟨h.policy ▸ small_openPolicy, fun a ha => by
    rw [h.sources] at ha
    cases ha⟩

theorem State.Sample.bounds (h : s.Sample ws l n) (hn : n ≤ 100) : s.ensureBounds true = .ok () :=
  h.content.ensureBounds h.policy h.entries (by rw [h.events]; omega) (by rw [h.sources]; exact Nat.zero_le _)
    (by rw [h.sessions]; exact Nat.zero_le _) (by rw [h.pins]; exact Nat.zero_le _)

end

theorem exists_sample : ∃ files s, project (numberedUuid 0) files = .ok s ∧ s.Sample (numberedUuid 0) [] 1 ∧
    s.checkpoints = .empty ∧ s.appliedHandoffs = .empty ∧ s.forkLineage = none ∧
    ∃ e, e.kind = .workspaceCreated ∧ Accepts none e s := by
  obtain ⟨identity, hown, hws, hname, htime⟩ := WorkspaceIdentity.exists_own (numberedUuid 0) sampleName sampleTime
    (by decide)
  obtain ⟨e, receipt, he, hs⟩ := exists_created hown (by rw [hname]; exact safe_str (by decide)) small_openPolicy
    (by decide) (numberedUuid 1) true
  obtain ⟨data, hdata⟩ := Event.exists_canonical he
  obtain ⟨hsealed, hws', hseq, hid, hkind, hpayload, hprevious⟩ := Event.sealed_record he
  rw [plain_createdPayload] at hpayload
  have hproject := project_singleton hsealed hseq hprevious hdata
    (length_firstFile hdata hseq hprevious hkind (hpayload ▸ byteLength_createdPayload hname htime)) hs
  rw [hws', hws] at hproject
  refine ⟨_, _, hproject, ⟨.nil, rfl, rfl, rfl, rfl, rfl, rfl, rfl, hws, rfl, fun k hk hk' => ?_, _, rfl⟩, rfl, rfl, rfl,
    e, hkind, true, hs⟩
  exact Dict.get?_set_of_ne _ _ fun h => absurd (numberedUuid_inj (by decide) (by omega) h) (by omega)

theorem isPlain_checkpoint {c : ContextCheckpoint} {l : List ProjectContextEntry} (hl : SampleEntries l)
    (hc : c.toCheckpointFields.Of (.bare openPolicy l)) : IsPlain c.toDict := by
  have hrefs : c.recoveryRefs = [] := hc.recoveryRefs.trans hl.recoveryRefs
  rw [LogicalState.Storable.toDict_eq, hc.logicalState, hc.sourceAnchors, hrefs, hc.packagePins, hc.engineIdentity]
  refine isPlain_mkObj ?_
  simp only [List.mem_cons, List.not_mem_nil, or_false, forall_eq_or_imp, forall_eq]
  refine ⟨rfl, rfl, rfl, rfl, rfl, rfl, LogicalState.isPlain_bare _ _ _, rfl, rfl, rfl, ?_, rfl, rfl, isPlain_mkObj ?_, rfl, rfl,
    rfl⟩
  · cases c.packageLockDigest <;> rfl
  · simp only [List.mem_cons, List.not_mem_nil, or_false, forall_eq_or_imp, forall_eq]
    exact ⟨rfl, rfl, rfl⟩

/-- A checkpoint of a sample workspace, taken by the next event. -/
structure State.Sample.Checkpoint (s : State) (l : List ProjectContextEntry) (c : ContextCheckpoint) : Prop where
  workspace : c.workspaceId = s.identity.workspaceId
  content : c.toCheckpointFields.Of (.bare openPolicy l)
  safe : Safe c.toDict
  small : Writable c.toDict ∧ byteLength c.toDict ≤ 140000
  plain : IsPlain c.toDict
  lineage : c.lineageStateId.1 = s.identity.stateId.1
  stateRef : c.workspaceStateRef.1 = Str.lit "event:" ++ previousText s.lastEventDigest

/-- The state with one event more, and a receipt of it. -/
def State.after (s : State) (e : Event) (receipt : WorkspaceReceipt) : State :=
  { s.withEvent e with receipts := s.receipts.set e.eventId receipt }

section
variable {s : State} {ws : Uuid} {l : List ProjectContextEntry} {n : Nat} {e : Event} {c : ContextCheckpoint}

theorem State.Sample.newEvent (h : s.Sample ws l n) (hn : n + 1 < 20) (hid : e.eventId = numberedUuid (n + 1)) :
    s.receipts.contains e.eventId = false := by
  rw [hid, Dict.contains, h.fresh _ (by omega) hn]
  rfl

theorem State.Sample.exists_checkpoint (h : s.Sample ws l n) (checkpointId : Uuid) :
    ∃ c : ContextCheckpoint, c.checkpointId = checkpointId ∧ Checkpoint s l c := by
  obtain ⟨d, hd⟩ := h.last
  have hstorable := h.content.storable s.identity.workspaceId
  obtain ⟨c, hid, hc, href, hlineage, hcontent⟩ := hstorable.exists_checkpoint checkpointId d.eventRef
    s.identity.stateId.ref d.prefix_eventRef
  have hsafe : Safe c.toDict := safe_checkpoint hcontent (hc ▸ hstorable.safe)
    (fun _ h => absurd h List.not_mem_nil) (fun _ h => absurd h List.not_mem_nil)
    (fun _ hr => absurd (h.content.recoveryRefs ▸ hr) List.not_mem_nil)
    (href ▸ safe_eventRef _) (hlineage ▸ safe_digestRef _)
  refine ⟨c, hid, hc, hcontent, hsafe, small_checkpoint h.content hcontent href hlineage, isPlain_checkpoint h.content hcontent,
    congrArg Subtype.val hlineage, ?_⟩
  rw [href, hd]
  rfl

theorem State.Sample.applyEvent_checkpoint (h : s.Sample ws l n) (hn : n + 1 < 20) (hc : Checkpoint s l c)
    (hnew : s.checkpoints.contains c.checkpointId = false) (hroom : s.checkpoints.size + 1 ≤ maxCheckpoints)
    (hkind : e.kind = .checkpointCreated) (hpayload : e.payload = mkObj [("checkpoint", c.toDict)])
    (hid : e.eventId = numberedUuid (n + 1)) (allow : Bool) : ∃ receipt, applyEvent allow (some s) e =
      .ok (({ s with checkpoints := s.checkpoints.set c.checkpointId c } : State).after e receipt) := by
  have hlogical : s.logicalState = (LogicalState.bare openPolicy l).toDict s.identity.workspaceId := by
    rw [State.logicalState, h.logical]
  exact LeanCtx.applyEvent_checkpoint ⟨hkind, hpayload, h.lifecycle, h.written, hc.workspace, h.content.storable _, hc.content,
    hlogical, rfl, fun _ ha => absurd ha List.not_mem_nil, hnew, hroom, hc.lineage, hc.stateRef, hc.safe, h.bounds (by omega),
    h.newEvent hn hid⟩ allow

theorem State.Sample.applyEvent_restore {l' : List ProjectContextEntry} (h : s.Sample ws l n) (hn : n + 1 < 20)
    (hl : SampleEntries l') (hws : c.workspaceId = ws) (hcontent : c.toCheckpointFields.Of (.bare openPolicy l'))
    (hstored : s.checkpoints.get? c.checkpointId = some c) (hkind : e.kind = .workspaceRestored)
    (hpayload : e.payload = mkObj (restorePayload c)) (hid : e.eventId = numberedUuid (n + 1)) (allow : Bool) :
    ∃ receipt, applyEvent allow (some s) e = .ok (({ s with entries := l' } : State).after e receipt) := by
  have hsame : s.withLogical (.bare openPolicy l') = { s with entries := l' } := by
    rw [State.withLogical, LogicalState.bare, ← h.policy, ← h.sources, ← h.pins, ← h.lock]
  have htarget : logicalStateComponents c.logicalState s.identity.workspaceId = .ok (.bare openPolicy l') := by
    rw [hcontent.logicalState, hws, h.workspace]
    exact (hl.storable ws).reads
  have hsample : ({ s with entries := l' } : State).Sample ws l' n := ⟨hl, h.policy, h.lifecycle, h.sources, h.sessions, rfl, h.pins,
    h.lock, h.workspace, h.events, h.fresh, h.last⟩
  obtain ⟨receipt, hr⟩ := LeanCtx.applyEvent_restore (e := e) (c := c) (l := .bare openPolicy l') ⟨hkind, hpayload,
    h.lifecycle, hstored, htarget, hsame.symm ▸ hsample.written, h.policy ▸ WorkspacePolicy.isTightening_refl _,
    fun _ ha => absurd ha List.not_mem_nil, hsame.symm ▸ hsample.bounds (by omega), h.newEvent hn hid⟩ allow
  rw [hsame] at hr
  exact ⟨receipt, hr⟩

/-- A sample workspace without entries takes one. -/
theorem State.Sample.applyEvent_commit (h : s.Sample ws [] n) (hn : n + 1 < 20) (hkind : e.kind = .contextCommitted)
    (hpayload : e.payload = commitPayload [decision]) (hid : e.eventId = numberedUuid (n + 1)) (allow : Bool) :
    ∃ receipt, applyEvent allow (some s) e = .ok (({ s with entries := [decision] } : State).after e receipt) := by
  have hsum : s.entries ++ [decision] = [decision] := by
    rw [h.entries]
    rfl
  have hallowed : ∀ x ∈ [decision], x.category ∈ s.policy.allowedCategories ∧
      x.value.1.utf8Length ≤ s.policy.maxEntryBytes.1 := by
    rw [h.policy]
    decide
  obtain ⟨receipt, hr⟩ := LeanCtx.applyEvent_commit (e := e) (l := [decision]) ⟨hkind, hpayload, h.lifecycle, h.written,
    List.cons_ne_nil _ _, SampleEntries.one.bare, SampleEntries.one.safe, by rw [h.entries]; nofun, hallowed, by
      rw [hsum]
      exact SampleEntries.one.ensureBounds h.policy rfl (h.events.trans_le (by omega)) (by rw [h.sources]; exact Nat.zero_le _)
        (by rw [h.sessions]; exact Nat.zero_le _) (by rw [h.pins]; exact Nat.zero_le _), h.newEvent hn hid⟩ allow
  rw [hsum] at hr
  exact ⟨receipt, hr⟩

theorem State.Sample.after {l' : List ProjectContextEntry} (h : s.Sample ws l n) (hl : SampleEntries l') (hn : n + 1 < 20)
    (hid : e.eventId = numberedUuid (n + 1)) (checkpoints : Dict Uuid ContextCheckpoint)
    (appliedHandoffs : Dict Uuid AppliedHandoff) (receipt : WorkspaceReceipt) :
    (({ s with entries := l', checkpoints, appliedHandoffs } : State).after e receipt).Sample ws l' (n + 1) := by
  refine ⟨hl, h.policy, h.lifecycle, h.sources, h.sessions, rfl, h.pins, h.lock, h.workspace, ?_, fun k hk hk' => ?_, _, rfl⟩
  · show (s.events ++ [e]).length = n + 1
    rw [List.length_append, List.length_singleton, h.events]
  · have hne : e.eventId ≠ numberedUuid k := fun heq => by
      have := numberedUuid_inj (by omega) (by omega) (hid.symm.trans heq)
      omega
    exact (Dict.get?_set_of_ne _ _ hne).trans (h.fresh k (by omega) hk')

/-! ### Steps of sample workspaces -/

/-- A kind of event and a payload of it that the state accepts under the next identifier: what they do to the state before the
    event is recorded, and the entries after it. -/
structure State.Sample.Step (s t : State) (ws : Uuid) (l : List ProjectContextEntry) (n : Nat) (kind : EventKind)
    (payload : Json) : Prop where
  writable : Writable payload
  small : byteLength payload ≤ 2000000
  accepts : ∀ e : Event, e.kind = kind → e.payload = payload.plain → e.eventId = numberedUuid (n + 1) →
    ∃ receipt, applyEvent false (some s) e = .ok (t.after e receipt)
  next : ∀ (e : Event) receipt, e.eventId = numberedUuid (n + 1) → (t.after e receipt).Sample ws l (n + 1)

namespace State.Sample.Step
variable {t : State} {l' : List ProjectContextEntry} {kind : EventKind} {payload : Json}

/-- The event of a step. -/
theorem exists_event (hstep : Step s t ws l' n kind payload) (h : s.Sample ws l n) (hn : n + 1 < 20) : ∃ e receipt,
    Event.record ws (nextSequence (some s)) (numberedUuid (n + 1)) kind payload s.lastEventDigest = .ok e ∧
      applyEvent false (some s) e = .ok (t.after e receipt) ∧ (t.after e receipt).Sample ws l' (n + 1) := by
  have hnext : (nextSequence (some s)).1 = n + 1 := by
    rw [← h.events]
    rfl
  have hdigits : (natText (n + 1)).length ≤ 3 := (length_natText_le (by decide)).mpr (show n + 1 < 1000 by omega)
  obtain ⟨e, he⟩ := exists_record ws (nextSequence (some s)) (numberedUuid (n + 1)) kind s.lastEventDigest
    (by rw [hnext]; exact hdigits.trans (by decide)) hstep.writable
  obtain ⟨-, -, -, hid, hkind, hpayload, -⟩ := Event.sealed_record he
  obtain ⟨receipt, ht⟩ := hstep.accepts e hkind hpayload hid
  exact ⟨e, receipt, he, ht, hstep.next e receipt hid⟩

/-- The event of a step is appended to the journal and read again. -/
theorem append {files : List EventFile} (hstep : Step s t ws l' n kind payload) (h : s.Sample ws l n) (hn : n + 1 < 20)
    (hs : project ws files = .ok s) : ∃ e receipt a,
    Event.record ws (nextSequence (some s)) (numberedUuid (n + 1)) kind payload s.lastEventDigest = .ok e ∧
      applyEvent false (some s) e = .ok (t.after e receipt) ∧ (t.after e receipt).Sample ws l' (n + 1) ∧
      (LeanCtx.append ws files ⟨kind, payload, numberedUuid (n + 1), false, .ok ()⟩).2 = .ok a ∧
      a.state = t.after e receipt ∧ project ws a.files = .ok (t.after e receipt) := by
  obtain ⟨e, receipt, he, ht, hnext⟩ := hstep.exists_event h hn
  have hbytes : recordBytes (s.events.length + 1) kind payload ≤ maxEventBytes := by
    have hdigits : (natText (n + 1)).length ≤ 3 := (length_natText_le (by decide)).mpr (show n + 1 < 1000 by omega)
    have hname : (Str.lit kind.name).length ≤ 20 := by cases kind <;> decide
    have hmax : maxEventBytes = 16777216 := rfl
    have hlength := hstep.small
    rw [recordBytes, h.events]
    omega
  have hbudget : s.events.length + 1 ≤ s.policy.maxEvents.1 := by
    have hroom : openPolicy.maxEvents.1 = 1000000000 := rfl
    rw [h.policy, h.events, hroom]
    omega
  have hsequence : s.events.length + 1 < 10 ^ sequenceWidth := by
    rw [h.events]
    exact (show n + 1 < 1000 by omega).trans (by decide)
  obtain ⟨files', receipt', happend, hproject⟩ := append_of_applyEvent
    (r := ⟨kind, payload, numberedUuid (n + 1), false, .ok ()⟩) hs (h.fresh _ (by omega) (by omega)) h.lifecycle hbudget he ht
    rfl hbytes hsequence
  exact ⟨e, receipt, _, he, ht, hnext, congrArg Prod.snd happend, rfl, hproject⟩

end State.Sample.Step

/-- A sample workspace takes a checkpoint. -/
theorem State.Sample.step_checkpoint (h : s.Sample ws l n) (hn : n + 1 < 20) (hc : Checkpoint s l c)
    (hnew : s.checkpoints.contains c.checkpointId = false) (hroom : s.checkpoints.size + 1 ≤ maxCheckpoints) :
    Step s { s with checkpoints := s.checkpoints.set c.checkpointId c } ws l n .checkpointCreated
      (mkObj [("checkpoint", c.toDict)]) := by
  have hplain : (mkObj [("checkpoint", c.toDict)]).plain = mkObj [("checkpoint", c.toDict)] :=
    isPlain_mkObj (by simpa using hc.plain)
  obtain ⟨hwritable, hlength⟩ := small_mkObj (f := [("checkpoint", c.toDict)]) (m := 140000) ["checkpoint"] rfl (by decide)
    (by decide) (by simp) (by simpa using hc.small)
  refine ⟨hwritable, hlength.trans (show 1 + 1 * 140040 ≤ 2000000 by decide), fun e hkind hpayload hid =>
    h.applyEvent_checkpoint hn hc hnew hroom hkind (hpayload.trans hplain) hid false, fun e receipt hid => ?_⟩
  have hnext := h.after h.content hn hid (s.checkpoints.set c.checkpointId c) s.appliedHandoffs receipt
  rwa [← h.entries] at hnext ⊢

/-- A sample workspace is restored to a checkpoint of its own. -/
theorem State.Sample.step_restore {l' : List ProjectContextEntry} (h : s.Sample ws l n) (hn : n + 1 < 20)
    (hl : SampleEntries l') (hws : c.workspaceId = ws) (hcontent : c.toCheckpointFields.Of (.bare openPolicy l'))
    (hstored : s.checkpoints.get? c.checkpointId = some c) :
    Step s { s with entries := l' } ws l' n .workspaceRestored (mkObj (restorePayload c)) := by
  have hplain : (mkObj (restorePayload c)).plain = mkObj (restorePayload c) :=
    isPlain_mkObj (by simp [restorePayload, IsPlain, Uuid.json, Digest.json, plain])
  obtain ⟨hwritable, hlength⟩ := small_mkObj (f := restorePayload c) (m := 100)
    ["checkpoint_id", "checkpoint_envelope_digest"] rfl (by decide) (by decide) (by simp [restorePayload])
    (by simp [restorePayload, writable_uuid, writable_digest, byteLength_uuid, byteLength_digest])
  exact ⟨hwritable, hlength.trans (show 1 + 2 * 140 ≤ 2000000 by decide), fun e hkind hpayload hid =>
    h.applyEvent_restore hn hl hws hcontent hstored hkind (hpayload.trans hplain) hid false,
    fun e receipt hid => h.after hl hn hid s.checkpoints s.appliedHandoffs receipt⟩

/-- A sample workspace without entries commits one. -/
theorem State.Sample.step_commit (h : s.Sample ws [] n) (hn : n + 1 < 20) :
    Step s { s with entries := [decision] } ws [decision] n .contextCommitted (commitPayload [decision]) := by
  exact ⟨writable_commitPayload _, by decide +kernel, fun e hkind hpayload hid =>
    h.applyEvent_commit hn hkind (hpayload.trans (plain_commitPayload _)) hid false,
    fun e receipt hid => h.after .one hn hid s.checkpoints s.appliedHandoffs receipt⟩

end

/-- A sample workspace takes a checkpoint, and its journal is read again. -/
theorem exists_taken : ∃ t e s files c, Machine.Reaches Accepts (fun _ _ => True) t ∧ t.checkpoints = .empty ∧
    Accepts (some t) e s ∧ project (numberedUuid 0) files = .ok s ∧ s.Sample (numberedUuid 0) [] 2 ∧
    State.Sample.Checkpoint t [] c ∧ s.checkpoints.get? c.checkpointId = some c ∧ c.workspaceId = numberedUuid 0 := by
  obtain ⟨files, t, ht, hsample, hnone, -, -, e₁, -, hstart⟩ := exists_sample
  obtain ⟨c, -, hc⟩ := hsample.exists_checkpoint (numberedUuid 900)
  have hstep := hsample.step_checkpoint (by decide) hc (by rw [Dict.contains, hnone]; rfl) (by rw [hnone]; decide)
  obtain ⟨e, receipt, a, -, hs, hnext, -, -, hproject⟩ := hstep.append hsample (by decide) ht
  exact ⟨t, e, _, a.files, c, .start trivial hstart, hnone, ⟨false, hs⟩, hproject, hnext, hc, Dict.get?_set_self _ _ _,
    hc.workspace.trans hsample.workspace⟩

end LeanCtx
