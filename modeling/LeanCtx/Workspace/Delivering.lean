import LeanCtx.Workspace.Lineage

/-! Deliveries between sample workspaces: the handoff of the one entry that a checkpoint holds. -/

namespace LeanCtx
open Json Unicode

/-! ### Records without secrets -/

theorem holdsSecretFields_eq {f : List (Str × Json)} (h : ∀ p ∈ f, (forbiddenKeys.any fun w => Str.lit w = p.1.map lower) = false ∧
    holdsSecret p.2 = false) : holdsSecretFields f = false := by
  induction f with
  | nil => rfl
  | cons p f ih =>
    obtain ⟨hkey, hvalue⟩ := h p List.mem_cons_self
    rw [holdsSecretFields, hkey, hvalue, ih fun q hq => h q (List.mem_cons_of_mem _ hq)]
    rfl

/-- An object whose keys are allowed holds a secret only in its values. -/
theorem holdsSecret_mkObj {f : List (String × Json)} (ks : List String) (hks : f.map (·.1) = ks)
    (hkeys : ks.all (fun k => !forbiddenKeys.any fun w => Str.lit w = (Str.lit k).map lower) = true)
    (h : ∀ p ∈ f, holdsSecret p.2 = false) : holdsSecret (mkObj f) = false := by
  subst hks
  rw [mkObj, holdsSecret]
  refine holdsSecretFields_eq fun p hp => ?_
  obtain ⟨q, hq, rfl⟩ := List.mem_map.mp (mem_of_mem_sortFields hp)
  have hkey := List.all_eq_true.mp hkeys q.1 (List.mem_map_of_mem hq)
  exact ⟨by simpa using hkey, h q hq⟩

theorem holdsSecret_digest (d : Digest) : holdsSecret d.json = false := secretRe_eq_false d.not_telling

theorem holdsSecret_uuid (u : Uuid) : holdsSecret u.json = false := secretRe_eq_false u.not_telling

theorem ForkLineage.holdsSecret_toDict (x : ForkLineage) : holdsSecret x.toDict = false := by
  have href : holdsSecret (.str x.forkEventRef) = false := secretRe_eq_false fun c hc => by
    rcases List.mem_append.mp hc with hc | hc
    · rw [show Str.lit "event-id:" = [101, 118, 101, 110, 116, 45, 105, 100, 58] by decide] at hc
      simp only [List.mem_cons, List.not_mem_nil, or_false] at hc
      unfold Telling
      omega
    · exact x.forkEventId.not_telling c hc
  refine holdsSecret_mkObj ["schema_version", "child_workspace_id", "parent_workspace_id", "parent_checkpoint_id",
    "parent_checkpoint_state_digest", "parent_checkpoint_envelope_digest", "fork_contract", "fork_id", "fork_event_ref"] rfl
    (by decide) ?_
  simp only [List.mem_cons, List.not_mem_nil, or_false, forall_eq_or_imp, forall_eq]
  exact ⟨by decide, holdsSecret_uuid _, holdsSecret_uuid _, holdsSecret_uuid _, holdsSecret_digest _,
    holdsSecret_digest _, by decide, holdsSecret_uuid _, href⟩

theorem WorkspaceStateRef.holdsSecret_toDict (x : WorkspaceStateRef) : holdsSecret x.toDict = false := by
  have hlineage : holdsSecret (optional ForkLineage.toDict x.forkLineage) = false := by
    cases x.forkLineage with
    | none => rfl
    | some l => exact l.holdsSecret_toDict
  refine holdsSecret_mkObj ["schema_version", "workspace_id", "checkpoint_id", "state_digest", "checkpoint_envelope_digest",
    "fork_lineage"] rfl (by decide) ?_
  simp only [List.mem_cons, List.not_mem_nil, or_false, forall_eq_or_imp, forall_eq]
  exact ⟨by decide, holdsSecret_uuid _, holdsSecret_uuid _, holdsSecret_digest _, holdsSecret_digest _, hlineage⟩

/-- References are short. -/
theorem WorkspaceStateRef.small_toDict (x : WorkspaceStateRef) : Writable x.toDict ∧ byteLength x.toDict ≤ 9000 := by
  have hlit : ∀ s ∈ [ForkLineage.schema, ForkLineage.contract, WorkspaceStateRef.schema],
      byteLength (.str (Str.lit s)) ≤ 100 := by decide
  simp only [List.mem_cons, List.not_mem_nil, or_false, forall_eq_or_imp, forall_eq] at hlit
  have huuid : ∀ u : Uuid, Writable u.json ∧ byteLength u.json ≤ 100 := fun u =>
    ⟨writable_uuid u, by rw [byteLength_uuid]; decide⟩
  have hdigest : ∀ d : Digest, Writable d.json ∧ byteLength d.json ≤ 100 := fun d =>
    ⟨writable_digest d, by rw [byteLength_digest]; decide⟩
  have hlineage : Writable (optional ForkLineage.toDict x.forkLineage) ∧
      byteLength (optional ForkLineage.toDict x.forkLineage) ≤ 1300 := by
    cases x.forkLineage with
    | none => exact ⟨writable_null, by decide⟩
    | some l =>
      have hbare : ∀ c ∈ Str.lit "event-id:", IsBare c := by decide
      have href : byteLength (.str l.forkEventRef) = 47 := by
        refine (byteLength_str fun c hc => (List.mem_append.mp hc).elim (hbare c) (l.forkEventId.isBare.2 c)).trans ?_
        rw [List.length_append, l.forkEventId.isBare.1]
        rfl
      refine (small_mkObj (m := 100) ["schema_version", "child_workspace_id", "parent_workspace_id", "parent_checkpoint_id",
        "parent_checkpoint_state_digest", "parent_checkpoint_envelope_digest", "fork_contract", "fork_id", "fork_event_ref"] rfl
        (by decide) (by decide) (by simp) ?_).imp_right fun h => h.trans (show 1 + 9 * 140 ≤ 1300 by decide)
      simp only [List.mem_cons, List.not_mem_nil, or_false, forall_eq_or_imp, forall_eq]
      exact ⟨⟨writable_lit _, hlit.1⟩, huuid _, huuid _, huuid _, hdigest _, hdigest _, ⟨writable_lit _, hlit.2.1⟩, huuid _,
        l.writable_forkEventRef, href.trans_le (by decide)⟩
  refine (small_mkObj (m := 1300) ["schema_version", "workspace_id", "checkpoint_id", "state_digest",
    "checkpoint_envelope_digest", "fork_lineage"] rfl (by decide) (by decide) (by simp) ?_).imp_right fun h =>
      h.trans (show 1 + 6 * 1340 ≤ 9000 by decide)
  simp only [List.mem_cons, List.not_mem_nil, or_false, forall_eq_or_imp, forall_eq]
  exact ⟨⟨writable_lit _, hlit.2.2.trans (by decide)⟩, (huuid _).imp_right fun h => h.trans (by decide),
    (huuid _).imp_right fun h => h.trans (by decide), (hdigest _).imp_right fun h => h.trans (by decide),
    (hdigest _).imp_right fun h => h.trans (by decide), hlineage⟩

/-! ### Handoffs of sample checkpoints -/

/-- A verified source without a binding. -/
def verifiedAnchor : SourceAnchor :=
  { localAnchor with
    trust := ⟨.verified, ⟨[⟨Str.lit "receipt:" ++ (digestOf []).1, by decide +kernel⟩], List.pairwise_singleton _ _, by decide⟩,
      fun _ => ⟨List.cons_ne_nil _ _, by decide +kernel⟩⟩ }

/-- The sample handoffs: a plain one, one whose task assigns a token the way that URLs are written, and one with a verified source. -/
inductive HandoffSample
  | plain
  | leaky
  | anchored

namespace HandoffSample

def task : HandoffSample → Task (16 * 1024)
  | .leaky => ⟨Str.lit "token%3dabc", by decide⟩
  | _ => ⟨Str.lit "go on", by decide⟩

def anchors : HandoffSample → List SourceAnchor
  | .anchored => [verifiedAnchor]
  | _ => []

end HandoffSample

/-- A handoff of the one entry of a checkpoint. -/
def handoffArguments (target handoffId : Uuid) : HandoffArguments where
  targetWorkspaceId := target
  targetRole := none
  task := HandoffSample.plain.task
  entryIds := ⟨[⟨decision.entryId.1, by decide⟩], List.pairwise_singleton _ _, by decide⟩
  handoffId := handoffId

/-- The fields of a sample handoff. -/
def handoffFields (k : HandoffSample) (source : WorkspaceStateRef) (target handoffId : Uuid) (d : Digest) : HandoffFields where
  handoffId := handoffId
  source := source
  targetWorkspaceId := target
  targetRole := none
  task := k.task
  selectedEntries := [decision.toDict]
  sourceAnchors := k.anchors.map SourceAnchor.toDict
  recoveryRefs := ⟨[], List.Pairwise.nil, by decide⟩
  packageRefs := []
  requiredPolicyFloor := openPolicy
  handoffDigest := d

section
variable (k : HandoffSample) (source : WorkspaceStateRef) (target handoffId : Uuid) (d : Digest)

theorem holdsSecret_handoff : holdsSecret (mkObj (handoffFields k source target handoffId d).unsignedFields) = false := by
  have htarget : holdsSecret (mkObj [("workspace_id", target.json), ("role", optional Text.json (none : Option (Text 128)))]) = false :=
    holdsSecret_mkObj ["workspace_id", "role"] rfl (by decide) (by simp [holdsSecret_uuid, optional, holdsSecret])
  have hsample : holdsSecret k.task.json = false ∧ holdsSecret (.arr (k.anchors.map SourceAnchor.toDict)) = false := by
    cases k <;> decide +kernel
  refine holdsSecret_mkObj ["schema_version", "handoff_id", "source", "target", "task", "selected_entries", "source_anchors",
    "recovery_refs", "package_refs", "required_policy_floor", "bounds"] rfl (by decide) ?_
  simp only [HandoffFields.unsignedFields, handoffFields, List.mem_cons, List.not_mem_nil, or_false, forall_eq_or_imp, forall_eq]
  exact ⟨by decide, holdsSecret_uuid _, source.holdsSecret_toDict, htarget, hsample.1, by decide, hsample.2, rfl,
    rfl, by decide, by decide⟩

/-- A sample handoff is short. -/
theorem small_handoff : Writable (mkObj (handoffFields k source target handoffId d).unsignedFields) ∧
    byteLength (mkObj (handoffFields k source target handoffId d).unsignedFields) ≤ 110000 := by
  have hclosed : ∀ v ∈ [Json.str (Str.lit HandoffFields.schema), .arr [decision.toDict], .arr [], openPolicy.toDict,
      HandoffFields.bounds], byteLength v ≤ 9000 := by decide +kernel
  simp only [List.mem_cons, List.not_mem_nil, or_false, forall_eq_or_imp, forall_eq] at hclosed
  obtain ⟨hschema, hentries, hnil, hpolicy, hbounds⟩ := hclosed
  have hsample : byteLength k.task.json ≤ 9000 ∧ byteLength (.arr (k.anchors.map SourceAnchor.toDict)) ≤ 9000 := by
    cases k <;> decide +kernel
  have hanchors : Writable (.arr (k.anchors.map SourceAnchor.toDict)) := by
    cases k <;> exact Option.isSome_iff_exists.mp (by decide +kernel)
  have huuid : ∀ u : Uuid, Writable u.json ∧ byteLength u.json ≤ 100 := fun u =>
    ⟨writable_uuid u, by rw [byteLength_uuid]; decide⟩
  have hnull : byteLength .null ≤ 100 := by decide
  have hwritable : HandoffFields.bounds.Writable := Option.isSome_iff_exists.mp (by decide)
  have htarget := small_mkObj (m := 100) (f := [("workspace_id", target.json), ("role", optional Text.json (none : Option (Text 128)))])
    ["workspace_id", "role"] rfl (by decide) (by decide) (by simp) (by simp [huuid, optional, writable_null, hnull])
  refine (small_mkObj (m := 9000) ["schema_version", "handoff_id", "source", "target", "task", "selected_entries", "source_anchors",
    "recovery_refs", "package_refs", "required_policy_floor", "bounds"] rfl (by decide) (by decide)
    (by simp [HandoffFields.unsignedFields]) ?_).imp_right fun h => h.trans (show 1 + 11 * 9040 ≤ 110000 by decide)
  simp only [HandoffFields.unsignedFields, handoffFields, List.mem_cons, List.not_mem_nil, or_false, forall_eq_or_imp, forall_eq]
  have hnone : Writable (.arr []) := writable_arr fun _ h => absurd h List.not_mem_nil
  exact ⟨⟨writable_lit _, hschema⟩, (huuid _).imp_right fun h => h.trans (by decide), source.small_toDict,
    htarget.imp_right fun h => h.trans (show 1 + 2 * 140 ≤ 9000 by decide), ⟨writable_task _, hsample.1⟩,
    ⟨writable_arr (by simp [ProjectContextEntry.writable_toDict]), hentries⟩, ⟨hanchors, hsample.2⟩,
    ⟨hnone, hnil⟩, ⟨hnone, hnil⟩, ⟨WorkspacePolicy.writable_toDict small_openPolicy, hpolicy⟩, ⟨hwritable, hbounds⟩⟩

theorem anchors_handoff : (handoffFields k source target handoffId d).anchors = .ok k.anchors := by
  have hread : SourceAnchor.fromDict verifiedAnchor.toDict true = .ok verifiedAnchor :=
    SourceAnchor.fromDict_toDict ⟨by decide, nofun⟩ fun _ => rfl
  cases k with
  | plain => rfl
  | leaky => rfl
  | anchored =>
    rw [HandoffFields.anchors, handoffFields, HandoffSample.anchors, List.map_singleton, List.mapM_cons, hread]
    rfl

/-- Every sample handoff is one. -/
theorem exists_handoffFields : ∃ (h : ContextHandoff) (d : Digest), h.toHandoffFields = handoffFields k source target handoffId d ∧
    parallelDigest "leanctx.context-handoff.v1" (mkObj h.unsignedFields) = .ok d := by
  obtain ⟨d, hd⟩ := domainDigest_of_writable "leanctx.context-handoff.v1" (small_handoff k source target handoffId source.stateDigest).1
  rw [← parallelDigest_eq_ok] at hd
  have hunsigned : (handoffFields k source target handoffId d).unsignedFields =
      (handoffFields k source target handoffId source.stateDigest).unsignedFields := rfl
  have hentries : (handoffFields k source target handoffId d).entries = .ok [decision] := by
    simp [HandoffFields.entries, handoffFields]
  have hbound : 0 < maxHandoffEntries := by decide
  have hpins : (handoffFields k source target handoffId d).pins = .ok [] := rfl
  have hsecret := holdsSecret_handoff k source target handoffId source.stateDigest
  have hsample : k.anchors.length ≤ maxHandoffAnchors ∧ (∀ a ∈ k.anchors, a.engineBinding = none) ∧
      (k.anchors.map (·.sourceId)).Pairwise (· < ·) := by
    cases k <;> decide
  have hcheck : (handoffFields k source target handoffId d).check = .ok () := by
    simp only [HandoffFields.check, hentries, anchors_handoff, hpins, parallelRejectSensitive, hunsigned, hd, bind_eq_ok,
      ensure_eq_ok, exists_const, Except.ok.injEq, exists_eq_left']
    exact ⟨⟨List.cons_ne_nil _ _, Nat.succ_le_of_lt hbound⟩, (List.length_map _).trans_le hsample.1, Nat.zero_le _,
      List.pairwise_singleton _ _, hsample.2.1, pyEq_refl _, hsample.2.2, fun e he i hi => by
        rw [List.mem_singleton.mp he] at hi
        exact absurd hi List.not_mem_nil, List.Pairwise.nil, hsecret, rfl⟩
  exact ⟨⟨_, hcheck⟩, d, rfl, hunsigned ▸ hd⟩

end

/-- A workspace hands over the entry of a checkpoint that it has stored. -/
theorem SampleCheckpoint.exists_createHandoff {s : State} {c : ContextCheckpoint} (h : SampleCheckpoint c [decision])
    (hstored : s.checkpoints.get? c.checkpointId = some c) (hlineage : ∀ l ∈ s.forkLineage, l.childWorkspaceId = c.workspaceId)
    (target handoffId : Uuid) : ∃ x, s.createHandoff c (handoffArguments target handoffId) = .ok x ∧
      ∃ d, x.toHandoffFields = handoffFields .plain ⟨c.workspaceId, c.checkpointId, c.stateDigest, c.envelopeDigest, s.forkLineage,
        hlineage⟩ target handoffId d := by
  obtain ⟨bytes, hbytes⟩ := canonical_of_writable h.small.1
  have hcheck : s.checkStored c = .ok () := by
    rw [State.checkStored, hstored]
    simp only [hbytes, ok_bind, ensure_of_true]
  have hget : c.logicalState.get "entries" = entriesJson [decision] ∧ c.logicalState.get "sources" = .arr [] ∧
      c.logicalState.get "package_pins" = .arr [] := by
    rw [h.logicalState, LogicalState.toDict]
    simp only [get_mkObj, LogicalState.bare]
    exact ⟨rfl, rfl, rfl⟩
  have hentries : (entriesJson [decision]) = .arr [decision.toDict] := rfl
  have hkeyed : keyed (entriesJson [decision]) "entry_id" "entries" = .ok [(decision.entryId.1, decision.toDict)] := rfl
  have hunkeyed : keyed (.arr []) "source_id" "sources" = .ok [] := rfl
  have hselect : selectKeys ((handoffArguments target handoffId).entryIds.1.map Subtype.val) [(decision.entryId.1, decision.toDict)]
      (.validation "handoff entry is not present in source state") = .ok [decision.toDict] := rfl
  have hsources : sortedUnion ([decision.toDict].flatMap fun e => textsOf (e.get "source_ids")) = [] := by decide
  have hrecovery : sortedUnion ([decision.toDict].flatMap fun e => textsOf (e.get "recovery_refs")) = [] := by decide
  have href : WorkspaceStateRef.fromCheckpoint c s.forkLineage =
      .ok ⟨c.workspaceId, c.checkpointId, c.stateDigest, c.envelopeDigest, s.forkLineage, hlineage⟩ := by
    rw [WorkspaceStateRef.fromCheckpoint, WorkspaceStateRef.make, dif_pos hlineage]
  obtain ⟨x, d, hx, hd⟩ := exists_handoffFields .plain ⟨c.workspaceId, c.checkpointId, c.stateDigest, c.envelopeDigest, s.forkLineage,
    hlineage⟩ target handoffId
  rw [hx] at hd
  obtain ⟨hwritable, hlength⟩ := small_handoff .plain ⟨c.workspaceId, c.checkpointId, c.stateDigest,
    c.envelopeDigest, s.forkLineage, hlineage⟩ target handoffId d
  obtain ⟨b, hb⟩ := canonical_of_writable hwritable
  have hbytes : b.length ≤ maxHandoffBytes := by
    rw [length_canonicalBytes (canonical_eq_ok.mp hb)]
    exact hlength.trans (by decide)
  refine ⟨x, ?_, d, hx⟩
  have hnone : selectKeys [] [] Err.conflict = .ok [] := rfl
  have hpins : sortRawPins ((itemsOf (.arr [])).map Json.plain) = [] := rfl
  have hrefs : sortedUniqueText (.arr (([] : List Str).map .str)) "recovery_refs" maxHandoffRecoveryRefs =
      .ok ⟨[], List.Pairwise.nil, by decide⟩ := rfl
  simp only [State.createHandoff, hcheck, ok_bind, ContextHandoff.create, hget, hkeyed, hselect, hunkeyed, hsources, hrecovery,
    hnone, hpins, hrefs, h.policy, href]
  refine bind_eq_ok.mpr ⟨(), ensure_true ⟨Nat.zero_le _, Nat.zero_le _⟩ _, bind_eq_ok.mpr ⟨(), ensure_true (Nat.zero_le _) _, ?_⟩⟩
  refine bind_eq_ok.mpr ⟨(), ensure_true (holdsSecret_handoff .plain _ target handoffId d) _, bind_eq_ok.mpr ⟨b, hb, ?_⟩⟩
  exact bind_eq_ok.mpr ⟨(), ensure_true hbytes _, bind_eq_ok.mpr ⟨d, hd, ContextHandoff.make_eq_ok.mpr hx⟩⟩

/-! ### Samples -/

theorem State.SampleChild.sample {t : State} {l : List ProjectContextEntry} (h : t.SampleChild sampleFork l) (hl : SampleEntries l) :
    t.Sample (numberedUuid 20) l 2 := by
  refine ⟨hl, h.policy, h.lifecycle, h.sources, h.sessions, h.entries, h.pins, h.lock, h.workspace, h.events, fun k hk hk' =>
    h.fresh _ (fun heq => ?_) (fun heq => ?_), h.last⟩
  · have := numberedUuid_inj (by decide) (by omega) heq
    omega
  · have := numberedUuid_inj (by decide) (by omega) heq
    omega

/-- What a step leaves of a sample workspace, with the journal that holds its event. -/
theorem State.Sample.Step.exists_next {s t : State} {ws : Uuid} {l l' : List ProjectContextEntry} {n : Nat} {kind : EventKind}
    {payload : Json} {files : List EventFile} (hstep : State.Sample.Step s t ws l' n kind payload) (h : s.Sample ws l n)
    (hn : n + 1 < 20) (hs : project ws files = .ok s) : ∃ u e files', u.Sample ws l' (n + 1) ∧ u.checkpoints = t.checkpoints ∧
      u.forkLineage = t.forkLineage ∧ u.appliedHandoffs = t.appliedHandoffs ∧ e.kind = kind ∧ Accepts (some s) e u ∧
      project ws files' = .ok u := by
  obtain ⟨e, receipt, a, he, happly, hsample, -, -, hs'⟩ := hstep.append h hn hs
  obtain ⟨-, -, -, -, hkind, -⟩ := Event.sealed_record he
  exact ⟨t.after e receipt, e, a.files, hsample, rfl, rfl, rfl, hkind, ⟨false, happly⟩, hs'⟩

/-- A sample workspace takes a checkpoint before it commits its entry and one after, and its journal is read again. -/
theorem exists_committed : ∃ s c₀ c files, Machine.Reaches Accepts (fun _ e => e.kind ≠ .workspaceRestored) s ∧
    s.Sample (numberedUuid 0) [decision] 4 ∧ SampleCheckpoint c₀ [] ∧ c₀.workspaceId = numberedUuid 0 ∧
    s.checkpoints.get? c₀.checkpointId = some c₀ ∧ SampleCheckpoint c [decision] ∧ c.workspaceId = numberedUuid 0 ∧
    s.checkpoints.get? c.checkpointId = some c ∧ s.forkLineage = none ∧ s.appliedHandoffs = .empty ∧
    project (numberedUuid 0) files = .ok s := by
  obtain ⟨files₁, s₁, hs₁, hsample₁, hnone, happlied, hlineage, e₁, hcreated, hstart⟩ := exists_sample
  obtain ⟨c₀, hid₀, hc₀⟩ := hsample₁.exists_checkpoint (numberedUuid 899)
  have hstep₂ := hsample₁.step_checkpoint (by decide) hc₀ (by rw [Dict.contains, hnone]; rfl) (by rw [hnone]; decide)
  obtain ⟨s₂, e₂, files₂, hsample₂, hcheckpoints₂, hlineage₂, happlied₂, hkind₂, happly₂, hs₂⟩ :=
    hstep₂.exists_next hsample₁ (by decide) hs₁
  obtain ⟨s₃, e₃, files₃, hsample₃, hcheckpoints₃, hlineage₃, happlied₃, hkind₃, happly₃, hs₃⟩ :=
    (hsample₂.step_commit (by decide)).exists_next hsample₂ (by decide) hs₂
  obtain ⟨c, hid, hc⟩ := hsample₃.exists_checkpoint (numberedUuid 900)
  have hne : c₀.checkpointId ≠ c.checkpointId := by
    rw [hid₀, hid]
    exact fun heq => absurd (numberedUuid_inj (by decide) (by decide) heq) (by decide)
  have hone : s₃.checkpoints = Dict.empty.set c₀.checkpointId c₀ := hcheckpoints₃.trans (hcheckpoints₂.trans (by rw [hnone]))
  have hstep₄ := hsample₃.step_checkpoint (by decide) hc (by rw [hone, Dict.contains, Dict.get?_set_of_ne _ _ hne]; rfl) (by
    rw [hone]
    exact (show 2 ≤ State.maxCheckpoints by decide))
  obtain ⟨s₄, e₄, files₄, hsample₄, hcheckpoints₄, hlineage₄, happlied₄, hkind₄, happly₄, hs₄⟩ :=
    hstep₄.exists_next hsample₃ (by decide) hs₃
  have hreach : Machine.Reaches Accepts (fun _ e => e.kind ≠ .workspaceRestored) s₄ := .next (.next (.next (.start
    (by rw [hcreated]; decide) hstart) (by rw [hkind₂]; decide) happly₂) (by rw [hkind₃]; decide) happly₃) (by rw [hkind₄]; decide)
    happly₄
  have hstored₀ : s₄.checkpoints.get? c₀.checkpointId = some c₀ := by
    rw [hcheckpoints₄, Dict.get?_set_of_ne _ _ hne.symm, hone, Dict.get?_set_self]
  have hstored : s₄.checkpoints.get? c.checkpointId = some c := by
    rw [hcheckpoints₄, Dict.get?_set_self]
  exact ⟨s₄, c₀, c, files₄, hreach, hsample₄, ⟨.nil, hc₀.content, hc₀.small⟩, hc₀.workspace.trans hsample₁.workspace, hstored₀,
    ⟨.one, hc.content, hc.small⟩, hc.workspace.trans hsample₃.workspace, hstored,
    hlineage₄.trans (hlineage₃.trans (hlineage₂.trans hlineage)), happlied₄.trans (happlied₃.trans (happlied₂.trans happlied)), hs₄⟩

/-! ### Whose handoffs are recognized -/

/-- Whose handoffs a receiver recognizes: those of the checkpoint of a root workspace that it was forked from, and none of its own
    children. What it recognizes when it admits a handoff it recognizes when it applies the handoff. -/
theorem lineage_recognized :
    (∀ {s u s₁ s₂ t : State} {c a b x h} {root : Uuid → Option State}, Machine.Reaches Accepts (fun _ _ => True) s →
      s.forkLineage = none → s.checkStored c = .ok () → Machine.Runs Accepts (fun _ _ => True) s u → u.forkFrom c a = .ok b →
      Machine.Runs Accepts (fun _ _ => True) s s₁ → s₁.createHandoff c x = .ok h →
      Machine.Runs Accepts (fun _ _ => True) s s₂ → root c.workspaceId = some s₂ →
      Machine.Runs Accepts (fun _ _ => True) b.child t → t.admitsLineage (t.senderOf root h) h = true) ∧
    (∀ {s s₁ t : State} {c d a b x h} {sender : Option State}, Machine.Reaches Accepts (fun _ _ => True) s →
      s.forkFrom c a = .ok b → Machine.Runs Accepts (fun _ _ => True) b.child t → t.createHandoff d x = .ok h →
      Machine.Runs Accepts (fun _ _ => True) s s₁ → s₁.admitsLineage sender h = false) ∧
    ∀ {s t : State} {h} {root : Uuid → Option State}, Machine.Reaches Accepts (fun _ _ => True) s →
      s.admitsLineage (s.senderOf root h) h = true → Machine.Runs Accepts (fun _ _ => True) s t →
      t.lineageOk h.source = true :=
  ⟨fun hreach hroot hstored _ hfork hrun₁ hh hrun₂ hsender hrun =>
    admitsLineage_of_parent hreach hroot hstored hfork hrun₁ hh hrun₂ hsender hrun,
    fun hreach hfork hrun hh hrun₁ => admitsLineage_of_child hreach hfork hrun hh hrun₁,
    fun hreach hadmits hrun => lineageOk_of_admitsLineage hreach hadmits hrun⟩

/-- A handoff that a workspace recognizes as its parent's, and recognizes when it applies it. -/
theorem exists_lineage_recognized : ∃ (t : State) (h : ContextHandoff) (root : Uuid → Option State),
    t.admitsLineage (t.senderOf root h) h = true ∧ t.lineageOk h.source = true := by
  obtain ⟨s, -, c, -, hreach, hsample, -, -, -, hc, hws, hstored, hlineage, -, -⟩ := exists_committed
  have hreach : Machine.Reaches Accepts (fun _ _ => True) s := hreach.mono fun _ _ _ => trivial
  obtain ⟨b, hb, -⟩ := hc.exists_forkFrom sampleFork_sample (sampleFork_ne hws) hsample.lifecycle hstored
  obtain ⟨h, hh, -⟩ := hc.exists_createHandoff hstored (by simp [hlineage]) (numberedUuid 20) (numberedUuid 30)
  have hadmits : b.child.admitsLineage (b.child.senderOf (fun _ => some s) h) h = true :=
    lineage_recognized.1 hreach hlineage (checkStored_of_forkFrom hb) .refl hb .refl hh .refl rfl .refl
  exact ⟨b.child, h, fun _ => some s, hadmits, lineage_recognized.2.2 (reaches_forkFrom hb) hadmits .refl⟩

/-- Not every handoff between a workspace and a fork of it is recognized. -/
theorem not_lineage_recognized : ¬∀ {s t : State} {c d a b x h} {root : Uuid → Option State},
    Machine.Reaches Accepts (fun _ _ => True) s → s.forkFrom c a = .ok b → Machine.Runs Accepts (fun _ _ => True) b.child t →
    t.createHandoff d x = .ok h → h.targetWorkspaceId = s.identity.workspaceId → root t.identity.workspaceId = some t →
    s.admitsLineage (s.senderOf root h) h = true := by
  intro hall
  obtain ⟨s, -, c, -, hreach, hsample, -, -, -, hc, hws, hstored, -, -, -⟩ := exists_committed
  have hreach : Machine.Reaches Accepts (fun _ _ => True) s := hreach.mono fun _ _ _ => trivial
  obtain ⟨b, hb, hchild⟩ := hc.exists_forkFrom sampleFork_sample (sampleFork_ne hws) hsample.lifecycle hstored
  have hchildSample := hchild.sample .one
  -- the child takes a checkpoint of its own and hands it to its parent
  obtain ⟨d, -, hd⟩ := hchildSample.exists_checkpoint (numberedUuid 901)
  have hstep := hchildSample.step_checkpoint (by decide) hd (by rw [Dict.contains, hchild.checkpoints]; rfl)
    (by rw [hchild.checkpoints]; decide)
  obtain ⟨e, receipt, -, ht, hnext⟩ := hstep.exists_event hchildSample (by decide)
  have hdc : SampleCheckpoint d [decision] := ⟨.one, hd.content, hd.small⟩
  obtain ⟨-, -, -, l, hl, hof⟩ := rooted_forkFrom hb
  have hown : ∀ m ∈ (({ b.child with checkpoints := b.child.checkpoints.set d.checkpointId d } : State).after e receipt).forkLineage,
      m.childWorkspaceId = d.workspaceId := by
    intro m hm
    obtain rfl : l = m := Option.some.inj (hl.symm.trans hm)
    rw [hof.child, hd.workspace, hchild.workspace]
  obtain ⟨h, hh, _, hfields⟩ := hdc.exists_createHandoff (Dict.get?_set_self _ _ _) hown (numberedUuid 0) (numberedUuid 30)
  have hrun : Machine.Runs Accepts (fun _ _ => True) b.child
      (({ b.child with checkpoints := b.child.checkpoints.set d.checkpointId d } : State).after e receipt) :=
    .next .refl trivial ⟨false, ht⟩
  have htarget : h.targetWorkspaceId = s.identity.workspaceId := by
    rw [hfields]
    exact hsample.workspace.symm
  have hadmits := @hall _ _ _ _ _ _ _ _ (fun _ => some _) hreach hb hrun hh htarget rfl
  rw [admitsLineage_of_child hreach hb hrun hh .refl] at hadmits
  cases hadmits

end LeanCtx
