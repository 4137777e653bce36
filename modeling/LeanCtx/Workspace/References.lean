import LeanCtx.Workspace.Confinement

/-! References: every source that a session or an entry names is a source of the workspace. A restore replaces the sources
    and keeps the sessions, so this holds of the runs whose restores bring every source that a session names. -/

namespace LeanCtx

/-- Sessions and entries name sources of the workspace only. -/
structure State.Referenced (s : State) : Prop where
  sessions : ∀ r ∈ s.sessions, ∀ i ∈ r.sourceIds.1, s.sources.contains i = true
  entries : ∀ x ∈ s.entries, ∀ i ∈ x.sourceIds.1, s.sources.contains i = true

/-- A restore is to a checkpoint that holds every source that a session names. -/
def RestoreKeeps (s : Option State) (e : Event) : Prop :=
  e.kind = .workspaceRestored → ∀ t ∈ s, ∀ c target, t.namedCheckpoint e.payload = .ok c →
    logicalStateComponents c.logicalState t.identity.workspaceId = .ok target →
    ∀ r ∈ t.sessions, ∀ i ∈ r.sourceIds.1, target.sources.contains i = true

namespace State
variable {s s' : State} {allow : Bool} {p : Json} {e : Event}

theorem Referenced.of_eq (h : s.Referenced) (hsources : s'.sources = s.sources) (hsessions : s'.sessions = s.sessions)
    (hentries : s'.entries = s.entries) : s'.Referenced := by
  refine ⟨?_, ?_⟩
  · rw [hsources, hsessions]
    exact h.sessions
  · rw [hsources, hentries]
    exact h.entries

/-- More sources keep every reference. -/
theorem Referenced.of_sources (h : s.Referenced) {d : Dict SourceId SourceAnchor}
    (hd : ∀ i, s.sources.contains i = true → d.contains i = true) : ({ s with sources := d } : State).Referenced :=
  ⟨fun r hr i hi => hd i (h.sessions r hr i hi), fun x hx i hi => hd i (h.entries x hx i hi)⟩

/-- A state without sessions whose content refers to itself. -/
theorem referenced_of_content (hsessions : s.sessions = [])
    (hentries : ∀ x ∈ s.entries, ∀ i ∈ x.sourceIds.1, s.sources.contains i = true) : s.Referenced :=
  ⟨fun _ hr => absurd (hsessions ▸ hr) List.not_mem_nil, hentries⟩

/-- Every event but a restore keeps the references, and so does a restore that brings the sources of the sessions. -/
theorem Referenced.effect (h : s.Referenced) (hfew : s.sessions.length < s.events.length)
    (hkeeps : RestoreKeeps (some s) e) (he : s.effect allow e = .ok s') : s'.Referenced := by
  unfold State.effect at he
  split at he
  · cases he
  · obtain ⟨a, -, -, -, -, rfl⟩ := attachSource_eq_ok he
    exact h.of_sources fun i hi => Dict.contains_set.mpr (Or.inr hi)
  · obtain ⟨a, _, _, -, -, -, -, -, rfl⟩ := updateSource_eq_ok he
    exact h.of_sources fun i hi => Dict.contains_set.mpr (Or.inr hi)
  · obtain ⟨_, _, -, -, -, -, -, -, rfl⟩ := tightenPolicy_eq_ok he
    exact h.of_eq rfl rfl rfl
  · obtain ⟨record, -, -, -, -, hsources, rfl⟩ := attachSession_eq_ok he
    refine ⟨fun r hr => ?_, h.entries⟩
    rcases List.mem_append.mp hr with hr | hr
    · exact h.sessions r hr
    · obtain rfl := List.mem_singleton.mp hr
      exact hsources
  · obtain ⟨_, entries, -, -, -, -, -, -, hchecks, rfl⟩ := commitContext_eq_ok he
    refine ⟨h.sessions, fun x hx => ?_⟩
    rcases List.mem_append.mp hx with hx | hx
    · exact h.entries x hx
    · exact (checkEntry_eq_ok (hchecks x hx)).1
  · obtain ⟨f, raw, parent, -, hsessions, -, -, hparent, -, rfl⟩ := fork_eq_ok he
    refine referenced_of_content hsessions fun x hx i hi => ?_
    have hi := (logicalStateComponents_eq_ok hparent).referenced x hx i hi
    rwa [Dict.contains, forked, Dict.get?_mapValues, Option.isSome_map]
  · obtain ⟨_, _, imported, appended, -, -, -, -, -, -, -, -, happended, -, rfl⟩ := applyHandoff_eq_ok he
    refine ⟨fun r hr i hi => Dict.contains_update.mpr (Or.inl (h.sessions r hr i hi)), fun x hx i hi => ?_⟩
    rcases List.mem_append.mp hx with hx | hx
    · exact Dict.contains_update.mpr (Or.inl (h.entries x hx i hi))
    · exact Dict.contains_update.mpr ((appendedEntries_eq_ok happended x hx).2.2 i hi)
  · obtain ⟨_, _, -, -, -, -, rfl⟩ := pinPackage_eq_ok he
    exact h.of_eq rfl rfl rfl
  · obtain ⟨_, _, -, -, -, -, -, -, -, rfl⟩ := createCheckpoint_eq_ok he
    exact h.of_eq rfl rfl rfl
  · next hkind =>
    obtain ⟨c, target, hnamed, htarget, -, -, rfl⟩ := restore_eq_ok he
    exact ⟨hkeeps hkind s rfl c target hnamed htarget, (logicalStateComponents_eq_ok htarget).referenced⟩
  · obtain ⟨c, target, -, -, hevents, -, htarget, -, -, rfl⟩ := seed_eq_ok he
    have hsessions : s.sessions = [] := List.eq_nil_of_length_eq_zero (by omega)
    exact referenced_of_content hsessions (logicalStateComponents_eq_ok htarget).referenced
  · obtain rfl := sealWorkspace_eq_ok he
    exact h
  · cases he
    exact h.of_eq rfl rfl rfl
  · obtain rfl := abort_eq_ok he
    exact h.of_eq rfl rfl rfl

/-- An event adds at most one session. -/
theorem length_sessions_effect (he : s.effect allow e = .ok s') : s'.sessions.length ≤ s.sessions.length + 1 := by
  unfold State.effect at he
  split at he
  · cases he
  · obtain ⟨a, -, -, -, -, rfl⟩ := attachSource_eq_ok he
    exact Nat.le_succ _
  · obtain ⟨a, _, _, -, -, -, -, -, rfl⟩ := updateSource_eq_ok he
    exact Nat.le_succ _
  · obtain ⟨_, _, -, -, -, -, -, -, rfl⟩ := tightenPolicy_eq_ok he
    exact Nat.le_succ _
  · obtain ⟨record, -, -, -, -, -, rfl⟩ := attachSession_eq_ok he
    rw [List.length_append, List.length_singleton]
  · obtain ⟨_, _, -, -, -, -, -, -, -, rfl⟩ := commitContext_eq_ok he
    exact Nat.le_succ _
  · obtain ⟨_, _, _, -, -, -, -, -, -, rfl⟩ := fork_eq_ok he
    exact Nat.le_succ _
  · obtain ⟨_, _, _, _, -, -, -, -, -, -, -, -, -, -, rfl⟩ := applyHandoff_eq_ok he
    exact Nat.le_succ _
  · obtain ⟨_, _, -, -, -, -, rfl⟩ := pinPackage_eq_ok he
    exact Nat.le_succ _
  · obtain ⟨_, _, -, -, -, -, -, -, -, rfl⟩ := createCheckpoint_eq_ok he
    exact Nat.le_succ _
  · obtain ⟨_, _, -, -, -, -, rfl⟩ := restore_eq_ok he
    exact Nat.le_succ _
  · obtain ⟨_, _, -, -, -, -, -, -, -, rfl⟩ := seed_eq_ok he
    exact Nat.le_succ _
  · obtain rfl := sealWorkspace_eq_ok he
    exact Nat.le_succ _
  · cases he
    exact Nat.le_succ _
  · obtain rfl := abort_eq_ok he
    exact Nat.le_succ _

end State

/-- In a run whose restores keep the sources of the sessions, every reference is to a source of the workspace. -/
theorem referenced_of_restoreKeeps {s : State} (h : Machine.Reaches Accepts RestoreKeeps s) : s.Referenced := by
  refine (h.invariant (I := fun s => s.Referenced ∧ s.sessions.length < s.events.length) ?_ ?_).1
  · rintro e s - ⟨allow, he⟩
    obtain ⟨-, -, t, ht, hrecord⟩ := applyEvent_none.mp he
    obtain ⟨identity, policy, -, -, rfl⟩ := State.create_eq_ok ht
    obtain ⟨receipt, -, -, -, rfl⟩ := State.recordEvent_eq_ok.mp hrecord
    exact ⟨State.referenced_of_content rfl fun _ hx => absurd hx List.not_mem_nil, Nat.zero_lt_one⟩
  · rintro s e s' ⟨hinv, hfew⟩ hkeeps ⟨allow, he⟩
    obtain ⟨-, -, -, t, ht, hrecord⟩ := applyEvent_some.mp he
    obtain ⟨receipt, -, -, -, rfl⟩ := State.recordEvent_eq_ok.mp hrecord
    have hlength := State.length_sessions_effect ht
    have hevents := (State.effect_frame ht).2.1
    refine ⟨(hinv.effect hfew hkeeps ht).of_eq rfl rfl rfl, ?_⟩
    show t.sessions.length < (t.events ++ [e]).length
    rw [hevents, List.length_append, List.length_singleton]
    omega

/-! ### Commits of a session -/

/-- The sources of a session that a receipt is bound to, as `commit_context` looks for them: by the binding of the source,
    or the one that the running client knows. -/
def State.matchingSources (s : State) (runtime : SourceId → Option EngineBinding) (receiptSource : Json) :
    List SourceId → Except Err (List SourceId)
  | [] => .ok []
  | i :: l =>
    match s.sources.get? i with
    | none => .error .keyError
    | some a => do
      let rest ← matchingSources s runtime receiptSource l
      return if (a.engineBinding <|> runtime i).any (fun b => Json.pyEq b.1 receiptSource) then i :: rest else rest

theorem State.matchingSources_eq_ok {s : State} (runtime : SourceId → Option EngineBinding) (receiptSource : Json)
    {l : List SourceId} (h : ∀ i ∈ l, s.sources.contains i = true) :
    ∃ m, s.matchingSources runtime receiptSource l = .ok m := by
  induction l with
  | nil => exact ⟨[], rfl⟩
  | cons i l ih =>
    rw [List.forall_mem_cons] at h
    obtain ⟨a, ha⟩ := Option.isSome_iff_exists.mp h.1
    obtain ⟨m, hm⟩ := ih h.2
    rw [matchingSources, ha]
    simp only [hm, ok_bind]
    exact ⟨_, rfl⟩

/-- No commit of a session of the workspace fails on a source that is missing. -/
def State.CommitsFind (s : State) : Prop :=
  ∀ r ∈ s.sessions, ∀ runtime receiptSource, s.matchingSources runtime receiptSource r.sourceIds.1 ≠ .error .keyError

def localAnchor : SourceAnchor where
  sourceId := ⟨Str.lit "source-1", by decide⟩
  kind := .filesystem
  canonicalId := ⟨Str.lit "file://a", by decide⟩
  revision := none
  freshness := ⟨sampleTime, .current, none, by decide⟩
  recovery := none
  trust := ⟨.local, ⟨[], List.Pairwise.nil, by decide⟩, by decide⟩
  scope := ⟨⟨Str.lit "file", by decide⟩, ⟨Str.lit "a", by decide⟩⟩
  engineBinding := none
  revisionKind := by decide
  bindingKind := by decide

def localSession : SessionRecord where
  sessionId := ⟨Str.lit "session-1", by decide⟩
  taskId := ⟨Str.lit "task-1", by decide⟩
  sourceIds := ⟨[localAnchor.sourceId], by simp, by decide⟩

theorem safe_localAnchor : Safe localAnchor.toDict := by
  unfold Safe
  decide

theorem writable_localAnchor : localAnchor.toDict.Writable := Option.isSome_iff_exists.mp (by decide +kernel)

theorem safe_localSession : Safe localSession.toDict := by
  unfold Safe
  decide

theorem small_byteLength_bare : Json.byteLength ((LogicalState.bare openPolicy []).toDict (numberedUuid 0)) ≤ maxCheckpointBytes := by
  decide +kernel

theorem ensureBounds_openPolicy {s : State} {extra : Bool} (hpolicy : s.policy = openPolicy) (hentries : s.entries = [])
    (hevents : s.events.length ≤ 1000) (hsources : s.sources.size ≤ 1000) (hsessions : s.sessions.length ≤ 1000)
    (hpins : s.packagePins.size ≤ 128) : s.ensureBounds extra = .ok () := by
  have hroom : (openPolicy.maxEvents.1, openPolicy.maxSources.1, openPolicy.maxSessions.1, openPolicy.maxContextEntries.1,
      openPolicy.maxContextBytes.1) = (1000000000, 1000000000, 1000000000, 1000000000, 1000000000) := rfl
  simp only [Prod.mk.injEq] at hroom
  refine State.ensureBounds_eq_ok.mpr ⟨?_, ?_, ?_, ?_, hpins, ?_, 2, ?_, ?_⟩
  · rw [hpolicy, hroom.1]
    split_ifs <;> omega
  · rw [hpolicy, hroom.2.1]
    omega
  · rw [hpolicy, hroom.2.2.1]
    omega
  · rw [hentries]
    exact Nat.zero_le _
  · rw [hentries]
    exact fun _ hx => absurd hx List.not_mem_nil
  · rw [hentries]
    rfl
  · rw [hpolicy, hroom.2.2.2.2]
    omega

theorem contains_set_of_ne {κ ν : Type} [DecidableEq κ] {d : Dict κ ν} {k j : κ} {v : ν} (h : k ≠ j) :
    (d.set k v).contains j = d.contains j := by
  rw [Dict.contains, Dict.get?_set_of_ne _ _ h, Dict.contains]

theorem numberedUuid_ne {m n : Nat} (h : (m, n).1 ≠ (m, n).2) (hm : m < 10 ^ 8) (hn : n < 10 ^ 8) :
    numberedUuid m ≠ numberedUuid n := fun heq => h (numberedUuid_inj hm hn heq)

/-- A workspace is restored to a checkpoint from before a source and a session were attached. -/
theorem exists_restored_session : ∃ s, Machine.Reaches Accepts (fun _ _ => True) s ∧ s.sessions = [localSession] ∧
    s.sources = .empty := by
  obtain ⟨identity, hown, hws, hname, -⟩ := WorkspaceIdentity.exists_own (numberedUuid 0) sampleName sampleTime
    (by decide)
  obtain ⟨e, receipt, -, hs⟩ := exists_created hown (by rw [hname]; exact safe_str (by decide)) small_openPolicy
    (by decide) (numberedUuid 1) true
  have hstorable : (LogicalState.bare openPolicy []).Storable identity.workspaceId := by
    rw [hws]
    exact LogicalState.storable_bare small_openPolicy (by decide) (by decide) (fun _ hx => absurd hx List.not_mem_nil)
      (fun _ hx => absurd hx List.not_mem_nil) small_byteLength_bare
  obtain ⟨c, hid, hc, href, hlineage, hcontent⟩ := hstorable.exists_checkpoint (numberedUuid 2) e.eventDigest.eventRef
    identity.stateId.ref e.eventDigest.prefix_eventRef
  have hnone : (LogicalState.bare openPolicy []).recoveryRefs = [] := by decide
  have hsafe : Safe c.toDict := safe_checkpoint hcontent (hc ▸ hstorable.safe) (fun _ h => absurd h List.not_mem_nil)
    (fun _ h => absurd h List.not_mem_nil) (fun _ h => absurd (hnone ▸ h) List.not_mem_nil) (href ▸ safe_eventRef _)
    (hlineage ▸ safe_digestRef _)
  have hne : ∀ {m n : Nat}, m < 10 → n < 10 → m ≠ n → numberedUuid m ≠ numberedUuid n := fun hm hn h heq =>
    h (numberedUuid_inj (by omega) (by omega) heq)
  let event (n : Nat) (kind : EventKind) (payload : Json) : Event :=
    ⟨numberedUuid 0, .one, numberedUuid n, kind, payload, none, e.eventDigest⟩
  let after (s : State) (e : Event) (receipt : WorkspaceReceipt) : State :=
    { s.withEvent e with receipts := s.receipts.set e.eventId receipt }
  -- a checkpoint, a source, a session of the source, and back to the checkpoint
  let s1 : State := { (State.created identity openPolicy).withEvent e with receipts := Dict.empty.set (numberedUuid 1) receipt }
  have hreach1 : Machine.Reaches Accepts (fun _ _ => True) s1 := .start trivial ⟨true, hs⟩
  let e2 := event 3 .checkpointCreated (Json.mkObj [("checkpoint", c.toDict)])
  have hnew2 : s1.receipts.contains e2.eventId = false := contains_set_of_ne (hne (by decide) (by decide) (by decide))
  obtain ⟨receipt2, hs2⟩ := applyEvent_checkpoint (l := LogicalState.bare openPolicy []) (c := c) (s := s1) (e := e2)
    ⟨rfl, rfl, rfl, ⟨small_openPolicy, fun _ ha => absurd ha List.not_mem_nil⟩, hc, hstorable, hcontent, rfl, rfl,
      fun _ ha => absurd ha List.not_mem_nil, rfl, show 1 ≤ 512 by decide, congrArg Subtype.val hlineage,
      congrArg Subtype.val href, hsafe, ensureBounds_openPolicy rfl rfl (show 1 ≤ 1000 by decide) (show 0 ≤ 1000 by decide)
        (show 0 ≤ 1000 by decide) (show 0 ≤ 128 by decide), hnew2⟩ true
  let s2 := after { s1 with checkpoints := s1.checkpoints.set c.checkpointId c } e2 receipt2
  have hreach2 : Machine.Reaches Accepts (fun _ _ => True) s2 := .next hreach1 trivial ⟨true, hs2⟩
  let e3 := event 4 .sourceAttached (Json.mkObj [("anchor", localAnchor.toDict)])
  have hnew3 : s2.receipts.contains e3.eventId = false :=
    (contains_set_of_ne (hne (by decide) (by decide) (by decide))).trans
      (contains_set_of_ne (hne (by decide) (by decide) (by decide)))
  obtain ⟨receipt3, hs3⟩ := applyEvent_source (a := localAnchor) (s := s2) (e := e3)
    ⟨rfl, rfl, rfl, ⟨small_openPolicy, fun _ ha => absurd ha List.not_mem_nil⟩, ⟨by decide, by decide⟩, by decide,
      safe_localAnchor, writable_localAnchor, rfl, show 1 ≤ 1000000000 by decide, Or.inl rfl,
      ensureBounds_openPolicy rfl rfl (show 2 ≤ 1000 by decide) (show 1 ≤ 1000 by decide) (show 0 ≤ 1000 by decide)
        (show 0 ≤ 128 by decide), hnew3⟩ true
  let s3 := after { s2 with sources := s2.sources.set localAnchor.sourceId localAnchor } e3 receipt3
  have hreach3 : Machine.Reaches Accepts (fun _ _ => True) s3 := .next hreach2 trivial ⟨true, hs3⟩
  let e4 := event 5 .sessionAttached localSession.toDict
  have hnew4 : s3.receipts.contains e4.eventId = false :=
    (contains_set_of_ne (hne (by decide) (by decide) (by decide))).trans <|
      (contains_set_of_ne (hne (by decide) (by decide) (by decide))).trans
        (contains_set_of_ne (hne (by decide) (by decide) (by decide)))
  obtain ⟨receipt4, hs4⟩ := applyEvent_session (r := localSession) (s := s3) (e := e4)
    ⟨rfl, rfl, rfl, ⟨small_openPolicy, fun _ ha => (Dict.mem_values_set ha).elim (fun h => h ▸ writable_localAnchor)
      fun h => absurd h List.not_mem_nil⟩, safe_localSession, by decide, List.not_mem_nil, fun i hi => by
        rw [List.mem_singleton.mp hi]
        exact Dict.contains_set.mpr (Or.inl rfl), show 1 ≤ 1000000000 by decide,
      ensureBounds_openPolicy rfl rfl (show 3 ≤ 1000 by decide) (show 1 ≤ 1000 by decide) (show 1 ≤ 1000 by decide)
        (show 0 ≤ 128 by decide), hnew4⟩ true
  let s4 := after { s3 with sessions := s3.sessions ++ [localSession] } e4 receipt4
  have hreach4 : Machine.Reaches Accepts (fun _ _ => True) s4 := .next hreach3 trivial ⟨true, hs4⟩
  let e5 := event 6 .workspaceRestored (Json.mkObj (restorePayload c))
  have hnew5 : s4.receipts.contains e5.eventId = false :=
    (contains_set_of_ne (hne (by decide) (by decide) (by decide))).trans <|
      (contains_set_of_ne (hne (by decide) (by decide) (by decide))).trans <|
        (contains_set_of_ne (hne (by decide) (by decide) (by decide))).trans
          (contains_set_of_ne (hne (by decide) (by decide) (by decide)))
  obtain ⟨receipt5, hs5⟩ := applyEvent_restore (c := c) (l := LogicalState.bare openPolicy []) (s := s4) (e := e5)
    ⟨rfl, rfl, rfl, Dict.get?_set_self _ _ _, by rw [hcontent.logicalState, hc]; exact hstorable.reads,
      ⟨small_openPolicy, fun _ ha => absurd ha List.not_mem_nil⟩, WorkspacePolicy.isTightening_refl _,
      fun _ ha => absurd ha List.not_mem_nil, ensureBounds_openPolicy rfl rfl (show 4 ≤ 1000 by decide)
        (show 0 ≤ 1000 by decide) (show 1 ≤ 1000 by decide) (show 0 ≤ 128 by decide), hnew5⟩ true
  exact ⟨_, .next hreach4 trivial ⟨true, hs5⟩, rfl, rfl⟩

end LeanCtx
