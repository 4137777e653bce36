import LeanCtx.Json.Fields
import LeanCtx.Workspace.Forking
import LeanCtx.Workspace.Sampling

/-! Restoring: a checkpoint is written into the journal, read back and put in the place of the logical state, and nothing
    else of the workspace changes. -/

namespace LeanCtx
open Json

/-! ### The operation -/

/-- `restore(checkpoint, event_id=…)` under the lock: the journal after it, and the receipt. Whether the sources of the
    checkpoint verify is not part of the state. -/
def restoreWorkspace (workspaceId : Uuid) (files : List EventFile) (c : ContextCheckpoint) (eventId : Uuid)
    (verify : Except Err Unit) : Except Err Appended := do
  ensure (c.workspaceId = workspaceId) .conflict
  let s ← readState workspaceId files
  s.checkStored c
  verify
  let a ← (append workspaceId files ⟨.workspaceRestored, mkObj (restorePayload c), eventId, false, verify⟩).2
  let restored ← readState workspaceId a.files
  let d ← restored.logicalDigest
  ensure (d = c.stateDigest) .corrupt
  return a

/-! ### What a logical state reads as -/

theorem Dict.sortedValues_ofItems {κ ν : Type} [DecidableEq κ] [LinearOrder κ] {l : List (κ × ν)}
    (h : (l.map Prod.fst).Pairwise (· < ·)) : (ofItems l).sortedValues = l.map Prod.snd := by
  have hle : l.Pairwise fun p q => p.1 ≤ q.1 := (List.pairwise_map.mp h).imp fun hlt => le_of_lt hlt
  rw [sortedValues, items_ofItems (h.imp fun {_ _} => ne_of_lt), hle.insertionSort_eq]

/-- The parts of a logical state have the JSON values that they were read from. -/
structure LogicalState.Same (l : LogicalState) (v : Json) : Prop where
  sources : pyEq (.arr (l.sources.sortedValues.map SourceAnchor.toDict)) (v.get "sources") = true
  entries : pyEq (entriesJson l.entries) (v.get "entries") = true
  pins : pyEq (.arr (l.packagePins.sortedValues.map PackagePin.toDict)) (v.get "package_pins") = true
  lock : v.get "package_lock_digest" = optional Digest.json l.packageLockDigest

theorem logicalStateComponents_same {v : Json} {ws : Uuid} {l : LogicalState}
    (h : logicalStateComponents v ws = .ok l) : l.Same v := by
  simp only [logicalStateComponents, bind_eq_ok, ensure_eq_ok, exists_const] at h
  obtain ⟨_, -, -, -, h⟩ := h
  split at h
  · next rawSources rawEntries rawPins hsources hentries hpins =>
    simp only [bind_eq_ok, ensure_eq_ok, exists_const, pure_eq_ok] at h
    obtain ⟨-, _, -, -, policy, -, anchors, -, entries, -, pins, -, hanchors, hcanonical, hpinned, -, hsorted, -, -,
      hpinSorted, lock, -, hlock, rfl⟩ := h
    have hanchorValues : (Dict.ofItems (anchors.map fun a => (a.sourceId, a))).sortedValues = anchors := by
      rw [Dict.sortedValues_ofItems (by rwa [List.map_map]), List.map_map]
      exact List.map_id anchors
    have hpinValues : (Dict.ofItems (pins.map fun p => (p.key, p))).sortedValues = pins := by
      rw [Dict.sortedValues_ofItems (by rwa [List.map_map]), List.map_map]
      exact List.map_id pins
    refine ⟨?_, hentries ▸ hcanonical, ?_, hlock⟩
    · rw [hanchorValues, hsources]
      exact hanchors
    · rw [hpinValues, hpins]
      exact hpinned
  · cases h

/-- What a checkpoint of a state reads as has the logical state of that state. -/
structure State.Holds (s : State) (l : LogicalState) : Prop where
  policy : l.policy = s.policy
  entries : l.entries = s.entries
  lock : l.packageLockDigest = s.packageLockDigest
  logical : pyEq (l.toDict s.identity.workspaceId) s.logicalState = true

theorem State.holds_self (s : State) : s.Holds s.logical := ⟨rfl, rfl, rfl, pyEq_refl _⟩

theorem State.holds_of_pyEq {s : State} {v : Json} {ws : Uuid} {l : LogicalState} (hl : logicalStateComponents v ws = .ok l)
    (heq : pyEq v s.logicalState = true) : s.Holds l := by
  have hreads := logicalStateComponents_eq_ok hl
  have hsame := logicalStateComponents_same hl
  have hpolicy := hreads.policy_eq heq
  have hentries := hreads.entries_eq heq
  have hsources := pyEq_get heq "sources"
  have hpins := pyEq_get heq "package_pins"
  have hlock := pyEq_get heq "package_lock_digest"
  simp only [State.logicalState, State.logical, LogicalState.toDict, get_mkObj, List.find?, String.reduceEq, decide_false,
    decide_true, Option.map_some, Option.getD_some] at hsources hpins hlock
  rw [hsame.lock] at hlock
  refine ⟨hpolicy, hentries, optional_eq_of_pyEq (f := Digest.json) (fun _ => Json.noConfusion) (fun _ _ => Digest.eq_of_pyEq) hlock, ?_⟩
  refine pyEq_mkObj (.cons ⟨rfl, pyEq_refl _⟩ (.cons ⟨rfl, pyEq_refl _⟩ (.cons ⟨rfl, ?_⟩ (.cons ⟨rfl, ?_⟩ (.cons ⟨rfl, ?_⟩
    (.cons ⟨rfl, ?_⟩ (.cons ⟨rfl, hlock⟩ .nil)))))))
  · rw [hpolicy]
    exact pyEq_refl _
  · exact pyEq_trans hsame.sources hsources
  · rw [hentries]
    exact pyEq_refl _
  · exact pyEq_trans hsame.pins hpins

/-! ### A checkpoint stays what it was -/

namespace State
variable {s s' : State} {allow : Bool} {e : Event} {i : Uuid} {c : ContextCheckpoint}

/-- A checkpoint that is stored stays stored. -/
theorem checkpoint_effect (h : s.effect allow e = .ok s') (hc : s.checkpoints.get? i = some c) :
    s'.checkpoints.get? i = some c := by
  unfold effect at h
  split at h
  · cases h
  · obtain ⟨a, -, -, -, -, rfl⟩ := attachSource_eq_ok h
    exact hc
  · obtain ⟨a, _, _, -, -, -, -, -, rfl⟩ := updateSource_eq_ok h
    exact hc
  · obtain ⟨_, _, -, -, -, -, -, -, rfl⟩ := tightenPolicy_eq_ok h
    exact hc
  · obtain ⟨_, -, -, -, -, -, rfl⟩ := attachSession_eq_ok h
    exact hc
  · obtain ⟨_, _, -, -, -, -, -, -, -, rfl⟩ := commitContext_eq_ok h
    exact hc
  · obtain ⟨_, _, _, -, -, -, -, -, -, rfl⟩ := fork_eq_ok h
    exact hc
  · obtain ⟨_, _, _, _, -, -, -, -, -, -, -, -, -, -, rfl⟩ := applyHandoff_eq_ok h
    exact hc
  · obtain ⟨_, _, -, -, -, -, rfl⟩ := pinPackage_eq_ok h
    exact hc
  · obtain ⟨c', _, -, -, hnew, -, -, -, -, rfl⟩ := createCheckpoint_eq_ok h
    have hne : c'.checkpointId ≠ i := by
      rintro rfl
      rw [Dict.contains, hc] at hnew
      cases hnew
    exact (Dict.get?_set_of_ne _ _ hne).trans hc
  · obtain ⟨_, _, -, -, -, -, rfl⟩ := restore_eq_ok h
    exact hc
  · obtain ⟨_, _, -, hnone, -, -, -, -, -, rfl⟩ := seed_eq_ok h
    rw [Dict.get?, hnone] at hc
    cases hc
  · obtain rfl := sealWorkspace_eq_ok h
    exact hc
  · cases h
    exact hc
  · obtain rfl := abort_eq_ok h
    exact hc

/-- What a checkpoint that has just been stored reads as has the logical state at that moment. -/
theorem holds_effect (h : s.effect allow e = .ok s') (hnew : s.checkpoints.get? i = none)
    (hc : s'.checkpoints.get? i = some c) :
    ∃ l, logicalStateComponents c.logicalState s.identity.workspaceId = .ok l ∧ s'.Holds l := by
  have hold : s.checkpoints.get? i ≠ some c := by
    rw [hnew]
    nofun
  unfold effect at h
  split at h
  · cases h
  · obtain ⟨a, -, -, -, -, rfl⟩ := attachSource_eq_ok h
    exact absurd hc hold
  · obtain ⟨a, _, _, -, -, -, -, -, rfl⟩ := updateSource_eq_ok h
    exact absurd hc hold
  · obtain ⟨_, _, -, -, -, -, -, -, rfl⟩ := tightenPolicy_eq_ok h
    exact absurd hc hold
  · obtain ⟨_, -, -, -, -, -, rfl⟩ := attachSession_eq_ok h
    exact absurd hc hold
  · obtain ⟨_, _, -, -, -, -, -, -, -, rfl⟩ := commitContext_eq_ok h
    exact absurd hc hold
  · obtain ⟨_, _, _, -, -, -, -, -, -, rfl⟩ := fork_eq_ok h
    exact absurd hc hold
  · obtain ⟨_, _, _, _, -, -, -, -, -, -, -, -, -, -, rfl⟩ := applyHandoff_eq_ok h
    exact absurd hc hold
  · obtain ⟨_, _, -, -, -, -, rfl⟩ := pinPackage_eq_ok h
    exact absurd hc hold
  · obtain ⟨c', l, -, hl, -, -, -, -, heq, rfl⟩ := createCheckpoint_eq_ok h
    have hcc : c' = c := by
      simp only [Dict.get?_set] at hc
      split_ifs at hc
      · exact Option.some.inj hc
      · exact absurd hc hold
    exact ⟨l, hcc ▸ hl, holds_of_pyEq hl heq⟩
  · obtain ⟨_, _, -, -, -, -, rfl⟩ := restore_eq_ok h
    exact absurd hc hold
  · obtain ⟨c', target, -, -, -, -, htarget, hpolicy, -, rfl⟩ := seed_eq_ok h
    have hcc : c' = c := by
      simp only [seeded, Dict.get?_set] at hc
      split_ifs at hc
      · exact Option.some.inj hc
      · exact absurd hc hold
    have hsame : (s.seeded target c').logical = target := by
      have hpolicy := WorkspacePolicy.eq_of_pyEq hpolicy
      obtain ⟨_, _, _, _, _⟩ := target
      simp only [logical, seeded, LogicalState.mk.injEq, and_true]
      exact hpolicy.symm
    refine ⟨target, hcc ▸ htarget, ?_⟩
    have hself := (s.seeded target c').holds_self
    rwa [hsame] at hself
  · obtain rfl := sealWorkspace_eq_ok h
    exact absurd hc hold
  · cases h
    exact absurd hc hold
  · obtain rfl := abort_eq_ok h
    exact absurd hc hold

end State

/-! ### Restoring what was taken -/

/-- Everything outside the logical state, after one more event. -/
structure State.KeepsFrame (s : State) (e : Event) (s' : State) : Prop where
  identity : s'.identity = s.identity
  lifecycle : s'.lifecycle = s.lifecycle
  sessions : s'.sessions = s.sessions
  checkpoints : s'.checkpoints = s.checkpoints
  appliedHandoffs : s'.appliedHandoffs = s.appliedHandoffs
  forkLineage : s'.forkLineage = s.forkLineage
  events : s'.events = s.events ++ [e]
  receipts : ∃ receipt, s.receipts.contains e.eventId = false ∧ s'.receipts = s.receipts.set e.eventId receipt

/-- The logical state of a state is that of another one. -/
structure State.SameLogical (s t : State) : Prop where
  policy : s.policy = t.policy
  entries : s.entries = t.entries
  lock : s.packageLockDigest = t.packageLockDigest
  logical : pyEq s.logicalState t.logicalState = true

section
variable {t t' s s' : State} {e e' : Event} {c : ContextCheckpoint} {allow : Bool}

theorem recorded_checkpoints (h : applyEvent allow (some s) e = .ok s') :
    ∃ u, s.effect allow e = .ok u ∧ s'.checkpoints = u.checkpoints ∧ s'.logical = u.logical ∧ s'.identity = u.identity := by
  obtain ⟨-, -, -, u, hu, hrecord⟩ := applyEvent_some.mp h
  obtain ⟨_, -, -, -, rfl⟩ := State.recordEvent_eq_ok.mp hrecord
  exact ⟨u, hu, rfl, rfl, rfl⟩

/-- A checkpoint that was stored is the one that every later state holds. -/
theorem stored_of_runs (h : Machine.Runs Accepts (fun _ _ => True) t s)
    (hc : t.checkpoints.get? c.checkpointId = some c) :
    s.checkpoints.get? c.checkpointId = some c ∧ s.identity = t.identity := by
  refine h.invariant (I := fun s => s.checkpoints.get? c.checkpointId = some c ∧ s.identity = t.identity) ?_ ⟨hc, rfl⟩
  rintro s e s' ⟨hc, hid⟩ - ⟨allow, he⟩
  obtain ⟨u, hu, hcheckpoints, -, hidentity⟩ := recorded_checkpoints he
  rw [hcheckpoints, hidentity, (State.effect_frame hu).1]
  exact ⟨State.checkpoint_effect hu hc, hid⟩

/-- An event that restores a checkpoint brings back the logical state at which it was taken, and changes nothing else. -/
theorem sameLogical_of_restore (he : Accepts (some t) e t') (hnew : t.checkpoints.get? c.checkpointId = none)
    (hc : t'.checkpoints.get? c.checkpointId = some c) (hrun : Machine.Runs Accepts (fun _ _ => True) t' s)
    (hkind : e'.kind = .workspaceRestored) (hpayload : e'.payload = (mkObj (restorePayload c)).plain)
    (hrestore : applyEvent allow (some s) e' = .ok s') : s'.SameLogical t' ∧ s.KeepsFrame e' s' := by
  obtain ⟨allow', he⟩ := he
  obtain ⟨u, hu, hcheckpoints, hlogical, hidentity⟩ := recorded_checkpoints he
  obtain ⟨l, hl, hholds⟩ := State.holds_effect hu hnew (hcheckpoints ▸ hc)
  obtain ⟨hstored, hid⟩ := stored_of_runs hrun hc
  obtain ⟨-, -, -, w, hw, hrecord⟩ := applyEvent_some.mp hrestore
  obtain ⟨receipt, -, -, hfresh, rfl⟩ := State.recordEvent_eq_ok.mp hrecord
  rw [State.effect, hkind] at hw
  obtain ⟨c', target, hnamed, htarget, -, -, rfl⟩ := State.restore_eq_ok hw
  obtain ⟨i, hi, hget, -⟩ := State.namedCheckpoint_eq_ok hnamed
  -- the checkpoint that is restored is the one that was taken
  have hgets : e'.payload.get "checkpoint_id" = c.checkpointId.json := by
    rw [hpayload, plain_mkObj]
    simp [restorePayload, get_mkObj, Uuid.json, plain]
  obtain rfl : c.checkpointId = i := Subtype.ext (Json.str.inj (hgets.symm.trans hi))
  obtain rfl := Option.some.inj (hstored.symm.trans hget)
  have hws : s.identity.workspaceId = t.identity.workspaceId := by rw [hid, hidentity, (State.effect_frame hu).1]
  rw [hws] at htarget
  obtain rfl := Except.ok.inj (hl.symm.trans htarget)
  refine ⟨⟨?_, ?_, ?_, ?_⟩, ⟨rfl, rfl, rfl, rfl, rfl, rfl, rfl, receipt, hfresh, rfl⟩⟩
  · exact hholds.policy.trans (congrArg LogicalState.policy hlogical).symm
  · exact hholds.entries.trans (congrArg LogicalState.entries hlogical).symm
  · exact hholds.lock.trans (congrArg LogicalState.packageLockDigest hlogical).symm
  · have hws' : u.identity.workspaceId = s.identity.workspaceId := by rw [hid, hidentity]
    have hfinal := hholds.logical
    rw [hws'] at hfinal
    have hu' : t'.logicalState = u.logicalState := by rw [State.logicalState, hlogical, hidentity]; rfl
    rw [hu']
    exact hfinal

/-- A successful append gives the journal that it leaves. -/
theorem files_of_append {workspaceId : Uuid} {files files' : List EventFile} {r : Request} {a : Appended}
    (h : append workspaceId files r = (files', .ok a)) : a.files = files' := by
  unfold append at h
  split at h
  · cases h
  · cases h
    rfl
  · next event candidate file _ =>
    cases hreceipt : receiptForEvent candidate event with
    | error err =>
      rw [hreceipt] at h
      cases h
    | ok receipt =>
      rw [hreceipt] at h
      cases h
      rfl

end

end LeanCtx
