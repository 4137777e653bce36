import LeanCtx.Machine.Run
import LeanCtx.Workspace.Agreement
import LeanCtx.Workspace.Checkpointing

/-! Confinement: the entries and sources of a workspace are those that its policy allows. Most events check it. A fork and
    a seed import content without looking at the categories of its entries, and a fork not at the kinds of its
    sources either, so confinement is kept by the runs in which what is imported fits the policy. -/

namespace LeanCtx

/-- An event is accepted in a state, on replay or by a caller with or without evidence. -/
def Accepts (s : Option State) (e : Event) (s' : State) : Prop := ∃ allow, applyEvent allow s e = .ok s'

/-- The entries and sources are those that a policy allows. -/
structure LogicalState.Fits (l : LogicalState) (policy : WorkspacePolicy) : Prop where
  categories : ∀ x ∈ l.entries, x.category ∈ policy.allowedCategories
  external : policy.allowExternalSources = false → ∀ a ∈ l.sources.values, a.kind = .filesystem

/-- The workspace holds only what its policy allows. -/
def State.Confined (s : State) : Prop := s.logical.Fits s.policy

/-- The content that an event brings from another workspace. -/
def Imports (s : State) (e : Event) (l : LogicalState) : Prop :=
  match e.kind with
  | .workspaceForked => ∃ f logical, WorkspaceFork.fromDict (e.payload.get "fork") = .ok f ∧
      State.dictWith (e.payload.get "inherited_state") "workspace_id" f.source.workspaceId.json = .ok logical ∧
      logicalStateComponents logical f.source.workspaceId = .ok l
  | .workspaceSeeded => ∃ c, ContextCheckpoint.fromDict (e.payload.get "checkpoint") = .ok c ∧
      logicalStateComponents c.logicalState s.identity.workspaceId = .ok l
  | _ => False

/-- What an event imports is allowed by the policy of the workspace. -/
def ImportsFit (s : Option State) (e : Event) : Prop := ∀ t ∈ s, ∀ l, Imports t e l → l.Fits t.policy

/-- Confinement of the state, and of every checkpoint that it could be restored to. -/
structure State.ConfinedInv (s : State) : Prop where
  confined : s.Confined
  stored : ∀ c ∈ s.checkpoints.values, ∀ l, logicalStateComponents c.logicalState s.identity.workspaceId = .ok l →
    l.Fits l.policy

namespace State
variable {s s' : State} {allow : Bool} {p : Json} {e : Event}

theorem Confined.of_set {a : SourceAnchor} (h : s.Confined)
    (ha : a.kind = .filesystem ∨ s.policy.allowExternalSources = true) :
    ({ s with sources := s.sources.set a.sourceId a } : State).Confined := by
  refine ⟨h.categories, fun hpolicy b hb => ?_⟩
  rcases Dict.mem_values_set hb with rfl | hb
  · exact ha.resolve_right (by rw [hpolicy]; decide)
  · exact h.external hpolicy b hb

theorem confinedInv_created (identity : WorkspaceIdentity) (policy : WorkspacePolicy) :
    (created identity policy).ConfinedInv :=
  ⟨⟨fun _ hx => absurd hx List.not_mem_nil, fun _ _ ha => absurd ha List.not_mem_nil⟩,
    fun _ hc => absurd hc List.not_mem_nil⟩

/-- Confinement reads the identity, the policy, the sources, the entries and the checkpoints only. -/
theorem ConfinedInv.of_eq (h : s.ConfinedInv) (hidentity : s'.identity = s.identity) (hpolicy : s'.policy = s.policy)
    (hsources : s'.sources = s.sources) (hentries : s'.entries = s.entries)
    (hcheckpoints : s'.checkpoints = s.checkpoints) : s'.ConfinedInv := by
  refine ⟨⟨fun x hx => ?_, fun hexternal a ha => ?_⟩, ?_⟩
  · rw [hpolicy]
    exact h.confined.categories x (show x ∈ s.entries from hentries ▸ hx)
  · exact h.confined.external (hpolicy ▸ hexternal) a (show a ∈ s.sources.values from hsources ▸ ha)
  · rw [hcheckpoints, hidentity]
    exact h.stored

/-- A checkpoint of a confined state is confined. -/
theorem fits_of_logicalState {c : ContextCheckpoint} {l : LogicalState} (h : s.Confined)
    (hl : logicalStateComponents c.logicalState s.identity.workspaceId = .ok l)
    (heq : Json.pyEq c.logicalState s.logicalState = true) : l.Fits l.policy := by
  have hreads := logicalStateComponents_eq_ok hl
  rw [hreads.policy_eq heq]
  refine ⟨?_, fun hpolicy a ha => ?_⟩
  · rw [hreads.entries_eq heq]
    exact h.categories
  · obtain ⟨b, hb, hab⟩ := hreads.sources_eq heq a ha
    rw [SourceAnchor.kind_eq_of_pyEq hab]
    exact h.external hpolicy b hb

/-- An event whose import fits keeps confinement. -/
theorem ConfinedInv.effect (h : s.ConfinedInv) (hfit : ImportsFit (some s) e) (he : s.effect allow e = .ok s') :
    s'.ConfinedInv := by
  have hc := h.confined
  have hstored := h.stored
  have hfit : ∀ l, Imports s e l → l.Fits s.policy := hfit s rfl
  unfold State.effect at he
  unfold Imports at hfit
  split at he
  · cases he
  · obtain ⟨a, -, -, -, ha, rfl⟩ := attachSource_eq_ok he
    exact ⟨hc.of_set ha, hstored⟩
  · obtain ⟨a, _, _, -, -, -, -, ha, rfl⟩ := updateSource_eq_ok he
    exact ⟨hc.of_set ha, hstored⟩
  · obtain ⟨policy, _, -, -, -, -, hentries, hsources, rfl⟩ := tightenPolicy_eq_ok he
    refine ⟨⟨hentries, fun hpolicy => ?_⟩, hstored⟩
    exact hsources.resolve_left (by simpa using hpolicy)
  · obtain ⟨_, -, -, -, -, -, rfl⟩ := attachSession_eq_ok he
    exact h.of_eq rfl rfl rfl rfl rfl
  · obtain ⟨_, entries, -, -, -, -, -, -, hchecks, rfl⟩ := commitContext_eq_ok he
    refine ⟨⟨fun x hx => ?_, hc.external⟩, hstored⟩
    rcases List.mem_append.mp hx with hx | hx
    · exact hc.categories x hx
    · exact (checkEntry_eq_ok (hchecks x hx)).2.2.1
  · next hkind =>
    obtain ⟨f, raw, parent, -, -, hf, hraw, hparent, -, rfl⟩ := fork_eq_ok he
    simp only [hkind] at hfit
    have hfits := hfit parent ⟨f, raw, hf, hraw, hparent⟩
    refine ⟨⟨hfits.categories, fun hpolicy a ha => ?_⟩, hstored⟩
    obtain ⟨b, hb, rfl⟩ := Dict.mem_values_mapValues.mp ha
    exact hfits.external hpolicy b hb
  · obtain ⟨_, _, imported, appended, -, -, -, -, -, -, -, -, happended, hexternal, rfl⟩ := applyHandoff_eq_ok he
    refine ⟨⟨fun x hx => ?_, fun hpolicy a ha => ?_⟩, hstored⟩
    · rcases List.mem_append.mp hx with hx | hx
      · exact hc.categories x hx
      · exact (appendedEntries_eq_ok happended x hx).2.1
    · rcases Dict.mem_values_update ha with ha | ha
      · exact hc.external hpolicy a ha
      · exact (hexternal a ha).resolve_right (by rw [show s.policy.allowExternalSources = false from hpolicy]; decide)
  · obtain ⟨_, _, -, -, -, -, rfl⟩ := pinPackage_eq_ok he
    exact h.of_eq rfl rfl rfl rfl rfl
  · obtain ⟨c, l, -, hl, -, -, -, -, heq, rfl⟩ := createCheckpoint_eq_ok he
    refine ⟨hc, fun c' hc' l' hl' => ?_⟩
    rcases Dict.mem_values_set hc' with rfl | hc'
    · exact fits_of_logicalState hc hl' heq
    · exact hstored c' hc' l' hl'
  · obtain ⟨c, target, hnamed, htarget, -, -, rfl⟩ := restore_eq_ok he
    obtain ⟨i, -, hget, -⟩ := namedCheckpoint_eq_ok hnamed
    exact ⟨hstored c (Dict.mem_values.mpr ⟨i, hget⟩) target htarget, hstored⟩
  · next hkind =>
    obtain ⟨c, target, -, -, -, hread, htarget, hpolicy, -, rfl⟩ := seed_eq_ok he
    simp only [hkind] at hfit
    have hfits := hfit target ⟨c, hread, htarget⟩
    have heq : target.policy = s.policy := WorkspacePolicy.eq_of_pyEq hpolicy
    refine ⟨⟨hfits.categories, hfits.external⟩, fun c' hc' l' hl' => ?_⟩
    rcases Dict.mem_values_set hc' with rfl | hc'
    · obtain rfl := Except.ok.inj (htarget.symm.trans hl')
      rw [heq]
      exact hfits
    · exact hstored c' hc' l' hl'
  · obtain rfl := sealWorkspace_eq_ok he
    exact h
  · cases he
    exact h.of_eq rfl rfl rfl rfl rfl
  · obtain rfl := abort_eq_ok he
    exact h.of_eq rfl rfl rfl rfl rfl

/-- Recording an event keeps confinement. -/
theorem ConfinedInv.recordEvent (h : s.ConfinedInv) (hr : s.recordEvent e = .ok s') : s'.ConfinedInv := by
  obtain ⟨receipt, -, -, -, rfl⟩ := recordEvent_eq_ok.mp hr
  exact h.of_eq rfl rfl rfl rfl rfl

end State

/-- A policy that allows facts and local files only. -/
def factsPolicy : WorkspacePolicy where
  allowedCategories := [.facts]
  maxEvents := ⟨1000, by decide⟩
  maxContextEntries := ⟨1000, by decide⟩
  maxEntryBytes := ⟨4096, by decide⟩
  maxContextBytes := ⟨100000, by decide⟩
  maxSources := ⟨100, by decide⟩
  maxSessions := ⟨100, by decide⟩
  allowExternalSources := false
  sorted := by decide

theorem small_factsPolicy : factsPolicy.Small := by
  simp only [WorkspacePolicy.Small, factsPolicy, List.mem_cons, List.not_mem_nil, or_false, forall_eq_or_imp, forall_eq]
  decide

/-- A decision, which the policy of facts does not allow. -/
def decision : ProjectContextEntry where
  entryId := ⟨Str.lit "00000009-0000-4000-8000-000000000000", by decide⟩
  category := .decisions
  value := ⟨Str.lit "one", by decide⟩
  sourceIds := .nil
  sessionId := none
  receiptRefs := .nil
  recoveryRefs := .nil

def sampleRef : Ref 512 := ⟨Str.lit "event:sha256:0", by decide⟩

theorem safe_sampleRef : Safe sampleRef.json := safe_str (by decide)

theorem storable_decision : (LogicalState.bare factsPolicy [decision]).Storable (numberedUuid 0) := by
  refine LogicalState.storable_bare small_factsPolicy (by decide) (by decide) ?_ ?_ (by decide +kernel)
  · intro x hx
    rw [List.mem_singleton.mp hx]
    exact ⟨rfl, rfl, rfl, rfl⟩
  · intro x hx
    rw [List.mem_singleton.mp hx]
    exact safe_str (by decide)

/-- A workspace is created in a run of every kind that does not exclude it. -/
theorem exists_reaches_created (valid : Option State → Event → Prop) (hvalid : ∀ e, valid none e) :
    ∃ s, Machine.Reaches Accepts valid s := by
  obtain ⟨identity, hown, -, hname, -⟩ := WorkspaceIdentity.exists_own (numberedUuid 0) sampleName sampleTime
    (by decide)
  obtain ⟨e, receipt, -, hs⟩ := exists_created hown (by rw [hname]; exact safe_str (by decide)) small_factsPolicy
    (by decide) (numberedUuid 1) true
  exact ⟨_, .start (hvalid e) ⟨true, hs⟩⟩

/-- A workspace that allows facts only is seeded with a decision. -/
theorem exists_seeded_decision : ∃ s, Machine.Reaches Accepts (fun _ _ => True) s ∧ s.policy = factsPolicy ∧
    s.entries = [decision] := by
  obtain ⟨identity, hown, hws, hname, -⟩ := WorkspaceIdentity.exists_own (numberedUuid 0) sampleName sampleTime
    (by decide)
  obtain ⟨e, receipt, -, hs⟩ := exists_created hown (by rw [hname]; exact safe_str (by decide)) small_factsPolicy
    (by decide) (numberedUuid 1) true
  obtain ⟨c, -, hc, href, hlineage, hcontent⟩ := storable_decision.exists_checkpoint (numberedUuid 2) sampleRef sampleRef
    ⟨[48], by decide⟩
  generalize hstate : ({ (State.created identity factsPolicy).withEvent e with
    receipts := Dict.empty.set (numberedUuid 1) receipt } : State) = s at hs
  let e' : Event := ⟨numberedUuid 0, nextSequence (some s), numberedUuid 3, .workspaceSeeded,
    Json.mkObj (seedPayload c c.stateDigest), s.lastEventDigest, c.stateDigest⟩
  have htakes : s.TakesSeed e' c (LogicalState.bare factsPolicy [decision]) c.stateDigest := by
    subst hstate
    refine ⟨rfl, rfl, rfl, ⟨rfl, rfl, rfl, rfl⟩, ?_, ?_, hcontent, rfl, fun _ ha => absurd ha List.not_mem_nil, ?_, ?_, ?_⟩
    · exact hws ▸ storable_decision
    · exact hc.trans hws.symm
    · have hnone : (LogicalState.bare factsPolicy [decision]).recoveryRefs = [] := by decide
      refine safe_checkpoint hcontent (hc ▸ storable_decision.safe) (fun _ h => absurd h List.not_mem_nil)
        (fun _ h => absurd h List.not_mem_nil) (fun _ h => absurd (hnone ▸ h) List.not_mem_nil) ?_ ?_
      · exact href ▸ safe_sampleRef
      · exact hlineage ▸ safe_sampleRef
    · have hbytes : stateContextBytes [decision] = .ok (Json.byteLength (entriesJson [decision])) := by
        obtain ⟨b, hb⟩ := canonical_of_writable (writable_entriesJson [decision])
        rw [stateContextBytes, hb, ← Json.length_canonicalBytes (canonical_eq_ok.mp hb)]
        rfl
      exact State.ensureBounds_eq_ok.mpr ⟨show 2 ≤ 1000 by decide, show 0 ≤ 100 by decide, show 0 ≤ 100 by decide,
        show 1 ≤ 1000 by decide, show 0 ≤ 128 by decide,
        show ∀ x ∈ [decision], x.value.1.utf8Length ≤ factsPolicy.maxEntryBytes.1 by decide, _, hbytes,
        show Json.byteLength (entriesJson [decision]) ≤ factsPolicy.maxContextBytes.1 by decide +kernel⟩
    · have hfresh : (Dict.empty.set (numberedUuid 1) receipt).get? (numberedUuid 3) = none :=
        Dict.get?_set_of_ne _ _ fun h => absurd (numberedUuid_inj (by decide) (by decide) h) (by decide)
      show (Dict.empty.set (numberedUuid 1) receipt).contains (numberedUuid 3) = false
      rw [Dict.contains, hfresh]
      rfl
  obtain ⟨receipt', hs'⟩ := applyEvent_seed htakes true
  refine ⟨_, .next (.start trivial ⟨true, hs⟩) trivial ⟨true, hs'⟩, ?_, rfl⟩
  rw [← hstate]
  rfl

end LeanCtx
