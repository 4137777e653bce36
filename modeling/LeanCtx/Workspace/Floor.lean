import LeanCtx.Workspace.Branching

/-! The policy floor: inside one workspace the policy only tightens. A fork takes the policy of the checkpoint, which may
    be older than the policy in force, so along a chain of forks the floor holds where every fork keeps it. -/

namespace LeanCtx
open Json

namespace WorkspacePolicy

/-- Tightening is transitive. -/
theorem isTightening_trans {x y z : WorkspacePolicy} (h : x.isTightening y = true) (h' : y.isTightening z = true) :
    x.isTightening z = true := by
  simp only [isTightening, Bool.and_eq_true, List.all_eq_true, List.contains_iff_mem, decide_eq_true_eq,
    Bool.or_eq_true, Bool.not_eq_true'] at h h' ⊢
  obtain ⟨⟨⟨⟨⟨⟨⟨h0, h1⟩, h2⟩, h3⟩, h4⟩, h5⟩, h6⟩, h7⟩ := h
  obtain ⟨⟨⟨⟨⟨⟨⟨k0, k1⟩, k2⟩, k3⟩, k4⟩, k5⟩, k6⟩, k7⟩ := h'
  refine ⟨⟨⟨⟨⟨⟨⟨fun c hc => k0 c (h0 c hc), h1.trans k1⟩, h2.trans k2⟩, h3.trans k3⟩, h4.trans k4⟩, h5.trans k5⟩,
    h6.trans k6⟩, ?_⟩
  rcases h7 with h7 | h7
  · exact Or.inl h7
  · exact k7.imp_left fun k => absurd (h7.symm.trans k) (by decide)

end WorkspacePolicy

namespace State
variable {s s' : State} {allow : Bool} {e : Event}

/-- An event tightens the policy or leaves it. -/
theorem isTightening_effect (h : s.effect allow e = .ok s') : s'.policy.isTightening s.policy = true := by
  have hrefl := s.policy.isTightening_refl
  unfold effect at h
  split at h
  · cases h
  · obtain ⟨a, -, -, -, -, rfl⟩ := attachSource_eq_ok h
    exact hrefl
  · obtain ⟨a, _, _, -, -, -, -, -, rfl⟩ := updateSource_eq_ok h
    exact hrefl
  · obtain ⟨policy, _, -, -, -, htight, -, -, rfl⟩ := tightenPolicy_eq_ok h
    exact htight
  · obtain ⟨_, -, -, -, -, -, rfl⟩ := attachSession_eq_ok h
    exact hrefl
  · obtain ⟨_, _, -, -, -, -, -, -, -, rfl⟩ := commitContext_eq_ok h
    exact hrefl
  · obtain ⟨_, _, _, -, -, -, -, -, -, rfl⟩ := fork_eq_ok h
    exact hrefl
  · obtain ⟨_, _, _, _, -, -, -, -, -, -, -, -, -, -, rfl⟩ := applyHandoff_eq_ok h
    exact hrefl
  · obtain ⟨_, _, -, -, -, -, rfl⟩ := pinPackage_eq_ok h
    exact hrefl
  · obtain ⟨_, _, -, -, -, -, -, -, -, rfl⟩ := createCheckpoint_eq_ok h
    exact hrefl
  · obtain ⟨_, target, -, -, htight, -, rfl⟩ := restore_eq_ok h
    exact htight
  · obtain ⟨_, _, -, -, -, -, -, -, -, rfl⟩ := seed_eq_ok h
    exact hrefl
  · obtain rfl := sealWorkspace_eq_ok h
    exact hrefl
  · cases h
    exact hrefl
  · obtain rfl := abort_eq_ok h
    exact hrefl

theorem isTightening_applyEvent (h : applyEvent allow (some s) e = .ok s') : s'.policy.isTightening s.policy = true := by
  obtain ⟨-, -, -, t, ht, hrecord⟩ := applyEvent_some.mp h
  obtain ⟨_, -, -, -, rfl⟩ := recordEvent_eq_ok.mp hrecord
  have htight := isTightening_effect ht
  exact htight

/-- The child of a fork has the policy that was asked for, or else that of the checkpoint. -/
theorem policy_forkFrom {c : ContextCheckpoint} {a : ForkArguments} {b : Birth} (h : s.forkFrom c a = .ok b) :
    ∃ policy, WorkspacePolicy.fromDict (c.logicalState.get "policy") = .ok policy ∧
      b.child.policy = a.policy.getD policy := by
  obtain ⟨f, born, hf⟩ := forkFrom_eq_ok h
  obtain ⟨identity, -, hfirst⟩ := hf.first
  obtain ⟨hpolicy, -⟩ := policy_of_created hfirst hf.created
  obtain ⟨-, -, -, t, ht, hrecord⟩ := applyEvent_some.mp hf.forked
  obtain ⟨_, -, -, -, hchild⟩ := recordEvent_eq_ok.mp hrecord
  rw [effect, hf.second.1] at ht
  obtain ⟨_, _, _, -, -, -, -, -, -, rfl⟩ := fork_eq_ok ht
  have heq : b.child.policy = born.policy := by rw [← hchild]; rfl
  exact ⟨_, hf.record.parentPolicy, heq.trans (hpolicy.trans hf.record.childPolicy)⟩

end State

/-- A fork is asked for a policy that tightens the one in force in the parent, or for none and of a checkpoint whose policy
    does. -/
def TightFork (s : State) (c : ContextCheckpoint) (a : ForkArguments) : Prop :=
  ∀ policy, WorkspacePolicy.fromDict (c.logicalState.get "policy") = .ok policy →
    (a.policy.getD policy).isTightening s.policy = true

/-- The states of the descendants of a workspace that was forked in some state, over all events and further forks. -/
inductive Descends (cond : State → ContextCheckpoint → ForkArguments → Prop) : State → State → Prop
  | fork {s : State} {c : ContextCheckpoint} {a : ForkArguments} {b : Birth} (hc : cond s c a)
    (h : s.forkFrom c a = .ok b) : Descends cond s b.child
  | event {s t t' : State} {e : Event} (hs : Descends cond s t) (h : Accepts (some t) e t') : Descends cond s t'
  | again {s t : State} {c : ContextCheckpoint} {a : ForkArguments} {b : Birth} (hs : Descends cond s t) (hc : cond t c a)
    (h : t.forkFrom c a = .ok b) : Descends cond s b.child

theorem isTightening_iff_tightFork {s : State} {c : ContextCheckpoint} {a : ForkArguments} {b : Birth}
    (h : s.forkFrom c a = .ok b) : b.child.policy.isTightening s.policy = true ↔ TightFork s c a := by
  obtain ⟨policy, hpolicy, hchild⟩ := State.policy_forkFrom h
  rw [hchild]
  refine ⟨fun htight q hq => ?_, fun htight => htight policy hpolicy⟩
  obtain rfl := Except.ok.inj (hpolicy.symm.trans hq)
  exact htight

/-- Where every fork keeps the floor, a descendant is governed by a policy that tightens that of its ancestor. -/
theorem isTightening_of_descends {s t : State} (h : Descends TightFork s t) : t.policy.isTightening s.policy = true := by
  induction h with
  | fork hc h => exact (isTightening_iff_tightFork h).mpr hc
  | event _ h ih =>
    obtain ⟨allow, h⟩ := h
    exact WorkspacePolicy.isTightening_trans (State.isTightening_applyEvent h) ih
  | again _ hc h ih => exact WorkspacePolicy.isTightening_trans ((isTightening_iff_tightFork h).mpr hc) ih

/-- A fork keeps the floor exactly where the policy asked for, or else that of the checkpoint, tightens the one in force;
    and where all forks of a chain do, so does the whole chain. -/
theorem policyFloor_iff_tightFork (s : State) :
    (∀ c a b, State.forkFrom s c a = .ok b → (b.child.policy.isTightening s.policy = true ↔ TightFork s c a)) ∧
      ∀ t, Descends TightFork s t → t.policy.isTightening s.policy = true :=
  ⟨fun _ _ _ h => isTightening_iff_tightFork h, fun _ h => isTightening_of_descends h⟩

/-! ### A fork that loosens the policy -/

/-- A fork of the sample workspace under the policy of the checkpoint. -/
def sampleFork : ForkArguments where
  name := sampleName
  policy := none
  workspaceId := numberedUuid 20
  forkId := numberedUuid 21
  eventId := numberedUuid 22
  createdEventId := numberedUuid 23
  executionRef := none
  now := sampleTime

theorem sampleFork_sample : sampleFork.Sample where
  name := rfl
  execution := rfl
  year := by decide
  small := small_openPolicy
  roomy := ⟨by decide, by decide, by decide, by decide⟩
  tight := WorkspacePolicy.isTightening_refl _
  distinct h := absurd (numberedUuid_inj (by decide) (by decide) h) (by decide)

theorem sampleFork_ne {ws : Uuid} (h : ws = numberedUuid 0) : sampleFork.workspaceId ≠ ws := by
  rw [h]
  exact fun heq => absurd (numberedUuid_inj (by decide) (by decide) heq) (by decide)

/-- A sample workspace takes a checkpoint. -/
theorem exists_checkpointed : ∃ s c, Machine.Reaches Accepts (fun _ _ => True) s ∧ s.Sample (numberedUuid 0) [] 2 ∧
    SampleCheckpoint c [] ∧ c.workspaceId = numberedUuid 0 ∧ s.checkpoints.get? c.checkpointId = some c := by
  obtain ⟨t, e, s, -, c, hreach, -, he, -, hsample, hc, hstored, hws⟩ := exists_taken
  exact ⟨s, c, .next hreach trivial he, hsample, ⟨.nil, hc.content, hc.small⟩, hws, hstored⟩

/-- A workspace and its forks to which the law of the floor applies. -/
theorem exists_policyFloor : ∃ s c b, State.forkFrom s c sampleFork = .ok b ∧ b.child.policy.isTightening s.policy = true := by
  obtain ⟨s, c, -, hsample, hc, hws, hstored⟩ := exists_checkpointed
  obtain ⟨b, hb, -⟩ := hc.exists_forkFrom sampleFork_sample (sampleFork_ne hws) hsample.lifecycle hstored
  refine ⟨s, c, b, hb, ((policyFloor_iff_tightFork s).1 c sampleFork b hb).mpr fun policy hpolicy => ?_⟩
  obtain rfl := Except.ok.inj (hc.policy.symm.trans hpolicy)
  rw [hsample.policy]
  exact WorkspacePolicy.isTightening_refl _

/-- A sample workspace that has taken a checkpoint tightens its policy. -/
theorem exists_tightened : ∃ s c, Machine.Reaches Accepts (fun _ _ => True) s ∧ s.policy = factsPolicy ∧
    s.lifecycle = .active ∧ SampleCheckpoint c [] ∧ c.workspaceId = numberedUuid 0 ∧
    s.checkpoints.get? c.checkpointId = some c := by
  obtain ⟨s, c, hreach, hsample, hc, hws, hstored⟩ := exists_checkpointed
  obtain ⟨d, hd⟩ := digest_of_writable (WorkspacePolicy.writable_toDict small_openPolicy)
  let payload := mkObj [("policy", factsPolicy.toDict), ("previous_policy_digest", d.json)]
  let e : Event := ⟨numberedUuid 0, nextSequence (some s), numberedUuid 3, .policyTightened, payload, s.lastEventDigest, d⟩
  have hgets : payload.get "policy" = factsPolicy.toDict ∧ payload.get "previous_policy_digest" = d.json := by
    simp [payload, get_mkObj]
  have hcheck : checkPayload e = .ok () := by
    refine checkPayload_of_safe (f := [("policy", factsPolicy.toDict), ("previous_policy_digest", d.json)]) rfl rfl
      (safe_mkObj ["policy", "previous_policy_digest"] rfl (all_insensitive (by decide)) ?_)
    simp only [List.mem_cons, List.not_mem_nil, or_false, forall_eq_or_imp, forall_eq]
    exact ⟨WorkspacePolicy.safe_toDict _, safe_digest _⟩
  have hbounds : ({ s with policy := factsPolicy } : State).ensureBounds true = .ok () := by
    refine State.ensureBounds_eq_ok.mpr ⟨?_, ?_, ?_, ?_, ?_, ?_, 2, ?_, show 2 ≤ 100000 by decide⟩
    · show s.events.length + 1 ≤ 1000
      rw [hsample.events]
      decide
    · show s.sources.size ≤ 100
      rw [hsample.sources]
      exact Nat.zero_le _
    · show s.sessions.length ≤ 100
      rw [hsample.sessions]
      exact Nat.zero_le _
    · show s.entries.length ≤ 1000
      rw [hsample.entries]
      exact Nat.zero_le _
    · show s.packagePins.size ≤ maxPackagePins
      rw [hsample.pins]
      exact Nat.zero_le _
    · show ∀ x ∈ s.entries, x.value.1.utf8Length ≤ 4096
      rw [hsample.entries]
      exact fun _ hx => absurd hx List.not_mem_nil
    · show stateContextBytes s.entries = .ok 2
      rw [hsample.entries]
      rfl
  have hdigest : LeanCtx.digest s.policy.toDict = .ok d := hsample.policy.symm ▸ hd
  have htight : factsPolicy.isTightening s.policy = true := by
    rw [hsample.policy]
    decide
  have hentries : ∀ x ∈ s.entries, x.category ∈ factsPolicy.allowedCategories := by
    rw [hsample.entries]
    exact fun _ hx => absurd hx List.not_mem_nil
  have hsources : factsPolicy.allowExternalSources = true ∨ ∀ a ∈ s.sources.values, a.kind = .filesystem := by
    rw [hsample.sources]
    exact Or.inr fun _ ha => absurd ha List.not_mem_nil
  have heffect : s.effect false e = .ok { s with policy := factsPolicy } := by
    rw [State.effect]
    simp only [e, State.tightenPolicy, hgets]
    rw [WorkspacePolicy.fromDict_toDict, projecting_ok, ok_bind, digestValue_json, projecting_ok, ok_bind,
      ensure_true (pyEq_refl _), ok_bind, hdigest, projecting_ok, ok_bind, ensure_true rfl, ok_bind, ensure_true htight,
      ok_bind, ensure_true hentries, ok_bind, ensure_true hsources, ok_bind, hbounds]
    rfl
  have hfresh : s.receipts.contains (numberedUuid 3) = false := by
    rw [Dict.contains, hsample.fresh 3 (by decide) (by decide)]
    rfl
  obtain ⟨receipt, hrecord⟩ := State.recordEvent_of_empty (s := { s with policy := factsPolicy }) (e := e)
    ⟨small_factsPolicy, fun a ha => hsample.written.sources a ha⟩ rfl ((State.ensureBounds_withEvent _ e).trans hbounds) hfresh
  have hkind : e.kind ≠ .workspaceCreated := EventKind.noConfusion
  exact ⟨_, c, .next hreach trivial ⟨false, applyEvent_some.mpr ⟨hcheck, hkind, hsample.lifecycle, _, heffect, hrecord⟩⟩, rfl,
    hsample.lifecycle, hc, hws, hstored⟩

/-- Not every fork of a workspace that is reached tightens the policy in force. -/
theorem not_policyFloor : ¬∀ s c a b, Machine.Reaches Accepts (fun _ _ => True) s →
    s.checkpoints.get? c.checkpointId = some c → State.forkFrom s c a = .ok b → b.child.policy.isTightening s.policy = true := by
  intro h
  obtain ⟨s, c, hreach, hpolicy, hactive, hc, hws, hstored⟩ := exists_tightened
  obtain ⟨b, hb, -⟩ := hc.exists_forkFrom sampleFork_sample (sampleFork_ne hws) hactive hstored
  have htight := h s c sampleFork b hreach hstored hb
  obtain ⟨policy, hread, hchild⟩ := State.policy_forkFrom hb
  obtain rfl := Except.ok.inj (hc.policy.symm.trans hread)
  rw [hchild, hpolicy] at htight
  exact absurd htight (by decide)

/-! ### The policies of a journal -/

/-- The files that a replay reads on lead from one state to a later one. -/
theorem runs_of_foldlM {ws : Uuid} {l : List EventFile} {s : State} {r : Option State}
    (h : l.foldlM (extend ws) (some s) = .ok r) : ∃ t, r = some t ∧ Machine.Runs Accepts (fun _ _ => True) s t := by
  refine foldlM_invariant (P := fun r => ∃ t, r = some t ∧ Machine.Runs Accepts (fun _ _ => True) s t) ⟨s, rfl, .refl⟩ ?_ h
  rintro r f r' - ⟨t, rfl, hrun⟩ hstep
  simp only [extend, bind_eq_ok, pure_eq_ok] at hstep
  obtain ⟨e, -, t', happly, rfl⟩ := hstep
  exact ⟨t', rfl, .next hrun trivial ⟨true, happly⟩⟩

/-- Over a run the policy only tightens. -/
theorem isTightening_of_runs {s t : State} (h : Machine.Runs Accepts (fun _ _ => True) s t) :
    t.policy.isTightening s.policy = true := by
  refine h.invariant (I := fun u => u.policy.isTightening s.policy = true) ?_ s.policy.isTightening_refl
  rintro u e u' hu - ⟨allow, happly⟩
  exact WorkspacePolicy.isTightening_trans (State.isTightening_applyEvent happly) hu

end LeanCtx
