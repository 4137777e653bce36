import LeanCtx.Json.Fields
import LeanCtx.Workspace.Checkpointing

/-! Forking: a child workspace is born with two events, its creation under the policy that it inherits and the fork that
    brings the content of a checkpoint of the parent. -/

namespace LeanCtx
open Json

/-! ### The operation -/

/-- What `fork(name, policy=…, workspace_id=…, fork_id=…, event_id=…, execution_ref=…)` is asked for, with the identifiers and
    the time that it chooses itself. -/
structure ForkArguments where
  name : Text 128
  policy : Option WorkspacePolicy
  workspaceId : Uuid
  forkId : Uuid
  eventId : Uuid
  createdEventId : Uuid
  executionRef : Option (Text 512)
  now : DateTime

/-- The two events of a new workspace and the state after them. -/
structure Birth where
  first : Event
  second : Event
  child : State

/-- `_plain(checkpoint.logical_state)` without its workspace, its sources without their local files. -/
def inheritedState (logical : Json) : Json := contentState logical.plain

/-- The payload of a fork. -/
def forkPayload (f : WorkspaceFork) (logical : Json) : List (String × Json) :=
  [("fork", f.toDict), ("inherited_state", inheritedState logical)]

namespace State

/-- The checkpoint that is stored under the identifier of another one is that one. -/
def checkStored (s : State) (c : ContextCheckpoint) : Except Err Unit :=
  match s.checkpoints.get? c.checkpointId with
  | none => .error .conflict
  | some stored => do
    let left ← canonical stored.toDict
    let right ← canonical c.toDict
    ensure (left = right) .conflict

/-- `fork(name, from_checkpoint=checkpoint, …)` up to the publication of the child. -/
def forkFrom (s : State) (c : ContextCheckpoint) (a : ForkArguments) : Except Err Birth := do
  ensure (s.lifecycle = .active) .lifecycle
  s.checkStored c
  rejectSensitive a.name.json "name"
  let identity ← WorkspaceIdentity.make a.workspaceId a.name a.now
  let f ← WorkspaceFork.create c a.workspaceId a.name a.eventId a.policy a.forkId a.executionRef
  let first ← Event.record a.workspaceId .one a.createdEventId .workspaceCreated
    (createdPayload identity f.policyInheritance.effectiveChildPolicy) none
  let second ← Event.record a.workspaceId (.succ .one) a.eventId .workspaceForked (mkObj (forkPayload f c.logicalState))
    (some first.eventDigest)
  let created ← catching (applyEvent false none first) raiseProjection
  let child ← catching (applyEvent false (some created) second) raiseProjection
  return ⟨first, second, child⟩

end State

/-! ### The content of a logical state -/

theorem plain_portableAnchor (v : Json) : (portableAnchor v.plain).plain = (portableAnchor v).plain := by
  cases v with
  | obj f =>
    have hagree := ((agree_sortFields (f.map fun p => (p.1, p.2.plain))).insertField (Str.lit "engine_binding") .null).map
      fun _ v => v.plain
    simp only [plain, portableAnchor, plainFields_eq]
    have hnull : Json.null.plain = .null := rfl
    have hfields : insertField (Str.lit "engine_binding") .null (f.map fun p => (p.1, p.2.plain)) =
        (insertField (Str.lit "engine_binding") .null f).map fun p => (p.1, p.2.plain) := by
      rw [map_insertField, hnull]
    rw [sortFields_eq hagree, hfields, List.map_map]
    congr 2
    exact List.map_congr_left fun p _ => by simp
  | arr l => exact plain_plain (.arr l)
  | _ => rfl

theorem plain_clearBindings (v : Json) : (clearBindings v.plain).plain = (clearBindings v).plain := by
  cases v with
  | arr l =>
    simp only [plain, clearBindings, plainList_eq, List.map_map]
    congr 1
    exact List.map_congr_left fun a _ => plain_portableAnchor a
  | obj f => exact plain_plain (.obj f)
  | _ => rfl

/-- The content of a logical state does not depend on the order of its keys. -/
theorem plain_contentState (v : Json) : (contentState v.plain).plain = (contentState v).plain := by
  cases v with
  | obj f =>
    let set (k : Str) (v : Json) : Json := if k = Str.lit "sources" then clearBindings v else v
    have hset : (fun p : Str × Json => if p.1 = Str.lit "sources" then (p.1, clearBindings p.2) else p) =
        fun p => (p.1, set p.1 p.2) := by
      funext p
      simp only [set]
      split_ifs <;> rfl
    have hagree := (((agree_sortFields (f.map fun p => (p.1, p.2.plain))).filter (Str.lit "workspace_id")).map set).map
      fun _ v => v.plain
    simp only [plain, contentState, plainFields_eq, hset]
    rw [sortFields_eq hagree, List.filter_map, List.map_map, List.map_map, List.map_map]
    congr 2
    refine List.map_congr_left fun p _ => ?_
    simp only [Function.comp_apply, set]
    split_ifs
    · rw [plain_clearBindings]
    · rw [plain_plain]
  | arr l => exact plain_plain (.arr l)
  | _ => rfl

/-- The content of a logical state that is built of fields. -/
theorem contentState_mkObj (f : List (String × Json)) : contentState (mkObj f) =
    mkObj ((f.filter fun p => p.1 ≠ "workspace_id").map fun p => (p.1, if p.1 = "sources" then clearBindings p.2 else p.2)) := by
  let set (k : Str) (v : Json) : Json := if k = Str.lit "sources" then clearBindings v else v
  have hset : (fun p : Str × Json => if p.1 = Str.lit "sources" then (p.1, clearBindings p.2) else p) =
      fun p => (p.1, set p.1 p.2) := by
    funext p
    simp only [set]
    split_ifs <;> rfl
  have hagree := ((agree_sortFields (f.map fun p => (Str.lit p.1, p.2))).filter (Str.lit "workspace_id")).map set
  have hordered : Ordered (((sortFields (f.map fun p => (Str.lit p.1, p.2))).filter fun p => p.1 ≠ Str.lit "workspace_id").map
      fun p => (p.1, set p.1 p.2)) := by
    unfold Ordered
    rw [List.map_map]
    exact (ordered_sortFields _ : List.Pairwise _ _).sublist (List.filter_sublist.map _)
  have hkeep : (fun p : Str × Json => decide (p.1 ≠ Str.lit "workspace_id")) ∘ (fun p : String × Json => (Str.lit p.1, p.2)) =
      fun p => decide (p.1 ≠ "workspace_id") := by
    funext p
    simp only [Function.comp_apply, decide_eq_decide, ne_eq, not_iff_not]
    exact ⟨fun h => Str.lit_injective h, fun h => congrArg Str.lit h⟩
  rw [mkObj, contentState, hset, mkObj]
  congr 1
  refine Agree.eq_of_ordered (fun j => ?_) hordered (ordered_sortFields _)
  rw [find?_sortFields, hagree j, List.filter_map, hkeep, List.map_map, List.map_map]
  congr 1
  refine List.map_congr_left fun p _ => ?_
  simp only [Function.comp_apply, set, Str.lit_injective.eq_iff]

/-! ### What a fork comes to -/

theorem PolicyInheritance.create_eq_ok {parent : WorkspacePolicy} {requested : Option WorkspacePolicy} {x : PolicyInheritance}
    (h : create parent requested = .ok x) : x.parentPolicy = parent ∧ x.effectiveChildPolicy = requested.getD parent := by
  unfold create at h
  split_ifs at h
  simp only [bind_eq_ok, pure_eq_ok] at h
  obtain ⟨_, -, _, -, rfl⟩ := h
  exact ⟨rfl, rfl⟩

/-- What the record of a fork says of the checkpoint. -/
structure WorkspaceFork.Of (f : WorkspaceFork) (c : ContextCheckpoint) (a : ForkArguments) : Prop where
  parentPolicy : WorkspacePolicy.fromDict (c.logicalState.get "policy") = .ok f.policyInheritance.parentPolicy
  childPolicy : f.policyInheritance.effectiveChildPolicy = a.policy.getD f.policyInheritance.parentPolicy
  child : f.childWorkspaceId = a.workspaceId
  source : f.source.workspaceId = c.workspaceId
  parent : f.lineage.parentWorkspaceId = c.workspaceId ∧ f.lineage.parentCheckpointId = c.checkpointId ∧
    f.lineage.parentCheckpointStateDigest = c.stateDigest ∧ f.lineage.parentCheckpointEnvelopeDigest = c.envelopeDigest
  lock : f.packageLockDigest = c.packageLockDigest
  content : domainDigest "leanctx.fork.inherited-content.v1" (contentState c.logicalState) = .ok f.inheritedContentDigest

theorem WorkspaceFork.create_eq_ok {c : ContextCheckpoint} {a : ForkArguments} {f : WorkspaceFork}
    (h : create c a.workspaceId a.name a.eventId a.policy a.forkId a.executionRef = .ok f) : f.Of c a := by
  simp only [create, bind_eq_ok] at h
  obtain ⟨parent, hparent, policy, hpolicy, h⟩ := h
  split_ifs at h
  simp only [bind_eq_ok, parallelDigest_eq_ok] at h
  obtain ⟨content, hcontent, source, hsource, d, -, h⟩ := h
  have hfields := make_eq_ok.mp h
  obtain ⟨hp, hchild⟩ := PolicyInheritance.create_eq_ok hpolicy
  have hws : source.workspaceId = c.workspaceId := by
    unfold WorkspaceStateRef.fromCheckpoint WorkspaceStateRef.make at hsource
    split_ifs at hsource
    cases hsource
    rfl
  refine ⟨?_, ?_, ?_, ?_, ?_, ?_, ?_⟩ <;> rw [hfields]
  · exact hp ▸ hparent
  · exact hp ▸ hchild
  · exact hws
  · exact ⟨rfl, rfl, rfl, rfl⟩
  · exact hcontent

/-- What a fork that succeeds comes to. -/
structure State.ForksTo (s : State) (c : ContextCheckpoint) (a : ForkArguments) (b : Birth) (f : WorkspaceFork)
    (born : State) : Prop where
  active : s.lifecycle = .active
  record : f.Of c a
  workspace : b.first.workspaceId = a.workspaceId
  first : ∃ identity : WorkspaceIdentity, identity.workspaceId = a.workspaceId ∧
    b.first.payload = createdPayload identity f.policyInheritance.effectiveChildPolicy
  second : b.second.kind = .workspaceForked ∧ b.second.payload = (mkObj (forkPayload f c.logicalState)).plain
  created : applyEvent false none b.first = .ok born
  forked : applyEvent false (some born) b.second = .ok b.child

theorem State.forkFrom_eq_ok {s : State} {c : ContextCheckpoint} {a : ForkArguments} {b : Birth}
    (h : s.forkFrom c a = .ok b) : ∃ f created, s.ForksTo c a b f created := by
  simp only [forkFrom, bind_eq_ok, ensure_eq_ok, exists_const, catching_eq_ok, pure_eq_ok] at h
  obtain ⟨hactive, _, -, _, -, identity, hidentity, f, hf, first, hfirst, second, hsecond, created, hcreated, child, hchild,
    rfl⟩ := h
  have hws : identity.workspaceId = a.workspaceId := by
    unfold WorkspaceIdentity.make at hidentity
    cases hd : LeanCtx.digest (WorkspaceIdentity.base a.workspaceId a.name a.now) with
    | error err =>
      rw [hd] at hidentity
      cases hidentity
    | ok d =>
      rw [hd] at hidentity
      cases hidentity
      rfl
  obtain ⟨-, hfirst', -, -, -, hpayload, -⟩ := Event.sealed_record hfirst
  obtain ⟨-, -, -, -, hkind, hpayload', -⟩ := Event.sealed_record hsecond
  exact ⟨f, created, hactive, WorkspaceFork.create_eq_ok hf, hfirst', ⟨identity, hws, hpayload.trans (plain_createdPayload _ _)⟩,
    ⟨hkind, hpayload'⟩, hcreated, hchild⟩

/-- The state that a creation under a policy comes to has that policy. -/
theorem State.policy_of_created {e : Event} {identity : WorkspaceIdentity} {policy : WorkspacePolicy} {s : State}
    (hpayload : e.payload = createdPayload identity policy) {allow : Bool} (h : applyEvent allow none e = .ok s) :
    s.policy = policy ∧ s.identity.workspaceId = e.workspaceId := by
  obtain ⟨-, -, t, ht, hrecord⟩ := applyEvent_none.mp h
  obtain ⟨identity', policy', hws, hpolicy, rfl⟩ := create_eq_ok ht
  obtain ⟨_, -, -, -, rfl⟩ := recordEvent_eq_ok.mp hrecord
  have hget : (createdPayload identity policy).get "policy" = policy.toDict := by simp [createdPayload, get_mkObj]
  rw [hpayload, hget, WorkspacePolicy.fromDict_toDict] at hpolicy
  exact ⟨(Except.ok.inj hpolicy).symm, hws⟩

end LeanCtx
