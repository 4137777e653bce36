import LeanCtx.Workspace.Handing
import LeanCtx.Workspace.Inheriting

/-! Lineage: where a workspace was forked from, which no event changes, and whose handoffs a receiver recognizes by it: its own,
    those of its parent and those of its siblings. -/

namespace LeanCtx
open Json

/-! ### Origins of a workspace -/

/-- A workspace and its checkpoints and lineage belong together. -/
structure State.Rooted (s : State) : Prop where
  born : 1 ≤ s.events.length
  checkpoints : ∀ i c, s.checkpoints.get? i = some c → c.workspaceId = s.identity.workspaceId ∧ 2 ≤ s.events.length
  lineage : ∀ l, s.forkLineage = some l → l.childWorkspaceId = s.identity.workspaceId ∧ 2 ≤ s.events.length

/-- The workspace that a logical state is of. -/
theorem workspace_of_components {v : Json} {ws : Uuid} {l : LogicalState} (h : logicalStateComponents v ws = .ok l) :
    v.get "workspace_id" = ws.json := by
  simp only [logicalStateComponents, bind_eq_ok, ensure_eq_ok, exists_const] at h
  obtain ⟨_, -, -, hws, -⟩ := h
  exact hws

theorem ContextCheckpoint.workspaceId_eq {c : ContextCheckpoint} {ws : Uuid} {l : LogicalState}
    (h : logicalStateComponents c.logicalState ws = .ok l) : c.workspaceId = ws := by
  obtain ⟨l', hl'⟩ := c.reads
  exact Subtype.ext (Json.str.inj ((workspace_of_components hl').symm.trans (workspace_of_components h)))

/-- The lineage that the record of a fork is read with. -/
theorem WorkspaceFork.lineage_of_fromDict {v : Json} {f : WorkspaceFork} (h : fromDict v = .ok f) :
    ForkLineage.fromDict (v.get "lineage") = .ok f.lineage ∧ f.childWorkspaceId = f.lineage.childWorkspaceId := by
  have hvalid := f.valid
  simp only [ForkFields.check, bind_eq_ok, ensure_eq_ok, exists_const] at hvalid
  simp only [fromDict, bind_eq_ok] at h
  obtain ⟨_, -, _, -, _, -, lineage, hlineage, _, -, _, -, _, -, _, -, _, -, _, -, _, -, _, -, h⟩ := h
  rw [make_eq_ok.mp h]
  exact ⟨hlineage, (make_eq_ok.mp h) ▸ hvalid.1.2⟩

namespace State
variable {s s' t : State} {allow : Bool} {e : Event}

theorem fork_child {i : Uuid} {p : Json} (h : s.fork i p = .ok s') : ∃ f, WorkspaceFork.fromDict (p.get "fork") = .ok f ∧
    f.childWorkspaceId = s.identity.workspaceId ∧ s'.forkLineage = some f.lineage ∧ s'.checkpoints = s.checkpoints := by
  simp only [fork, bind_eq_ok, ensure_eq_ok, projecting_eq_ok, exists_const, pure_eq_ok] at h
  obtain ⟨-, -, f, hf, _, -, _, -, _, -, hagree, _, -, rfl⟩ := h
  exact ⟨f, hf, hagree.1, rfl, rfl⟩

/-- What an event does to the checkpoints and the lineage: it adds a checkpoint of the workspace, or it is the fork. -/
theorem origins_effect (h : s.effect allow e = .ok s') :
    (∀ i c, s'.checkpoints.get? i = some c → s.checkpoints.get? i = some c ∨ c.workspaceId = s.identity.workspaceId) ∧
      (s'.forkLineage = s.forkLineage ∨ s.events.length = 1 ∧ ∃ l, s'.forkLineage = some l ∧
        l.childWorkspaceId = s.identity.workspaceId) := by
  have hkept : ∀ {u : State}, u.checkpoints = s.checkpoints → ∀ i c, u.checkpoints.get? i = some c →
      s.checkpoints.get? i = some c ∨ c.workspaceId = s.identity.workspaceId := fun heq i c hc => Or.inl (heq ▸ hc)
  have hstored : ∀ {d : ContextCheckpoint}, d.workspaceId = s.identity.workspaceId → ∀ i c,
      (s.checkpoints.set d.checkpointId d).get? i = some c →
        s.checkpoints.get? i = some c ∨ c.workspaceId = s.identity.workspaceId := by
    intro d hd i c hc
    rw [Dict.get?_set] at hc
    split_ifs at hc
    · exact Or.inr (Option.some.inj hc ▸ hd)
    · exact Or.inl hc
  unfold effect at h
  split at h
  · cases h
  · obtain ⟨a, -, -, -, -, rfl⟩ := attachSource_eq_ok h
    exact ⟨hkept rfl, Or.inl rfl⟩
  · obtain ⟨a, _, _, -, -, -, -, -, rfl⟩ := updateSource_eq_ok h
    exact ⟨hkept rfl, Or.inl rfl⟩
  · obtain ⟨_, _, -, -, -, -, -, -, rfl⟩ := tightenPolicy_eq_ok h
    exact ⟨hkept rfl, Or.inl rfl⟩
  · obtain ⟨_, -, -, -, -, -, rfl⟩ := attachSession_eq_ok h
    exact ⟨hkept rfl, Or.inl rfl⟩
  · obtain ⟨_, _, -, -, -, -, -, -, -, rfl⟩ := commitContext_eq_ok h
    exact ⟨hkept rfl, Or.inl rfl⟩
  · obtain ⟨f, hf, hchild, hlineage, hcheckpoints⟩ := fork_child h
    obtain ⟨_, _, _, hone, -, -, -, -, -, -⟩ := fork_eq_ok h
    exact ⟨hkept hcheckpoints, Or.inr ⟨hone, _, hlineage, (WorkspaceFork.lineage_of_fromDict hf).2.symm.trans hchild⟩⟩
  · obtain ⟨_, _, _, _, -, -, -, -, -, -, -, -, -, -, rfl⟩ := applyHandoff_eq_ok h
    exact ⟨hkept rfl, Or.inl rfl⟩
  · obtain ⟨_, _, -, -, -, -, rfl⟩ := pinPackage_eq_ok h
    exact ⟨hkept rfl, Or.inl rfl⟩
  · obtain ⟨c, _, -, -, -, hws, -, -, -, rfl⟩ := createCheckpoint_eq_ok h
    exact ⟨hstored hws, Or.inl rfl⟩
  · obtain ⟨_, _, -, -, -, -, rfl⟩ := restore_eq_ok h
    exact ⟨hkept rfl, Or.inl rfl⟩
  · obtain ⟨c, _, -, -, -, -, htarget, -, -, rfl⟩ := seed_eq_ok h
    exact ⟨hstored (ContextCheckpoint.workspaceId_eq htarget), Or.inl rfl⟩
  · obtain rfl := sealWorkspace_eq_ok h
    exact ⟨hkept rfl, Or.inl rfl⟩
  · cases h
    exact ⟨hkept rfl, Or.inl rfl⟩
  · obtain rfl := abort_eq_ok h
    exact ⟨hkept rfl, Or.inl rfl⟩

/-- An event keeps a workspace rooted; where it is not the second one, it keeps the lineage too. -/
theorem rooted_applyEvent (hs : s.Rooted) (h : applyEvent allow (some s) e = .ok s') : s'.Rooted ∧
    s'.identity = s.identity ∧ s.events.length < s'.events.length ∧
    (2 ≤ s.events.length → s'.forkLineage = s.forkLineage) := by
  obtain ⟨-, -, -, u, hu, hrecord⟩ := applyEvent_some.mp h
  obtain ⟨_, -, -, -, rfl⟩ := recordEvent_eq_ok.mp hrecord
  obtain ⟨hid, hevents, -, -⟩ := effect_frame hu
  obtain ⟨hcheckpoints, hlineage⟩ := origins_effect hu
  have hlength : (u.events ++ [e]).length = s.events.length + 1 := by rw [hevents, List.length_append, List.length_singleton]
  have hborn := hs.born
  have hroom : 2 ≤ (u.events ++ [e]).length := by omega
  refine ⟨⟨by show 1 ≤ (u.events ++ [e]).length; omega, fun i c hc => ⟨?_, hroom⟩, fun l hl => ⟨?_, hroom⟩⟩, hid, ?_, ?_⟩
  · show c.workspaceId = u.identity.workspaceId
    rw [hid]
    rcases hcheckpoints i c hc with hold | hnew
    · exact (hs.checkpoints i c hold).1
    · exact hnew
  · show l.childWorkspaceId = u.identity.workspaceId
    rw [hid]
    rcases hlineage with hsame | ⟨-, l', hl', hchild⟩
    · exact (hs.lineage l (hsame ▸ hl)).1
    · obtain rfl : l' = l := Option.some.inj (hl'.symm.trans hl)
      exact hchild
  · show s.events.length < (u.events ++ [e]).length
    omega
  · intro htwo
    rcases hlineage with hsame | ⟨hone, -⟩
    · exact hsame
    · omega

theorem rooted_created (h : applyEvent allow none e = .ok s') : s'.Rooted := by
  obtain ⟨-, -, t, ht, hrecord⟩ := applyEvent_none.mp h
  obtain ⟨_, _, -, -, rfl⟩ := create_eq_ok ht
  obtain ⟨_, -, -, -, rfl⟩ := recordEvent_eq_ok.mp hrecord
  exact ⟨le_refl 1, nofun, nofun⟩

end State

open State
variable {s s' t : State} {c d : ContextCheckpoint} {a : ForkArguments} {b : Birth} {x : HandoffArguments} {h : ContextHandoff}

theorem rooted_of_reaches (h : Machine.Reaches Accepts (fun _ _ => True) s) : s.Rooted := by
  refine h.invariant (I := State.Rooted) ?_ ?_
  · rintro e s - ⟨allow, he⟩
    exact rooted_created he
  · rintro s e s' hs - ⟨allow, he⟩
    exact (rooted_applyEvent hs he).1

/-- A workspace of two events stays what it is: the same one, of the same lineage. -/
theorem lineage_of_runs {cond : Option State → Event → Prop} (hs : s.Rooted) (htwo : 2 ≤ s.events.length)
    (hrun : Machine.Runs Accepts cond s t) : t.Rooted ∧ t.identity = s.identity ∧ t.forkLineage = s.forkLineage := by
  refine (hrun.invariant (I := fun t => (t.Rooted ∧ 2 ≤ t.events.length) ∧ t.identity = s.identity ∧
    t.forkLineage = s.forkLineage) ?_ ⟨⟨hs, htwo⟩, rfl, rfl⟩).imp_left And.left
  rintro t e t' ⟨⟨ht, hlength⟩, hid, hlineage⟩ - ⟨allow, he⟩
  obtain ⟨ht', hid', hlength', hlineage'⟩ := rooted_applyEvent ht he
  exact ⟨⟨ht', by omega⟩, hid'.trans hid, (hlineage' hlength).trans hlineage⟩

/-! ### The lineage of a child -/

/-- The lineage of a workspace that was forked from a checkpoint. -/
structure ForkLineage.Of (l : ForkLineage) (c : ContextCheckpoint) (a : ForkArguments) : Prop where
  child : l.childWorkspaceId = a.workspaceId
  parent : l.parentWorkspaceId = c.workspaceId
  checkpoint : l.parentCheckpointId = c.checkpointId
  state : l.parentCheckpointStateDigest = c.stateDigest
  envelope : l.parentCheckpointEnvelopeDigest = c.envelopeDigest

/-- The child of a fork has the lineage of the fork. -/
theorem rooted_forkFrom (h : s.forkFrom c a = .ok b) : b.child.Rooted ∧ b.child.identity.workspaceId = a.workspaceId ∧
    b.child.events.length = 2 ∧ ∃ l, b.child.forkLineage = some l ∧ l.Of c a := by
  obtain ⟨hinherits, hlength⟩ := inherits_forkFrom h
  obtain ⟨f, born, hf⟩ := forkFrom_eq_ok h
  have hrooted := (rooted_applyEvent (rooted_created hf.created) hf.forked).1
  obtain ⟨-, -, -, u, hu, hrecord⟩ := applyEvent_some.mp hf.forked
  obtain ⟨receipt, -, -, -, hchild⟩ := recordEvent_eq_ok.mp hrecord
  rw [effect, hf.second.1] at hu
  obtain ⟨g, hg, -, hlineage, -⟩ := fork_child hu
  have hself : f.toDict.plain = f.toDict := f.isPlain_toDict
  have hfork : b.second.payload.get "fork" = f.toDict := by
    rw [hf.second.2, get_plain, ← hself]
    simp [forkPayload, get_mkObj]
  have hsame : f.lineage = g.lineage := by
    have hread := (WorkspaceFork.lineage_of_fromDict hg).1
    have hget : f.toDict.get "lineage" = f.lineage.toDict := by
      rw [ForkFields.toDict_eq]
      simp [get_mkObj]
    rw [hfork, hget, ForkLineage.fromDict_toDict] at hread
    exact Except.ok.inj hread
  have hvalid := f.valid
  simp only [ForkFields.check, bind_eq_ok, ensure_eq_ok, exists_const] at hvalid
  obtain ⟨hparent, hcheckpoint, hstate, henvelope⟩ := hf.record.parent
  refine ⟨hrooted, hinherits.workspace, hlength, f.lineage, ?_, hvalid.1.2.symm.trans hf.record.child, hparent, hcheckpoint,
    hstate, henvelope⟩
  rw [hsame, ← hlineage, ← hchild]
  rfl

/-- The child of a fork is reached. -/
theorem reaches_forkFrom (h : s.forkFrom c a = .ok b) : Machine.Reaches Accepts (fun _ _ => True) b.child := by
  obtain ⟨f, born, hf⟩ := forkFrom_eq_ok h
  exact .next (.start trivial ⟨_, hf.created⟩) trivial ⟨_, hf.forked⟩

theorem checkStored_of_forkFrom (h : s.forkFrom c a = .ok b) : s.checkStored c = .ok () := by
  simp only [forkFrom, bind_eq_ok] at h
  obtain ⟨_, -, _, hstored, -⟩ := h
  exact hstored

/-! ### What a handoff says of its sender -/

/-- The record of a stored checkpoint is the one that was asked for. -/
theorem stored_of_checkStored (hc : s.checkStored c = .ok ()) : ∃ stored, s.checkpoints.get? c.checkpointId = some stored ∧
    stored.workspaceId = c.workspaceId ∧ stored.stateDigest = c.stateDigest ∧ stored.envelopeDigest = c.envelopeDigest := by
  unfold checkStored at hc
  split at hc
  · cases hc
  · next stored hstored =>
    simp only [bind_eq_ok, ensure_eq_ok] at hc
    obtain ⟨left, hleft, right, hright, rfl⟩ := hc
    have hplain : stored.toDict.plain = c.toDict.plain := by
      rw [CheckpointFields.toDict] at hleft hright ⊢
      exact canonicalBytes?_inj (canonical_eq_ok.mp hleft) (canonical_eq_ok.mp hright)
    have hget : ∀ k, (stored.toDict.get k).plain = (c.toDict.get k).plain := fun k => by rw [← get_plain, hplain, get_plain]
    have hfields : ∀ c : ContextCheckpoint, c.toDict.get "workspace_id" = c.workspaceId.json ∧
        c.toDict.get "state_digest" = c.stateDigest.json ∧ c.toDict.get "envelope_digest" = c.envelopeDigest.json := fun c => by
      rw [LogicalState.Storable.toDict_eq]
      simp [get_mkObj]
    have hws := hget "workspace_id"
    have hstate := hget "state_digest"
    have henvelope := hget "envelope_digest"
    rw [(hfields stored).1, (hfields c).1] at hws
    rw [(hfields stored).2.1, (hfields c).2.1] at hstate
    rw [(hfields stored).2.2, (hfields c).2.2] at henvelope
    exact ⟨stored, hstored, Subtype.ext (Json.str.inj hws), Subtype.ext (Json.str.inj hstate), Subtype.ext (Json.str.inj henvelope)⟩

theorem source_of_createHandoff (hh : s.createHandoff c x = .ok h) : s.checkStored c = .ok () ∧
    h.source.workspaceId = c.workspaceId ∧ h.source.checkpointId = c.checkpointId ∧ h.source.stateDigest = c.stateDigest ∧
    h.source.checkpointEnvelopeDigest = c.envelopeDigest ∧ h.sourceLineage = s.forkLineage := by
  simp only [createHandoff, ContextHandoff.create, bind_eq_ok, ensure_eq_ok, exists_const] at hh
  obtain ⟨_, hstored, _, -, _, -, _, -, _, -, -, -, _, -, source, hsource, _, -, _, -, _, -, -, _, -, hh⟩ := hh
  have hfields := ContextHandoff.make_eq_ok.mp hh
  unfold WorkspaceStateRef.fromCheckpoint WorkspaceStateRef.make at hsource
  split_ifs at hsource
  cases hsource
  rw [ContextHandoff.sourceLineage, hfields]
  exact ⟨hstored, rfl, rfl, rfl, rfl, rfl⟩

/-! ### Whose handoffs are recognized -/

/-- A checkpoint of a workspace that is reached stays stored, in a workspace of two events or more. -/
theorem recorded_of_runs (hreach : Machine.Reaches Accepts (fun _ _ => True) s) (hc : s.checkStored c = .ok ())
    (hrun : Machine.Runs Accepts (fun _ _ => True) s t) : ∃ stored, t.checkpoints.get? c.checkpointId = some stored ∧
      stored.workspaceId = c.workspaceId ∧ stored.stateDigest = c.stateDigest ∧ stored.envelopeDigest = c.envelopeDigest ∧
      c.workspaceId = s.identity.workspaceId ∧ t.forkLineage = s.forkLineage ∧ t.identity = s.identity ∧
      2 ≤ s.events.length := by
  have hrooted := rooted_of_reaches hreach
  obtain ⟨stored, hstored, hws, hstate, henvelope⟩ := stored_of_checkStored hc
  obtain ⟨hworkspace, htwo⟩ := hrooted.checkpoints _ _ hstored
  obtain ⟨-, hid, hlineage⟩ := lineage_of_runs hrooted htwo hrun
  have hkept : t.checkpoints.get? c.checkpointId = some stored := by
    refine hrun.invariant (I := fun t => t.checkpoints.get? c.checkpointId = some stored) ?_ hstored
    rintro u e u' hu - ⟨allow, he⟩
    obtain ⟨w, hw, hcheckpoints, -, -⟩ := recorded_checkpoints he
    rw [hcheckpoints]
    exact checkpoint_effect hw hu
  exact ⟨stored, hkept, hws, hstate, henvelope, hws.symm.trans hworkspace, hlineage, hid, htwo⟩

/-- The child of a workspace that is no fork itself recognizes a handoff of the checkpoint that it was forked from. -/
theorem admitsLineage_of_parent {u s₁ s₂ : State} {root : Uuid → Option State} (hreach : Machine.Reaches Accepts (fun _ _ => True) s)
    (hroot : s.forkLineage = none) (hstored : s.checkStored c = .ok ()) (hfork : u.forkFrom c a = .ok b)
    (hrun₁ : Machine.Runs Accepts (fun _ _ => True) s s₁) (hh : s₁.createHandoff c x = .ok h)
    (hrun₂ : Machine.Runs Accepts (fun _ _ => True) s s₂) (hsender : root c.workspaceId = some s₂)
    (hrun : Machine.Runs Accepts (fun _ _ => True) b.child t) : t.admitsLineage (t.senderOf root h) h = true := by
  obtain ⟨-, hws, hcheckpoint, hstate, henvelope, hlineage⟩ := source_of_createHandoff hh
  obtain ⟨stored, hkept, hsws, hsstate, hsenvelope, -, hroot₂, -, -⟩ := recorded_of_runs hreach hstored hrun₂
  obtain ⟨-, -, -, -, -, -, hroot₁, -, -⟩ := recorded_of_runs hreach hstored hrun₁
  obtain ⟨hrooted, hid, htwo, l, hl, hof⟩ := rooted_forkFrom hfork
  obtain ⟨-, hid', hl'⟩ := lineage_of_runs hrooted htwo.ge hrun
  have hother : h.source.workspaceId ≠ t.identity.workspaceId := by
    rw [hws, hid', hid, ← hof.child, ← hof.parent]
    exact l.distinct.symm
  have hparent : parentOf h.source l := ⟨hws.trans hof.parent.symm, hcheckpoint.trans hof.checkpoint.symm,
    hstate.trans hof.state.symm, henvelope.trans hof.envelope.symm⟩
  have hnone : h.sourceLineage = none := hlineage.trans (hroot₁.trans hroot)
  have hstoredOk : (s₂.checkpoints.get? h.source.checkpointId).any (fun c => c.workspaceId = h.source.workspaceId &&
      c.stateDigest = h.source.stateDigest && c.envelopeDigest = h.source.checkpointEnvelopeDigest) = true := by
    rw [hcheckpoint, hkept]
    simp [hsws, hsstate, hsenvelope, hws, hstate, henvelope]
  have hrecorded : s₂.forkLineage = h.sourceLineage := (hroot₂.trans hroot).trans hnone.symm
  rw [admitsLineage, senderOf, if_neg hother, if_neg hother, hws, hsender, hnone, hl', hl]
  rw [hws] at hstoredOk
  simp only [Option.bind_some, hstoredOk, hrecorded, hnone, hparent, decide_true, Bool.and_self]

/-- A parent does not recognize the handoffs of a child. -/
theorem admitsLineage_of_child {s₁ : State} {sender : Option State} (hreach : Machine.Reaches Accepts (fun _ _ => True) s)
    (hfork : s.forkFrom c a = .ok b) (hrun : Machine.Runs Accepts (fun _ _ => True) b.child t)
    (hh : t.createHandoff d x = .ok h) (hrun₁ : Machine.Runs Accepts (fun _ _ => True) s s₁) :
    s₁.admitsLineage sender h = false := by
  obtain ⟨hstored, hws, -, -, -, hlineage⟩ := source_of_createHandoff hh
  have hchecked := checkStored_of_forkFrom hfork
  obtain ⟨-, -, -, -, -, hparent, hsame, hid₁, htwo₁⟩ := recorded_of_runs hreach hchecked hrun₁
  obtain ⟨hrooted, hid, htwo, l, hl, hof⟩ := rooted_forkFrom hfork
  obtain ⟨ht, hid', hl'⟩ := lineage_of_runs hrooted htwo.ge hrun
  obtain ⟨stored, hget, hsws, -, -⟩ := stored_of_checkStored hstored
  have hother : h.source.workspaceId ≠ s₁.identity.workspaceId := by
    rw [hws, ← hsws, (ht.checkpoints _ _ hget).1, hid', hid, hid₁, ← hparent, ← hof.child, ← hof.parent]
    exact l.distinct
  have hsource : h.sourceLineage = some l := hlineage.trans (hl'.trans hl)
  simp only [admitsLineage, if_neg hother, hsource, hsame]
  cases hs : s.forkLineage with
  | none => rfl
  | some m =>
    -- the parent of the child is the parent workspace, which is no child of itself
    have hdiffer : ¬siblings l m := fun hsiblings => m.distinct
      (((rooted_of_reaches hreach).lineage m hs).1.trans (hparent.symm.trans (hof.parent.symm.trans hsiblings.1)))
    simp [hdiffer]

/-- What the receiver recognizes when it admits a handoff, it recognizes when it applies the handoff, then or later. -/
theorem lineageOk_of_admitsLineage {root : Uuid → Option State} (hreach : Machine.Reaches Accepts (fun _ _ => True) s)
    (hadmits : s.admitsLineage (s.senderOf root h) h = true) (hrun : Machine.Runs Accepts (fun _ _ => True) s t) :
    t.lineageOk h.source = true := by
  have hrooted := rooted_of_reaches hreach
  unfold admitsLineage at hadmits
  unfold senderOf at hadmits
  by_cases hself : h.source.workspaceId = s.identity.workspaceId
  · simp only [if_pos hself, Option.bind_some, Bool.and_eq_true, decide_eq_true_eq, Option.any_eq_true] at hadmits
    obtain ⟨⟨stored, hstored, ⟨-, hstate⟩, henvelope⟩, hlineage⟩ := hadmits
    obtain ⟨-, htwo⟩ := hrooted.checkpoints _ _ hstored
    obtain ⟨-, hid, hl⟩ := lineage_of_runs hrooted htwo hrun
    have hkept : t.checkpoints.get? h.source.checkpointId = some stored := by
      refine hrun.invariant (I := fun t => t.checkpoints.get? h.source.checkpointId = some stored) ?_ hstored
      rintro u e u' hu - ⟨allow, he⟩
      obtain ⟨w, hw, hcheckpoints, -, -⟩ := recorded_checkpoints he
      rw [hcheckpoints]
      exact checkpoint_effect hw hu
    have hsource : isSource h.source stored := ⟨hstate, henvelope⟩
    rw [lineageOk, if_pos (hself.trans (by rw [hid])), hkept, Option.any_some, hl, hlineage]
    simp [hsource, ContextHandoff.sourceLineage]
  · rw [if_neg hself] at hadmits
    cases hs : s.forkLineage with
    | none =>
      rw [hs] at hadmits
      cases hl : h.sourceLineage with
      | none =>
        rw [hl] at hadmits
        cases hadmits
      | some l =>
        rw [hl] at hadmits
        cases hadmits
    | some m =>
      obtain ⟨-, htwo⟩ := hrooted.lineage m hs
      obtain ⟨-, hid, hsame⟩ := lineage_of_runs hrooted htwo hrun
      rw [hs] at hadmits
      rw [lineageOk, if_neg (by rw [hid]; exact hself), hsame, hs]
      cases hl : h.sourceLineage with
      | none =>
        rw [hl] at hadmits
        simp only [Bool.and_eq_true] at hadmits
        rw [ContextHandoff.sourceLineage] at hl
        rw [hl]
        exact hadmits.2
      | some l =>
        rw [hl] at hadmits
        simp only [Bool.and_eq_true] at hadmits
        rw [ContextHandoff.sourceLineage] at hl
        rw [hl]
        exact hadmits.2

end LeanCtx
