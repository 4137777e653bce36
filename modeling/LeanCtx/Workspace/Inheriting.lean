import LeanCtx.Workspace.Floor
import LeanCtx.Workspace.Operations
import LeanCtx.Workspace.Restoring

/-! Inheriting: the child of a fork starts with the content of the checkpoint, of which only the workspace, the policy and the
    local files of the sources are its own, and keeps the entries that it starts with. -/

namespace LeanCtx
open Json

/-! ### Equality without local files -/

theorem sortFields_insertField (k : Str) (v : Json) (f : List (Str × Json)) :
    sortFields (insertField k v f) = insertField k v (sortFields f) := by
  have hagree : Agree (insertField k v f) (insertField k v (sortFields f)) := fun j => by
    rw [find?_insertField, find?_insertField, find?_sortFields]
  rw [sortFields_eq hagree, sortFields_eq_self (ordered_insertField (ordered_sortFields f))]

/-- What a value without its local file is compared by. -/
theorem loose_portableAnchor (f : List (Str × Json)) : (portableAnchor (.obj f)).plain.loose =
    .obj (insertField (Str.lit "engine_binding") .null (sortFields (f.map fun p => (p.1, p.2.plain.loose)))) := by
  simp only [portableAnchor, plain, loose, plainFields_eq, looseFields_eq, map_sortFields, List.map_map]
  have hmap : (insertField (Str.lit "engine_binding") .null f).map (fun p => (p.1, p.2.plain.loose)) =
      insertField (Str.lit "engine_binding") .null (f.map fun p => (p.1, p.2.plain.loose)) :=
    map_insertField (fun v => v.plain.loose) _ _ f
  rw [← sortFields_insertField, ← hmap]
  rfl

theorem exists_obj_of_pyEq {v : Json} {f : List (Str × Json)} (h : pyEq v (.obj f) = true) : ∃ g, v = .obj g := by
  rw [pyEq_iff] at h
  cases v with
  | obj g => exact ⟨g, rfl⟩
  | float x => cases hx : x.toInt? <;> simp [plain, loose, hx] at h
  | _ => simp [plain, loose] at h

/-- Equal sources are equal without their local files. -/
theorem pyEq_portableAnchor {v w : Json} (h : pyEq v w = true) : pyEq (portableAnchor v) (portableAnchor w) = true := by
  cases w with
  | obj g =>
    obtain ⟨f, rfl⟩ := exists_obj_of_pyEq h
    rw [pyEq_iff, loose_portableAnchor, loose_portableAnchor]
    rw [pyEq_iff] at h
    simp only [plain, loose, plainFields_eq, looseFields_eq, map_sortFields, List.map_map, obj.injEq] at h
    exact congrArg (fun l => Json.obj (insertField (Str.lit "engine_binding") .null l)) h
  | _ =>
    cases v with
    | obj f =>
      obtain ⟨g, hg⟩ := exists_obj_of_pyEq (pyEq_symm h)
      cases hg
    | _ => exact h

theorem pyEq_clearBindings {v w : Json} (h : pyEq v w = true) : pyEq (clearBindings v) (clearBindings w) = true := by
  cases w with
  | arr m =>
    obtain ⟨l, rfl⟩ := exists_arr_of_pyEq h
    rw [pyEq_arr] at h
    rw [clearBindings, clearBindings, pyEq_arr, List.forall₂_map_left_iff, List.forall₂_map_right_iff]
    exact h.imp fun _ _ => pyEq_portableAnchor
  | _ =>
    cases v with
    | arr l =>
      obtain ⟨m, hm⟩ := exists_arr_of_pyEq (pyEq_symm h)
      cases hm
    | _ => exact h

theorem portableAnchor_portableAnchor (v : Json) : pyEq (portableAnchor (portableAnchor v)) (portableAnchor v) = true := by
  cases v with
  | obj f =>
    have hset : ∀ l : List (Str × Json), insertField (Str.lit "engine_binding") .null
        (insertField (Str.lit "engine_binding") .null (sortFields l)) =
        insertField (Str.lit "engine_binding") .null (sortFields l) := by
      intro l
      refine Agree.eq_of_ordered (fun j => ?_) (ordered_insertField (ordered_insertField (ordered_sortFields l)))
        (ordered_insertField (ordered_sortFields l))
      rw [find?_insertField, find?_insertField]
      split_ifs <;> rfl
    have hmap : (insertField (Str.lit "engine_binding") .null f).map (fun p => (p.1, p.2.plain.loose)) =
        insertField (Str.lit "engine_binding") .null (f.map fun p => (p.1, p.2.plain.loose)) :=
      map_insertField (fun v => v.plain.loose) _ _ f
    rw [pyEq_iff, loose_portableAnchor, show portableAnchor (.obj f) = .obj (insertField (Str.lit "engine_binding") .null f) from rfl,
      loose_portableAnchor, hmap, sortFields_insertField, hset]
  | _ => exact pyEq_refl _

theorem pyEq_plain (v : Json) : pyEq v.plain v = true := pyEq_iff.mpr (by rw [plain_plain])

theorem portableAnchor_mkObj {f : List (String × Json)} (w : Json) (h : "engine_binding" ∉ f.map (·.1)) :
    portableAnchor (mkObj (f ++ [("engine_binding", w)])) = mkObj (f ++ [("engine_binding", .null)]) := by
  have hnew : Str.lit "engine_binding" ∉ (f.map fun p => (Str.lit p.1, p.2)).map (·.1) := by
    rw [List.map_map]
    intro hmem
    obtain ⟨p, hp, hk⟩ := List.mem_map.mp hmem
    exact h (Str.lit_injective hk ▸ List.mem_map_of_mem hp)
  have hset := sortFields_eq (agree_set .null w [] hnew)
  rw [mkObj, mkObj, List.map_append, List.map_append, portableAnchor]
  exact congrArg Json.obj hset

/-- A source without its local file has the JSON value without it. -/
theorem portableAnchor_toDict (a : SourceAnchor) : portableAnchor a.toDict = a.portable.toDict :=
  portableAnchor_mkObj (f := [("schema_version", .str SourceAnchor.schema), ("source_id", a.sourceId.json),
    ("kind", .str a.kind.name), ("canonical_id", a.canonicalId.json), ("revision", optional KindValue.toDict a.revision),
    ("freshness", a.freshness.toDict), ("recovery", optional SourceRecovery.toDict a.recovery),
    ("trust", a.trust.toDict), ("scope", a.scope.toDict)]) _ (by simp)

/-! ### Content of a logical state -/

theorem get_contentState (v : Json) {k : String} (hk : k ≠ "workspace_id") :
    (contentState v).get k = if k = "sources" then clearBindings (v.get k) else v.get k := by
  cases v with
  | obj f =>
    have hkey : Str.lit k ≠ Str.lit "workspace_id" := fun h => hk (Str.lit_injective h)
    have hfilter : (f.filter fun p => p.1 ≠ Str.lit "workspace_id").find? (fun p => p.1 = Str.lit k) =
        f.find? fun p => p.1 = Str.lit k := by
      rw [List.find?_filter]
      congr 1
      funext p
      by_cases hp : p.1 = Str.lit k
      · simp [hp, hkey]
      · simp [hp]
    have hmap : (fun p : Str × Json => decide (p.1 = Str.lit k)) ∘
        (fun p : Str × Json => if p.1 = Str.lit "sources" then (p.1, clearBindings p.2) else p) =
        fun p => decide (p.1 = Str.lit k) := by
      funext p
      simp only [Function.comp_apply]
      split_ifs <;> rfl
    rw [contentState, Json.get, Json.get?, List.find?_map, hmap, hfilter, Json.get, Json.get?]
    cases hfind : f.find? (fun p => p.1 = Str.lit k) with
    | none =>
      split_ifs
      · rfl
      · rfl
    | some p =>
      have hp : p.1 = Str.lit k := by simpa using List.find?_some hfind
      by_cases hs : k = "sources"
      · simp [hs, hp]
      · have hne : Str.lit k ≠ Str.lit "sources" := fun h => hs (Str.lit_injective h)
        simp [hs, hp, hne]
  | _ =>
    split_ifs
    · rfl
    · rfl

theorem get_dictWith {v w item : Json} (h : State.dictWith v "workspace_id" item = .ok w) (hobj : v.isObj = true) {k : String}
    (hk : k ≠ "workspace_id") : w.get k = v.get k := by
  cases v with
  | obj f =>
    have hkey : ¬Str.lit "workspace_id" = Str.lit k := fun h => hk (Str.lit_injective h).symm
    cases h
    rw [Json.get, Json.get?, find?_insertField, if_neg hkey]
    rfl
  | _ => cases hobj

theorem Dict.sortedValues_mapValues {κ ν μ : Type} [DecidableEq κ] [LinearOrder κ] (f : ν → μ) (d : Dict κ ν) :
    (d.mapValues f).sortedValues = d.sortedValues.map f := by
  have hsort := List.map_insertionSort (fun p q : κ × ν => p.1 ≤ q.1) (fun p q : κ × μ => p.1 ≤ q.1)
    (fun p => (p.1, f p.2)) d.items fun _ _ _ _ => Iff.rfl
  rw [sortedValues, sortedValues, mapValues, ← hsort, List.map_map, List.map_map]
  rfl

/-- Two logical states agree but for their workspaces, their policies and the local files of their sources. -/
structure SameContent (v w : Json) : Prop where
  schema : pyEq (v.get "schema_version") (w.get "schema_version") = true
  sources : pyEq (clearBindings (v.get "sources")) (clearBindings (w.get "sources")) = true
  entries : pyEq (v.get "entries") (w.get "entries") = true
  pins : pyEq (v.get "package_pins") (w.get "package_pins") = true
  lock : pyEq (v.get "package_lock_digest") (w.get "package_lock_digest") = true

theorem SameContent.symm {v w : Json} (h : SameContent v w) : SameContent w v :=
  ⟨pyEq_symm h.schema, pyEq_symm h.sources, pyEq_symm h.entries, pyEq_symm h.pins, pyEq_symm h.lock⟩

theorem SameContent.trans {u v w : Json} (h : SameContent u v) (h' : SameContent v w) : SameContent u w :=
  ⟨pyEq_trans h.schema h'.schema, pyEq_trans h.sources h'.sources, pyEq_trans h.entries h'.entries,
    pyEq_trans h.pins h'.pins, pyEq_trans h.lock h'.lock⟩

theorem pyEq_clearBindings_clear (v : Json) : pyEq (clearBindings (clearBindings v)) (clearBindings v) = true := by
  cases v with
  | arr l =>
    rw [clearBindings, clearBindings, List.map_map, pyEq_arr, List.forall₂_map_left_iff, List.forall₂_map_right_iff,
      List.forall₂_same]
    exact fun v _ => portableAnchor_portableAnchor v
  | _ => exact pyEq_refl _

/-- What is inherited from a logical state has its content. -/
theorem sameContent_inherited {v w item : Json} (hobj : v.isObj = true)
    (h : State.dictWith (contentState v).plain "workspace_id" item = .ok w) : SameContent w v := by
  have hinherited : (contentState v).plain.isObj = true := by
    cases v with
    | obj f => rfl
    | _ => cases hobj
  have hget : ∀ {k : String}, k ≠ "workspace_id" → k ≠ "sources" → pyEq (w.get k) (v.get k) = true := by
    intro k hk hs
    rw [get_dictWith h hinherited hk, get_plain, get_contentState v hk, if_neg hs]
    exact pyEq_plain _
  refine ⟨hget (by decide) (by decide), ?_, hget (by decide) (by decide), hget (by decide) (by decide),
    hget (by decide) (by decide)⟩
  rw [get_dictWith h hinherited (by decide), get_plain, get_contentState v (by decide), if_pos rfl]
  exact pyEq_trans (pyEq_clearBindings (pyEq_plain _)) (pyEq_clearBindings_clear _)

/-- A workspace whose sources are those of a logical state without their local files, and whose other content is its, has its
    content. -/
theorem sameContent_forked {s : State} {l : LogicalState} {lineage : ForkLineage} {v : Json} (h : l.Same v)
    (hschema : v.get "schema_version" = .str logicalStateSchema) : SameContent (s.forked l lineage).logicalState v := by
  have hgets : (s.forked l lineage).logicalState.get "schema_version" = .str logicalStateSchema ∧
      (s.forked l lineage).logicalState.get "sources" =
        .arr ((l.sources.mapValues SourceAnchor.portable).sortedValues.map SourceAnchor.toDict) ∧
      (s.forked l lineage).logicalState.get "entries" = entriesJson l.entries ∧
      (s.forked l lineage).logicalState.get "package_pins" = .arr (l.packagePins.sortedValues.map PackagePin.toDict) ∧
      (s.forked l lineage).logicalState.get "package_lock_digest" = optional Digest.json l.packageLockDigest := by
    simp [State.logicalState, LogicalState.toDict, get_mkObj, State.logical, State.forked]
  obtain ⟨h1, h2, h3, h4, h5⟩ := hgets
  have hportable : clearBindings (.arr (l.sources.sortedValues.map SourceAnchor.toDict)) =
      .arr ((l.sources.mapValues SourceAnchor.portable).sortedValues.map SourceAnchor.toDict) := by
    rw [clearBindings, Dict.sortedValues_mapValues, List.map_map, List.map_map]
    exact congrArg Json.arr (List.map_congr_left fun a _ => portableAnchor_toDict a)
  refine ⟨?_, ?_, ?_, ?_, ?_⟩
  · rw [h1, hschema]
    exact pyEq_refl _
  · rw [h2, ← hportable]
    exact pyEq_trans (pyEq_clearBindings_clear _) (pyEq_clearBindings h.sources)
  · rw [h3]
    exact h.entries
  · rw [h4]
    exact h.pins
  · rw [h5, h.lock]
    exact pyEq_refl _

/-! ### Entries are kept -/

section
variable {s s' t : State} {allow : Bool} {e : Event} {c : ContextCheckpoint} {a : ForkArguments} {b : Birth}

/-- An event that restores no checkpoint keeps the entries of a workspace that is no longer fresh. -/
theorem State.prefix_effect (h : s.effect allow e = .ok s') (hkind : e.kind ≠ .workspaceRestored)
    (hevents : 2 ≤ s.events.length) : s.entries <+: s'.entries := by
  unfold effect at h
  split at h
  · cases h
  · obtain ⟨a, -, -, -, -, rfl⟩ := attachSource_eq_ok h
    exact List.prefix_rfl
  · obtain ⟨a, _, _, -, -, -, -, -, rfl⟩ := updateSource_eq_ok h
    exact List.prefix_rfl
  · obtain ⟨_, _, -, -, -, -, -, -, rfl⟩ := tightenPolicy_eq_ok h
    exact List.prefix_rfl
  · obtain ⟨_, -, -, -, -, -, rfl⟩ := attachSession_eq_ok h
    exact List.prefix_rfl
  · obtain ⟨_, entries, -, -, -, -, -, -, -, rfl⟩ := commitContext_eq_ok h
    exact List.prefix_append _ _
  · obtain ⟨_, _, _, hone, -, -, -, -, -, -⟩ := fork_eq_ok h
    omega
  · obtain ⟨_, _, _, appended, -, -, -, -, -, -, -, -, -, -, rfl⟩ := applyHandoff_eq_ok h
    exact List.prefix_append _ _
  · obtain ⟨_, _, -, -, -, -, rfl⟩ := pinPackage_eq_ok h
    exact List.prefix_rfl
  · obtain ⟨_, _, -, -, -, -, -, -, -, rfl⟩ := createCheckpoint_eq_ok h
    exact List.prefix_rfl
  · next hrestored => exact absurd hrestored hkind
  · obtain ⟨_, _, -, -, hone, -, -, -, -, rfl⟩ := seed_eq_ok h
    omega
  · obtain rfl := sealWorkspace_eq_ok h
    exact List.prefix_rfl
  · cases h
    exact List.prefix_rfl
  · obtain rfl := abort_eq_ok h
    exact List.prefix_rfl

theorem prefix_applyEvent (h : applyEvent allow (some s) e = .ok s') (hkind : e.kind ≠ .workspaceRestored)
    (hevents : 2 ≤ s.events.length) : s.entries <+: s'.entries ∧ 2 ≤ s'.events.length := by
  obtain ⟨-, -, -, u, hu, hrecord⟩ := applyEvent_some.mp h
  obtain ⟨_, -, -, -, rfl⟩ := State.recordEvent_eq_ok.mp hrecord
  have hstart := State.prefix_effect hu hkind hevents
  refine ⟨hstart, ?_⟩
  show 2 ≤ (u.events ++ [e]).length
  rw [(State.effect_frame hu).2.1, List.length_append]
  exact hevents.trans (Nat.le_add_right _ _)

/-- Entries stay where they are until a checkpoint is restored. -/
theorem prefix_of_runs (hevents : 2 ≤ s.events.length)
    (hrun : Machine.Runs Accepts (fun _ e => e.kind ≠ .workspaceRestored) s t) : s.entries <+: t.entries := by
  refine (hrun.invariant (I := fun t => s.entries <+: t.entries ∧ 2 ≤ t.events.length) ?_ ⟨List.prefix_rfl, hevents⟩).1
  rintro t e t' ⟨hstart, hlength⟩ hkind ⟨allow, he⟩
  obtain ⟨hnext, hlength'⟩ := prefix_applyEvent he hkind hlength
  exact ⟨hstart.trans hnext, hlength'⟩

/-! ### What a child inherits -/

/-- The two ways to the digest of the inherited content agree. -/
theorem domainDigest_inheritedState (domain : String) (v : Json) :
    domainDigest domain (inheritedState v).plain = domainDigest domain (contentState v) := by
  rw [inheritedState, plain_contentState, domainDigest, canonical_plain]
  rfl

/-- A child has the content of a checkpoint, under the policy that it was asked for or else that of the checkpoint. -/
structure Birth.Inherits (b : Birth) (c : ContextCheckpoint) (a : ForkArguments) : Prop where
  workspace : b.child.identity.workspaceId = a.workspaceId
  policy : ∃ policy, WorkspacePolicy.fromDict (c.logicalState.get "policy") = .ok policy ∧
    b.child.policy = a.policy.getD policy
  content : SameContent b.child.logicalState c.logicalState
  portable : ∀ x ∈ b.child.sources.values, x.engineBinding = none

/-- The fork and its replay agree on the digest of what is inherited. -/
def Birth.SameDigest (b : Birth) (c : ContextCheckpoint) (a : ForkArguments) : Prop :=
  ∃ f, WorkspaceFork.create c a.workspaceId a.name a.eventId a.policy a.forkId a.executionRef = .ok f ∧
    parallelDigest "leanctx.fork.inherited-content.v1" (contentState c.logicalState) = .ok f.inheritedContentDigest ∧
    domainDigest "leanctx.fork.inherited-content.v1" (b.second.payload.get "inherited_state") = .ok f.inheritedContentDigest

theorem get_inheritedState {f : WorkspaceFork} {v : Json} :
    (mkObj (forkPayload f v)).plain.get "inherited_state" = (contentState v).plain := by
  rw [get_plain, ← plain_contentState]
  simp [forkPayload, get_mkObj, inheritedState]

theorem State.sameDigest_forkFrom (h : s.forkFrom c a = .ok b) : b.SameDigest c a := by
  simp only [forkFrom, bind_eq_ok, ensure_eq_ok, exists_const, catching_eq_ok, pure_eq_ok] at h
  obtain ⟨-, _, -, _, -, identity, -, f, hf, first, -, second, hsecond, created, -, child, -, rfl⟩ := h
  obtain ⟨-, -, -, -, -, hpayload, -⟩ := Event.sealed_record hsecond
  have hcontent := (WorkspaceFork.create_eq_ok hf).content
  refine ⟨f, hf, parallelDigest_eq_ok.mpr hcontent, ?_⟩
  rw [hpayload, get_inheritedState, domainDigest, canonical_plain]
  exact hcontent

/-- The logical state of a checkpoint is read. -/
theorem ContextCheckpoint.reads (c : ContextCheckpoint) : ∃ l, logicalStateComponents c.logicalState c.workspaceId = .ok l := by
  have hvalid := c.valid
  simp only [CheckpointFields.check, CheckpointFields.validateProjections, bind_eq_ok] at hvalid
  obtain ⟨_, -, _, -, _, -, _, -, _, -, _, ⟨l, hl, -⟩, -⟩ := hvalid
  exact ⟨l, hl⟩

theorem isObj_of_components {v : Json} {ws : Uuid} {l : LogicalState} (h : logicalStateComponents v ws = .ok l) :
    v.isObj = true ∧ v.get "schema_version" = .str logicalStateSchema := by
  simp only [logicalStateComponents, LeanCtx.exact, bind_eq_ok, ensure_eq_ok, exists_const] at h
  obtain ⟨hkeys, hschema, -⟩ := h
  refine ⟨?_, hschema⟩
  cases v with
  | obj f => rfl
  | _ => cases hkeys

theorem State.inherits_forkFrom (h : s.forkFrom c a = .ok b) : b.Inherits c a ∧ b.child.events.length = 2 := by
  have hpolicy := policy_forkFrom h
  obtain ⟨f, born, hf⟩ := forkFrom_eq_ok h
  obtain ⟨identity, -, hfirst⟩ := hf.first
  obtain ⟨-, hworkspace⟩ := policy_of_created hfirst hf.created
  obtain ⟨-, -, -, u, hu, hrecord⟩ := applyEvent_some.mp hf.forked
  obtain ⟨receipt, -, -, -, hchild⟩ := recordEvent_eq_ok.mp hrecord
  rw [effect, hf.second.1] at hu
  obtain ⟨g, logical, parent, hone, -, -, hlogical, hparent, -, rfl⟩ := fork_eq_ok hu
  rw [hf.second.2, get_inheritedState] at hlogical
  obtain ⟨l, hl⟩ := c.reads
  have hcontent := (@sameContent_forked born _ g.lineage _ (logicalStateComponents_same hparent)
    (isObj_of_components hparent).2).trans (sameContent_inherited (isObj_of_components hl).1 hlogical)
  have hlogical' : b.child.logicalState = (born.forked parent g.lineage).logicalState := by
    rw [← hchild]
    rfl
  have hsources : b.child.sources = parent.sources.mapValues SourceAnchor.portable := by rw [← hchild]; rfl
  have hid : b.child.identity = born.identity := by rw [← hchild]; rfl
  have hevents : b.child.events = born.events ++ [b.second] := by rw [← hchild]; rfl
  refine ⟨⟨?_, hpolicy, hlogical' ▸ hcontent, fun x hx => ?_⟩, ?_⟩
  · rw [hid, hworkspace, hf.workspace]
  · rw [hsources] at hx
    obtain ⟨x', -, rfl⟩ := Dict.mem_values_mapValues.mp hx
    rfl
  · rw [hevents, List.length_append, hone]
    rfl

end

end LeanCtx
