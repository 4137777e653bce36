import LeanCtx.Workspace.Sound

/-! States that can be stored: what every event keeps of the sources, entries and pins of a workspace, so that the logical
    state of one that is reached reads back. -/

namespace LeanCtx
open Json

/-! ### The invariant -/

/-- The sources and pins of a logical state are kept under their own keys, its lock is that of its pins, its entries name its
    sources, and none of it holds a secret. -/
structure LogicalState.Sound (l : LogicalState) : Prop where
  keyed : ∀ i a, l.sources.get? i = some a → a.sourceId = i
  sources : ∀ a ∈ l.sources.values, a.Sound
  entries : ∀ x ∈ l.entries, Safe x.toDict
  referenced : ∀ x ∈ l.entries, ∀ i ∈ x.sourceIds.1, l.sources.contains i = true
  pins : ∀ x ∈ l.packagePins.values, Safe x.toDict
  pinned : ∀ p ∈ l.packagePins.items, p.2.key = p.1
  lock : packageLock l.packagePins.values = .ok l.packageLockDigest

/-- The logical state is sound, and so is every stored one. -/
structure State.Sound (s : State) : Prop where
  logical : s.logical.Sound
  checkpoints : ∀ c ∈ s.checkpoints.values, IsPlain c.logicalState

/-! ### Logical states that were read -/

/-- Records that equal the values they were read from, one by one. -/
theorem pyEq_of_mapM {α : Type} {f : Json → Except Err α} {g : α → Json} {l : List Json} {m : List α} (hm : l.mapM f = .ok m)
    (heq : pyEq (.arr (m.map g)) (.arr l) = true) : ∀ v ∈ l, ∀ a, f v = .ok a → pyEq (g a) v = true := by
  rw [pyEq_arr, List.forall₂_map_left_iff] at heq
  induction l generalizing m with
  | nil => nofun
  | cons w l ih =>
    rw [List.mapM_cons, bind_eq_ok] at hm
    obtain ⟨b, hb, hm⟩ := hm
    obtain ⟨n, hn, hm⟩ := bind_eq_ok.mp hm
    cases hm
    rw [List.forall₂_cons] at heq
    intro v hv a ha
    rcases List.mem_cons.mp hv with rfl | hv
    · obtain rfl := Except.ok.inj (ha.symm.trans hb)
      exact heq.1
    · exact ih hn heq.2 v hv a ha

/-- Anchors that equal the plain values they were read from, without secrets, are sound. -/
theorem sound_of_mapM {l : List Json} {m : List SourceAnchor} (hm : l.mapM (fun a => SourceAnchor.fromDict a true) = .ok m)
    (heq : pyEq (.arr (m.map SourceAnchor.toDict)) (.arr l) = true) (hsafe : Safe (.arr l)) (hplain : IsPlain (.arr l)) :
    ∀ v ∈ l, ∀ a, SourceAnchor.fromDict v true = .ok a → a.Sound := fun v hv a ha =>
  SourceAnchor.sound_of_fromDict ha (pyEq_of_mapM hm heq v hv a ha) (safe_items hsafe v hv) (isPlain_items hplain v hv)

/-- A logical state that was read from a plain value without secrets is sound. -/
theorem LogicalState.Sound.of_components {v : Json} {ws : Uuid} {l : LogicalState} (h : logicalStateComponents v ws = .ok l)
    (hsafe : Safe v) (hplain : IsPlain v) : l.Sound := by
  have hwhole := Whole.of_components h
  have hreads := logicalStateComponents_eq_ok h
  simp only [logicalStateComponents, bind_eq_ok, ensure_eq_ok, exists_const] at h
  obtain ⟨_, -, -, -, h⟩ := h
  split at h
  · next rawSources rawEntries rawPins hsources hentries hpins =>
    simp only [bind_eq_ok, ensure_eq_ok, exists_const, pure_eq_ok] at h
    obtain ⟨-, _, -, -, policy, -, anchors, hanchors, entries, hread, pins, hpinned, hcanonical, hentries', hpins', -, -, -, -, -,
      lock, -, -, rfl⟩ := h
    have hsafeSources : Safe (.arr rawSources) := hsources ▸ safe_get hsafe "sources"
    have hplainSources : IsPlain (.arr rawSources) := hsources ▸ isPlain_get hplain "sources"
    have hsafePins : Safe (.arr rawPins) := hpins ▸ safe_get hsafe "package_pins"
    refine ⟨fun i a ha => ?_, fun a ha => ?_, fun x hx => ?_, hreads.referenced, fun x hx => ?_, hwhole.keyed, hwhole.lock⟩
    · obtain ⟨b, -, heq⟩ := List.mem_map.mp ((Dict.get?_foldl_set ha).resolve_right (by simp))
      rw [Prod.mk.injEq] at heq
      rw [← heq.1, heq.2]
    · obtain ⟨p, hp, rfl⟩ := List.mem_map.mp (Dict.mem_values_ofItems ha)
      obtain ⟨b, hb, rfl⟩ := List.mem_map.mp hp
      obtain ⟨w, hw, hwb⟩ := mem_of_mapM hanchors hb
      exact sound_of_mapM hanchors hcanonical hsafeSources hplainSources w hw b hwb
    · obtain ⟨w, hw, hwx⟩ := mem_of_mapM hread hx
      refine safe_of_pyEq x.isPlain_toDict (pyEq_of_mapM hread hentries' w hw x hwx) ?_
      exact safe_items (hentries ▸ safe_get hsafe "entries") w hw
    · obtain ⟨p, hp, rfl⟩ := List.mem_map.mp (Dict.mem_values_ofItems hx)
      obtain ⟨b, hb, rfl⟩ := List.mem_map.mp hp
      obtain ⟨w, hw, hwb⟩ := mem_of_mapM hpinned hb
      exact PackagePin.safe_of_fromDict hwb (safe_items hsafePins w hw)
  · cases h

/-- A checkpoint holds no secret in its logical state. -/
theorem ContextCheckpoint.safe_logicalState (c : ContextCheckpoint) : Safe c.logicalState := by
  have h := c.valid
  simp only [CheckpointFields.check, bind_eq_ok, ensure_eq_ok, exists_const] at h
  obtain ⟨-, _, hsafe, -⟩ := h
  exact rejectSensitive_eq_ok.mp hsafe

theorem ContextCheckpoint.logicalState_of_fromDict {v : Json} {c : ContextCheckpoint} (h : fromDict v = .ok c) :
    c.logicalState = v.get "logical_state" := by
  simp only [fromDict, bind_eq_ok] at h
  obtain ⟨_, -, h⟩ := h
  split at h
  · split at h
    · next hlogical _ _ =>
      simp only [bind_eq_ok, ensure_eq_ok, exists_const] at h
      obtain ⟨_, -, _, -, _, -, _, -, _, -, _, -, _, -, -, -, -, _, -, -, -, -, -, _, -, -, _, -, -, _, -, -, _, -, -, _, -, _, -, hmake⟩ := h
      rw [make_eq_ok.mp hmake, hlogical]
    · cases h
  · cases h

/-! ### What keeps it -/

/-! ### Inherited states -/

theorem isPlain_of_ordered {f : List (Str × Json)} (hord : Ordered f) (h : ∀ p ∈ f, IsPlain p.2) : IsPlain (.obj f) := by
  have hmap : f.map (fun p => (p.1, p.2.plain)) = f :=
    (List.map_congr_left fun p hp => by rw [h p hp]; rfl).trans (List.map_id f)
  rw [IsPlain, plain, plainFields_eq, hmap, sortFields_eq_self hord]

theorem mem_foldl_insertField {f g : List (Str × Json)} {p : Str × Json}
    (h : p ∈ f.foldl (fun g q => insertField q.1 q.2 g) g) : p ∈ f ∨ p ∈ g := by
  induction f generalizing g with
  | nil => exact Or.inr h
  | cons q f ih =>
    rcases ih h with h | h
    · exact Or.inl (List.mem_cons_of_mem _ h)
    · rcases mem_of_mem_insertField h with rfl | h
      · exact Or.inl List.mem_cons_self
      · exact Or.inr h

theorem ordered_foldl_insertField {f g : List (Str × Json)} (h : Ordered g) :
    Ordered (f.foldl (fun g q => insertField q.1 q.2 g) g) := by
  induction f generalizing g with
  | nil => exact h
  | cons q f ih => exact ih (ordered_insertField h)

def logicalStateKeys : List String :=
  ["schema_version", "workspace_id", "policy", "sources", "entries", "package_pins", "package_lock_digest"]

theorem keys_of_components {v : Json} {ws : Uuid} {l : LogicalState} (h : logicalStateComponents v ws = .ok l) :
    v.hasExactly logicalStateKeys = true := by
  simp only [logicalStateComponents, exact, bind_eq_ok, ensure_eq_ok, exists_const] at h
  exact h.1

/-- An item that a dictionary takes under the key of a logical state holds the strings of its value. -/
theorem sound_dictItem {v : Json} {p : Str × Json} (h : State.dictItem v = .ok p) (hkey : 1 < p.1.length) (hsafe : Safe v)
    (hplain : IsPlain v) : Safe p.2 ∧ IsPlain p.2 := by
  unfold State.dictItem at h
  split at h
  · next k w =>
    cases h
    exact ⟨safe_items hsafe w (by simp), isPlain_items hplain w (by simp)⟩
  · cases h
    exact absurd hkey (by simp)
  · next a _ b _ =>
    cases h
    exact ⟨safe_str (hsafe b (mem_stringsFields.mpr ⟨_, List.mem_cons_of_mem _ List.mem_cons_self, Or.inl rfl⟩)), rfl⟩
  · cases h

/-- A logical state that was made of an inherited one, which need not be an object, holds what that one held. -/
theorem sound_of_dictWith {v w : Json} {ws : Uuid} (h : State.dictWith v "workspace_id" ws.json = .ok w)
    (hkeys : w.hasExactly logicalStateKeys = true) (hsafe : Safe v) (hplain : IsPlain v) : Safe w ∧ IsPlain w := by
  have hnamed : ∀ k ∈ logicalStateKeys, isSensitive (Str.lit k) = false ∧ 1 < (Str.lit k).length := by decide
  have hwrite : ∀ f : List (Str × Json), Ordered f → w = .obj (insertField (Str.lit "workspace_id") ws.json f) →
      (∀ p ∈ f, 1 < p.1.length → Safe p.2 ∧ IsPlain p.2) → Safe w ∧ IsPlain w := by
    rintro f hord rfl hf
    have hall : ∀ p ∈ insertField (Str.lit "workspace_id") ws.json f, isSensitive p.1 = false ∧ Safe p.2 ∧ IsPlain p.2 := by
      intro p hp
      obtain ⟨k, hk, heq⟩ := List.any_eq_true.mp (List.all_eq_true.mp (Bool.and_eq_true_iff.mp hkeys).1 p hp)
      have hname := hnamed k hk
      rw [of_decide_eq_true heq] at hname
      refine ⟨hname.1, ?_⟩
      rcases mem_of_mem_insertField hp with rfl | hp
      · exact ⟨safe_uuid ws, rfl⟩
      · exact hf p hp hname.2
    exact ⟨safe_obj fun p hp => ⟨(hall p hp).1, (hall p hp).2.1⟩,
      isPlain_of_ordered (ordered_insertField hord) fun p hp => (hall p hp).2.2⟩
  cases v with
  | obj f =>
    cases h
    obtain ⟨hord, hf⟩ := isPlain_obj hplain
    exact hwrite f hord rfl fun p hp _ => ⟨fun s hs => hsafe s (mem_stringsFields.mpr ⟨p, hp, Or.inr hs⟩), hf p hp⟩
  | arr l =>
    obtain ⟨f, hf, h⟩ := bind_eq_ok.mp h
    cases h
    have hempty : Ordered [] := List.Pairwise.nil
    refine hwrite _ (ordered_foldl_insertField hempty) rfl fun p hp hkey => ?_
    obtain ⟨item, hitem, hp⟩ := mem_of_mapM hf ((mem_foldl_insertField hp).resolve_right List.not_mem_nil)
    exact sound_dictItem hp hkey (safe_items hsafe item hitem) (isPlain_items hplain item hitem)
  | _ => cases h

namespace State
variable {s s' : State} {allow : Bool} {e : Event} {p : Json}

theorem eventAnchor_sound {a : SourceAnchor} (h : eventAnchor allow p = .ok a) (hsafe : Safe p) (hplain : IsPlain p) : a.Sound := by
  obtain ⟨hread, heq⟩ := eventAnchor_eq_ok h
  exact SourceAnchor.sound_of_fromDict hread heq (safe_get hsafe _) (isPlain_get hplain _)

/-- A sound anchor under its own identifier keeps the logical state sound. -/
theorem sound_setSource {a : SourceAnchor} (h : s.logical.Sound) (ha : a.Sound) :
    ({ s with sources := s.sources.set a.sourceId a } : State).logical.Sound := by
  refine ⟨fun i b hb => ?_, fun b hb => ?_, h.entries, fun x hx i hi => ?_, h.pins, h.pinned, h.lock⟩
  · have hb : (s.sources.set a.sourceId a).get? i = some b := hb
    rw [Dict.get?_set] at hb
    split_ifs at hb with hi
    · cases hb
      exact hi
    · exact h.keyed i b hb
  · rcases Dict.mem_values_set hb with rfl | hb
    · exact ha
    · exact h.sources b hb
  · exact Dict.contains_set.mpr (Or.inr (h.referenced x hx i hi))

/-- Entries without secrets that name sources of the workspace keep the logical state sound. -/
theorem sound_addEntries {l : List ProjectContextEntry} (h : s.logical.Sound) (hsafe : ∀ x ∈ l, Safe x.toDict)
    (hsources : ∀ x ∈ l, ∀ i ∈ x.sourceIds.1, s.sources.contains i = true) :
    ({ s with entries := s.entries ++ l } : State).logical.Sound := by
  refine ⟨h.keyed, h.sources, fun x hx => ?_, fun x hx => ?_, h.pins, h.pinned, h.lock⟩
  · rcases List.mem_append.mp hx with hx | hx
    · exact h.entries x hx
    · exact hsafe x hx
  · rcases List.mem_append.mp hx with hx | hx
    · exact h.referenced x hx
    · exact hsources x hx

theorem sound_commitContext (h : s.logical.Sound) (hsafe : Safe p) (he : s.commitContext p = .ok s') : s'.logical.Sound := by
  obtain ⟨raw, entries, hraw, -, hread, heq, -, -, hchecks, rfl⟩ := commitContext_eq_ok he
  refine sound_addEntries h (fun x hx => ?_) fun x hx => (checkEntry_eq_ok (hchecks x hx)).1
  obtain ⟨w, hw, hwx⟩ := mem_of_mapM hread hx
  exact safe_of_pyEq x.isPlain_toDict (pyEq_of_mapM hread heq w hw x hwx) (safe_items (hraw ▸ safe_get hsafe "entries") w hw)

theorem sound_fork {i : Uuid} (hsafe : Safe p) (hplain : IsPlain p) (he : s.fork i p = .ok s') : s'.logical.Sound := by
  obtain ⟨f, inherited, parent, -, -, -, hinherited, hparent, -, rfl⟩ := fork_eq_ok he
  obtain ⟨hsafe', hplain'⟩ := sound_of_dictWith hinherited (keys_of_components hparent) (safe_get hsafe _) (isPlain_get hplain _)
  have hsound : parent.Sound := LogicalState.Sound.of_components hparent hsafe' hplain'
  refine ⟨fun j a ha => ?_, fun a ha => ?_, hsound.entries, fun x hx j hj => ?_, hsound.pins, hsound.pinned, hsound.lock⟩
  · have ha : (parent.sources.mapValues SourceAnchor.portable).get? j = some a := ha
    rw [Dict.get?_mapValues] at ha
    obtain ⟨b, hb, rfl⟩ := Option.map_eq_some_iff.mp ha
    exact hsound.keyed j b hb
  · obtain ⟨b, hb, rfl⟩ := Dict.mem_values_mapValues.mp ha
    exact (hsound.sources b hb).portable
  · have hj := hsound.referenced x hx j hj
    rwa [Dict.contains, State.logical, forked, Dict.get?_mapValues, Option.isSome_map]

/-- The sources that a handoff brings are sound and under their own identifiers. -/
theorem sound_importedSources {h : ContextHandoff} {decision : Decision} {imported : Dict SourceId SourceAnchor}
    (hsafe : ∀ v ∈ h.sourceAnchors, Safe v) (hplain : ∀ v ∈ h.sourceAnchors, IsPlain v)
    (hi : s.importedSources decision h.sourceAnchors = .ok imported) :
    ∀ i a, imported.get? i = some a → a.sourceId = i ∧ a.Sound := by
  have hvalid := h.valid
  simp only [HandoffFields.check, HandoffFields.anchors, bind_eq_ok, ensure_eq_ok, exists_const] at hvalid
  obtain ⟨-, -, -, _, -, -, anchors, hanchors, -, hcanonical, -⟩ := hvalid
  have hsound := sound_of_mapM hanchors hcanonical (safe_arr hsafe) (isPlain_arr hplain)
  refine foldlM_invariant (P := fun d : Dict SourceId SourceAnchor => ∀ i a, d.get? i = some a → a.sourceId = i ∧ a.Sound)
    (by simp) ?_ hi
  intro d v d' hv hd hstep
  simp only [bind_eq_ok, projecting_eq_ok] at hstep
  obtain ⟨a, ha, hstep⟩ := hstep
  split at hstep
  · simp only [bind_eq_ok, ensure_eq_ok, exists_const, pure_eq_ok] at hstep
    obtain ⟨-, rfl⟩ := hstep
    intro i b hb
    rw [Dict.get?_set] at hb
    split_ifs at hb with hid
    · cases hb
      exact ⟨hid, hsound v hv a ha⟩
    · exact hd i b hb
  · simp only [bind_eq_ok, ensure_eq_ok, exists_const, pure_eq_ok] at hstep
    obtain ⟨-, rfl⟩ := hstep
    exact hd

/-- The anchors and the entries of a handoff are as plain and as free of secrets as the value it was read from. -/
theorem raw_of_handoff {v : Json} {h : ContextHandoff} (hv : ContextHandoff.fromDict v = .ok h) (hsafe : Safe v)
    (hplain : IsPlain v) : (∀ w ∈ h.sourceAnchors, Safe w ∧ IsPlain w) ∧ ∀ w ∈ h.selectedEntries, Safe w := by
  simp only [ContextHandoff.fromDict, bind_eq_ok, ensure_eq_ok, exists_const, pure_eq_ok] at hv
  obtain ⟨_, -, -, _, -, -, source, -, entries, hentries, anchors, hanchors, raw, -, refs, -, floor, -, handoffId, -, target, -,
    task, -, d, -, role, -, recovery, -, x, hx, heq, rfl⟩ := hv
  have hfields := ContextHandoff.make_eq_ok.mp hx
  have harray : ∀ {w : Json} {l m : List Json}, pyEq (.arr m) w = true → pyTuple w = .ok l → w = .arr l := by
    intro w l m hw hl
    obtain ⟨k, rfl⟩ := exists_arr_of_pyEq (pyEq_symm hw)
    rw [Except.ok.inj hl]
  have hget := pyEq_get heq "source_anchors"
  have hget' := pyEq_get heq "selected_entries"
  simp only [HandoffFields.toDict, HandoffFields.unsignedFields, List.cons_append, List.nil_append, get_mkObj, List.find?,
    String.reduceEq, decide_false, decide_true, Option.map_some, Option.getD_some] at hget hget'
  have hanchors := harray hget hanchors
  have hentries := harray hget' hentries
  have hsafe₁ : Safe (.arr anchors) := hanchors ▸ safe_get hsafe _
  have hplain₁ : IsPlain (.arr anchors) := hanchors ▸ isPlain_get hplain _
  have hsafe₂ : Safe (.arr entries) := hentries ▸ safe_get hsafe _
  rw [hfields]
  exact ⟨fun w hw => ⟨safe_items hsafe₁ w hw, isPlain_items hplain₁ w hw⟩, safe_items hsafe₂⟩

theorem sound_applyHandoff {i : Uuid} (h : s.logical.Sound) (hsafe : Safe p) (hplain : IsPlain p)
    (he : s.applyHandoff i p = .ok s') : s'.logical.Sound := by
  obtain ⟨handoff, _, imported, appended, hread, -, -, -, -, -, himported, -, happended, -, rfl⟩ := applyHandoff_eq_ok he
  obtain ⟨hanchors, hentries⟩ := raw_of_handoff hread (safe_get hsafe _) (isPlain_get hplain _)
  have hsources := sound_importedSources (fun v hv => (hanchors v hv).1) (fun v hv => (hanchors v hv).2) himported
  refine ⟨fun j a ha => ?_, fun a ha => ?_, fun x hx => ?_, fun x hx j hj => ?_, h.pins, h.pinned, h.lock⟩
  · rcases Dict.get?_update ha with ha | ha
    · exact (hsources j a ha).1
    · exact h.keyed j a ha
  · rcases Dict.mem_values_update ha with ha | ha
    · exact h.sources a ha
    · obtain ⟨j, hj⟩ := Dict.mem_values.mp ha
      exact (hsources j a hj).2
  · rcases List.mem_append.mp hx with hx | hx
    · exact h.entries x hx
    · obtain ⟨v, hv, hvx⟩ := (appendedEntries_eq_ok happended x hx).1
      exact ProjectContextEntry.safe_of_fromDict hvx (hentries v hv)
  · rcases List.mem_append.mp hx with hx | hx
    · exact Dict.contains_update.mpr (Or.inl (h.referenced x hx j hj))
    · exact Dict.contains_update.mpr ((appendedEntries_eq_ok happended x hx).2.2 j hj)

theorem sound_pinPackage (h : s.logical.Sound) (hsafe : Safe p) (he : s.pinPackage p = .ok s') : s'.logical.Sound := by
  obtain ⟨pin, lock, hread, -, hnone, hlock, rfl⟩ := pinPackage_eq_ok he
  refine ⟨h.keyed, h.sources, h.entries, h.referenced, fun x hx => ?_, fun q hq => ?_, hlock⟩
  · rcases Dict.mem_values_set hx with rfl | hx
    · exact PackagePin.safe_of_fromDict hread (safe_get hsafe _)
    · exact h.pins x hx
  · have hq : q ∈ (s.packagePins.set pin.key pin).items := hq
    rw [Dict.items_set_of_get?_none pin hnone, List.mem_append, List.mem_singleton] at hq
    rcases hq with hq | rfl
    · exact h.pinned q hq
    · rfl

/-- Every event whose payload is plain and holds no secret keeps the state sound. -/
theorem Sound.effect (h : s.Sound) (hsafe : Safe e.payload) (hplain : IsPlain e.payload) (he : s.effect allow e = .ok s') :
    s'.Sound := by
  have hlogical := h.logical
  have hcheckpoints := h.checkpoints
  have hset : ∀ c, ContextCheckpoint.fromDict (e.payload.get "checkpoint") = .ok c →
      ∀ d ∈ (s.checkpoints.set c.checkpointId c).values, IsPlain d.logicalState := fun c hc d hd => by
    rcases Dict.mem_values_set hd with rfl | hd
    · rw [ContextCheckpoint.logicalState_of_fromDict hc]
      exact isPlain_get (isPlain_get hplain _) _
    · exact hcheckpoints d hd
  unfold State.effect at he
  split at he
  · cases he
  · obtain ⟨a, ha, -, -, -, rfl⟩ := attachSource_eq_ok he
    exact ⟨sound_setSource hlogical (eventAnchor_sound ha hsafe hplain), hcheckpoints⟩
  · obtain ⟨a, _, _, ha, -, -, -, -, rfl⟩ := updateSource_eq_ok he
    exact ⟨sound_setSource hlogical (eventAnchor_sound ha hsafe hplain), hcheckpoints⟩
  · obtain ⟨_, _, -, -, -, -, -, -, rfl⟩ := tightenPolicy_eq_ok he
    exact ⟨⟨hlogical.keyed, hlogical.sources, hlogical.entries, hlogical.referenced, hlogical.pins, hlogical.pinned,
      hlogical.lock⟩, hcheckpoints⟩
  · obtain ⟨_, -, -, -, -, -, rfl⟩ := attachSession_eq_ok he
    exact ⟨⟨hlogical.keyed, hlogical.sources, hlogical.entries, hlogical.referenced, hlogical.pins, hlogical.pinned,
      hlogical.lock⟩, hcheckpoints⟩
  · refine ⟨sound_commitContext hlogical hsafe he, ?_⟩
    obtain ⟨_, _, -, -, -, -, -, -, -, rfl⟩ := commitContext_eq_ok he
    exact hcheckpoints
  · refine ⟨sound_fork hsafe hplain he, ?_⟩
    obtain ⟨_, _, _, -, -, -, -, -, -, rfl⟩ := fork_eq_ok he
    exact hcheckpoints
  · refine ⟨sound_applyHandoff hlogical hsafe hplain he, ?_⟩
    obtain ⟨_, _, _, _, -, -, -, -, -, -, -, -, -, -, rfl⟩ := applyHandoff_eq_ok he
    exact hcheckpoints
  · refine ⟨sound_pinPackage hlogical hsafe he, ?_⟩
    obtain ⟨_, _, -, -, -, -, rfl⟩ := pinPackage_eq_ok he
    exact hcheckpoints
  · obtain ⟨c, _, hc, -, -, -, -, -, -, rfl⟩ := createCheckpoint_eq_ok he
    exact ⟨⟨hlogical.keyed, hlogical.sources, hlogical.entries, hlogical.referenced, hlogical.pins, hlogical.pinned,
      hlogical.lock⟩, hset c hc⟩
  · obtain ⟨c, target, hnamed, htarget, -, -, rfl⟩ := restore_eq_ok he
    obtain ⟨i, -, hstored, -⟩ := namedCheckpoint_eq_ok hnamed
    have hsound := LogicalState.Sound.of_components htarget c.safe_logicalState
      (hcheckpoints c (Dict.mem_values.mpr ⟨i, hstored⟩))
    exact ⟨⟨hsound.keyed, hsound.sources, hsound.entries, hsound.referenced, hsound.pins, hsound.pinned, hsound.lock⟩,
      hcheckpoints⟩
  · obtain ⟨c, target, -, -, -, hc, htarget, -, -, rfl⟩ := seed_eq_ok he
    have hsound := LogicalState.Sound.of_components htarget c.safe_logicalState (by
      rw [ContextCheckpoint.logicalState_of_fromDict hc]
      exact isPlain_get (isPlain_get hplain _) _)
    exact ⟨⟨hsound.keyed, hsound.sources, hsound.entries, hsound.referenced, hsound.pins, hsound.pinned, hsound.lock⟩,
      hset c hc⟩
  · obtain rfl := sealWorkspace_eq_ok he
    exact h
  · cases he
    exact ⟨⟨hlogical.keyed, hlogical.sources, hlogical.entries, hlogical.referenced, hlogical.pins, hlogical.pinned,
      hlogical.lock⟩, hcheckpoints⟩
  · obtain rfl := abort_eq_ok he
    exact ⟨⟨hlogical.keyed, hlogical.sources, hlogical.entries, hlogical.referenced, hlogical.pins, hlogical.pinned,
      hlogical.lock⟩, hcheckpoints⟩

end State

/-! ### Reachable states -/

/-- What an event that is read from a journal satisfies: its payload has its keys in order. -/
def PlainPayload (_ : Option State) (e : Event) : Prop := IsPlain e.payload

theorem State.sound_created (identity : WorkspaceIdentity) (policy : WorkspacePolicy) : (State.created identity policy).Sound := by
  refine ⟨⟨?_, ?_, ?_, ?_, ?_, ?_, rfl⟩, ?_⟩
  · intro i a ha
    cases ha
  all_goals
    intro x hx
    cases hx

theorem WorkspacePolicy.small_of_writable {x : WorkspacePolicy} (h : Writable x.toDict) : x.Small := by
  have hint : ∀ n : Positive, Writable n.json → (natText n.1).length ≤ maxIntDigits := fun n hn => by
    have hlength := length_of_writable_int hn
    rwa [Int.natAbs_natCast] at hlength
  have hall := writable_of_mkObj (by simp) h
  simp only [List.mem_cons, List.not_mem_nil, or_false, forall_eq_or_imp, forall_eq] at hall
  obtain ⟨-, -, h1, h2, h3, h4, h5, h6, -⟩ := hall
  simp only [Small, List.mem_cons, List.not_mem_nil, or_false, forall_eq_or_imp, forall_eq]
  exact ⟨hint _ h1, hint _ h2, hint _ h3, hint _ h4, hint _ h5, hint _ h6⟩

/-- A state that computes its digest can be written. -/
theorem State.written_of_digest {s : State} {d : Digest} (h : s.digest = .ok d) : s.Written := by
  obtain ⟨b, hb, -⟩ := digest_eq_ok.mp h
  have hall := writable_of_mkObj (by simp) ⟨b, hb⟩
  simp only [List.mem_cons, List.not_mem_nil, or_false, forall_eq_or_imp, forall_eq] at hall
  obtain ⟨-, hsources, hpolicy, -⟩ := hall
  refine ⟨WorkspacePolicy.small_of_writable hpolicy, fun a ha => ?_⟩
  exact writable_items hsources _ (List.mem_map_of_mem (Dict.mem_sortedValues.mpr ha))

/-- What holds of every state that is reached by plain events: it is sound, it can be written and it has a last event. -/
structure State.Stored (s : State) : Prop where
  sound : s.Sound
  written : s.Written
  last : ∃ d, s.lastEventDigest = some d

theorem State.Stored.of_recordEvent {s s' : State} {e : Event} (hs : s.Sound) (he : s.recordEvent e = .ok s') : s'.Stored := by
  obtain ⟨receipt, -, hreceipt, -, rfl⟩ := recordEvent_eq_ok.mp he
  simp only [receiptForEvent, bind_eq_ok] at hreceipt
  obtain ⟨_, -, d, hd, -⟩ := hreceipt
  have hwritten := written_of_digest hd
  exact ⟨⟨hs.logical, hs.checkpoints⟩, ⟨hwritten.policy, hwritten.sources⟩, e.eventDigest, rfl⟩

theorem stored_of_reaches {s : State} (h : Machine.Reaches Accepts PlainPayload s) : s.Stored := by
  refine h.invariant (I := State.Stored) ?_ ?_
  · rintro e s hplain ⟨allow, he⟩
    obtain ⟨-, -, t, ht, hrecord⟩ := applyEvent_none.mp he
    obtain ⟨identity, policy, -, -, rfl⟩ := State.create_eq_ok ht
    exact State.Stored.of_recordEvent (State.sound_created identity policy) hrecord
  · rintro s e s' hs hplain ⟨allow, he⟩
    obtain ⟨hcheck, -, -, t, ht, hrecord⟩ := applyEvent_some.mp he
    have hsafe : Safe e.payload := by
      simp only [checkPayload, projecting_eq_ok, bind_eq_ok] at hcheck
      obtain ⟨_, hsafe, -⟩ := hcheck
      exact rejectSensitive_eq_ok.mp hsafe
    exact State.Stored.of_recordEvent (hs.sound.effect hsafe hplain ht) hrecord

/-! ### Journals -/

/-- An event that was read has its keys in order, since its file holds the canonical bytes of its value. -/
theorem plain_of_readEvent {workspaceId : Uuid} {f : EventFile} {n : Positive} {previous : Option Digest} {e : Event}
    (h : readEvent workspaceId f n previous = .ok e) : IsPlain e.payload := by
  unfold readEvent at h
  split at h
  · cases h
  · simp only [bind_eq_ok, ensure_eq_ok, exists_const] at h
    obtain ⟨-, -, -, h⟩ := h
    split at h
    · cases h
    · next v hv =>
      simp only [eventOfValue, bind_eq_ok, ensure_eq_ok, projecting_eq_ok, exists_const, pure_eq_ok] at h
      obtain ⟨hkeys, -, b, hb, hdata, _, -, -, -, _, -, _, -, -, _, -, _, -, _, -, -, _, -, -, rfl⟩ := h
      obtain ⟨fields, rfl⟩ : ∃ fields, v = .obj fields := by
        cases v with
        | obj fields => exact ⟨fields, rfl⟩
        | _ => cases hkeys
      rw [← hdata, List.dropLast_concat, strictLoads?_canonical (canonical_eq_ok.mp hb)] at hv
      have hplain : IsPlain (.obj fields) := Option.some.inj hv
      exact isPlain_get hplain "payload"

theorem reaches_of_foldlM {workspaceId : Uuid} {l : List EventFile} {s : Option State} {t : State}
    (h : l.foldlM (extend workspaceId) s = .ok (some t)) (hs : ∀ u ∈ s, Machine.Reaches Accepts PlainPayload u) :
    Machine.Reaches Accepts PlainPayload t := by
  induction l generalizing s with
  | nil =>
    cases h
    exact hs t rfl
  | cons f l ih =>
    rw [List.foldlM_cons] at h
    obtain ⟨u, hu, h⟩ := bind_eq_ok.mp h
    simp only [extend, bind_eq_ok, pure_eq_ok] at hu
    obtain ⟨e, he, s', hs', rfl⟩ := hu
    refine ih h fun u hu => ?_
    cases hu
    have hplain : PlainPayload s e := plain_of_readEvent he
    cases s with
    | none => exact .start hplain ⟨true, hs'⟩
    | some s => exact .next (hs s rfl) hplain ⟨true, hs'⟩

/-- The state that a journal projects to is stored. -/
theorem stored_of_project {workspaceId : Uuid} {files : List EventFile} {s : State} (h : project workspaceId files = .ok s) :
    s.Stored :=
  stored_of_reaches (reaches_of_foldlM (project_eq_ok.mp h).2.1 nofun)

end LeanCtx
