import LeanCtx.Workspace.Reordering

/-! Concurring: what an admission does not reject the state machine applies, unless the receiver has bound a source of the handoff to
    a local file, has applied the handoff before, or finds that its own policy or journal has no place for it. The admission compares
    sources without their local files, the state machine with them. -/

namespace LeanCtx
open Json

/-! ### The records of a handoff -/

namespace ContextHandoff
variable (h : ContextHandoff)

/-- The sources that a handoff names. -/
def anchorList : List SourceAnchor := h.anchors.toOption.getD []

/-- The entries that a handoff selects. -/
def entryList : List ProjectContextEntry := h.entries.toOption.getD []

/-- What a valid handoff says of its records. -/
structure Listed : Prop where
  anchors : h.anchors = .ok h.anchorList
  entries : h.entries = .ok h.entryList
  portable : ∀ a ∈ h.anchorList, a.engineBinding = none
  canonical : pyEq (.arr (h.anchorList.map SourceAnchor.toDict)) (.arr h.sourceAnchors) = true
  distinct : (h.entryList.map (·.entryId)).Nodup
  sources : (h.anchorList.map (·.sourceId)).Nodup
  named : ∀ x ∈ h.entryList, ∀ i ∈ x.sourceIds.1, i ∈ h.anchorList.map (·.sourceId)
  pins : ∃ pins, h.packageRefs.mapM PackagePin.fromDict = .ok pins

theorem listed : h.Listed := by
  have hvalid := h.valid
  simp only [HandoffFields.check, bind_eq_ok, ensure_eq_ok, exists_const] at hvalid
  obtain ⟨-, -, -, entries, hentries, hdistinct, anchors, hanchors, hportable, hcanonical, hsorted, hnamed, pins, hpins, -⟩ :=
    hvalid
  have hanchorList : h.anchorList = anchors := by
    rw [anchorList, hanchors]
    rfl
  have hentryList : h.entryList = entries := by
    rw [entryList, hentries]
    rfl
  exact ⟨hanchorList ▸ hanchors, hentryList ▸ hentries, hanchorList ▸ hportable, hanchorList ▸ hcanonical,
    hentryList ▸ hdistinct.imp fun hlt => ne_of_lt hlt, hanchorList ▸ hsorted.imp fun hlt => ne_of_lt hlt,
    hanchorList ▸ hentryList ▸ hnamed, pins, hpins⟩

theorem anchors_plain : h.plain.anchors = h.anchors := by
  obtain ⟨_, -, hbare⟩ := HandoffFields.anchors_of_check h.valid
  refine mapM_plain fun v hv => ?_
  obtain ⟨_, -, -, -, -, hnull⟩ := hbare v hv
  exact SourceAnchor.fromDict_plain hnull

theorem entries_plain : h.plain.entries = h.entries := mapM_plain fun v _ => ProjectContextEntry.fromDict_plain v

theorem anchorList_plain : h.plain.anchorList = h.anchorList := by rw [anchorList, anchors_plain, anchorList]

theorem entryList_plain : h.plain.entryList = h.entryList := by rw [entryList, entries_plain, entryList]

end ContextHandoff

/-! ### Loops over records -/

/-- A loop that reads each item first is the loop over what is read. -/
theorem foldlM_read {α β γ : Type} {read : γ → Except Err α} {step : β → α → Except Failure β} {raw : List γ} {l : List α}
    (h : raw.mapM read = .ok l) (b : β) :
    raw.foldlM (fun b v => projecting (read v) >>= fun a => step b a) b = l.foldlM step b := by
  induction raw generalizing l b with
  | nil =>
    cases h
    rfl
  | cons v raw ih =>
    simp only [List.mapM_cons, bind_eq_ok, pure_eq_ok] at h
    obtain ⟨a, ha, l, hl, rfl⟩ := h
    rw [List.foldlM_cons, List.foldlM_cons, ha, projecting_ok, ok_bind]
    congr 1
    funext b
    exact ih hl b

theorem SourceAnchor.portable_of_none {a : SourceAnchor} (h : a.engineBinding = none) : a.portable = a := by
  cases a
  cases h
  rfl

namespace State
variable {s : State}

/-- The sources of a handoff that a workspace does not have. -/
def lacked (s : State) (h : ContextHandoff) : List SourceAnchor :=
  h.anchorList.filter fun a => (s.sources.get? a.sourceId).isNone

/-- The entries of a handoff that a workspace does not have. -/
def fresh (s : State) (h : ContextHandoff) : List ProjectContextEntry :=
  h.entryList.filter fun x => (s.entry? x.entryId).isNone

/-- The state that a handoff leaves: the sources and entries that were lacking are there, and the handoff is on record. -/
def received (s : State) (h : ContextHandoff) (eventId : Uuid) : State :=
  s.handedOver (.ofItems ((s.lacked h).map fun a => (a.sourceId, a))) (s.fresh h) ⟨h.handoffId, h.handoffDigest, eventId⟩

/-- The sources of a handoff are imported where the ones that are there already are the same and the ones that are not may be
    lacking. -/
theorem importedSources_iff {decision : Decision} {raw : List Json} {l : List SourceAnchor} {d : Dict SourceId SourceAnchor}
    (hraw : raw.mapM (fun v => SourceAnchor.fromDict v true) = .ok l) : s.importedSources decision raw = .ok d ↔
      (∀ a ∈ l, (s.sources.get? a.sourceId = none → decision = .degraded) ∧
        ∀ held, s.sources.get? a.sourceId = some held → pyEq held.toDict a.toDict = true) ∧
      d = .ofItems ((l.filter fun a => (s.sources.get? a.sourceId).isNone).map fun a => (a.sourceId, a)) := by
  rw [importedSources, foldlM_read hraw, Dict.ofItems]
  generalize Dict.empty = d₀
  clear hraw
  induction l generalizing d₀ with
  | nil => exact ⟨fun h => ⟨fun a ha => absurd ha List.not_mem_nil, (Except.ok.inj h).symm⟩, fun h => h.2 ▸ rfl⟩
  | cons a l ih =>
    rw [List.foldlM_cons, List.forall_mem_cons]
    cases hheld : s.sources.get? a.sourceId with
    | none =>
      have hfilter : (a :: l).filter (fun a => (s.sources.get? a.sourceId).isNone) =
          a :: l.filter fun a => (s.sources.get? a.sourceId).isNone := by
        rw [List.filter_cons, if_pos (by rw [hheld]; rfl)]
      simp only [bind_eq_ok, ensure_eq_ok, exists_const, pure_eq_ok, ih, hfilter]
      constructor
      · rintro ⟨_, ⟨hdegraded, rfl⟩, hl, rfl⟩
        exact ⟨⟨⟨fun _ => hdegraded, fun held hsome => absurd hsome.symm (Option.some_ne_none held)⟩, hl⟩, rfl⟩
      · rintro ⟨⟨⟨hdegraded, -⟩, hl⟩, rfl⟩
        exact ⟨_, ⟨hdegraded trivial, rfl⟩, hl, rfl⟩
    | some held =>
      have hfilter : (a :: l).filter (fun a => (s.sources.get? a.sourceId).isNone) =
          l.filter fun a => (s.sources.get? a.sourceId).isNone := by
        rw [List.filter_cons, if_neg (by rw [hheld]; simp)]
      simp only [bind_eq_ok, ensure_eq_ok, exists_const, pure_eq_ok, ih, hfilter]
      constructor
      · rintro ⟨_, ⟨heq, rfl⟩, hl, rfl⟩
        exact ⟨⟨⟨fun hnone => absurd hnone (Option.some_ne_none held), fun b hb => Option.some.inj hb ▸ heq⟩, hl⟩, rfl⟩
      · rintro ⟨⟨⟨-, heq⟩, hl⟩, rfl⟩
        exact ⟨_, ⟨heq held rfl, rfl⟩, hl, rfl⟩

/-- One entry of a handoff after those that have been added. -/
def appendEntry (s : State) (imported : Dict SourceId SourceAnchor) (appended : List ProjectContextEntry) (x : ProjectContextEntry) :
    Except Failure (List ProjectContextEntry) :=
  match (s.entries ++ appended).reverse.find? fun y => y.entryId = x.entryId with
  | some existing => do
    ensure (Json.pyEq existing.toDict x.toDict = true) .corrupt
    return appended
  | none => do
    ensure (x.category ∈ s.policy.allowedCategories) .incompatible
    ensure (∀ i ∈ x.sourceIds.1, s.sources.contains i = true ∨ imported.contains i = true) .corrupt
    return appended ++ [x]

/-- The entries of a handoff are added where the ones that are there already are the same, and the ones that are not are of categories
    and of sources that the workspace takes. -/
theorem appendedEntries_iff {imported : Dict SourceId SourceAnchor} {raw : List Json} {l m : List ProjectContextEntry}
    (hraw : raw.mapM ProjectContextEntry.fromDict = .ok l) (hdistinct : (l.map (·.entryId)).Nodup) :
    s.appendedEntries imported raw = .ok m ↔
      (∀ x ∈ l, (∀ held, s.entry? x.entryId = some held → held = x) ∧ (s.entry? x.entryId = none →
        x.category ∈ s.policy.allowedCategories ∧ ∀ i ∈ x.sourceIds.1, s.sources.contains i = true ∨ imported.contains i = true)) ∧
      m = l.filter fun x => (s.entry? x.entryId).isNone := by
  have hloop : s.appendedEntries imported raw = l.foldlM (s.appendEntry imported) [] := foldlM_read hraw []
  rw [hloop]
  have hnew : ∀ x ∈ l, ∀ y ∈ ([] : List ProjectContextEntry), y.entryId ≠ x.entryId := fun _ _ y hy => absurd hy List.not_mem_nil
  rw [← List.nil_append (l.filter _)]
  clear hloop hraw
  generalize ([] : List ProjectContextEntry) = acc at hnew ⊢
  induction l generalizing acc with
  | nil => exact ⟨fun h => ⟨fun a ha => absurd ha List.not_mem_nil, by simpa using (Except.ok.inj h).symm⟩, fun h => by
      rw [h.2, List.filter_nil, List.append_nil]
      rfl⟩
  | cons x l ih =>
    -- no entry that was added before has this identifier
    have hfind : (s.entries ++ acc).reverse.find? (fun y => y.entryId = x.entryId) = s.entry? x.entryId := by
      have hnone : acc.reverse.find? (fun y => y.entryId = x.entryId) = none := List.find?_eq_none.mpr fun y hy => by
        simpa using hnew x List.mem_cons_self y (List.mem_reverse.mp hy)
      rw [List.reverse_append, List.find?_append, hnone, Option.none_or, entry?]
    rw [List.map_cons, List.nodup_cons] at hdistinct
    have hnew' : ∀ y ∈ l, ∀ z ∈ acc, z.entryId ≠ y.entryId := fun y hy => hnew y (List.mem_cons_of_mem _ hy)
    have hfresh : ∀ y ∈ l, ∀ z ∈ acc ++ [x], z.entryId ≠ y.entryId := by
      intro y hy z hz
      rcases List.mem_append.mp hz with hz | hz
      · exact hnew' y hy z hz
      · obtain rfl := List.mem_singleton.mp hz
        exact fun heq => hdistinct.1 (heq ▸ List.mem_map_of_mem hy)
    rw [List.foldlM_cons, List.forall_mem_cons, appendEntry, hfind]
    cases hheld : s.entry? x.entryId with
    | none =>
      have hfilter : (x :: l).filter (fun x => (s.entry? x.entryId).isNone) =
          x :: l.filter fun x => (s.entry? x.entryId).isNone := by
        rw [List.filter_cons, if_pos (by rw [hheld]; rfl)]
      simp only [bind_eq_ok, ensure_eq_ok, exists_const, pure_eq_ok, hfilter]
      constructor
      · rintro ⟨_, ⟨hcategory, hsources, rfl⟩, h⟩
        obtain ⟨hl, rfl⟩ := (ih hdistinct.2 _ hfresh).mp h
        refine ⟨⟨⟨fun held hsome => absurd hsome.symm (Option.some_ne_none held), fun _ => ⟨hcategory, hsources⟩⟩, hl⟩, ?_⟩
        rw [List.append_assoc]
        rfl
      · rintro ⟨⟨⟨-, htakes⟩, hl⟩, rfl⟩
        obtain ⟨hcategory, hsources⟩ := htakes trivial
        exact ⟨_, ⟨hcategory, hsources, rfl⟩, (ih hdistinct.2 _ hfresh).mpr ⟨hl, by rw [List.append_assoc]; rfl⟩⟩
    | some held =>
      have hfilter : (x :: l).filter (fun x => (s.entry? x.entryId).isNone) = l.filter fun x => (s.entry? x.entryId).isNone := by
        rw [List.filter_cons, if_neg (by rw [hheld]; simp)]
      simp only [bind_eq_ok, ensure_eq_ok, exists_const, pure_eq_ok, hfilter]
      constructor
      · rintro ⟨_, ⟨heq, rfl⟩, h⟩
        obtain ⟨hl, rfl⟩ := (ih hdistinct.2 _ hnew').mp h
        exact ⟨⟨⟨fun b hb => Option.some.inj hb ▸ ProjectContextEntry.eq_of_pyEq heq,
          fun hnone => absurd hnone (Option.some_ne_none held)⟩, hl⟩, rfl⟩
      · rintro ⟨⟨⟨heq, -⟩, hl⟩, rfl⟩
        exact ⟨_, ⟨by rw [heq held rfl, pyEq_refl], rfl⟩, (ih hdistinct.2 _ hnew').mpr ⟨hl, rfl⟩⟩

/-- The packages of a handoff are pinned where each is pinned under its key as it is. -/
theorem checkPins_iff {raw : List Json} {l : List PackagePin} (hraw : raw.mapM PackagePin.fromDict = .ok l) :
    s.checkPins raw = .ok () ↔ ∀ pin ∈ l, ∃ held, s.packagePins.get? pin.key = some held ∧ pyEq held.toDict pin.toDict = true := by
  have hloop : s.checkPins raw = .ok () ↔ ∀ v ∈ raw, ∃ pin, PackagePin.fromDict v = .ok pin ∧
      ∃ held, s.packagePins.get? pin.key = some held ∧ pyEq held.toDict pin.toDict = true := by
    simp only [checkPins, forM_eq_ok, bind_eq_ok, projecting_eq_ok, ensure_eq_ok, Option.any_eq_true]
  rw [hloop]
  constructor
  · intro h pin hpin
    obtain ⟨v, hv, hread⟩ := mem_of_mapM hraw hpin
    obtain ⟨pin', hpin', hheld⟩ := h v hv
    obtain rfl := Except.ok.inj (hread.symm.trans hpin')
    exact hheld
  · intro h v hv
    obtain ⟨pin, hpin, hread⟩ := exists_mem_of_mapM hraw v hv
    exact ⟨pin, hread, h pin hpin⟩

end State

/-! ### The checkpoint of the current state -/

theorem exists_mem_of_pyEq {l m : List Json} (h : pyEq (.arr l) (.arr m) = true) {v : Json} (hv : v ∈ l) :
    ∃ w ∈ m, pyEq v w = true := exists_mem_of_forall₂ (pyEq_arr.mp h) hv

section
variable {s : State} {c : ContextCheckpoint} {h : ContextHandoff}

/-- A checkpoint of the state as it stands. -/
def ContextCheckpoint.IsCurrent (c : ContextCheckpoint) (s : State) : Prop := pyEq c.logicalState s.logicalState = true

theorem items_of_pyEq {v : Json} {l : List Json} (h : pyEq v (.arr l) = true) : pyEq (.arr (itemsOf v)) (.arr l) = true := by
  obtain ⟨m, rfl⟩ := exists_arr_of_pyEq h
  exact h

theorem ContextCheckpoint.IsCurrent.sources (h : c.IsCurrent s) :
    pyEq (.arr c.sources) (.arr (s.sources.sortedValues.map SourceAnchor.toDict)) = true := by
  have hget := pyEq_get h "sources"
  simp only [State.logicalState, LogicalState.toDict, get_mkObj, List.find?, String.reduceEq, decide_false, decide_true,
    Option.map_some, Option.getD_some] at hget
  exact items_of_pyEq hget

theorem ContextCheckpoint.IsCurrent.pins (h : c.IsCurrent s) :
    pyEq (.arr c.pins) (.arr (s.packagePins.sortedValues.map PackagePin.toDict)) = true := by
  have hget := pyEq_get h "package_pins"
  simp only [State.logicalState, LogicalState.toDict, get_mkObj, List.find?, String.reduceEq, decide_false, decide_true,
    Option.map_some, Option.getD_some] at hget
  exact items_of_pyEq hget

theorem ContextCheckpoint.IsCurrent.policy (h : c.IsCurrent s) :
    WorkspacePolicy.fromDict (c.logicalState.get "policy") = .ok s.policy := by
  have hget := pyEq_get h "policy"
  simp only [State.logicalState, LogicalState.toDict, get_mkObj, List.find?, String.reduceEq, decide_false, decide_true,
    Option.map_some, Option.getD_some] at hget
  obtain ⟨l, hl⟩ := c.reads
  have hread := (logicalStateComponents_eq_ok hl).policy
  rw [hread, WorkspacePolicy.eq_of_fromDict hread hget]
  rfl

/-! ### What an admission establishes -/

/-- An admission that does not reject has found nothing wrong. -/
theorem HandoffAdmission.results (x : HandoffAdmission) (h : x.decision ≠ .rejected) : x.lineageResult = .verified ∧
    x.targetResult = .matching ∧ x.policyResult = .monotonic ∧ x.packageResult = .exact ∧ x.conflicts.entries = [] ∧
    (x.decision = .degraded ∧ x.sourceResult = .unavailable ∨ x.decision = .admitted ∧ x.sourceResult = .available) := by
  have hvalid := x.valid
  simp only [AdmissionFields.check, bind_eq_ok, ensure_eq_ok, exists_const] at hvalid
  obtain ⟨hadmitted, hdegraded, -⟩ := hvalid
  have hclear : ∀ {f : AdmissionFields}, ¬f.hardFailure = true → f.lineageResult = .verified ∧ f.targetResult = .matching ∧
      f.policyResult = .monotonic ∧ f.packageResult = .exact ∧ f.conflicts.entries = [] := by
    intro f hf
    simp only [AdmissionFields.hardFailure, Bool.or_eq_true, decide_eq_true_eq, not_or, not_not] at hf
    obtain ⟨⟨⟨⟨⟨htarget, hlineage⟩, hpolicy⟩, hpackage⟩, -⟩, hconflicts⟩ := hf
    exact ⟨hlineage, htarget, hpolicy, hpackage, hconflicts⟩
  cases hd : x.decision with
  | rejected => exact absurd hd h
  | admitted =>
    simp only [hd, true_and, not_or, not_not] at hadmitted
    obtain ⟨h1, h2, h3, h4, h5⟩ := hclear hadmitted.1
    exact ⟨h1, h2, h3, h4, h5, .inr ⟨rfl, hadmitted.2.1⟩⟩
  | degraded =>
    simp only [hd, true_and, not_or, not_not] at hdegraded
    obtain ⟨h1, h2, h3, h4, h5⟩ := hclear hdegraded.1
    exact ⟨h1, h2, h3, h4, h5, .inl ⟨rfl, hdegraded.2.1⟩⟩

variable {sender : Option State} {bound : List SourceId} {x : HandoffAdmission}

/-- An admission is of the handoff and of the workspace of the checkpoint. -/
theorem fields_of_admitHandoff (hx : s.admitHandoff sender bound h c = .ok x) : s.checkStored c = .ok () ∧
    x.handoffId = h.handoffId ∧ x.handoffDigest = h.handoffDigest ∧ x.receiverWorkspaceId = c.workspaceId := by
  simp only [State.admitHandoff, HandoffAdmission.evaluate, bind_eq_ok] at hx
  obtain ⟨_, hstored, _, -, _, -, _, -, _, -, _, -, _, -, hx⟩ := hx
  have hfields := HandoffAdmission.make_eq_ok.mp hx
  exact ⟨hstored, by rw [hfields], by rw [hfields], by rw [hfields]⟩

/-- What an admission that does not reject a handoff says of the live state. -/
structure State.Admits (s : State) (h : ContextHandoff) (x : HandoffAdmission) : Prop where
  ids : x.handoffId = h.handoffId ∧ x.handoffDigest = h.handoffDigest ∧ x.receiverWorkspaceId = s.identity.workspaceId ∧
    x.decision ≠ .rejected ∧ h.targetWorkspaceId = s.identity.workspaceId
  results : s.lineageOk h.source = true ∧ x.lineageResult = .verified ∧ x.targetResult = .matching ∧ x.policyResult = .monotonic ∧
    x.packageResult = .exact ∧ x.conflicts.entries = [] ∧ s.policy.isTightening h.requiredPolicyFloor = true
  pins : ∀ v ∈ h.packageRefs, ∃ held ∈ s.packagePins.values, pyEq held.toDict v = true
  sources : ∀ a ∈ h.anchorList, ∀ held, s.sources.get? a.sourceId = some held → pyEq held.portable.toDict a.toDict = true
  entries : ∀ y ∈ h.entryList, ∀ held, s.entry? y.entryId = some held → held = y
  lacking : s.lacked h ≠ [] → x.decision = .degraded

theorem get_sourceId {a : SourceAnchor} {v : Json} (h : pyEq a.toDict v = true) : v.get "source_id" = a.sourceId.json := by
  have hget := pyEq_symm (pyEq_get h "source_id")
  simp only [SourceAnchor.toDict, get_mkObj, List.find?, String.reduceEq, decide_false, decide_true, Option.map_some,
    Option.getD_some] at hget
  exact eq_of_pyEq_str hget

/-- An admission that is made of the current state and does not reject holds of the live state. -/
theorem admits_of_admitHandoff {root : Uuid → Option State} (hreach : Machine.Reaches Accepts (fun _ _ => True) s) (hs : s.Stored)
    (hcurrent : c.IsCurrent s) (hx : s.admitHandoff (s.senderOf root h) bound h c = .ok x) (hdecision : x.decision ≠ .rejected) :
    s.Admits h x := by
  obtain ⟨hchecked, hid, hdigest, hreceiver⟩ := fields_of_admitHandoff hx
  obtain ⟨stored, hstored, hsame, -, -⟩ := stored_of_checkStored hchecked
  have hws : c.workspaceId = s.identity.workspaceId := hsame.symm.trans ((rooted_of_reaches hreach).checkpoints _ _ hstored).1
  -- the decision is the one that the objections ask for
  obtain ⟨x', hx', hdecides⟩ := (State.admitHandoff_decides hreach hchecked).mpr (State.length_available hx)
  obtain rfl := Except.ok.inj (hx'.symm.trans hx)
  have hnone : ¬Objection s (s.senderOf root h) h c := fun hobjection => hdecision (hdecides.rejected.mpr hobjection)
  have htarget : h.targetWorkspaceId = c.workspaceId := by_contra fun hne => hnone (.target hne)
  have hlineage : s.lineageOk h.source = true :=
    lineageOk_of_admitsLineage hreach (by_contra fun hne => hnone (.lineage (Bool.not_eq_true _ ▸ hne))) .refl
  have hpolicy : s.policy.isTightening h.requiredPolicyFloor = true :=
    by_contra fun hne => hnone (.policy hcurrent.policy (Bool.not_eq_true _ ▸ hne))
  obtain ⟨h1, h2, h3, h4, h5, -⟩ := x'.results hdecision
  have hlisted := h.listed
  have hraw : ∀ a ∈ h.anchorList, ∃ v ∈ h.sourceAnchors, SourceAnchor.fromDict v true = .ok a ∧ pyEq a.toDict v = true := by
    intro a ha
    obtain ⟨v, hv, hread⟩ := mem_of_mapM hlisted.anchors ha
    exact ⟨v, hv, hread, pyEq_of_mapM hlisted.anchors hlisted.canonical v hv a hread⟩
  refine ⟨⟨hid, hdigest, hreceiver.trans hws, hdecision, htarget.trans hws⟩, ⟨hlineage, h1, h2, h3, h4, h5, hpolicy⟩, ?_, ?_, ?_, ?_⟩
  · intro v hv
    have hfound : ∃ p ∈ c.pins, pyEq p v = true := by
      by_contra hmissing
      refine hnone (.package hv fun p hp => ?_)
      exact Bool.not_eq_true _ ▸ fun heq => hmissing ⟨p, hp, heq⟩
    obtain ⟨p, hp, heq⟩ := hfound
    obtain ⟨w, hw, hpw⟩ := exists_mem_of_pyEq hcurrent.pins hp
    obtain ⟨held, hheld, rfl⟩ := List.mem_map.mp hw
    exact ⟨held, Dict.mem_sortedValues.mp hheld, pyEq_trans (pyEq_symm hpw) heq⟩
  · intro a ha held hheld
    obtain ⟨v, hv, -, hav⟩ := hraw a ha
    have hvalue : held.toDict ∈ s.sources.sortedValues.map SourceAnchor.toDict :=
      List.mem_map_of_mem (Dict.mem_sortedValues.mpr (Dict.mem_values.mpr ⟨_, hheld⟩))
    obtain ⟨r, hr, hrheld⟩ := exists_mem_of_pyEq (pyEq_symm hcurrent.sources) hvalue
    have hids : r.get "source_id" = v.get "source_id" := by
      rw [get_sourceId hrheld, get_sourceId hav, hs.sound.logical.keyed _ _ hheld]
    have hportable : pyEq (portableAnchor r) (portableAnchor v) = true := by
      by_contra hne
      exact hnone (.source hv hr hids (Bool.not_eq_true _ ▸ hne))
    have hleft := pyEq_portableAnchor hrheld
    have hright := pyEq_portableAnchor hav
    rw [portableAnchor_toDict] at hleft hright
    rw [show a.portable = a from SourceAnchor.portable_of_none (hlisted.portable a ha)] at hright
    exact pyEq_trans hleft (pyEq_trans hportable (pyEq_symm hright))
  · intro y hy held hheld
    obtain ⟨v, hv, hread⟩ := mem_of_mapM hlisted.entries hy
    by_contra hne
    exact hnone (.entry hv hread hheld hne)
  · intro hlacked
    obtain ⟨a, ha⟩ := List.exists_mem_of_ne_nil _ hlacked
    obtain ⟨ha, hmissing⟩ := List.mem_filter.mp ha
    obtain ⟨v, hv, -, hav⟩ := hraw a ha
    refine hdecides.degraded.mpr ⟨hnone, .missing hv fun r hr hids => ?_⟩
    obtain ⟨w, hw, hrw⟩ := exists_mem_of_pyEq hcurrent.sources hr
    obtain ⟨held, hheld, rfl⟩ := List.mem_map.mp hw
    obtain ⟨i, hi⟩ := Dict.mem_values.mp (Dict.mem_sortedValues.mp hheld)
    have hsameId : held.sourceId = a.sourceId := by
      rw [get_sourceId (pyEq_symm hrw), get_sourceId hav] at hids
      exact Subtype.ext (Json.str.inj hids)
    rw [← hsameId, hs.sound.logical.keyed _ _ hi, hi] at hmissing
    cases hmissing

/-! ### Application -/

/-- What reads as a pin and equals the value of a pin is that pin. -/
theorem PackagePin.eq_of_pyEq {v : Json} {pin held : PackagePin} (hread : fromDict v = .ok pin) (heq : pyEq held.toDict v = true) :
    pin = held := by
  have hstr : ∀ k (t : Str), held.toDict.get k = .str t → v.get k = .str t := fun k t hk => by
    have hget := pyEq_symm (pyEq_get heq k)
    rw [hk] at hget
    exact eq_of_pyEq_str hget
  have hget : ∀ k ∈ ["schema_version", "name", "version", "artifact_digest", "manifest_digest", "content_hash", "signature_state",
      "signer_public_key", "trust_state", "policy_decision"], v.get k = held.toDict.get k := by
    have hkey : v.get "signer_public_key" = held.toDict.get "signer_public_key" := by
      have hget := pyEq_symm (pyEq_get heq "signer_public_key")
      have hheld : held.toDict.get "signer_public_key" = optional (fun k => .str k.1) held.signerPublicKey := by
        simp [toDict, get_mkObj]
      rw [hheld] at hget ⊢
      cases hs : held.signerPublicKey with
      | none =>
        rw [hs] at hget
        exact eq_of_pyEq_null hget
      | some k =>
        rw [hs] at hget
        exact eq_of_pyEq_str hget
    simp only [List.mem_cons, List.not_mem_nil, or_false, forall_eq_or_imp, forall_eq]
    refine ⟨?_, ?_, ?_, ?_, ?_, ?_, ?_, hkey, ?_, ?_⟩ <;>
      · simp only [toDict, get_mkObj, List.find?, String.reduceEq, decide_false, decide_true, Option.map_some, Option.getD_some]
        exact hstr _ _ (by simp only [toDict, get_mkObj, List.find?, String.reduceEq, decide_false, decide_true, Option.map_some,
          Option.getD_some] <;> rfl)
  simp only [List.mem_cons, List.not_mem_nil, or_false, forall_eq_or_imp, forall_eq] at hget
  obtain ⟨h1, h2, h3, h4, h5, h6, h7, h8, h9, h10⟩ := hget
  have hmake : make v = make held.toDict := by simp only [make, h1, h2, h3, h4, h5, h6, h7, h8, h9, h10]
  have hself := fromDict_toDict held
  simp only [fromDict, bind_eq_ok, catching_eq_ok] at hread hself
  obtain ⟨_, -, hread⟩ := hread
  obtain ⟨_, -, hself⟩ := hself
  exact Except.ok.inj (hread.symm.trans (hmake.trans hself))

/-- Sources that are the same without their local files are the same exactly where the one that is there has no local file. -/
theorem pyEq_held_iff {held a : SourceAnchor} (ha : a.engineBinding = none) (h : pyEq held.portable.toDict a.toDict = true) :
    pyEq held.toDict a.toDict = true ↔ held.engineBinding = none := by
  constructor
  · intro heq
    have hget := pyEq_get heq "engine_binding"
    simp only [SourceAnchor.toDict, get_mkObj, List.find?, String.reduceEq, decide_false, decide_true, Option.map_some,
      Option.getD_some, ha, optional] at hget
    cases hb : held.engineBinding with
    | none => rfl
    | some b =>
      rw [hb] at hget
      have hnull : b.1 = .null := eq_of_pyEq_null hget
      exact absurd b.2 (by rw [hnull]; decide)
  · intro hnone
    have hdict : held.portable.toDict = held.toDict := congrArg SourceAnchor.toDict (SourceAnchor.portable_of_none hnone)
    rw [hdict] at h
    exact h

/-- A report without conflicts has its keys in order and holds no secret. -/
theorem ConflictReport.clean_toDict (x : ConflictReport) (h : x.entries = []) : IsPlain x.toDict ∧ Safe x.toDict := by
  have hentries : Json.arr (x.entries.map fun e => e.toDict) = .arr [] := by rw [h, List.map_nil]
  constructor
  · refine isPlain_mkObj ?_
    simp only [ReportFields.unsignedFields, hentries, List.cons_append, List.nil_append, List.mem_cons, List.not_mem_nil, or_false,
      forall_eq_or_imp, forall_eq]
    exact ⟨rfl, isPlain_optional WorkspaceStateRef.isPlain_toDict _, x.left.isPlain_toDict, x.right.isPlain_toDict, rfl, rfl, rfl⟩
  · refine safe_mkObj ["schema_version", "base", "left", "right", "ancestry", "entries", "report_id"] rfl (by decide) ?_
    simp only [ReportFields.unsignedFields, hentries, List.cons_append, List.nil_append, List.mem_cons, List.not_mem_nil, or_false,
      forall_eq_or_imp, forall_eq]
    have hbase : Safe (optional WorkspaceStateRef.toDict x.base) := by
      cases x.base with
      | none => exact safe_null
      | some r => exact r.safe_toDict
    have hschema : Safe (.str (Str.lit ReportFields.schema)) := safe_str (by decide)
    have hancestry : ∀ a : Ancestry, Safe (.str (Str.lit a.name)) := fun a => safe_str (by cases a <;> decide)
    exact ⟨hschema, hbase, x.left.safe_toDict, x.right.safe_toDict, hancestry _, safe_arr fun v hv => absurd hv List.not_mem_nil,
      safe_digest _⟩

/-- An admission that does not reject has its keys in order and holds no secret. -/
theorem HandoffAdmission.clean_toDict (x : HandoffAdmission) (h : x.decision ≠ .rejected) : IsPlain x.toDict ∧ Safe x.toDict := by
  obtain ⟨-, -, -, -, hentries, -⟩ := x.results h
  obtain ⟨hplain, hsafe⟩ := x.conflicts.clean_toDict hentries
  have hreasons : ∀ t ∈ x.reasonCodes.1, t.1 = Str.lit "SOURCE_UNAVAILABLE" := by
    have hvalid := x.valid
    simp only [AdmissionFields.check, bind_eq_ok, ensure_eq_ok, exists_const] at hvalid
    obtain ⟨hadmitted, hdegraded, -⟩ := hvalid
    cases hd : x.decision with
    | rejected => exact absurd hd h
    | admitted =>
      simp only [hd, true_and, not_or, not_not] at hadmitted
      rw [hadmitted.2.2]
      exact fun t ht => absurd ht List.not_mem_nil
    | degraded =>
      simp only [hd, true_and, not_or, not_not] at hdegraded
      intro t ht
      have hmem := List.mem_map_of_mem (f := Subtype.val) ht
      rw [hdegraded.2.2] at hmem
      exact List.mem_singleton.mp hmem
  constructor
  · refine isPlain_mkObj ?_
    simp only [AdmissionFields.unsignedFields, List.cons_append, List.nil_append, List.mem_cons, List.not_mem_nil, or_false,
      forall_eq_or_imp, forall_eq]
    refine ⟨rfl, rfl, rfl, rfl, rfl, rfl, rfl, rfl, rfl, hplain, rfl, isPlain_arr fun v hv => ?_, rfl⟩
    obtain ⟨t, -, rfl⟩ := List.mem_map.mp hv
    exact isPlain_text t
  · refine safe_mkObj ["schema_version", "handoff_id", "handoff_digest", "receiver_workspace_id", "target_result",
      "lineage_result", "policy_result", "package_result", "source_result", "conflicts", "decision", "reason_codes", "admission_digest"]
      rfl (by decide) ?_
    simp only [AdmissionFields.unsignedFields, List.cons_append, List.nil_append, List.mem_cons, List.not_mem_nil, or_false,
      forall_eq_or_imp, forall_eq]
    have hschema : Safe (.str (Str.lit AdmissionFields.schema)) := safe_str (by decide)
    have htarget : ∀ a : TargetResult, Safe (.str (Str.lit a.name)) := fun a => safe_str (by cases a <;> decide)
    have hlineage : ∀ a : LineageResult, Safe (.str (Str.lit a.name)) := fun a => safe_str (by cases a <;> decide)
    have hpolicy : ∀ a : PolicyResult, Safe (.str (Str.lit a.name)) := fun a => safe_str (by cases a <;> decide)
    have hpackage : ∀ a : PackageResult, Safe (.str (Str.lit a.name)) := fun a => safe_str (by cases a <;> decide)
    have hsource : ∀ a : SourceResult, Safe (.str (Str.lit a.name)) := fun a => safe_str (by cases a <;> decide)
    have hdecision : ∀ a : Decision, Safe (.str (Str.lit a.name)) := fun a => safe_str (by cases a <;> decide)
    refine ⟨hschema, safe_uuid _, safe_digest _, safe_uuid _, htarget _, hlineage _, hpolicy _, hpackage _, hsource _, hsafe,
      hdecision _, safe_map fun t ht => ?_, safe_digest _⟩
    rw [Text.json, hreasons t ht]
    exact safe_str (by decide)

/-- What a workspace must be for a handoff to be applied to it. -/
structure State.CanTake (s : State) (h : ContextHandoff) (eventId : Uuid) : Prop where
  active : s.lifecycle = .active
  safe : Safe h.plain.toDict
  new : s.appliedHandoffs.get? h.handoffId = none
  unbound : ∀ a ∈ h.anchorList, ∀ held, s.sources.get? a.sourceId = some held → held.engineBinding = none
  allowed : ∀ y ∈ s.fresh h, y.category ∈ s.policy.allowedCategories
  external : ∀ a ∈ s.lacked h, a.kind = .filesystem ∨ s.policy.allowExternalSources = true
  bounds : (s.received h eventId).ensureBounds true = .ok ()

theorem State.values_imported (s : State) (h : ContextHandoff) :
    (Dict.ofItems ((s.lacked h).map fun a => (a.sourceId, a))).values = s.lacked h := by
  have hnodup : (((s.lacked h).map fun a => (a.sourceId, a)).map Prod.fst).Nodup := by
    rw [List.map_map]
    exact h.listed.sources.sublist (List.filter_sublist.map _)
  rw [Dict.values, Dict.items_ofItems hnodup, List.map_map]
  exact List.map_id _

/-- The sources of a handoff that its admission found are imported where none of those that are there has a local file. -/
theorem State.Admits.importedSources_iff (had : s.Admits h x) {d : Dict SourceId SourceAnchor} :
    s.importedSources x.decision h.plain.sourceAnchors = .ok d ↔
      (∀ a ∈ h.anchorList, ∀ held, s.sources.get? a.sourceId = some held → held.engineBinding = none) ∧
        d = .ofItems ((s.lacked h).map fun a => (a.sourceId, a)) := by
  have hraw : h.plain.sourceAnchors.mapM (fun v => SourceAnchor.fromDict v true) = .ok h.anchorList :=
    (h.anchors_plain).trans h.listed.anchors
  rw [State.importedSources_iff hraw]
  refine and_congr_left fun _ => forall₂_congr fun a ha => ?_
  have hportable := h.listed.portable a ha
  constructor
  · rintro ⟨-, hsame⟩ held hheld
    exact (pyEq_held_iff hportable (had.sources a ha held hheld)).mp (hsame held hheld)
  · intro hunbound
    refine ⟨fun hnone => had.lacking ?_, fun held hheld => ?_⟩
    · exact List.ne_nil_of_mem (List.mem_filter.mpr ⟨ha, by rw [hnone]; rfl⟩)
    · exact (pyEq_held_iff hportable (had.sources a ha held hheld)).mpr (hunbound held hheld)

theorem State.Admits.appendedEntries_iff (had : s.Admits h x) {m : List ProjectContextEntry} :
    s.appendedEntries (.ofItems ((s.lacked h).map fun a => (a.sourceId, a))) h.plain.selectedEntries = .ok m ↔
      (∀ y ∈ s.fresh h, y.category ∈ s.policy.allowedCategories) ∧ m = s.fresh h := by
  have hlisted := h.listed
  rw [State.appendedEntries_iff ((h.entries_plain).trans hlisted.entries) hlisted.distinct]
  refine and_congr_left fun _ => ?_
  constructor
  · intro hall y hy
    obtain ⟨hy, hnone⟩ := List.mem_filter.mp hy
    exact ((hall y hy).2 (Option.isNone_iff_eq_none.mp hnone)).1
  · intro hallowed y hy
    refine ⟨had.entries y hy, fun hnone => ⟨hallowed y (List.mem_filter.mpr ⟨hy, by rw [hnone]; rfl⟩), fun i hi => ?_⟩⟩
    -- a source that the entry names is there or is imported
    obtain ⟨a, ha, rfl⟩ := List.mem_map.mp (hlisted.named y hy i hi)
    cases hheld : s.sources.get? a.sourceId with
    | some held => exact .inl (Dict.contains_of_get? hheld)
    | none =>
      refine .inr (Dict.contains_ofItems.mpr ?_)
      rw [List.map_map]
      exact List.mem_map_of_mem (f := fun a : SourceAnchor => a.sourceId) (List.mem_filter.mpr ⟨ha, by rw [hheld]; rfl⟩)

theorem State.Admits.checkPins (had : s.Admits h x) (hs : s.Stored) : s.checkPins h.plain.packageRefs = .ok () := by
  obtain ⟨pins, hpins⟩ := h.listed.pins
  have hraw : h.plain.packageRefs.mapM PackagePin.fromDict = .ok pins := (mapM_plain fun v _ => PackagePin.fromDict_plain v).trans hpins
  refine (State.checkPins_iff hraw).mpr fun pin hpin => ?_
  obtain ⟨v, hv, hread⟩ := mem_of_mapM hpins hpin
  obtain ⟨held, hheld, heq⟩ := had.pins v hv
  obtain rfl := PackagePin.eq_of_pyEq hread heq
  obtain ⟨k, hk⟩ := Dict.mem_values.mp hheld
  exact ⟨pin, hs.sound.logical.pinned _ (Dict.get?_eq_some.mp hk) ▸ hk, pyEq_refl _⟩

theorem State.Admits.checkDecision (had : s.Admits h x) :
    State.checkDecision x (.ofItems ((s.lacked h).map fun a => (a.sourceId, a))) = .ok () := by
  obtain ⟨-, -, -, -, -, hsource⟩ := x.results had.ids.2.2.2.1
  rw [State.checkDecision]
  rcases hsource with ⟨hdegraded, hunavailable⟩ | ⟨hadmitted, havailable⟩
  · rw [if_pos (.inr hunavailable)]
    exact ensure_true ⟨hdegraded, hunavailable⟩ _
  · have hnone : s.lacked h = [] := by
      by_contra hne
      rw [had.lacking hne] at hadmitted
      cases hadmitted
    rw [hnone, if_neg (by rw [havailable]; rintro (hitems | hsource); exact hitems rfl; cases hsource)]
    exact ensure_true ⟨hadmitted, havailable⟩ _

/-- The event that applies a handoff, after an admission that does not reject it. -/
theorem State.Admits.applyHandoff_iff (had : s.Admits h x) (hs : s.Stored) {eventId : Uuid} {t : State} :
    s.applyHandoff eventId (mkObj (handoffPayload h x)).plain = .ok t ↔
      s.appliedHandoffs.get? h.handoffId = none ∧
      (∀ a ∈ h.anchorList, ∀ held, s.sources.get? a.sourceId = some held → held.engineBinding = none) ∧
      (∀ y ∈ s.fresh h, y.category ∈ s.policy.allowedCategories) ∧
      (∀ a ∈ s.lacked h, a.kind = .filesystem ∨ s.policy.allowExternalSources = true) ∧
      (s.received h eventId).ensureBounds true = .ok () ∧ t = s.received h eventId := by
  have hhandoff : ((mkObj (handoffPayload h x)).plain.get "handoff") = h.toDict.plain := by
    rw [get_plain, handoffPayload]
    simp [get_mkObj]
  have hadmission : ((mkObj (handoffPayload h x)).plain.get "admission") = x.toDict := by
    rw [get_plain, handoffPayload]
    simp only [get_mkObj, List.find?, String.reduceEq, decide_false, decide_true, Option.map_some, Option.getD_some]
    exact (x.clean_toDict had.ids.2.2.2.1).1
  rw [State.applyHandoff, hhandoff, hadmission, h.fromDict_plain, HandoffAdmission.fromDict_toDict, projecting_ok, ok_bind, projecting_ok,
    ok_bind]
  simp only [bind_eq_ok, ensure_eq_ok, exists_const, pure_eq_ok, projecting_eq_ok, State.checkNotApplied_eq_ok, forM_eq_ok,
    State.ensureExternalAllowed_eq_ok, had.importedSources_iff]
  constructor
  · rintro ⟨-, -, hnew, _, ⟨hunbound, rfl⟩, _, -, _, -, m, happended, hexternal, _, hbounds, rfl⟩
    obtain ⟨hallowed, rfl⟩ := had.appendedEntries_iff.mp happended
    rw [State.values_imported] at hexternal
    exact ⟨hnew, hunbound, hallowed, hexternal, hbounds, rfl⟩
  · rintro ⟨hnew, hunbound, hallowed, hexternal, hbounds, rfl⟩
    refine ⟨had.ids, had.results, hnew, _, ⟨hunbound, rfl⟩, (), had.checkDecision, (), had.checkPins hs, s.fresh h,
      had.appendedEntries_iff.mpr ⟨hallowed, rfl⟩, ?_, (), hbounds, rfl⟩
    rw [State.values_imported]
    exact hexternal

/-- A source without a local file can be written. -/
theorem SourceAnchor.writable_portable {a : SourceAnchor} (h : a.engineBinding = none) : Writable a.toDict := by
  have hkinds : ∀ k : SourceKind, Writable (.str (Str.lit k.name)) := fun k => by cases k <;> exact writable_lit _
  have hfreshness : Writable a.freshness.toDict := by
    refine writable_mkObj fun p hp => ?_
    simp only [List.mem_append, List.mem_cons, List.not_mem_nil, or_false, Option.mem_toList, Option.map_eq_some_iff] at hp
    obtain (rfl | rfl) | ⟨t, -, rfl⟩ := hp
    · exact writable_dateTime _
    · exact writable_lit _
    · exact writable_dateTime t
  have hrecovery : ∀ r : SourceRecovery, Writable r.toDict := fun r => by
    refine writable_mkObj fun p hp => ?_
    simp only [List.mem_append, List.mem_cons, List.not_mem_nil, or_false, Option.mem_toList, Option.map_eq_some_iff] at hp
    obtain (rfl | rfl) | ⟨d, -, rfl⟩ := hp
    · exact writable_text _
    · exact writable_ref _
    · exact writable_digest d
  have htrust : Writable a.trust.toDict := by
    refine writable_mkObj ?_
    simp only [List.mem_cons, List.not_mem_nil, or_false, forall_eq_or_imp, forall_eq]
    exact ⟨writable_lit _, writable_map writable_ref _⟩
  refine writable_mkObj ?_
  simp only [List.mem_cons, List.not_mem_nil, or_false, forall_eq_or_imp, forall_eq, h]
  exact ⟨writable_lit _, writable_text _, hkinds _, writable_text _, writable_optional KindValue.writable_toDict _, hfreshness,
    writable_optional hrecovery _, htrust, KindValue.writable_toDict _, writable_null⟩

theorem State.received_written (hs : s.Stored) (h : ContextHandoff) (eventId : Uuid) : (s.received h eventId).Written := by
  refine ⟨hs.written.policy, fun a ha => ?_⟩
  rcases Dict.mem_values_update ha with ha | ha
  · exact hs.written.sources a ha
  · rw [State.values_imported] at ha
    exact SourceAnchor.writable_portable (h.listed.portable a (List.mem_filter.mp ha).1)

theorem plain_handoffPayload (hdecision : x.decision ≠ .rejected) :
    (mkObj (handoffPayload h x)).plain = mkObj [("handoff", h.plain.toDict), ("admission", x.toDict)] := by
  rw [plain_mkObj, handoffPayload, List.map_cons, List.map_cons, List.map_nil, HandoffFields.plain_toDict,
    (x.clean_toDict hdecision).1]
  rfl

/-- The document of a handoff passes what is checked of every payload where it holds no secret. -/
theorem checkPayload_iff {e : Event} (hdecision : x.decision ≠ .rejected) (hkind : e.kind = .handoffApplied)
    (hpayload : e.payload = (mkObj (handoffPayload h x)).plain) : checkPayload e = .ok () ↔ Safe h.plain.toDict := by
  rw [plain_handoffPayload hdecision] at hpayload
  constructor
  · intro hcheck
    simp only [checkPayload, projecting_eq_ok, bind_eq_ok] at hcheck
    obtain ⟨_, hsafe, -⟩ := hcheck
    rw [rejectSensitive_eq_ok, hpayload] at hsafe
    exact safe_of_mkObj (by simp) hsafe ("handoff", h.plain.toDict) List.mem_cons_self
  · intro hsafe
    refine checkPayload_of_safe hpayload (by rw [hkind]; rfl) (safe_mkObj ["handoff", "admission"] rfl (by decide) ?_)
    simp only [List.mem_cons, List.not_mem_nil, or_false, forall_eq_or_imp, forall_eq]
    exact ⟨hsafe, (x.clean_toDict hdecision).2⟩

/-- A handoff that was admitted, or degraded, against a checkpoint of the state that a journal holds is applied to this state exactly
    where the state can take it. -/
theorem State.takes_iff {root : Uuid → Option State} {ws : Uuid} {files : List EventFile} {e : Event} {allow : Bool}
    (hproject : project ws files = .ok s) (hcurrent : c.IsCurrent s) (hx : s.admitHandoff (s.senderOf root h) bound h c = .ok x)
    (hdecision : x.decision ≠ .rejected) (hkind : e.kind = .handoffApplied)
    (hpayload : e.payload = (mkObj (handoffPayload h x)).plain) (hfresh : s.receipts.contains e.eventId = false) :
    (∃ t, applyEvent allow (some s) e = .ok t) ↔ s.CanTake h e.eventId := by
  have hs := stored_of_project hproject
  have hreach : Machine.Reaches Accepts (fun _ _ => True) s :=
    (reaches_of_foldlM (project_eq_ok.mp hproject).2.1 fun u hu => by cases hu).mono fun _ _ _ => trivial
  have had := admits_of_admitHandoff hreach hs hcurrent hx hdecision
  have heffect : ∀ t, s.effect allow e = .ok t ↔ s.applyHandoff e.eventId (mkObj (handoffPayload h x)).plain = .ok t := by
    intro t
    rw [State.effect, hkind, hpayload]
  constructor
  · rintro ⟨t, ht⟩
    obtain ⟨hcheck, -, hactive, u, hu, -⟩ := applyEvent_some.mp ht
    obtain ⟨hnew, hunbound, hallowed, hexternal, hbounds, -⟩ := (had.applyHandoff_iff hs).mp ((heffect u).mp hu)
    exact ⟨hactive, (checkPayload_iff hdecision hkind hpayload).mp hcheck, hnew, hunbound, hallowed, hexternal, hbounds⟩
  · intro htake
    obtain ⟨receipt, hr⟩ := State.recordEvent_of_empty (s.received_written hs h e.eventId) (by rw [ReceiptParts.ofEvent, hkind])
      ((State.ensureBounds_withEvent _ e).trans htake.bounds) hfresh
    have happly := (had.applyHandoff_iff hs).mpr
      ⟨htake.new, htake.unbound, htake.allowed, htake.external, htake.bounds, rfl⟩
    exact ⟨_, applyEvent_some.mpr ⟨(checkPayload_iff hdecision hkind hpayload).mpr htake.safe, by rw [hkind]; decide, htake.active, _,
      (heffect _).mpr happly, hr⟩⟩

end

/-- A workspace that hands the decision of its checkpoint to itself. -/
theorem exists_handed : ∃ s c h x e t files, project (numberedUuid 0) files = .ok s ∧ c.IsCurrent s ∧
    s.createHandoff c (handoffArguments (numberedUuid 0) (numberedUuid 30)) = .ok h ∧
    s.admitHandoff (s.senderOf (fun _ => none) h) [] h c = .ok x ∧ x.decision ≠ .rejected ∧ e.kind = .handoffApplied ∧
    e.payload = (mkObj (handoffPayload h x)).plain ∧ s.receipts.contains e.eventId = false ∧ applyEvent false (some s) e = .ok t := by
  obtain ⟨s, -, c, files, hreach, hsample, -, -, -, hc, hws, hstored, hlineage, happlied, hproject⟩ := exists_committed
  obtain ⟨h, hh, d, hfields⟩ := hc.exists_createHandoff hstored (by simp [hlineage]) (numberedUuid 0) (numberedUuid 30)
  have hhandoff : State.Sample.Handoff s .plain c h := by
    refine ⟨⟨_, hc⟩, hstored, hws.trans hsample.workspace.symm, hlineage, numberedUuid 30, d, ?_⟩
    rw [hfields, ← hws]
    simp only [hlineage]
  obtain ⟨x, report, d', hx, hxfields, hnone, hreport⟩ := State.Sample.Handoff.exists_admitHandoff hsample hhandoff
  have hself : s.senderOf (fun _ => none) h = some s := by
    rw [State.senderOf, if_pos]
    rw [hfields]
    exact hws.trans hsample.workspace.symm
  have hcurrent : c.IsCurrent s := by
    have hlogical : s.logical = .bare openPolicy [decision] := by
      rw [State.logical, hsample.policy, hsample.sources, hsample.entries, hsample.pins, hsample.lock]
      rfl
    rw [ContextCheckpoint.IsCurrent, State.logicalState, hlogical, hc.logicalState, hws, hsample.workspace]
    exact pyEq_refl _
  have hstep := State.Sample.Handoff.step_handoff hsample (by decide) hhandoff (by rw [happlied]; rfl) hxfields hnone hreport
  obtain ⟨e, receipt, he, happly, -⟩ := hstep.exists_event hsample (by decide)
  obtain ⟨-, -, -, hid, hkind, hpayload, -⟩ := Event.sealed_record he
  have hdecision : x.decision ≠ .rejected := by
    rw [hxfields]
    rintro ⟨⟩
  exact ⟨s, c, h, x, e, _, files, hproject, hcurrent, hh, hself.symm ▸ hx, hdecision, hkind, hpayload,
    hsample.newEvent (by decide) hid, happly⟩

/-- A sample workspace takes the handoff of its own checkpoint. -/
theorem exists_takes_iff : ∃ s e h, State.CanTake s h e.eventId ∧ ∃ t, applyEvent false (some s) e = .ok t := by
  obtain ⟨s, c, h, x, e, t, files, hproject, hcurrent, -, hx, hdecision, hkind, hpayload, hnew, happly⟩ := exists_handed
  exact ⟨s, e, h, (State.takes_iff hproject hcurrent hx hdecision hkind hpayload hnew).mp ⟨t, happly⟩, t, happly⟩

end LeanCtx
