import LeanCtx.Workspace.Concurring
import LeanCtx.Workspace.Patching

/-! Transferring: what a workspace holds after it has applied a handoff is what the checkpoint of the sender holds under the entries that
    were asked for, with the sources that these entries name and no other, under the policy and the packages of the receiver. -/

namespace LeanCtx
open Json

/-! ### Raw records -/

/-- The raw records that the contents of a logical state are read from. -/
structure LogicalState.Records (l : LogicalState) (v : Json) : Prop where
  policy : WorkspacePolicy.fromDict (v.get "policy") = .ok l.policy
  entries : (itemsOf (v.get "entries")).mapM entryFromInput = .ok l.entries
  sameEntries : pyEq (.arr (l.entries.map ProjectContextEntry.toDict)) (.arr (itemsOf (v.get "entries"))) = true
  sources : ∃ anchors : List SourceAnchor, (itemsOf (v.get "sources")).mapM (fun a => SourceAnchor.fromDict a true) = .ok anchors ∧
    pyEq (.arr (anchors.map SourceAnchor.toDict)) (.arr (itemsOf (v.get "sources"))) = true ∧
    (anchors.map (·.sourceId)).Nodup ∧ l.sources = .ofItems (anchors.map fun a => (a.sourceId, a))
  pins : ∃ pins : List PackagePin, (itemsOf (v.get "package_pins")).mapM PackagePin.fromDict = .ok pins ∧
    l.packagePins = .ofItems (pins.map fun p => (p.key, p))

theorem LogicalState.records {v : Json} {ws : Uuid} {l : LogicalState} (h : logicalStateComponents v ws = .ok l) : l.Records v := by
  simp only [logicalStateComponents, bind_eq_ok, ensure_eq_ok, exists_const] at h
  obtain ⟨_, -, -, -, h⟩ := h
  split at h
  · next rawSources rawEntries rawPins hsources hentries hpins =>
    simp only [bind_eq_ok, ensure_eq_ok, exists_const, pure_eq_ok] at h
    obtain ⟨-, _, -, -, policy, hpolicy, anchors, hanchors, entries, hread, pins, hpinned, hcanonical, hsame, -, hnodup, -, -, -, -,
      lock, -, -, rfl⟩ := h
    exact ⟨hpolicy, by rwa [hentries], by rwa [hentries], ⟨anchors, by rwa [hsources], by rwa [hsources], hnodup, rfl⟩,
      pins, by rwa [hpins], rfl⟩
  · cases h

/-- Entries that are selected are the values under the keys. -/
theorem selectKeys_eq_ok {keys : List Str} {items : List (Str × Json)} {missing : Err} {l : List Json}
    (h : selectKeys keys items missing = .ok l) : List.Forall₂ (fun k v => (k, v) ∈ items) keys l := by
  refine (forall₂_of_mapM h).imp fun k v hv => ?_
  split at hv
  · next p hp =>
    cases hv
    have hkey : p.1 = k := by simpa using List.find?_some hp
    exact hkey ▸ List.mem_of_find?_eq_some hp
  · cases hv

/-- The texts of a list that equals a list of texts. -/
theorem textsOf_of_pyEq {α : Type} {f : α → Str} {l : List α} {v : Json} (h : pyEq (.arr (l.map fun a => .str (f a))) v = true) :
    textsOf v = l.map f := by
  obtain ⟨m, rfl⟩ := exists_arr_of_pyEq (pyEq_symm h)
  rw [pyEq_arr, List.forall₂_map_left_iff] at h
  induction h with
  | nil => rfl
  | cons hv _ ih =>
    rw [textsOf, itemsOf] at ih ⊢
    rw [eq_of_pyEq_str (pyEq_symm hv), List.filterMap_cons, ih, List.map_cons]

theorem ProjectContextEntry.get_entryId {x : ProjectContextEntry} {v : Json} (h : pyEq x.toDict v = true) :
    v.get "entry_id" = x.entryId.json := by
  have hget := pyEq_symm (pyEq_get h "entry_id")
  simp only [toDict, get_mkObj, List.find?, String.reduceEq, decide_false, decide_true, Option.map_some, Option.getD_some] at hget
  exact eq_of_pyEq_str hget

theorem ProjectContextEntry.textsOf_sourceIds {x : ProjectContextEntry} {v : Json} (h : pyEq x.toDict v = true) :
    textsOf (v.get "source_ids") = x.sourceIds.1.map Subtype.val := by
  have hget := pyEq_get h "source_ids"
  simp only [toDict, get_mkObj, List.find?, String.reduceEq, decide_false, decide_true, Option.map_some, Option.getD_some] at hget
  exact textsOf_of_pyEq hget

theorem SourceAnchor.sourceId_of_pyEq {a b : SourceAnchor} (h : pyEq a.toDict b.toDict = true) : a.sourceId = b.sourceId :=
  Subtype.ext (Json.str.inj ((get_sourceId h).symm.trans (get_sourceId (pyEq_refl b.toDict))))

/-! ### What a handoff is made of -/

/-- The records of a handoff beside the contents of the checkpoint that it is made of. -/
structure ContextHandoff.IsOf (h : ContextHandoff) (l : LogicalState) (ids : List Str) : Prop where
  entries : ∀ x ∈ h.entryList, x ∈ l.entries ∧ x.entryId.1 ∈ ids
  complete : ∀ i ∈ ids, ∃ x ∈ h.entryList, x.entryId.1 = i
  sources : ∀ a ∈ h.anchorList, (∃ anchor, l.sources.get? a.sourceId = some anchor ∧ pyEq a.toDict anchor.portable.toDict = true) ∧
    ∃ x ∈ h.entryList, a.sourceId ∈ x.sourceIds.1
  pins : ∀ k pin, l.packagePins.get? k = some pin → ∃ v ∈ h.packageRefs, PackagePin.fromDict v = .ok pin
  policy : h.requiredPolicyFloor = l.policy

section
variable {c : ContextCheckpoint} {l : LogicalState}

/-- An item of the entries of a checkpoint that is kept under a key is an entry with this identifier. -/
theorem LogicalState.Records.entry {v : Json} (hl : l.Records v) {items : List (Str × Json)} {label : String}
    (h : keyed (v.get "entries") "entry_id" label = .ok items) {k : Str} {w : Json} (hw : (k, w) ∈ items) :
    ∃ x ∈ l.entries, x.entryId.1 = k ∧ ProjectContextEntry.fromDict w = .ok x ∧
      textsOf (w.get "source_ids") = x.sourceIds.1.map Subtype.val := by
  obtain ⟨raw, hraw, hobj, hkey, rfl⟩ := exists_mem_of_forall₂ (keyed_eq_ok h).1.flip hw
  obtain ⟨x, hx, hread⟩ := exists_mem_of_mapM hl.entries raw hraw
  have heq := pyEq_of_mapM hl.entries hl.sameEntries raw hraw x hread
  have hfrom : ProjectContextEntry.fromDict raw = .ok x := by
    cases raw with
    | obj f => exact hread
    | _ => cases hobj
  refine ⟨x, hx, ?_, by rw [ProjectContextEntry.fromDict_plain, hfrom], ?_⟩
  · rw [ContextDelta.textKey, ProjectContextEntry.get_entryId heq] at hkey
    exact Option.some.inj hkey
  · exact ProjectContextEntry.textsOf_sourceIds (pyEq_trans heq (pyEq_symm (pyEq_plain raw)))

/-- An item of the sources of a checkpoint that is kept under a key is the source with this identifier. -/
theorem LogicalState.Records.source {v : Json} (hl : l.Records v) {items : List (Str × Json)} {label : String}
    (h : keyed (v.get "sources") "source_id" label = .ok items) {k : Str} {w : Json} (hw : (k, w) ∈ items) :
    ∃ a, l.sources.get? a.sourceId = some a ∧ a.sourceId.1 = k ∧ pyEq a.toDict w = true := by
  obtain ⟨anchors, hanchors, hcanonical, hnodup, hsources⟩ := hl.sources
  obtain ⟨raw, hraw, -, hkey, rfl⟩ := exists_mem_of_forall₂ (keyed_eq_ok h).1.flip hw
  obtain ⟨a, ha, hread⟩ := exists_mem_of_mapM hanchors raw hraw
  have heq := pyEq_of_mapM hanchors hcanonical raw hraw a hread
  refine ⟨a, ?_, ?_, pyEq_trans heq (pyEq_symm (pyEq_plain raw))⟩
  · rw [hsources, Dict.get?_eq_some, Dict.items_ofItems (by rwa [List.map_map])]
    exact List.mem_map_of_mem ha
  · rw [ContextDelta.textKey, get_sourceId heq] at hkey
    exact Option.some.inj hkey

/-- A handoff holds the entries that were asked for, the sources that they name and every package. -/
theorem ContextHandoff.isOf_create {a : HandoffArguments} {lineage : Option ForkLineage} {h : ContextHandoff}
    (hl : logicalStateComponents c.logicalState c.workspaceId = .ok l) (hh : create c a lineage = .ok h) :
    h.IsOf l (a.entryIds.1.map Subtype.val) := by
  have hrecords := LogicalState.records hl
  simp only [create, bind_eq_ok, ensure_eq_ok, exists_const] at hh
  obtain ⟨entriesById, hentriesById, entries, hentries, sourcesById, hsourcesById, sources, hsources, -, -, policy, hpolicy, source, -,
    recoveryRefs, -, _, -, _, -, -, d, -, hmake⟩ := hh
  have hfields := make_eq_ok.mp hmake
  have hlisted := h.listed
  have hread : entries.mapM ProjectContextEntry.fromDict = .ok h.entryList := by
    have := hlisted.entries
    rwa [HandoffFields.entries, hfields] at this
  have hanchors : (sources.map portableAnchor).mapM (fun v => SourceAnchor.fromDict v true) = .ok h.anchorList := by
    have := hlisted.anchors
    rwa [HandoffFields.anchors, hfields] at this
  have hcanonical : pyEq (.arr (h.anchorList.map SourceAnchor.toDict)) (.arr (sources.map portableAnchor)) = true := by
    have := hlisted.canonical
    rwa [hfields] at this
  have hselected := selectKeys_eq_ok hentries
  -- each value that is selected is the value of the entry that is read
  have hentry : ∀ v ∈ entries, ∀ x, ProjectContextEntry.fromDict v = .ok x → x ∈ l.entries ∧ x.entryId.1 ∈ a.entryIds.1.map Subtype.val ∧
      textsOf (v.get "source_ids") = x.sourceIds.1.map Subtype.val := fun v hv x hx => by
    obtain ⟨k, hk, hkv⟩ := exists_mem_of_forall₂ hselected.flip hv
    obtain ⟨y, hy, hid, hfrom, hids⟩ := hrecords.entry hentriesById hkv
    obtain rfl := Except.ok.inj (hfrom.symm.trans hx)
    exact ⟨hy, hid ▸ hk, hids⟩
  refine ⟨fun x hx => ?_, fun i hi => ?_, fun x hx => ?_, fun k pin hpin => ?_, ?_⟩
  · obtain ⟨v, hv, hfrom⟩ := mem_of_mapM hread hx
    obtain ⟨hmem, hid, -⟩ := hentry v hv x hfrom
    exact ⟨hmem, hid⟩
  · obtain ⟨v, hv, hkv⟩ := exists_mem_of_forall₂ hselected hi
    obtain ⟨x, hx, hfrom⟩ := exists_mem_of_mapM hread v hv
    obtain ⟨y, -, hid, hfrom', -⟩ := hrecords.entry hentriesById hkv
    obtain rfl := Except.ok.inj (hfrom.symm.trans hfrom')
    exact ⟨x, hx, hid⟩
  · obtain ⟨w, hw, hfrom⟩ := mem_of_mapM hanchors hx
    obtain ⟨v, hv, rfl⟩ := List.mem_map.mp hw
    obtain ⟨k, hk, hkv⟩ := exists_mem_of_forall₂ (selectKeys_eq_ok hsources).flip hv
    obtain ⟨anchor, hget, hid, hsame⟩ := hrecords.source hsourcesById hkv
    have hportable := pyEq_portableAnchor hsame
    rw [portableAnchor_toDict] at hportable
    have heq := pyEq_trans (pyEq_of_mapM hanchors hcanonical _ hw x hfrom) (pyEq_symm hportable)
    have hsourceId : x.sourceId = anchor.portable.sourceId := SourceAnchor.sourceId_of_pyEq heq
    change x.sourceId = anchor.sourceId at hsourceId
    refine ⟨⟨anchor, hsourceId ▸ hget, heq⟩, ?_⟩
    -- the key of the source is named by an entry
    obtain ⟨e, he, hke⟩ := List.mem_flatMap.mp (mem_sortedUnion.mp hk)
    obtain ⟨y, hy, hyfrom⟩ := exists_mem_of_mapM hread e he
    obtain ⟨-, -, hids⟩ := hentry e he y hyfrom
    rw [hids] at hke
    obtain ⟨i, hi, hik⟩ := List.mem_map.mp hke
    refine ⟨y, hy, ?_⟩
    rwa [hsourceId, ← (Subtype.ext (hik.trans hid.symm) : i = anchor.sourceId)]
  · obtain ⟨pins, hpins, hpinned⟩ := hrecords.pins
    rw [hpinned] at hpin
    have hmem : pin ∈ pins := by
      have := Dict.mem_values_ofItems (Dict.mem_values.mpr ⟨k, hpin⟩)
      simpa [List.map_map, Function.comp_def] using this
    obtain ⟨raw, hraw, hfrom⟩ := mem_of_mapM hpins hmem
    refine ⟨raw.plain, ?_, by rw [PackagePin.fromDict_plain, hfrom]⟩
    rw [hfields]
    exact (List.perm_insertionSort _ _).mem_iff.mpr (List.mem_map_of_mem hraw)
  · rw [hfields]
    exact Except.ok.inj (hpolicy.symm.trans hrecords.policy)

/-! ### What a workspace holds after a handoff -/

/-- What a workspace holds after it has applied a handoff of some entries. -/
structure State.Carries (s u : State) (l : LogicalState) (ids : List Str) : Prop where
  entries : ∀ i ∈ ids, ∃ x ∈ l.entries, x.entryId.1 = i ∧ u.entry? x.entryId = some x
  added : ∃ added, u.entries = s.entries ++ added ∧
    ∀ x ∈ added, x ∈ l.entries ∧ x.entryId.1 ∈ ids ∧ s.entry? x.entryId = none ∧ x.category ∈ s.policy.allowedCategories
  sources : ∀ x ∈ l.entries, x.entryId.1 ∈ ids → ∀ i ∈ x.sourceIds.1, ∃ held anchor, u.sources.get? i = some held ∧
    l.sources.get? i = some anchor ∧ pyEq held.toDict anchor.portable.toDict = true
  kept : ∀ i held, s.sources.get? i = some held → u.sources.get? i = some held
  imported : ∀ i held, u.sources.get? i = some held → s.sources.get? i = none →
    (held.kind = .filesystem ∨ s.policy.allowExternalSources = true) ∧ ∃ x ∈ l.entries, x.entryId.1 ∈ ids ∧ i ∈ x.sourceIds.1
  policy : u.policy = s.policy ∧ s.policy.isTightening l.policy = true
  pins : u.packagePins = s.packagePins ∧ ∀ k pin, l.packagePins.get? k = some pin → s.packagePins.get? k = some pin

variable {s u : State} {h : ContextHandoff}

theorem State.items_lacked (s : State) (h : ContextHandoff) :
    (Dict.ofItems ((s.lacked h).map fun a => (a.sourceId, a))).items = (s.lacked h).map fun a => (a.sourceId, a) := by
  refine Dict.items_ofItems ?_
  rw [List.map_map]
  exact h.listed.sources.sublist (List.filter_sublist.map _)

/-- Sources that are imported come after those that are there. -/
theorem State.items_update_lacked (s : State) (h : ContextHandoff) :
    (s.sources.update (.ofItems ((s.lacked h).map fun a => (a.sourceId, a)))).items =
      s.sources.items ++ (s.lacked h).map fun a => (a.sourceId, a) := by
  have hnodup := (Dict.ofItems ((s.lacked h).map fun a => (a.sourceId, a))).nodup
  rw [State.items_lacked] at hnodup
  rw [Dict.update, State.items_lacked]
  refine Dict.items_foldl_set ?_
  rw [List.map_append]
  refine List.nodup_append.mpr ⟨s.sources.nodup, hnodup, fun i hi j hj hij => ?_⟩
  obtain ⟨a, ha, rfl⟩ := List.mem_map.mp (List.map_map ▸ hj)
  have hnone : s.sources.get? a.sourceId = none := Option.isNone_iff_eq_none.mp (List.mem_filter.mp ha).2
  obtain ⟨p, hp, rfl⟩ := List.mem_map.mp hi
  have hsome : s.sources.get? p.1 = some p.2 := Dict.get?_eq_some.mpr hp
  rw [hij] at hsome
  exact absurd (hnone.symm.trans hsome) (Option.some_ne_none _).symm

/-- An entry of a handoff is found after those that were lacking were added, where the ones that are there are the same. -/
theorem State.entry?_fresh {x : ProjectContextEntry} (hu : u.entries = s.entries ++ s.fresh h)
    (hx : x ∈ h.entryList) (hsame : ∀ held, s.entry? x.entryId = some held → held = x) : u.entry? x.entryId = some x := by
  have hsplit : u.entry? x.entryId = ((s.fresh h).reverse.find? fun y => y.entryId = x.entryId).or (s.entry? x.entryId) := by
    rw [State.entry?, hu, List.reverse_append, List.find?_append]
    rfl
  rw [hsplit]
  cases hfound : (s.fresh h).reverse.find? fun y => y.entryId = x.entryId with
  | some y =>
    have hid : y.entryId = x.entryId := by simpa using List.find?_some hfound
    have hy := (List.mem_filter.mp (List.mem_reverse.mp (List.mem_of_find?_eq_some hfound))).1
    rw [Option.some_or, List.inj_on_of_nodup_map h.listed.distinct hy hx hid]
  | none =>
    rw [Option.none_or]
    cases hheld : s.entry? x.entryId with
    | some held => rw [hsame held hheld]
    | none =>
      have hmem : x ∈ s.fresh h := List.mem_filter.mpr ⟨hx, by rw [hheld]; rfl⟩
      simpa using List.find?_eq_none.mp hfound x (List.mem_reverse.mpr hmem)

/-- What a workspace holds of the entries and the sources of a handoff that it has applied. -/
structure State.Gains (s u : State) (h : ContextHandoff) : Prop where
  entries : u.entries = s.entries ++ s.fresh h
  sources : u.sources = s.sources.update (.ofItems ((s.lacked h).map fun a => (a.sourceId, a)))
  policy : u.policy = s.policy ∧ s.policy.isTightening h.requiredPolicyFloor = true
  pins : u.packagePins = s.packagePins ∧ ∀ v ∈ h.packageRefs, ∀ pin, PackagePin.fromDict v = .ok pin →
    s.packagePins.get? pin.key = some pin
  sameSources : ∀ a ∈ h.anchorList, ∀ held, s.sources.get? a.sourceId = some held → pyEq held.toDict a.toDict = true
  sameEntries : ∀ x ∈ h.entryList, ∀ held, s.entry? x.entryId = some held → held = x
  allowed : ∀ x ∈ s.fresh h, x.category ∈ s.policy.allowedCategories
  external : ∀ a ∈ s.lacked h, a.kind = .filesystem ∨ s.policy.allowExternalSources = true

theorem State.gains_of_applyEvent {allow : Bool} {e : Event} (hkind : e.kind = .handoffApplied)
    (hpayload : e.payload.get "handoff" = h.toDict.plain) (hu : applyEvent allow (some s) e = .ok u) : s.Gains u h := by
  obtain ⟨-, -, -, t, ht, hrecord⟩ := applyEvent_some.mp hu
  obtain ⟨_, -, -, -, rfl⟩ := recordEvent_eq_ok.mp hrecord
  rw [State.effect, hkind] at ht
  obtain ⟨handoff, x, imported, appended, hread, -, -, -, hfloor, -, himported, hpins, happended, hexternal, rfl⟩ :=
    State.applyHandoff_eq_ok ht
  rw [hpayload, h.fromDict_plain] at hread
  obtain rfl := Except.ok.inj hread
  obtain ⟨hsources, rfl⟩ := (State.importedSources_iff ((h.anchors_plain).trans h.listed.anchors)).mp himported
  obtain ⟨hentries, rfl⟩ := (State.appendedEntries_iff ((h.entries_plain).trans h.listed.entries) h.listed.distinct).mp happended
  obtain ⟨pins, hread⟩ := h.listed.pins
  have hreadPlain : h.plain.packageRefs.mapM PackagePin.fromDict = .ok pins :=
    (mapM_plain fun v _ => PackagePin.fromDict_plain v).trans hread
  change ∀ a ∈ (Dict.ofItems ((s.lacked h).map fun a => (a.sourceId, a))).values, _ at hexternal
  rw [State.values_imported] at hexternal
  refine ⟨rfl, rfl, ⟨rfl, hfloor⟩, ⟨rfl, fun v hv pin hpin => ?_⟩, fun a ha => (hsources a ha).2, fun y hy => (hentries y hy).1,
    fun y hy => ?_, hexternal⟩
  · obtain ⟨pin', hmem, hpin'⟩ := exists_mem_of_mapM hread v hv
    obtain rfl := Except.ok.inj (hpin'.symm.trans hpin)
    obtain ⟨held, hheld, heq⟩ := (State.checkPins_iff hreadPlain).mp hpins pin' hmem
    rw [PackagePin.eq_of_pyEq (PackagePin.fromDict_toDict pin') heq] at hheld ⊢
    exact hheld
  · obtain ⟨hy, hnone⟩ := List.mem_filter.mp hy
    exact ((hentries y hy).2 (Option.isNone_iff_eq_none.mp hnone)).1

/-- A handoff that a workspace applies gives it, of the checkpoint that the handoff was made of, the entries that were asked for and
    the sources that they name. -/
theorem State.carries_of_createHandoff {t : State} {a : HandoffArguments} {allow : Bool} {e : Event}
    (hh : t.createHandoff c a = .ok h) (hkind : e.kind = .handoffApplied) (hpayload : e.payload.get "handoff" = h.toDict.plain)
    (hu : applyEvent allow (some s) e = .ok u) : ∃ l, logicalStateComponents c.logicalState c.workspaceId = .ok l ∧
      s.Carries u l (a.entryIds.1.map Subtype.val) := by
  obtain ⟨l, hl⟩ := c.reads
  simp only [State.createHandoff, bind_eq_ok] at hh
  obtain ⟨_, -, hh⟩ := hh
  have hof := ContextHandoff.isOf_create hl hh
  have hgains := State.gains_of_applyEvent hkind hpayload hu
  have hlisted := h.listed
  have hdistinct := (logicalStateComponents_eq_ok hl).distinct
  -- an entry of the checkpoint that was asked for is one of the handoff
  have hmem : ∀ x ∈ l.entries, x.entryId.1 ∈ a.entryIds.1.map Subtype.val → x ∈ h.entryList := fun x hx hid => by
    obtain ⟨y, hy, hsame⟩ := hof.complete _ hid
    rwa [← List.inj_on_of_nodup_map hdistinct (hof.entries y hy).1 hx (Subtype.ext hsame)]
  have hget : ∀ i held, u.sources.get? i = some held ↔
      s.sources.get? i = some held ∨ held ∈ s.lacked h ∧ held.sourceId = i := fun i held => by
    rw [hgains.sources, Dict.get?_eq_some, State.items_update_lacked, List.mem_append, ← Dict.get?_eq_some]
    simp only [List.mem_map, Prod.mk.injEq]
    refine or_congr_right ⟨?_, ?_⟩
    · rintro ⟨b, hb, rfl, rfl⟩
      exact ⟨hb, rfl⟩
    · rintro ⟨hb, rfl⟩
      exact ⟨held, hb, rfl, rfl⟩
  refine ⟨l, hl, fun i hi => ?_, ⟨s.fresh h, hgains.entries, fun x hx => ?_⟩, fun x hx hid i hi => ?_, fun i held hheld => ?_,
    fun i held hheld hnone => ?_, ⟨hgains.policy.1, hof.policy ▸ hgains.policy.2⟩, hgains.pins.1, fun k pin hpin => ?_⟩
  · obtain ⟨x, hx, hid⟩ := hof.complete i hi
    exact ⟨x, (hof.entries x hx).1, hid, State.entry?_fresh hgains.entries hx (hgains.sameEntries x hx)⟩
  · obtain ⟨hx', hnone⟩ := List.mem_filter.mp hx
    obtain ⟨hmem, hid⟩ := hof.entries x hx'
    exact ⟨hmem, hid, Option.isNone_iff_eq_none.mp hnone, hgains.allowed x hx⟩
  · obtain ⟨b, hb, rfl⟩ := List.mem_map.mp (hlisted.named x (hmem x hx hid) i hi)
    obtain ⟨⟨anchor, hanchor, hsame⟩, -⟩ := hof.sources b hb
    cases hheld : s.sources.get? b.sourceId with
    | some held =>
      exact ⟨held, anchor, (hget _ held).mpr (.inl hheld), hanchor, pyEq_trans (hgains.sameSources b hb held hheld) hsame⟩
    | none =>
      have hlacked : b ∈ s.lacked h := List.mem_filter.mpr ⟨hb, by rw [hheld]; rfl⟩
      exact ⟨b, anchor, (hget _ b).mpr (.inr ⟨hlacked, rfl⟩), hanchor, hsame⟩
  · exact (hget i held).mpr (.inl hheld)
  · obtain hheld | ⟨hlacked, rfl⟩ := (hget i held).mp hheld
    · exact absurd (hnone.symm.trans hheld) (Option.some_ne_none _).symm
    · obtain ⟨-, x, hx, hnamed⟩ := hof.sources held (List.mem_filter.mp hlacked).1
      exact ⟨hgains.external held hlacked, x, (hof.entries x hx).1, (hof.entries x hx).2, hnamed⟩
  · obtain ⟨v, hv, hread⟩ := hof.pins k pin hpin
    have hkey : k = pin.key := by
      obtain ⟨pins, -, hpinned⟩ := (LogicalState.records hl).pins
      rw [hpinned] at hpin
      obtain hmem | hempty := Dict.get?_foldl_set hpin
      · obtain ⟨p, -, hp⟩ := List.mem_map.mp hmem
        cases hp
        rfl
      · exact absurd hempty (Option.some_ne_none _).symm
    exact hkey ▸ hgains.pins.2 v hv pin hread

end

/-- A workspace that hands its decision to itself has it after that. -/
theorem exists_carries_of_createHandoff : ∃ s u e l, e.kind = .handoffApplied ∧ applyEvent false (some s) e = .ok u ∧
    s.Carries u l [decision.entryId.1] := by
  obtain ⟨s, c, h, x, e, u, -, -, -, hh, -, -, hkind, hpayload, -, happly⟩ := exists_handed
  have hhandoff : e.payload.get "handoff" = h.toDict.plain := by
    rw [hpayload, get_plain, handoffPayload]
    simp [get_mkObj]
  obtain ⟨l, -, hcarries⟩ := State.carries_of_createHandoff hh hkind hhandoff happly
  exact ⟨s, u, e, l, hkind, happly, hcarries⟩

end LeanCtx
