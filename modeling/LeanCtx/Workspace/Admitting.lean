import LeanCtx.Workspace.Receiving
import LeanCtx.Workspace.Reporting
import LeanCtx.Workspace.Sound

/-! Admitting: a receiver rejects a handoff for an objection, degrades it for a source that it lacks and admits it otherwise, and
    does so whatever the handoff holds, unless it has more sources at hand than an admission can list. -/

namespace LeanCtx
open Json

/-! ### Lists that are collected -/

/-- A loop that adds at most one item at each step adds one exactly at the steps of some kind. -/
theorem foldlM_collect {ε α β : Type} {f : List β → α → Except ε (List β)} {P : β → Prop} {C : α → Prop} {l : List α}
    (hstep : ∀ acc, ∀ a ∈ l, ∃ found, f acc a = .ok (acc ++ found) ∧ found.length ≤ 1 ∧ (∀ b ∈ found, P b) ∧ (found = [] ↔ ¬C a))
    (acc : List β) : ∃ found, l.foldlM f acc = .ok (acc ++ found) ∧ found.length ≤ l.length ∧ (∀ b ∈ found, P b) ∧
      (found = [] ↔ ∀ a ∈ l, ¬C a) := by
  induction l generalizing acc with
  | nil => exact ⟨[], by rw [List.foldlM_nil, List.append_nil]; rfl, le_refl _, nofun, by simp⟩
  | cons a l ih =>
    obtain ⟨found, hf, hlength, hP, hC⟩ := hstep acc a List.mem_cons_self
    obtain ⟨more, hmore, hlength', hP', hC'⟩ := ih (fun acc b hb => hstep acc b (List.mem_cons_of_mem a hb)) (acc ++ found)
    refine ⟨found ++ more, ?_, ?_, ?_, ?_⟩
    · rw [List.foldlM_cons, hf, ok_bind, hmore, List.append_assoc]
    · rw [List.length_append, List.length_cons]
      omega
    · intro b hb
      rcases List.mem_append.mp hb with hb | hb
      · exact hP b hb
      · exact hP' b hb
    · rw [List.append_eq_nil_iff, hC, hC', List.forall_mem_cons]

theorem exists_of_mapM {ε α β : Type} {f : α → Except ε β} {l : List α} {m : List β} (h : l.mapM f = .ok m) :
    ∀ a ∈ l, ∃ b, f a = .ok b := by
  induction l generalizing m with
  | nil => nofun
  | cons a l ih =>
    simp only [List.mapM_cons, bind_eq_ok] at h
    obtain ⟨b, hb, n, hn, -⟩ := h
    intro c hc
    rcases List.mem_cons.mp hc with rfl | hc
    · exact ⟨b, hb⟩
    · exact ih hn c hc

theorem forall₂_of_mapM {α β ε : Type} {f : α → Except ε β} {l : List α} {m : List β} (h : l.mapM f = .ok m) :
    List.Forall₂ (fun a b => f a = .ok b) l m := by
  induction l generalizing m with
  | nil =>
    cases h
    exact .nil
  | cons a l ih =>
    simp only [List.mapM_cons, bind_eq_ok, pure_eq_ok] at h
    obtain ⟨b, hb, bs, hbs, rfl⟩ := h
    exact .cons hb (ih hbs)

theorem exists_mem_of_mapM {ε α β : Type} {f : α → Except ε β} {l : List α} {m : List β} (h : l.mapM f = .ok m) :
    ∀ a ∈ l, ∃ b ∈ m, f a = .ok b := fun _ ha => exists_mem_of_forall₂ (forall₂_of_mapM h) ha

/-- A text of the shorter bound is one of the longer bound. -/
theorem isText_mono {m n : Nat} (hmn : m ≤ n) {s : Str} (h : isText m s = true) : isText n s = true := by
  simp only [isText, Bool.and_eq_true, decide_eq_true_eq] at h ⊢
  obtain ⟨⟨⟨hscalar, hne⟩, hlength⟩, hcontrol⟩ := h
  exact ⟨⟨⟨hscalar, hne⟩, hlength.trans hmn⟩, hcontrol⟩

/-- Distinct texts are read as a set of them where they are no more than the set may hold. -/
theorem exists_sortedUniqueText {l : List Str} {max : Nat} (htext : ∀ s ∈ l, isText 512 s = true) (hnodup : l.Nodup)
    (hlength : l.length ≤ max) (field : String) :
    ∃ t : Texts max, sortedUniqueText (.arr (l.map .str)) field max = .ok t ∧ (t.1.map Subtype.val).Perm l := by
  lift l to List (Text 512) using htext with m
  have hmap : (m.map Subtype.val).map Json.str = m.map Text.json := by
    rw [List.map_map]
    rfl
  have hm : m.Nodup ∧ m.length ≤ max := ⟨hnodup.of_map _, by rwa [List.length_map] at hlength⟩
  refine ⟨⟨m.insertionSort (· ≤ ·), sorted_insertionSort hm.1, by rw [List.length_insertionSort]; exact hm.2⟩, ?_,
    (List.perm_insertionSort _ m).map _⟩
  have hnot : ¬max < (m.map Text.json).length := by
    rw [List.length_map]
    exact not_lt.mpr hm.2
  rw [hmap, sortedUniqueText, sortedSet, if_neg hnot, mapM_map fun t => parallelText_json t field]
  exact dif_pos hm

theorem length_of_sortedUniqueText {l : List Json} {max : Nat} {field : String} {t : Texts max}
    (h : sortedUniqueText (.arr l) field max = .ok t) : l.length ≤ max := by
  rw [sortedUniqueText, sortedSet] at h
  split_ifs at h with hlong
  exact not_lt.mp hlong

/-! ### Objections -/

/-- The entry that a workspace has under an identifier. -/
def State.entry? (s : State) (i : Uuid) : Option ProjectContextEntry := s.entries.reverse.find? fun y => y.entryId = i

/-- The sources of a workspace that this process can read: those with a local file and those that it has bound. -/
def State.available (s : State) (bound : List SourceId) : List SourceId :=
  (s.sources.items.filter fun p => p.2.engineBinding.isSome || p.1 ∈ bound).map Prod.fst

namespace ContextCheckpoint

/-- The sources of the state that a checkpoint is of. -/
def sources (c : ContextCheckpoint) : List Json := itemsOf (c.logicalState.get "sources")

/-- The packages that the state of a checkpoint has pinned. -/
def pins (c : ContextCheckpoint) : List Json := itemsOf (c.logicalState.get "package_pins")

end ContextCheckpoint

/-- What a receiver objects to in a handoff: it is for another workspace, its lineage is not recognized, the receiver's policy is no
    tightening of the one that it asks for, a package is not pinned as it says, or a source or an entry is another one here. -/
inductive Objection (s : State) (sender : Option State) (h : ContextHandoff) (c : ContextCheckpoint) : Prop
  | target (hne : h.targetWorkspaceId ≠ c.workspaceId)
  | lineage (hlineage : s.admitsLineage sender h = false)
  | policy {p : WorkspacePolicy} (hp : WorkspacePolicy.fromDict (c.logicalState.get "policy") = .ok p)
    (hloose : p.isTightening h.requiredPolicyFloor = false)
  | package {pin : Json} (hpin : pin ∈ h.packageRefs) (hnone : ∀ p ∈ c.pins, pyEq p pin = false)
  | source {a r : Json} (ha : a ∈ h.sourceAnchors) (hr : r ∈ c.sources) (hid : r.get "source_id" = a.get "source_id")
    (hne : pyEq (portableAnchor r) (portableAnchor a) = false)
  | entry {v : Json} {x y : ProjectContextEntry} (hv : v ∈ h.selectedEntries) (hx : ProjectContextEntry.fromDict v = .ok x)
    (hy : s.entry? x.entryId = some y) (hne : y ≠ x)

/-- A source of a handoff that its receiver lacks: it has none of that identifier, or cannot read it. -/
inductive Lacking (s : State) (bound : List SourceId) (h : ContextHandoff) (c : ContextCheckpoint) : Prop
  | missing {a : Json} (ha : a ∈ h.sourceAnchors) (hnone : ∀ r ∈ c.sources, r.get "source_id" ≠ a.get "source_id")
  | unavailable {a r : Json} (ha : a ∈ h.sourceAnchors) (hr : r ∈ c.sources) (hid : r.get "source_id" = a.get "source_id")
    (hnone : ∀ i ∈ s.available bound, i.json ≠ a.get "source_id")

/-- The decision that an admission is to make. -/
structure HandoffAdmission.Decides (x : HandoffAdmission) (objection lacking : Prop) : Prop where
  rejected : x.decision = .rejected ↔ objection
  degraded : x.decision = .degraded ↔ ¬objection ∧ lacking
  admitted : x.decision = .admitted ↔ ¬objection ∧ ¬lacking

/-! ### Conflicts -/

theorem Uuid.isText (u : Uuid) {max : Nat} (h : 36 ≤ max) : isText max u.1 = true := by
  obtain ⟨hlength, hbare⟩ := u.isBare
  have href : isRef max u.1 = true := by
    refine isRef_of_ascii (fun c hc => ?_) (List.ne_nil_of_length_pos (by omega)) (by omega)
    obtain ⟨h32, h127, -⟩ := hbare c hc
    omega
  exact (Bool.and_eq_true_iff.mp href).1

/-- An entry of a handoff that the receiver has with another content. -/
def State.Conflicting (s : State) (v : Json) : Prop :=
  ∃ x y, ProjectContextEntry.fromDict v = .ok x ∧ s.entry? x.entryId = some y ∧ y ≠ x

theorem exists_entryEvidence (r : WorkspaceStateRef) (x : ProjectContextEntry) : ∃ e, entryEvidence r x = .ok e := by
  have hids : maxSourceIds ≤ 128 ∧ maxEntryRefs ≤ 512 ∧ 128 ≤ 512 := by decide
  have hsources : ∀ i ∈ x.sourceIds.1.map Subtype.val, isText 512 i = true := by
    intro i hi
    obtain ⟨t, -, rfl⟩ := List.mem_map.mp hi
    exact isText_mono hids.2.2 t.2
  have hrefs : ∀ l : Refs maxEntryRefs, ∀ i ∈ l.1.map Subtype.val, isText 512 i = true := by
    intro l i hi
    obtain ⟨t, -, rfl⟩ := List.mem_map.mp hi
    exact (Bool.and_eq_true_iff.mp t.2).1
  have hnodup : ∀ {p : Str → Bool} {max : Nat} (l : SortedSet {s : Str // p s = true} max), (l.1.map Subtype.val).Nodup :=
    fun l => List.Nodup.map Subtype.val_injective (l.2.1.imp fun hlt => ne_of_lt hlt)
  have hlength : ∀ {p : Str → Bool} {max n : Nat} (l : SortedSet {s : Str // p s = true} max), max ≤ n →
      (l.1.map Subtype.val).length ≤ n := fun l hmax => (List.length_map _).trans_le (l.2.2.trans hmax)
  obtain ⟨a, ha, -⟩ := exists_sortedUniqueText hsources (hnodup x.sourceIds) (hlength x.sourceIds hids.1) "source_ids"
  obtain ⟨b, hb, -⟩ := exists_sortedUniqueText (hrefs x.receiptRefs) (hnodup x.receiptRefs) (hlength x.receiptRefs hids.2.1) "receipt_refs"
  obtain ⟨c, hc, -⟩ := exists_sortedUniqueText (hrefs x.recoveryRefs) (hnodup x.recoveryRefs) (hlength x.recoveryRefs hids.2.1)
    "recovery_refs"
  rw [List.map_map] at ha hb hc
  exact ⟨_, bind_eq_ok.mpr ⟨a, ha, bind_eq_ok.mpr ⟨b, hb, bind_eq_ok.mpr ⟨c, hc, rfl⟩⟩⟩⟩

theorem ProjectContextEntry.canonical_inj {x y : ProjectContextEntry} {b : Bytes} (hx : canonical x.toDict = .ok b)
    (hy : canonical y.toDict = .ok b) : x = y := by
  refine ProjectContextEntry.eq_of_pyEq (pyEq_iff.mpr (congrArg loose ?_))
  rw [ProjectContextEntry.toDict] at hx hy ⊢
  exact canonicalBytes?_inj (canonical_eq_ok.mp hx) (canonical_eq_ok.mp hy)

/-- The conflicts of a handoff are found, one for each of its entries that the receiver has with another content. -/
theorem State.exists_handoffConflicts (s : State) (receiver : WorkspaceStateRef) (h : ContextHandoff) :
    ∃ l, s.handoffConflicts receiver h = .ok l ∧ l.length ≤ maxHandoffEntries ∧ (∀ e ∈ l, e.toDict.Writable) ∧
      (l = [] ↔ ∀ v ∈ h.selectedEntries, ¬s.Conflicting v) := by
  have hvalid := h.valid
  simp only [HandoffFields.check, bind_eq_ok, ensure_eq_ok, exists_const] at hvalid
  obtain ⟨⟨-, hcount⟩, -, -, entries, hentries, -⟩ := hvalid
  obtain ⟨found, hfound, hlength, hwritable, hnil⟩ : ∃ found, s.handoffConflicts receiver h = .ok ([] ++ found) ∧
      found.length ≤ h.selectedEntries.length ∧ (∀ e ∈ found, e.toDict.Writable) ∧
      (found = [] ↔ ∀ v ∈ h.selectedEntries, ¬s.Conflicting v) := by
    refine foldlM_collect (P := fun e : ConflictEntry => e.toDict.Writable) (fun acc v hv => ?_) []
    obtain ⟨x, hx⟩ := exists_of_mapM hentries v hv
    obtain ⟨right, hright⟩ := canonical_of_writable x.writable_toDict
    rw [hx, ok_bind]
    cases hy : s.entries.reverse.find? fun y => y.entryId = x.entryId with
    | none =>
      refine ⟨[], by rw [List.append_nil]; rfl, Nat.zero_le _, List.forall_mem_nil _, iff_of_true rfl ?_⟩
      rintro ⟨x', y, hx', hy', -⟩
      obtain rfl := Except.ok.inj (hx.symm.trans hx')
      rw [State.entry?, hy] at hy'
      cases hy'
    | some y =>
      obtain ⟨left, hleft⟩ := canonical_of_writable y.writable_toDict
      obtain ⟨mine, hmine⟩ := exists_entryEvidence receiver y
      obtain ⟨theirs, htheirs⟩ := exists_entryEvidence h.source x
      simp only [hleft, hright, hmine, htheirs, ok_bind]
      by_cases hsame : left = right
      · rw [if_pos hsame]
        subst hsame
        refine ⟨[], by rw [List.append_nil]; rfl, Nat.zero_le _, List.forall_mem_nil _, iff_of_true rfl ?_⟩
        rintro ⟨x', y', hx', hy', hne⟩
        obtain rfl := Except.ok.inj (hx.symm.trans hx')
        obtain rfl := Option.some.inj (hy.symm.trans hy')
        exact hne (ProjectContextEntry.canonical_inj hleft hright)
      · have hkey : parallelText x.entryId.json "stable_key" 512 = .ok ⟨x.entryId.1, x.entryId.isText (by decide)⟩ :=
          parallelText_json ⟨x.entryId.1, x.entryId.isText (by decide)⟩ _
        obtain ⟨e, he⟩ := ConflictEntry.exists_create (if x.category = .decisions then .decision else .projectContext)
          ⟨x.entryId.1, x.entryId.isText (by decide)⟩ writable_null y.writable_toDict x.writable_toDict [mine, theirs]
        obtain ⟨-, -, hbase, hl, hr, -⟩ := ConflictEntry.of_create he
        rw [if_neg hsame, hkey, ok_bind, he, ok_bind]
        refine ⟨[e], rfl, le_refl _, ?_, iff_of_false (List.cons_ne_nil _ _) (not_not_intro ⟨x, y, hx, hy, ?_⟩)⟩
        · intro e' he'
          obtain rfl := List.mem_singleton.mp he'
          exact ConflictEntry.writable_toDict (hbase ▸ writable_null) (hl ▸ y.writable_toDict) (hr ▸ x.writable_toDict)
        · rintro rfl
          exact hsame (Except.ok.inj (hleft.symm.trans hright))
  rw [List.nil_append] at hfound
  exact ⟨found, hfound, hlength.trans hcount, hwritable, hnil⟩

/-! ### Records of a checkpoint -/

/-- What is read of values that equal records is read of the records. -/
theorem map_eq_of_pyEq {α β : Type} {g : α → Json} {F : Json → β} {G : α → β} {m : List α} {raw : List Json}
    (hF : ∀ a v, pyEq (g a) v = true → F v = G a) (h : pyEq (.arr (m.map g)) (.arr raw) = true) : raw.map F = m.map G := by
  rw [pyEq_arr, List.forall₂_map_left_iff] at h
  induction h with
  | nil => rfl
  | cons hav _ ih => rw [List.map_cons, List.map_cons, hF _ _ hav, ih]

theorem ContextCheckpoint.nodup_sources (c : ContextCheckpoint) : (c.sources.map fun r => [r.get "source_id"]).Nodup := by
  obtain ⟨l, hl⟩ := c.reads
  obtain ⟨anchors, hanchors, hnodup, -⟩ := (logicalStateComponents_eq_ok hl).sources
  obtain ⟨raw, hraw⟩ := exists_arr_of_pyEq (pyEq_symm hanchors)
  rw [hraw] at hanchors
  rw [sources, hraw, itemsOf, map_eq_of_pyEq (G := fun a : SourceAnchor => [a.sourceId.json]) (fun a v hav => ?_) hanchors]
  · have hinj : Function.Injective fun i : SourceId => [i.json] :=
      fun i j hij => Subtype.ext (Json.str.inj (List.head_eq_of_cons_eq hij))
    have hids := List.Nodup.map hinj hnodup
    rwa [List.map_map] at hids
  · have hid := pyEq_symm (pyEq_get hav "source_id")
    simp only [SourceAnchor.toDict, get_mkObj, List.find?, String.reduceEq, decide_false, decide_true, Option.map_some,
      Option.getD_some] at hid
    rw [eq_of_pyEq_str hid]
    rfl

/-- The pins of a checkpoint have distinct names and versions, which are texts. -/
theorem ContextCheckpoint.exists_pins (c : ContextCheckpoint) : ∃ pins : List PackagePin,
    c.pins.map (fun p => [p.get "name", p.get "version"]) = pins.map (fun x => [x.name.json, x.version.json]) ∧
      (pins.map PackagePin.key).Nodup := by
  obtain ⟨l, hl⟩ := c.reads
  simp only [logicalStateComponents, bind_eq_ok, ensure_eq_ok, exists_const] at hl
  obtain ⟨_, -, -, -, hl⟩ := hl
  split at hl
  · next rawSources rawEntries rawPins hsources hentries hpins =>
    simp only [bind_eq_ok, ensure_eq_ok, exists_const] at hl
    obtain ⟨-, _, -, -, _, -, _, -, _, -, pins, -, -, -, heq, -, -, -, -, hsorted, -⟩ := hl
    refine ⟨pins, ?_, hsorted.imp fun hlt => ne_of_lt hlt⟩
    rw [ContextCheckpoint.pins, hpins, itemsOf]
    refine map_eq_of_pyEq (fun x v hav => ?_) heq
    have hname := pyEq_symm (pyEq_get hav "name")
    have hversion := pyEq_symm (pyEq_get hav "version")
    simp only [PackagePin.toDict, get_mkObj, List.find?, String.reduceEq, decide_false, decide_true, Option.map_some,
      Option.getD_some] at hname hversion
    rw [eq_of_pyEq_str hname, eq_of_pyEq_str hversion]
    rfl
  · cases hl

section
variable {l : List Json} {keys : List (String × Json)}

theorem lastWith_isNone : (lastWith l keys).isNone = true ↔ ∀ v ∈ l, ¬∀ k ∈ keys, v.get k.1 = k.2 := by
  rw [lastWith, Option.isNone_iff_eq_none, List.find?_eq_none]
  simp only [List.mem_reverse, List.all_eq_true, decide_eq_true_eq]

/-- Where the values under some keys tell the items apart, the last item with some values is the only one. -/
theorem lastWith_any {P : Json → Bool} (hdistinct : (l.map fun v => keys.map fun k => v.get k.1).Nodup) :
    (lastWith l keys).any P = true ↔ ∃ v ∈ l, (∀ k ∈ keys, v.get k.1 = k.2) ∧ P v = true := by
  have hfound : ∀ v, lastWith l keys = some v → v ∈ l ∧ ∀ k ∈ keys, v.get k.1 = k.2 := by
    intro v hv
    have hkeys := List.find?_some hv
    simp only [List.all_eq_true, decide_eq_true_eq] at hkeys
    exact ⟨List.mem_reverse.mp (List.mem_of_find?_eq_some hv), hkeys⟩
  rw [Option.any_eq_true]
  constructor
  · rintro ⟨v, hv, hP⟩
    exact ⟨v, (hfound v hv).1, (hfound v hv).2, hP⟩
  · rintro ⟨v, hv, hkeys, hP⟩
    cases hlast : lastWith l keys with
    | none => exact absurd hkeys (lastWith_isNone.mp (Option.isNone_iff_eq_none.mpr hlast) v hv)
    | some w =>
      obtain ⟨hw, hkeys'⟩ := hfound w hlast
      have hsame : (keys.map fun k => v.get k.1) = keys.map fun k => w.get k.1 :=
        List.map_congr_left fun k hk => (hkeys k hk).trans (hkeys' k hk).symm
      obtain rfl := List.inj_on_of_nodup_map hdistinct hv hw hsame
      exact ⟨v, rfl, hP⟩

end

/-! ### Findings -/

namespace HandoffAdmission

/-- The findings say what is the case. -/
structure Findings.Exact (x : Findings) (h : ContextHandoff) (c : ContextCheckpoint) (available : List Str) : Prop where
  target : x.target = true ↔ h.targetWorkspaceId = c.workspaceId
  policy : x.policy = false ↔ ∃ p, WorkspacePolicy.fromDict (c.logicalState.get "policy") = .ok p ∧
    p.isTightening h.requiredPolicyFloor = false
  package : x.package = false ↔ ∃ pin ∈ h.packageRefs, ∀ p ∈ c.pins, pyEq p pin = false
  missing : x.sourceMissing = true ↔ ∃ a ∈ h.sourceAnchors, ∀ r ∈ c.sources, r.get "source_id" ≠ a.get "source_id"
  mismatch : x.sourceMismatch = true ↔ ∃ a ∈ h.sourceAnchors, ∃ r ∈ c.sources, r.get "source_id" = a.get "source_id" ∧
    pyEq (portableAnchor r) (portableAnchor a) = false
  unavailable : x.sourceUnavailable = true ↔ ∃ a ∈ h.sourceAnchors, (∃ r ∈ c.sources, r.get "source_id" = a.get "source_id") ∧
    ∀ i ∈ available, .str i ≠ a.get "source_id"

/-- A pin is found under its name and version exactly where some pin equals it. -/
theorem pinned_iff (c : ContextCheckpoint) (pin : Json) :
    ((lastWith c.pins [("name", pin.get "name"), ("version", pin.get "version")]).any fun p => pyEq p pin) = true ↔
      ∃ p ∈ c.pins, pyEq p pin = true := by
  obtain ⟨pins, hkeys, hnodup⟩ := c.exists_pins
  have hdistinct : (c.pins.map fun p => [("name", pin.get "name"), ("version", pin.get "version")].map fun k => p.get k.1).Nodup := by
    have hinj : Function.Injective fun k : PinKey => [(ofLex k).1.json, (ofLex k).2.json] := by
      intro k k' hk
      simp only [List.cons.injEq, and_true] at hk
      exact congrArg toLex (Prod.ext (Subtype.ext (Json.str.inj hk.1)) (Subtype.ext (Json.str.inj hk.2)))
    have hids := List.Nodup.map hinj hnodup
    rw [List.map_map] at hids
    exact hkeys ▸ hids
  rw [lastWith_any hdistinct]
  constructor
  · rintro ⟨p, hp, -, heq⟩
    exact ⟨p, hp, heq⟩
  · rintro ⟨p, hp, heq⟩
    refine ⟨p, hp, ?_, heq⟩
    obtain ⟨x, -, hx⟩ := List.mem_map.mp (hkeys ▸ List.mem_map_of_mem (f := fun p : Json => [p.get "name", p.get "version"]) hp)
    simp only [List.cons.injEq, and_true] at hx
    have hname := pyEq_symm (pyEq_get heq "name")
    have hversion := pyEq_symm (pyEq_get heq "version")
    rw [← hx.1] at hname
    rw [← hx.2] at hversion
    simp only [List.mem_cons, List.not_mem_nil, or_false, forall_eq_or_imp, forall_eq]
    exact ⟨hx.1.symm.trans (eq_of_pyEq_str hname).symm, hx.2.symm.trans (eq_of_pyEq_str hversion).symm⟩

/-- The findings are made where the sources at hand can be listed. -/
theorem exists_findings (h : ContextHandoff) (c : ContextCheckpoint) {available : List Str}
    (htext : ∀ i ∈ available, isText 512 i = true) (hnodup : available.Nodup) (hlength : available.length ≤ maxHandoffAnchors) :
    ∃ x, findings h c available = .ok x ∧ x.Exact h c available := by
  obtain ⟨l, hl⟩ := c.reads
  have hpolicy := (logicalStateComponents_eq_ok hl).policy
  obtain ⟨t, ht, hperm⟩ := exists_sortedUniqueText htext hnodup hlength "available_source_ids"
  have hlisted : ∀ v : Json, v ∉ t.1.map Text.json ↔ ∀ i ∈ available, .str i ≠ v := by
    intro v
    rw [List.mem_map, not_exists]
    constructor
    · rintro hnot i hi rfl
      obtain ⟨u, hu, rfl⟩ := List.mem_map.mp (hperm.mem_iff.mpr hi)
      exact hnot u ⟨hu, rfl⟩
    · rintro hne u ⟨hu, rfl⟩
      exact hne u.1 (hperm.mem_iff.mp (List.mem_map_of_mem hu)) rfl
  have hmatch : ∀ a r : Json, (∀ k ∈ [("source_id", a.get "source_id")], r.get k.1 = k.2) ↔ r.get "source_id" = a.get "source_id" := by
    intro a r
    simp only [List.mem_singleton, forall_eq]
  have hfound : ∀ (a : Json) (P : Json → Bool), (lastWith c.sources [("source_id", a.get "source_id")]).any P = true ↔
      ∃ r ∈ c.sources, (∀ k ∈ [("source_id", a.get "source_id")], r.get k.1 = k.2) ∧ P r = true :=
    fun a P => lastWith_any c.nodup_sources
  rw [findings, hpolicy, ok_bind, ht, ok_bind]
  refine ⟨_, rfl, ?_, ?_, ?_, ?_, ?_, ?_⟩
  · rw [decide_eq_true_iff]
  · rw [hpolicy]
    refine ⟨fun hloose => ⟨l.policy, rfl, hloose⟩, ?_⟩
    rintro ⟨p, hp, hloose⟩
    exact Except.ok.inj hp ▸ hloose
  · rw [List.all_eq_false]
    refine exists_congr fun pin => and_congr_right fun _ => ?_
    rw [← ContextCheckpoint.pins, pinned_iff, not_exists]
    exact forall_congr' fun p => by rw [not_and, Bool.not_eq_true]
  · rw [List.any_eq_true]
    refine exists_congr fun a => and_congr_right fun _ => ?_
    rw [lastWith_isNone]
    exact forall₂_congr fun r _ => not_congr (hmatch a r)
  · rw [List.any_eq_true]
    refine exists_congr fun a => and_congr_right fun _ => ?_
    exact (hfound a _).trans (exists_congr fun r => and_congr_right fun _ => and_congr (hmatch a r) (by rw [Bool.not_eq_true']))
  · rw [List.any_eq_true]
    refine exists_congr fun a => and_congr_right fun _ => ?_
    rw [Bool.and_eq_true, decide_eq_true_iff, hlisted, ← Option.not_isNone, Bool.not_eq_true', ← Bool.not_eq_true, lastWith_isNone]
    refine and_congr_left fun _ => ?_
    simp only [not_forall, not_not, exists_prop, hmatch]
    exact Iff.rfl

/-! ### Decisions -/

variable (x : Findings) (lineageOk : Bool) (conflicts : ConflictReport)

/-- Every reason that an admission may give. -/
def allReasons : List String :=
  ["WRONG_TARGET", "LINEAGE_UNVERIFIED", "POLICY_DOWNGRADE", "PACKAGE_TRUST_MISMATCH", "SOURCE_MISMATCH", "SOURCE_UNAVAILABLE",
    "CONFLICTS_PRESENT"]

theorem reasons_sublist : (reasons x lineageOk conflicts).Sublist allReasons := by
  have hone : ∀ (p : Prop) [Decidable p] (r : String), (if p then [] else [r]).Sublist [r] := by
    intro p _ r
    split_ifs
    · exact List.nil_sublist _
    · exact List.Sublist.refl _
  have hsource : (if x.sourceMismatch then ["SOURCE_MISMATCH"]
      else if x.sourceMissing || x.sourceUnavailable then ["SOURCE_UNAVAILABLE"] else []).Sublist
        ["SOURCE_MISMATCH", "SOURCE_UNAVAILABLE"] := by
    split_ifs
    · exact .cons_cons _ (List.nil_sublist _)
    · exact .cons _ (.refl _)
    · exact List.nil_sublist _
  exact (((((hone _ _).append (hone _ _)).append (hone _ _)).append (hone _ _)).append hsource).append (hone _ _)

theorem exists_reasonCodes : ∃ t : Texts 16,
    sortedUniqueText (.arr ((reasons x lineageOk conflicts).map fun r => .str (Str.lit r))) "reason_codes" 16 = .ok t ∧
      (t.1.map Subtype.val).Perm ((reasons x lineageOk conflicts).map Str.lit) := by
  have hsub := (reasons_sublist x lineageOk conflicts).map Str.lit
  have htext : ∀ s ∈ allReasons.map Str.lit, isText 512 s = true := by decide
  have hnodup : (allReasons.map Str.lit).Nodup := List.Nodup.map Str.lit_injective (by decide)
  obtain ⟨t, ht, hperm⟩ := exists_sortedUniqueText (fun s hs => htext s (hsub.subset hs)) (hnodup.sublist hsub)
    (hsub.length_le.trans (show 7 ≤ 16 by decide)) "reason_codes"
  rw [List.map_map] at ht
  exact ⟨t, ht, hperm⟩

/-- Of what is found, the decision and the reasons are those that the constructor asks for. -/
theorem check_decision {y : AdmissionFields} (htarget : y.targetResult = if x.target then .matching else .mismatch)
    (hlineage : y.lineageResult = if lineageOk then .verified else .unverified)
    (hpolicy : y.policyResult = if x.policy then .monotonic else .downgrade)
    (hpackage : y.packageResult = if x.package then .exact else .mismatch)
    (hsource : y.sourceResult = if x.source then .available else if x.sourceMismatch then .mismatch else .unavailable)
    (hconflicts : y.conflicts = conflicts) (hdecision : y.decision = decisionOf x lineageOk conflicts)
    (hreasons : (y.reasonCodes.1.map Subtype.val).Perm ((reasons x lineageOk conflicts).map Str.lit)) :
    ¬(y.decision = .admitted ∧ (y.hardFailure = true ∨ y.sourceResult ≠ .available ∨ y.reasonCodes.1 ≠ [])) ∧
    ¬(y.decision = .degraded ∧ (y.hardFailure = true ∨ y.sourceResult ≠ .unavailable ∨
      y.reasonCodes.1.map Subtype.val ≠ [Str.lit "SOURCE_UNAVAILABLE"])) ∧
    ¬(y.decision = .rejected ∧ y.hardFailure = false) := by
  have htarget' : decide (y.targetResult ≠ .matching) = !x.target := by
    rw [htarget]
    cases x.target <;> rfl
  have hlineage' : decide (y.lineageResult ≠ .verified) = !lineageOk := by
    rw [hlineage]
    cases lineageOk <;> rfl
  have hpolicy' : decide (y.policyResult ≠ .monotonic) = !x.policy := by
    rw [hpolicy]
    cases x.policy <;> rfl
  have hpackage' : decide (y.packageResult ≠ .exact) = !x.package := by
    rw [hpackage]
    cases x.package <;> rfl
  have hsource' : decide (y.sourceResult = .mismatch) = x.sourceMismatch := by
    rw [hsource, Findings.source]
    cases x.sourceMissing <;> cases x.sourceMismatch <;> cases x.sourceUnavailable <;> rfl
  have hhard : y.hardFailure = (!x.target || !lineageOk || !x.policy || !x.package || x.sourceMismatch || conflicts.entries ≠ []) := by
    rw [AdmissionFields.hardFailure, htarget', hlineage', hpolicy', hpackage', hsource', hconflicts]
  rw [decisionOf, ← hhard] at hdecision
  cases hfailure : y.hardFailure with
  | true =>
    rw [hfailure, if_pos rfl] at hdecision
    exact ⟨fun h => Decision.noConfusion (hdecision.symm.trans h.1), fun h => Decision.noConfusion (hdecision.symm.trans h.1),
      fun h => Bool.noConfusion h.2⟩
  | false =>
    rw [hfailure, if_neg Bool.false_ne_true] at hdecision
    rw [hfailure] at hhard
    simp only [Bool.or_eq_false_iff, Bool.not_eq_false', decide_eq_false_iff_not, not_not, eq_comm (a := false)] at hhard
    obtain ⟨⟨⟨⟨⟨ht, hl⟩, hp⟩, hk⟩, hm⟩, hnone⟩ := hhard
    simp only [reasons, ht, hl, hp, hk, hm, hnone, if_true, List.nil_append, List.append_nil] at hreasons
    cases hs : x.source with
    | true =>
      rw [hs, if_pos rfl] at hdecision hsource
      simp only [Findings.source, Bool.and_eq_true, Bool.not_eq_true'] at hs
      simp only [hs.1.1, hs.2, Bool.or_self] at hreasons
      refine ⟨?_, fun h => Decision.noConfusion (hdecision.symm.trans h.1), fun h => Decision.noConfusion (hdecision.symm.trans h.1)⟩
      rintro ⟨-, hbad | hbad | hbad⟩
      · cases hbad
      · exact hbad hsource
      · exact hbad (List.map_eq_nil_iff.mp hreasons.eq_nil)
    | false =>
      rw [hs, if_neg Bool.false_ne_true] at hdecision hsource
      rw [hm, if_neg Bool.false_ne_true] at hsource
      have hlacks : (x.sourceMissing || x.sourceUnavailable) = true := by
        rw [Findings.source, hm] at hs
        revert hs
        cases x.sourceMissing <;> cases x.sourceUnavailable <;> decide
      simp only [hlacks, if_true] at hreasons
      refine ⟨fun h => Decision.noConfusion (hdecision.symm.trans h.1), ?_, fun h => Decision.noConfusion (hdecision.symm.trans h.1)⟩
      rintro ⟨-, hbad | hbad | hbad⟩
      · cases hbad
      · exact hbad hsource
      · exact hbad (List.perm_singleton.mp hreasons)

/-- An admission is made of what is found and of conflicts that can be written. -/
theorem exists_evaluate {x : Findings} {h : ContextHandoff} {c : ContextCheckpoint} {available : List Str}
    (hx : findings h c available = .ok x) (hentries : ∀ e ∈ conflicts.entries, e.toDict.Writable) :
    ∃ y, evaluate h c lineageOk conflicts available = .ok y ∧ y.decision = decisionOf x lineageOk conflicts := by
  obtain ⟨t, ht, hperm⟩ := exists_reasonCodes x lineageOk conflicts
  have hpayload : ∀ (target : TargetResult) (lineage : LineageResult) (policy : PolicyResult) (package : PackageResult)
      (source : SourceResult), (mkObj [("schema_version", .str AdmissionFields.schema), ("handoff_id", h.handoffId.json),
        ("handoff_digest", h.handoffDigest.json), ("receiver_workspace_id", c.workspaceId.json), ("target_result", .str target.name),
        ("lineage_result", .str lineage.name), ("policy_result", .str policy.name), ("package_result", .str package.name),
        ("source_result", .str source.name), ("conflicts", conflicts.toDict),
        ("decision", .str (decisionOf x lineageOk conflicts).name), ("reason_codes", t.json)]).Writable := by
    intro target lineage policy package source
    refine writable_mkObj ?_
    simp only [List.mem_cons, List.not_mem_nil, or_false, forall_eq_or_imp, forall_eq]
    exact ⟨writable_lit _, writable_uuid _, writable_digest _, writable_uuid _, writable_lit _, writable_lit _, writable_lit _,
      writable_lit _, writable_lit _, ConflictReport.writable_toDict hentries, writable_lit _, writable_map writable_text _⟩
  obtain ⟨d, hd⟩ := domainDigest_of_writable "leanctx.handoff-admission.v1" (hpayload (if x.target then .matching else .mismatch)
    (if lineageOk then .verified else .unverified) (if x.policy then .monotonic else .downgrade)
    (if x.package then .exact else .mismatch) (if x.source then .available else if x.sourceMismatch then .mismatch else .unavailable))
  rw [← parallelDigest_eq_ok] at hd
  let y : AdmissionFields := ⟨h.handoffId, h.handoffDigest, c.workspaceId, if x.target then .matching else .mismatch,
    if lineageOk then .verified else .unverified, if x.policy then .monotonic else .downgrade,
    if x.package then .exact else .mismatch, if x.source then .available else if x.sourceMismatch then .mismatch else .unavailable,
    conflicts, decisionOf x lineageOk conflicts, t, d⟩
  obtain ⟨hadmitted, hdegraded, hrejected⟩ := check_decision (y := y) x lineageOk conflicts rfl rfl rfl rfl rfl rfl rfl hperm
  have hcheck : y.check = .ok () := by
    simp only [AdmissionFields.check, bind_eq_ok, ensure_eq_ok, exists_const]
    exact ⟨hadmitted, hdegraded, hrejected, d, hd, rfl⟩
  refine ⟨⟨y, hcheck⟩, ?_, rfl⟩
  rw [evaluate, hx, ok_bind, ht, ok_bind]
  exact bind_eq_ok.mpr ⟨d, hd, make_eq_ok.mpr rfl⟩

end HandoffAdmission

section
variable {s : State} {sender : Option State} {bound : List SourceId} {h : ContextHandoff} {c : ContextCheckpoint}

/-- The receiver objects where it rejects by what it has found. -/
theorem objection_iff {x : HandoffAdmission.Findings} {available : List Str} (hx : x.Exact h c available) :
    Objection s sender h c ↔ x.target = false ∨ s.admitsLineage sender h = false ∨ x.policy = false ∨ x.package = false ∨
      x.sourceMismatch = true ∨ ∃ v ∈ h.selectedEntries, s.Conflicting v := by
  rw [← Bool.not_eq_true, hx.target, hx.policy, hx.package, hx.mismatch]
  constructor
  · rintro (hne | hlineage | ⟨hp, hloose⟩ | ⟨hpin, hnone⟩ | ⟨ha, hr, hid, hne⟩ | ⟨hv, hv', hy, hne⟩)
    · exact .inl hne
    · exact .inr (.inl hlineage)
    · exact .inr (.inr (.inl ⟨_, hp, hloose⟩))
    · exact .inr (.inr (.inr (.inl ⟨_, hpin, hnone⟩)))
    · exact .inr (.inr (.inr (.inr (.inl ⟨_, ha, _, hr, hid, hne⟩))))
    · exact .inr (.inr (.inr (.inr (.inr ⟨_, hv, _, _, hv', hy, hne⟩))))
  · rintro (hne | hlineage | ⟨p, hp, hloose⟩ | ⟨pin, hpin, hnone⟩ | ⟨a, ha, r, hr, hid, hne⟩ | ⟨v, hv, x, y, hv', hy, hne⟩)
    · exact .target hne
    · exact .lineage hlineage
    · exact .policy hp hloose
    · exact .package hpin hnone
    · exact .source ha hr hid hne
    · exact .entry hv hv' hy hne

theorem lacking_iff {x : HandoffAdmission.Findings} {available : List Str} (hx : x.Exact h c available)
    (hperm : available.Perm ((s.available bound).map Subtype.val)) :
    Lacking s bound h c ↔ x.sourceMissing = true ∨ x.sourceUnavailable = true := by
  rw [hx.missing, hx.unavailable]
  constructor
  · rintro (⟨ha, hnone⟩ | ⟨ha, hr, hid, hnone⟩)
    · exact .inl ⟨_, ha, hnone⟩
    · refine .inr ⟨_, ha, ⟨_, hr, hid⟩, fun i hi => ?_⟩
      obtain ⟨j, hj, rfl⟩ := List.mem_map.mp (hperm.mem_iff.mp hi)
      exact hnone j hj
  · rintro (⟨a, ha, hnone⟩ | ⟨a, ha, ⟨r, hr, hid⟩, hnone⟩)
    · exact .missing ha hnone
    · exact .unavailable ha hr hid fun i hi => hnone i.1 (hperm.mem_iff.mpr (List.mem_map_of_mem hi))

/-- What is decided of the findings is what the objections and the sources that are lacking ask for. -/
theorem decides_of_findings {x : HandoffAdmission.Findings} {available : List Str} {conflicts : ConflictReport} {y : HandoffAdmission}
    (hx : x.Exact h c available) (hperm : available.Perm ((s.available bound).map Subtype.val))
    (hconflicts : conflicts.entries = [] ↔ ∀ v ∈ h.selectedEntries, ¬s.Conflicting v)
    (hy : y.decision = HandoffAdmission.decisionOf x (s.admitsLineage sender h) conflicts) :
    y.Decides (Objection s sender h c) (Lacking s bound h c) := by
  have hobjection : Objection s sender h c ↔ (!x.target || !s.admitsLineage sender h || !x.policy || !x.package || x.sourceMismatch ||
      conflicts.entries ≠ []) = true := by
    have hsome : (∃ v ∈ h.selectedEntries, s.Conflicting v) ↔ conflicts.entries ≠ [] := by
      rw [Ne, hconflicts]
      simp only [not_forall, not_not, exists_prop]
    simp only [objection_iff hx, hsome, Bool.or_eq_true, Bool.not_eq_true', decide_eq_true_eq, or_assoc]
  rw [HandoffAdmission.decisionOf] at hy
  by_cases hreject : Objection s sender h c
  · rw [if_pos (hobjection.mp hreject)] at hy
    exact ⟨iff_of_true hy hreject, iff_of_false (by rw [hy]; decide) fun hd => hd.1 hreject,
      iff_of_false (by rw [hy]; decide) fun hd => hd.1 hreject⟩
  · rw [if_neg fun hbad => hreject (hobjection.mpr hbad)] at hy
    have hsource : x.source = true ↔ ¬Lacking s bound h c := by
      have hsame : x.sourceMismatch = false := by
        rw [← Bool.not_eq_true]
        exact fun hmismatch => hreject ((objection_iff hx).mpr (.inr (.inr (.inr (.inr (.inl hmismatch))))))
      rw [lacking_iff hx hperm, HandoffAdmission.Findings.source, hsame, not_or]
      simp only [Bool.and_eq_true, Bool.not_eq_true', Bool.not_eq_true, and_true]
    by_cases hlacking : Lacking s bound h c
    · rw [if_neg fun hs => hsource.mp hs hlacking] at hy
      exact ⟨iff_of_false (by rw [hy]; decide) hreject, iff_of_true hy ⟨hreject, hlacking⟩,
        iff_of_false (by rw [hy]; decide) fun hd => hd.2 hlacking⟩
    · rw [if_pos (hsource.mpr hlacking)] at hy
      exact ⟨iff_of_false (by rw [hy]; decide) hreject, iff_of_false (by rw [hy]; decide) fun hd => hlacking hd.2,
        iff_of_true hy ⟨hreject, hlacking⟩⟩

theorem State.available_eq (s : State) (bound : List SourceId) :
    ((s.sources.items.filter fun p => p.2.engineBinding.isSome || p.1 ∈ bound).map fun p => p.1.1) =
      (s.available bound).map Subtype.val := by
  rw [available, List.map_map]
  rfl

/-- An admission lists the sources at hand, so that they are no more than it can list. -/
theorem State.length_available {x : HandoffAdmission} (hx : s.admitHandoff sender bound h c = .ok x) :
    (s.available bound).length ≤ maxHandoffAnchors := by
  simp only [admitHandoff, HandoffAdmission.evaluate, HandoffAdmission.findings, bind_eq_ok] at hx
  obtain ⟨_, -, _, -, _, -, _, -, _, ⟨_, -, _, hlist, -⟩, -⟩ := hx
  have hlength := length_of_sortedUniqueText hlist
  rwa [List.length_map, available_eq, (List.perm_insertionSort (· ≤ ·) _).length_eq, List.length_map] at hlength

/-- A handoff is admitted or rejected as its objections and the sources that are lacking ask for, exactly where an admission can list
    the sources at hand. -/
theorem State.admitHandoff_decides (hs : Machine.Reaches Accepts (fun _ _ => True) s) (hc : s.checkStored c = .ok ()) :
    (∃ x, s.admitHandoff sender bound h c = .ok x ∧ x.Decides (Objection s sender h c) (Lacking s bound h c)) ↔
      (s.available bound).length ≤ maxHandoffAnchors := by
  have hperm := List.perm_insertionSort (· ≤ ·) ((s.available bound).map Subtype.val)
  constructor
  · rintro ⟨x, hx, -⟩
    exact length_available hx
  · intro hlength
    obtain ⟨stored, hstored, hws, -, -⟩ := stored_of_checkStored hc
    have hrooted := rooted_of_reaches hs
    have hlineage : ∀ l ∈ s.forkLineage, l.childWorkspaceId = c.workspaceId := fun l hl =>
      (hrooted.lineage l hl).1.trans ((hrooted.checkpoints _ _ hstored).1.symm.trans hws)
    have href : WorkspaceStateRef.fromCheckpoint c s.forkLineage =
        .ok ⟨c.workspaceId, c.checkpointId, c.stateDigest, c.envelopeDigest, s.forkLineage, hlineage⟩ := dif_pos hlineage
    obtain ⟨conflicts, hconflicts, hcount, hwritable, hnone⟩ := s.exists_handoffConflicts
      ⟨c.workspaceId, c.checkpointId, c.stateDigest, c.envelopeDigest, s.forkLineage, hlineage⟩ h
    obtain ⟨report, hreport⟩ := ConflictReport.exists_create none h.source
      ⟨c.workspaceId, c.checkpointId, c.stateDigest, c.envelopeDigest, s.forkLineage, hlineage⟩
      (if s.admitsLineage sender h then .exact else .unknown) (hcount.trans (by decide)) hwritable
    obtain ⟨-, -, -, -, -, hentries⟩ := ConflictReport.of_create hreport
    have hsorted : report.entries.Perm conflicts := hentries ▸ ConflictEntry.sort_perm conflicts
    have htext : ∀ i ∈ ((s.available bound).map Subtype.val).insertionSort (· ≤ ·), isText 512 i = true := by
      intro i hi
      obtain ⟨j, -, rfl⟩ := List.mem_map.mp (hperm.mem_iff.mp hi)
      exact isText_mono (show 128 ≤ 512 by decide) j.2
    have hnodup : ((s.available bound).map Subtype.val).Nodup :=
      List.Nodup.map Subtype.val_injective (s.sources.nodup.sublist ((List.filter_sublist).map Prod.fst))
    obtain ⟨x, hx, hexact⟩ := HandoffAdmission.exists_findings h c htext (hperm.nodup_iff.mpr hnodup)
      (by rwa [hperm.length_eq, List.length_map])
    obtain ⟨y, hy, hdecision⟩ := HandoffAdmission.exists_evaluate (s.admitsLineage sender h) report hx fun e he =>
      hwritable e (hsorted.mem_iff.mp he)
    refine ⟨y, ?_, decides_of_findings hexact hperm ?_ hdecision⟩
    · simp only [admitHandoff, hc, href, hconflicts, hreport, available_eq, ok_bind]
      exact hy
    · rw [← hnone]
      exact ⟨fun heq => List.nil_perm.mp (heq ▸ hsorted), fun heq => (heq ▸ hsorted).eq_nil⟩

end

/-! ### A receiver of many sources -/

/-- A file of the number `n`. -/
def numberedAnchor (n : Nat) : SourceAnchor :=
  { localAnchor with sourceId := ⟨(numberedUuid n).1, (numberedUuid n).isText (by decide)⟩ }

theorem safe_numberedAnchor (n : Nat) : Safe (numberedAnchor n).toDict := by
  have hall := safe_of_mkObj (by simp) safe_localAnchor
  refine safe_mkObj ["schema_version", "source_id", "kind", "canonical_id", "revision", "freshness", "recovery", "trust", "scope",
    "engine_binding"] rfl (all_insensitive (by decide)) ?_
  simp only [List.mem_cons, List.not_mem_nil, or_false, forall_eq_or_imp, forall_eq] at hall ⊢
  exact ⟨hall.1, safe_uuid (numberedUuid n), hall.2.2⟩

theorem writable_numberedAnchor (n : Nat) : (numberedAnchor n).toDict.Writable := by
  have hall := writable_of_mkObj (by simp) writable_localAnchor
  refine writable_mkObj ?_
  simp only [List.mem_cons, List.not_mem_nil, or_false, forall_eq_or_imp, forall_eq] at hall ⊢
  exact ⟨hall.1, writable_uuid (numberedUuid n), hall.2.2⟩

/-- A workspace that has stored a checkpoint and then attached the files of the first `k` numbers. -/
structure State.Gathered (s : State) (c : ContextCheckpoint) (k : Nat) : Prop where
  reached : Machine.Reaches Accepts (fun _ _ => True) s
  stored : s.checkpoints.get? c.checkpointId = some c
  writable : c.toDict.Writable
  policy : s.policy = openPolicy
  lifecycle : s.lifecycle = .active
  sources : s.sources.keys = (List.range k).map fun n => (numberedAnchor n).sourceId
  written : s.Written
  content : s.entries = [] ∧ s.sessions = [] ∧ s.packagePins = .empty
  events : s.events.length = 2 + k
  fresh : ∀ n, 2 + k < n → n < 10 ^ 8 → s.receipts.get? (numberedUuid n) = none

theorem State.Gathered.next {s : State} {c : ContextCheckpoint} {k : Nat} (h : s.Gathered c k) (hk : k < 900) :
    ∃ t, State.Gathered t c (k + 1) := by
  obtain ⟨hentries, hsessions, hpins⟩ := h.content
  let a := numberedAnchor k
  let e : Event := ⟨numberedUuid 0, .one, numberedUuid (k + 3), .sourceAttached, mkObj [("anchor", a.toDict)], none, c.stateDigest⟩
  have hnew : s.sources.contains a.sourceId = false := by
    rw [← Bool.not_eq_true, Dict.contains_iff_mem_keys, h.sources, List.mem_map]
    rintro ⟨n, hn, heq⟩
    rw [List.mem_range] at hn
    have hval : (numberedAnchor n).sourceId.1 = (numberedAnchor k).sourceId.1 := congrArg Subtype.val heq
    have hsame : n = k := numberedUuid_inj (by omega) (by omega) (Subtype.ext hval)
    omega
  have hnone : s.sources.get? a.sourceId = none := by
    rwa [Dict.contains, ← Bool.not_eq_true, Option.not_isSome_iff_eq_none] at hnew
  have hitems := Dict.items_set_of_get?_none a hnone
  have hsize : s.sources.size = k := by
    have hkeys := congrArg List.length h.sources
    rwa [Dict.keys, List.length_map, List.length_map, List.length_range] at hkeys
  have hroom : s.sources.size + 1 ≤ s.policy.maxSources.1 := by
    have hmax : openPolicy.maxSources.1 = 1000000000 := rfl
    rw [h.policy, hmax]
    omega
  have hbounds : ({ s with sources := s.sources.set a.sourceId a } : State).ensureBounds true = .ok () := by
    refine SampleEntries.nil.ensureBounds h.policy hentries ?_ ?_ ?_ ?_
    · show s.events.length ≤ 1000
      rw [h.events]
      omega
    · show (s.sources.set a.sourceId a).items.length ≤ 1000
      rw [hitems, List.length_append, List.length_singleton]
      show s.sources.size + 1 ≤ 1000
      omega
    · show s.sessions.length ≤ 1000
      rw [hsessions]
      exact Nat.zero_le _
    · show s.packagePins.size ≤ 128
      rw [hpins]
      exact Nat.zero_le _
  have hfresh : s.receipts.contains e.eventId = false := by
    rw [Dict.contains, h.fresh (k + 3) (by omega) (by omega)]
    rfl
  have hlocal : localAnchor.freshness.Stable ∧ localAnchor.trust.level ≠ .verified := ⟨⟨by decide, by decide⟩, by decide⟩
  obtain ⟨receipt, ht⟩ := applyEvent_source (e := e) ⟨rfl, rfl, h.lifecycle, h.written, hlocal.1, hlocal.2, safe_numberedAnchor k,
    writable_numberedAnchor k, hnew, hroom, Or.inl rfl, hbounds, hfresh⟩ true
  refine ⟨_, .next h.reached trivial ⟨true, ht⟩, h.stored, h.writable, h.policy, h.lifecycle, ?_, ⟨h.written.policy, fun b hb => ?_⟩, h.content, ?_,
    fun n hn hn' => ?_⟩
  · show (s.sources.set a.sourceId a).keys = _
    rw [Dict.keys, hitems, List.map_append, ← Dict.keys, h.sources, List.range_succ, List.map_append]
    rfl
  · rcases Dict.mem_values_set hb with rfl | hb
    · exact writable_numberedAnchor k
    · exact h.written.sources b hb
  · show (s.events ++ [e]).length = 2 + (k + 1)
    rw [List.length_append, h.events]
    rfl
  · show (s.receipts.set e.eventId receipt).get? (numberedUuid n) = none
    rw [Dict.get?_set_of_ne _ _ fun heq => ?_]
    · exact h.fresh n (by omega) hn'
    · have hsame := numberedUuid_inj (by omega) hn' heq
      omega

theorem exists_gathered (k : Nat) (hk : k ≤ 900) : ∃ s c, State.Gathered s c k := by
  induction k with
  | zero =>
    obtain ⟨identity, hown, hws, hname, -⟩ := WorkspaceIdentity.exists_own (numberedUuid 0) sampleName sampleTime (by decide)
    obtain ⟨e, receipt, -, hs⟩ := exists_created hown (by rw [hname]; exact safe_str (by decide)) small_openPolicy
      (by decide) (numberedUuid 1) true
    let s : State := { (State.created identity openPolicy).withEvent e with receipts := Dict.empty.set (numberedUuid 1) receipt }
    have hfresh : ∀ n, 1 < n → n < 10 ^ 8 → s.receipts.get? (numberedUuid n) = none := fun n hn hn' =>
      Dict.get?_set_of_ne _ _ fun heq => absurd (numberedUuid_inj (by decide) hn' heq) (by omega)
    have hsample : s.Sample (numberedUuid 0) [] 1 :=
      ⟨.nil, rfl, rfl, rfl, rfl, rfl, rfl, rfl, hws, rfl, fun n hn hn' => hfresh n hn (by omega), _, rfl⟩
    obtain ⟨c, -, hc⟩ := hsample.exists_checkpoint (numberedUuid 900)
    let e' : Event := ⟨numberedUuid 0, .one, numberedUuid 2, .checkpointCreated, mkObj [("checkpoint", c.toDict)], none, c.stateDigest⟩
    obtain ⟨receipt', ht⟩ := hsample.applyEvent_checkpoint (e := e') (by decide) hc rfl (show 1 ≤ 512 by decide) rfl rfl rfl true
    refine ⟨_, c, .next (.start trivial ⟨true, hs⟩) trivial ⟨true, ht⟩, Dict.get?_set_self _ _ _, hc.small.1, rfl, rfl,
      rfl, ⟨small_openPolicy, fun _ ha => absurd ha List.not_mem_nil⟩, ⟨rfl, rfl, rfl⟩, rfl, fun n hn hn' => ?_⟩
    show (s.receipts.set e'.eventId receipt').get? (numberedUuid n) = none
    rw [Dict.get?_set_of_ne _ _ fun heq => ?_]
    · exact hfresh n (by omega) hn'
    · have hsame := numberedUuid_inj (by decide) hn' heq
      omega
  | succ k ih =>
    obtain ⟨s, c, h⟩ := ih (by omega)
    obtain ⟨t, ht⟩ := h.next (by omega)
    exact ⟨t, c, ht⟩

theorem State.Gathered.checkStored {s : State} {c : ContextCheckpoint} {k : Nat} (h : s.Gathered c k) : s.checkStored c = .ok () := by
  obtain ⟨bytes, hbytes⟩ := canonical_of_writable h.writable
  rw [State.checkStored, h.stored]
  simp only [hbytes, ok_bind, ensure_of_true]

theorem ContextCheckpoint.exists_handoff (c : ContextCheckpoint) : ∃ h : ContextHandoff, h.source.checkpointId = c.checkpointId := by
  obtain ⟨h, d, hh, -⟩ := exists_handoffFields .plain ⟨c.workspaceId, c.checkpointId, c.stateDigest, c.envelopeDigest, none, by simp⟩
    c.workspaceId (numberedUuid 30)
  exact ⟨h, by rw [hh]; rfl⟩

/-- A receiver without sources makes a decision about a handoff. -/
theorem exists_admitHandoff_decides : ∃ (s : State) (h : ContextHandoff) (c : ContextCheckpoint) (x : HandoffAdmission),
    s.admitHandoff none [] h c = .ok x ∧ x.Decides (Objection s none h c) (Lacking s [] h c) := by
  obtain ⟨s, c, hs⟩ := exists_gathered 0 (by decide)
  obtain ⟨h, -⟩ := c.exists_handoff
  have hnone : s.sources.items = [] := List.map_eq_nil_iff.mp hs.sources
  obtain ⟨x, hx⟩ := (@State.admitHandoff_decides s none [] h c hs.reached hs.checkStored).mpr (by
    rw [State.available, hnone]
    exact Nat.zero_le _)
  exact ⟨s, h, c, x, hx⟩

/-- Not every handoff is decided about: a receiver that has 129 sources at hand cannot list them. -/
theorem not_admitHandoff_decides : ¬∀ {s : State} {sender : Option State} {bound : List SourceId} {h : ContextHandoff}
    {c : ContextCheckpoint}, Machine.Reaches Accepts (fun _ _ => True) s → s.checkStored c = .ok () →
      ∃ x, s.admitHandoff sender bound h c = .ok x ∧ x.Decides (Objection s sender h c) (Lacking s bound h c) := by
  intro hall
  obtain ⟨s, c, hs⟩ := exists_gathered 129 (by decide)
  obtain ⟨h, -⟩ := c.exists_handoff
  obtain ⟨x, hx, -⟩ := @hall s none s.sources.keys h c hs.reached hs.checkStored
  have hlength := State.length_available hx
  have heach : ∀ p ∈ s.sources.items, (p.2.engineBinding.isSome || p.1 ∈ s.sources.keys) = true := by
    intro p hp
    rw [Bool.or_eq_true, decide_eq_true_eq]
    exact .inr (List.mem_map_of_mem hp)
  rw [State.available, List.filter_eq_self.mpr heach, ← Dict.keys, hs.sources, List.length_map, List.length_range] at hlength
  exact absurd hlength (by decide)

end LeanCtx
