import LeanCtx.Workspace.Mirroring
import LeanCtx.Workspace.Patching

/-! What a reconciliation makes of every entry: which keys are selected, which are conflicts and which it leaves aside. -/

namespace LeanCtx
open Json

namespace NarrowReconciliation

/-- The entry of a checkpoint with a key. -/
def entryOf (c : ContextCheckpoint) (key : Str) : Option Json :=
  (ContextDelta.itemAt (itemsOf (c.logicalState.get "entries")) (ContextDelta.textKey "entry_id") key).map plain

/-- The entry of a checkpoint with a key, where the common ancestor has none or another one. -/
def changeOf (ancestor c : ContextCheckpoint) (key : Str) : Option Json :=
  (entryOf c key).filter fun v => (entryOf ancestor key).map canonicalBytes? ≠ some v.canonicalBytes?

/-- An accepted handoff does not exclude a key. -/
def Accepts (accepted : Option (List Str)) (key : Str) : Prop := ∀ ids ∈ accepted, key ∈ ids

/-- One side has changed an entry, or both in the same way, to a category of the mode. -/
def Selects (mode : ReconciliationMode) (l r : Option Json) : Prop :=
  (l ≠ none ∨ r ≠ none) ∧ (∀ v ∈ l, mode.allows v = true) ∧ (∀ w ∈ r, mode.allows w = true) ∧
    ∀ v ∈ l, ∀ w ∈ r, v.canonicalBytes? = w.canonicalBytes?

/-- Both sides have changed an entry, in different ways, to categories of the mode. -/
def Clashes (mode : ReconciliationMode) (l r : Option Json) : Prop :=
  ∃ v w, l = some v ∧ r = some w ∧ mode.allows v = true ∧ mode.allows w = true ∧ v.canonicalBytes? ≠ w.canonicalBytes?

/-! ### Entries that have changed -/

theorem isChanged_spec {base : List (Str × Json)} {key : Str} {v : Json} {kept : Bool} (h : isChanged base key v = .ok kept) :
    kept = true ↔ (entryAt base key).map canonicalBytes? ≠ some v.canonicalBytes? := by
  unfold isChanged at h
  cases hw : entryAt base key with
  | none =>
    rw [hw] at h
    cases h
    simp
  | some w =>
    rw [hw] at h
    simp only [bind_eq_ok, pure_eq_ok] at h
    obtain ⟨mine, hmine, theirs, htheirs, rfl⟩ := h
    rw [Option.map_some, parallelCanonical_eq_ok.mp hmine, parallelCanonical_eq_ok.mp htheirs, decide_eq_true_eq, Ne, Ne,
      Option.some.injEq, Option.some.injEq, eq_comm]

/-- The entries that have changed are those that the ancestor has not, or not in the same form. -/
theorem entryAt_changedEntries {base l c : List (Str × Json)} (hnodup : (l.map (·.1)).Nodup) (h : changedEntries base l = .ok c)
    (key : Str) :
    entryAt c key = (entryAt l key).filter fun v => (entryAt base key).map canonicalBytes? ≠ some v.canonicalBytes? := by
  induction l generalizing c with
  | nil =>
    cases h
    rfl
  | cons p l ih =>
    obtain ⟨k, v⟩ := p
    obtain ⟨hnew, hnodup⟩ := List.nodup_cons.mp hnodup
    simp only [changedEntries, bind_eq_ok, pure_eq_ok] at h
    obtain ⟨kept, hkept, rest, hrest, rfl⟩ := h
    have hrest' := ih hnodup hrest
    by_cases hk : k = key
    · subst hk
      have hhead (m : List (Str × Json)) : entryAt ((k, v) :: m) k = some v := by
        rw [entryAt, List.find?_cons_of_pos (by simp)]
        rfl
      have htail : entryAt l k = none := by
        by_contra hsome
        exact hnew (ContextDelta.mem_keys_of_entryAt hsome)
      rw [hhead]
      cases kept with
      | true =>
        rw [if_pos rfl, hhead, Option.filter_some_pos (by simpa using (isChanged_spec hkept).mp rfl)]
      | false =>
        have hsame : ¬(entryAt base k).map canonicalBytes? ≠ some v.canonicalBytes? := fun hne => by
          cases (isChanged_spec hkept).mpr hne
        rw [if_neg Bool.false_ne_true, hrest', htail, Option.filter_some_neg (by simpa using hsame)]
        rfl
    · have hskip (m : List (Str × Json)) : entryAt ((k, v) :: m) key = entryAt m key := by
        rw [entryAt, List.find?_cons_of_neg (by simpa using hk)]
        rfl
      rw [hskip, ← hrest']
      split_ifs
      · exact hskip rest
      · rfl

/-! ### Turns -/

section
variable {mode : ReconciliationMode} {accepted : Option (List Str)} {ancestor : ContextCheckpoint} {base : List (Str × Json)}
  {left right : Side} {key : Str} {o : Outcome}

/-- What a turn comes to: the key is selected, or a conflict that holds what the three checkpoints have, or neither. -/
structure TurnSpec (mode : ReconciliationMode) (accepted : Option (List Str)) (key : Str) (b l r : Option Json) (o : Outcome) : Prop where
  selected : ∀ k, o = .selected k ↔ k = key ∧ Accepts accepted key ∧ Selects mode l r
  conflict : (∃ e, o = .conflict e) ↔ Accepts accepted key ∧ Clashes mode l r
  fields : ∀ e, o = .conflict e → e.stableKey.1 = key ∧ e.base = b.getD .null ∧ l = some e.left ∧ r = some e.right

theorem reconcileKey_spec (h : reconcileKey mode accepted ancestor base left right key = .ok o) :
    TurnSpec mode accepted key (entryAt base key) (entryAt left.changed key) (entryAt right.changed key) o := by
  have hskipped {l r : Option Json} (hno : ¬(Accepts accepted key ∧ Selects mode l r)) (hno' : ¬(Accepts accepted key ∧ Clashes mode l r)) :
      TurnSpec mode accepted key (entryAt base key) l r .skipped :=
    ⟨fun k => iff_of_false (by rintro ⟨⟩) fun h => hno h.2, iff_of_false (by rintro ⟨_, ⟨⟩⟩) hno', by rintro e ⟨⟩⟩
  have hselected {l r : Option Json} (hyes : Accepts accepted key ∧ Selects mode l r) (hno : ¬Clashes mode l r) :
      TurnSpec mode accepted key (entryAt base key) l r (.selected key) := by
    refine ⟨fun k => ⟨?_, ?_⟩, iff_of_false (by rintro ⟨_, ⟨⟩⟩) fun h => hno h.2, by rintro e ⟨⟩⟩
    · rintro ⟨⟩
      exact ⟨rfl, hyes⟩
    · rintro ⟨rfl, -⟩
      rfl
  unfold reconcileKey at h
  split_ifs at h with haccepted
  · cases h
    have hno : ¬Accepts accepted key := by
      rintro hall
      obtain ⟨ids, hids, hmem⟩ := (Option.any_eq_true _ _).mp haccepted
      exact of_decide_eq_true hmem (hall ids hids)
    exact hskipped (fun h => hno h.1) fun h => hno h.1
  · have haccepts : Accepts accepted key := by
      intro ids hids
      by_contra hmem
      exact haccepted ((Option.any_eq_true _ _).mpr ⟨ids, hids, decide_eq_true hmem⟩)
    cases hl : entryAt left.changed key with
    | none =>
      rw [hl] at h
      cases hr : entryAt right.changed key with
      | none =>
        rw [hr] at h
        cases h
        exact hskipped (by simp [Selects]) (by simp [Clashes])
      | some r =>
        rw [hr] at h
        dsimp only at h
        split_ifs at h with hallowed
        · cases h
          exact hselected ⟨haccepts, by simp [Selects, hallowed]⟩ (by simp [Clashes])
        · cases h
          exact hskipped (by simp [Selects, hallowed]) (by simp [Clashes])
    | some l =>
      rw [hl] at h
      cases hr : entryAt right.changed key with
      | none =>
        rw [hr] at h
        dsimp only at h
        split_ifs at h with hallowed
        · cases h
          exact hselected ⟨haccepts, by simp [Selects, hallowed]⟩ (by simp [Clashes])
        · cases h
          exact hskipped (by simp [Selects, hallowed]) (by simp [Clashes])
      | some r =>
        rw [hr] at h
        dsimp only at h
        by_cases hallowed : mode.allows l = true ∧ mode.allows r = true
        · rw [if_pos hallowed] at h
          simp only [bind_eq_ok] at h
          obtain ⟨mine, hmine, theirs, htheirs, h⟩ := h
          rw [parallelCanonical_eq_ok] at hmine htheirs
          by_cases hsame : mine ≠ theirs
          · rw [if_pos hsame] at h
            obtain ⟨e, he, h⟩ := bind_eq_ok.mp h
            cases h
            have hne : l.canonicalBytes? ≠ r.canonicalBytes? := by
              rw [hmine, htheirs]
              exact fun heq => hsame (Option.some.inj heq)
            refine ⟨fun k => iff_of_false (by rintro ⟨⟩) ?_, ⟨fun _ => ⟨haccepts, l, r, rfl, rfl, hallowed.1, hallowed.2, hne⟩,
              fun _ => ⟨e, rfl⟩⟩, ?_⟩
            · rintro ⟨-, -, -, -, -, hall⟩
              exact hne (hall l rfl r rfl)
            · rintro _ ⟨⟩
              have hkey := (conflictOf_fields he).1
              simp only [conflictOf, bind_eq_ok] at he
              obtain ⟨refs, -, leftRef, -, rightRef, -, stableKey, -, hcreate⟩ := he
              obtain ⟨-, -, hbase, hleft, hright, -⟩ := ConflictEntry.of_create hcreate
              exact ⟨hkey, hbase, by rw [hleft], by rw [hright]⟩
          · rw [if_neg hsame] at h
            cases h
            have heq : l.canonicalBytes? = r.canonicalBytes? := by
              rw [hmine, htheirs, not_not.mp hsame]
            exact hselected ⟨haccepts, by simp [Selects, hallowed, heq]⟩ (by simp [Clashes, heq])
        · rw [if_neg hallowed] at h
          cases h
          refine hskipped ?_ ?_
          · rintro ⟨-, -, hleft, hright, -⟩
            exact hallowed ⟨hleft l rfl, hright r rfl⟩
          · rintro ⟨-, v, w, hv, hw, hleft, hright, -⟩
            cases hv
            cases hw
            exact hallowed ⟨hleft, hright⟩

end

/-! ### Reconciliations -/

/-- Values that are read from texts are these texts. -/
theorem values_of_forall₂ {l : List Str} {field : String} {max : Nat} {m : List (Text max)}
    (h : List.Forall₂ (fun s b => parallelText (.str s) field max = .ok b) l m) : m.map Subtype.val = l := by
  induction h with
  | nil => rfl
  | cons hs _ ih =>
    rw [parallelText, catching_eq_ok, text_eq_ok] at hs
    rw [List.map_cons, ih, Json.str.inj hs]

theorem perm_of_sortedUniqueText {l : List Str} {field : String} {max : Nat} {t : Texts max}
    (h : sortedUniqueText (.arr (l.map .str)) field max = .ok t) : (t.1.map Subtype.val).Perm l := by
  rw [sortedUniqueText, sortedSet] at h
  split_ifs at h
  obtain ⟨m, hm, h⟩ := bind_eq_ok.mp h
  have hvalues := values_of_forall₂ (List.forall₂_map_left_iff.mp (forall₂_of_mapM hm))
  split at h
  · cases h
    rw [← hvalues]
    exact (List.perm_insertionSort _ m).map _
  · cases h

section
variable {mode : ReconciliationMode} {accepted : Option (List Str)} {ancestor left right : ContextCheckpoint} {l : List Outcome}

theorem mem_selectedKeys {key : Str} : key ∈ selectedKeys l ↔ .selected key ∈ l := by
  unfold selectedKeys
  rw [List.mem_filterMap]
  constructor
  · rintro ⟨o, ho, hkey⟩
    cases o <;> cases hkey
    exact ho
  · exact fun h => ⟨_, h, rfl⟩

theorem mem_foundConflicts {e : ConflictEntry} : e ∈ foundConflicts l ↔ .conflict e ∈ l := by
  unfold foundConflicts
  rw [List.mem_filterMap]
  constructor
  · rintro ⟨o, ho, he⟩
    cases o <;> cases he
    exact ho
  · exact fun h => ⟨_, h, rfl⟩

/-- The turns of a reconciliation: one for each key that a side has changed. -/
theorem outcomes_spec (h : outcomes mode accepted ancestor left right = .ok l) : ∃ keys : List Str, keys.Pairwise (· < ·) ∧
    (∀ key, key ∈ keys ↔ changeOf ancestor left key ≠ none ∨ changeOf ancestor right key ≠ none) ∧
    List.Forall₂ (fun key o => TurnSpec mode accepted key (entryOf ancestor key) (changeOf ancestor left key)
      (changeOf ancestor right key) o) keys l := by
  simp only [outcomes, bind_eq_ok] at h
  obtain ⟨base, hbase, le, hle, re, hre, lc, hlc, rc, hrc, h⟩ := h
  have hentry {c : ContextCheckpoint} {m : List (Str × Json)} (hm : keyed (c.logicalState.get "entries") "entry_id" "entries" = .ok m)
      (key : Str) : entryAt m key = entryOf c key := (keyed_spec hm).2 key
  have hchange {c : ContextCheckpoint} {m changed : List (Str × Json)}
      (hm : keyed (c.logicalState.get "entries") "entry_id" "entries" = .ok m) (hchanged : changedEntries base m = .ok changed)
      (key : Str) : entryAt changed key = changeOf ancestor c key := by
    rw [entryAt_changedEntries (keyed_eq_ok hm).2 hchanged, hentry hm, hentry hbase, changeOf]
  refine ⟨sortedUnion (lc.map (·.1) ++ rc.map (·.1)), sorted_sortedUnion _, fun key => ?_, ?_⟩
  · have hkeys (m : List (Str × Json)) : key ∈ m.map (·.1) ↔ entryAt m key ≠ none := by
      refine ⟨fun hmem hnone => ?_, ContextDelta.mem_keys_of_entryAt⟩
      obtain ⟨p, hp, rfl⟩ := List.mem_map.mp hmem
      exact absurd (List.find?_eq_none.mp (Option.map_eq_none_iff.mp hnone) p hp) (by simp)
    rw [mem_sortedUnion, List.mem_append, hkeys, hkeys, hchange hle hlc, hchange hre hrc]
  · refine (forall₂_of_mapM h).imp fun key o ho => ?_
    rw [← hchange hle hlc, ← hchange hre hrc, ← hentry hbase]
    exact reconcileKey_spec ho

end

/-- A reconciliation leaves out nothing of what it reconciles. Among the keys that an accepted handoff does not exclude, it selects exactly
    those that one side has changed, or both alike, to entries of its mode, each once, and has exactly one conflict for each of those that the
    two sides have changed to different entries of its mode, with the entries of the three checkpoints. A side that has removed an entry has
    not changed it. It can be applied exactly if there is no conflict. -/
theorem between_complete {a : Arguments} {ancestor : ContextCheckpoint} {left right : Branch} {x : NarrowReconciliation}
    (h : between a ancestor left right = .ok x) :
    ∃ accepted, acceptedIds a.mode a.handoff a.admission left.checkpoint right.checkpoint = .ok accepted ∧
      (∀ key, key ∈ x.selectedEntryIds.1.map Subtype.val ↔ Accepts accepted key ∧
        Selects a.mode (changeOf ancestor left.checkpoint key) (changeOf ancestor right.checkpoint key)) ∧
      (∀ key, key ∈ x.conflicts.entries.map (fun e => e.stableKey.1) ↔ Accepts accepted key ∧
        Clashes a.mode (changeOf ancestor left.checkpoint key) (changeOf ancestor right.checkpoint key)) ∧
      (∀ e ∈ x.conflicts.entries, e.base = (entryOf ancestor e.stableKey.1).getD .null ∧
        changeOf ancestor left.checkpoint e.stableKey.1 = some e.left ∧ changeOf ancestor right.checkpoint e.stableKey.1 = some e.right) ∧
      (x.selectedEntryIds.1.map Subtype.val).Nodup ∧ (x.conflicts.entries.map fun e => e.stableKey.1).Nodup ∧
      (x.result = .applicable ↔ x.conflicts.entries = []) := by
  simp only [between, bind_eq_ok, make_eq_ok] at h
  obtain ⟨accepted, haccepted, o, ho, ancestorRef, -, leftRef, -, rightRef, -, report, hreport, selected, hselected, d, -, hx⟩ := h
  obtain ⟨keys, hsorted, hkeys, hturns⟩ := outcomes_spec ho
  obtain ⟨-, -, -, -, -, hentries⟩ := ConflictReport.of_create hreport
  have hperm : x.conflicts.entries.Perm (foundConflicts o) := by
    rw [hx, hentries]
    exact ConflictEntry.sort_perm _
  have hselectedPerm : (x.selectedEntryIds.1.map Subtype.val).Perm (selectedKeys o) := by
    rw [hx]
    exact perm_of_sortedUniqueText hselected
  have hconflict : ∀ e ∈ foundConflicts o, ∃ key ∈ keys, TurnSpec a.mode accepted key (entryOf ancestor key)
      (changeOf ancestor left.checkpoint key) (changeOf ancestor right.checkpoint key) (.conflict e) := by
    intro e he
    obtain ⟨key, hkey, hturn⟩ := exists_mem_of_forall₂ hturns.flip (mem_foundConflicts.mp he)
    exact ⟨key, hkey, hturn⟩
  refine ⟨accepted, haccepted, fun key => ?_, fun key => ?_, fun e he => ?_, ?_, ?_, ?_⟩
  · rw [hselectedPerm.mem_iff, mem_selectedKeys]
    constructor
    · intro hmem
      obtain ⟨k, -, hturn⟩ := exists_mem_of_forall₂ hturns.flip hmem
      obtain ⟨rfl, hspec⟩ := (hturn.selected key).mp rfl
      exact hspec
    · rintro ⟨haccepts, hselects⟩
      obtain ⟨out, hout, hturn⟩ := exists_mem_of_forall₂ hturns ((hkeys key).mpr hselects.1)
      rw [← (hturn.selected key).mpr ⟨rfl, haccepts, hselects⟩]
      exact hout
  · rw [(hperm.map _).mem_iff, List.mem_map]
    constructor
    · rintro ⟨e, he, rfl⟩
      obtain ⟨key, -, hturn⟩ := hconflict e he
      rw [(hturn.fields e rfl).1]
      exact hturn.conflict.mp ⟨e, rfl⟩
    · rintro ⟨haccepts, hclashes⟩
      have hchanged : changeOf ancestor left.checkpoint key ≠ none := by
        obtain ⟨v, -, hv, -⟩ := hclashes
        rw [hv]
        exact Option.some_ne_none _
      obtain ⟨out, hout, hturn⟩ := exists_mem_of_forall₂ hturns ((hkeys key).mpr (.inl hchanged))
      obtain ⟨e, rfl⟩ := hturn.conflict.mpr ⟨haccepts, hclashes⟩
      exact ⟨e, mem_foundConflicts.mpr hout, (hturn.fields e rfl).1⟩
  · obtain ⟨key, -, hturn⟩ := hconflict e (hperm.mem_iff.mp he)
    obtain ⟨hkey, hbase, hleft, hright⟩ := hturn.fields e rfl
    rw [hkey]
    exact ⟨hbase, hleft, hright⟩
  · exact List.Nodup.map Subtype.val_injective (x.selectedEntryIds.2.1.imp fun hlt => ne_of_lt hlt)
  · refine (hperm.map _).nodup_iff.mpr ?_
    have hsublist : ((foundConflicts o).map fun e => e.stableKey.1).Sublist keys := by
      clear hkeys hconflict hperm hselectedPerm hentries hreport hselected hx ho hsorted
      induction hturns with
      | nil => exact List.Sublist.slnil
      | @cons key out keys l hturn _ ih =>
        cases out with
        | conflict e =>
          obtain ⟨hkey, -⟩ := hturn.fields e rfl
          rw [← hkey]
          exact ih.cons_cons _
        | skipped => exact ih.cons _
        | selected k => exact ih.cons _
    exact hsublist.nodup (hsorted.imp fun hlt => ne_of_lt hlt)
  · have hempty : x.conflicts.entries = [] ↔ foundConflicts o = [] := by
      rw [← List.length_eq_zero_iff, hperm.length_eq, List.length_eq_zero_iff]
    rw [hempty, hx]
    dsimp only
    split_ifs with hnone
    · exact iff_of_true rfl hnone
    · exact iff_of_false (by rintro ⟨⟩) hnone

/-- Where one side has made a decision and the other has changed nothing, the decision is what is selected. -/
theorem exists_between_complete : ∃ a ancestor left right x accepted, between a ancestor left right = .ok x ∧
    x.selectedEntryIds.1 ≠ [] ∧ ∀ key, key ∈ x.selectedEntryIds.1.map Subtype.val ↔ Accepts accepted key ∧
      Selects a.mode (changeOf ancestor left.checkpoint key) (changeOf ancestor right.checkpoint key) := by
  obtain ⟨ancestor, -, hancestor⟩ := exists_bare .nil (numberedUuid 0)
  obtain ⟨c, -, hc⟩ := exists_bare .one (numberedUuid 1)
  have hentry : keyed (entriesJson [decision]) "entry_id" "entries" = .ok [(decision.entryId.1, decision.toDict.plain)] := by rfl
  have ho : outcomes .decisions none ancestor c ancestor = .ok [.selected decision.entryId.1] := by
    simp only [outcomes, hancestor, hc, hentry]
    rfl
  have hselected : sortedUniqueText (.arr ((selectedKeys [.selected decision.entryId.1]).map .str)) "selected_entry_ids" 512 =
      .ok ⟨[⟨decision.entryId.1, by decide⟩], List.pairwise_singleton _ _, by decide⟩ := by rfl
  obtain ⟨x, hx, -, -, -, hids, -⟩ := @exists_between ⟨.decisions, numberedUuid 2, none, none⟩ ancestor ⟨c, none⟩ ⟨ancestor, none⟩
    _ _ _ _ _ _ rfl ho rfl rfl rfl (Nat.zero_le _) (fun e he => absurd he List.not_mem_nil) hselected
  obtain ⟨accepted, -, hall, -⟩ := between_complete hx
  exact ⟨_, ancestor, _, _, x, accepted, hx, by rw [hids]; exact List.cons_ne_nil _ _, hall⟩

end NarrowReconciliation
end LeanCtx
