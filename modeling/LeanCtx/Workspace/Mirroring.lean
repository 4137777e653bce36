import LeanCtx.Workspace.Reconciling
import LeanCtx.Workspace.Sampling

/-! Reconciliation with the two sides exchanged, in the modes that no handoff restricts. -/

namespace LeanCtx
open Json

/-! ### Lists -/

section
variable {α β γ ε : Type}

/-- Where every result of one function has a counterpart under another, so do the results over a list. -/
theorem mapM_forall₂ {f : α → Except ε β} {g : α → Except ε γ} {R : β → γ → Prop} {l : List α} {m : List β}
    (h : ∀ a ∈ l, ∀ b, f a = .ok b → ∃ c, g a = .ok c ∧ R b c) (hm : l.mapM f = .ok m) :
    ∃ k, l.mapM g = .ok k ∧ List.Forall₂ R m k := by
  induction l generalizing m with
  | nil =>
    cases hm
    exact ⟨[], rfl, .nil⟩
  | cons a l ih =>
    simp only [List.mapM_cons, bind_eq_ok, pure_eq_ok] at hm
    obtain ⟨b, hb, bs, hbs, rfl⟩ := hm
    obtain ⟨c, hc, hbc⟩ := h a (by simp) b hb
    obtain ⟨cs, hcs, hall⟩ := ih (fun a ha => h a (by simp [ha])) hbs
    exact ⟨c :: cs, by rw [List.mapM_cons, hc, ok_bind, hcs]; rfl, .cons hbc hall⟩

theorem sortedUnion_congr [LinearOrder α] {l m : List α} (h : ∀ a, a ∈ l ↔ a ∈ m) : sortedUnion l = sortedUnion m :=
  (sorted_sortedUnion l).eq_of_mem_iff (sorted_sortedUnion m) fun a => by rw [mem_sortedUnion, mem_sortedUnion, h a]

end

theorem parallelCanonical_eq_ok {v : Json} {b : Bytes} : parallelCanonical v = .ok b ↔ v.canonicalBytes? = some b := by
  rw [parallelCanonical, catching_eq_ok, canonical_eq_ok]

theorem writable_of_parallelCanonical {v : Json} {b : Bytes} (h : parallelCanonical v = .ok b) : v.Writable :=
  ⟨b, parallelCanonical_eq_ok.mp h⟩

namespace NarrowReconciliation
open ReconciliationFields

/-! ### What is the same on both sides -/

theorem mem_of_entryAt {l : List (Str × Json)} {key : Str} {v : Json} (h : entryAt l key = some v) : (key, v) ∈ l := by
  obtain ⟨p, hp, rfl⟩ := Option.map_eq_some_iff.mp h
  obtain rfl : p.1 = key := by simpa using List.find?_some hp
  exact List.mem_of_find?_eq_some hp

/-- An entry that is in the common ancestor too has been compared with it, so that both can be written. -/
theorem writable_of_isChanged {ancestor : List (Str × Json)} {key : Str} {v w : Json} {b : Bool} (h : isChanged ancestor key v = .ok b)
    (hw : entryAt ancestor key = some w) : w.Writable := by
  simp only [isChanged, hw, bind_eq_ok, pure_eq_ok] at h
  obtain ⟨_, -, _, htheirs, -⟩ := h
  exact writable_of_parallelCanonical htheirs

theorem writable_of_changedEntries {ancestor l c : List (Str × Json)} (h : changedEntries ancestor l = .ok c) {key : Str} {v w : Json}
    (hv : (key, v) ∈ c) (hw : entryAt ancestor key = some w) : w.Writable := by
  induction l generalizing c with
  | nil =>
    cases h
    cases hv
  | cons p l ih =>
    obtain ⟨k, x⟩ := p
    simp only [changedEntries, bind_eq_ok, pure_eq_ok] at h
    obtain ⟨kept, hkept, rest, hrest, rfl⟩ := h
    cases kept with
    | false => exact ih hrest hv
    | true =>
      obtain h | h := List.mem_cons.mp hv
      · obtain ⟨rfl, rfl⟩ := Prod.mk.inj h
        exact writable_of_isChanged hkept hw
      · exact ih hrest h

/-- The category of the conflicts of a mode that no handoff restricts. -/
def conflictCategory (mode : ReconciliationMode) : ConflictCategory := if mode = .decisions then .decision else .projectContext

/-- In such a mode the entries of both sides have the same kind of category. -/
theorem category_eq {mode : ReconciliationMode} (hmode : mode ≠ .acceptedHandoff) {v : Json} (h : mode.allows v = true) :
    (if v.get "category" = .str (Str.lit "decisions") then ConflictCategory.decision else .projectContext) = conflictCategory mode := by
  unfold ReconciliationMode.allows ReconciliationMode.allowed at h
  cases mode with
  | acceptedHandoff => exact absurd rfl hmode
  | decisions =>
    simp only [List.any_cons, List.any_nil, Bool.or_false, decide_eq_true_eq] at h
    rw [if_pos h]
    rfl
  | knowledge =>
    simp only [List.any_cons, List.any_nil, Bool.or_false, Bool.or_eq_true, decide_eq_true_eq] at h
    rw [if_neg]
    · rfl
    · obtain h | h | h := h
      · rw [h]
        decide
      · rw [h]
        decide
      · rw [h]
        decide

/-! ### Mirrored outcomes -/

/-- The same conflict with its sides exchanged. -/
structure ConflictMirror (c d : ConflictEntry) : Prop where
  category : d.category = c.category
  stableKey : d.stableKey = c.stableKey
  base : d.base = c.base
  left : d.left = c.right
  right : d.right = c.left
  evidence : d.evidenceRefs.Perm c.evidenceRefs

/-- The same outcome with the sides exchanged, of which a conflict can be written. -/
def Outcome.Mirror : Outcome → Outcome → Prop
  | .skipped, .skipped => True
  | .selected key, .selected key' => key' = key
  | .conflict c, .conflict d => ConflictMirror c d ∧ d.toDict.Writable
  | _, _ => False

theorem conflictOf_mirror {ancestor left right : ContextCheckpoint} {base : Option Json} {key : Str} {l r : Json} {c : ConflictEntry}
    (hbase : ∀ b ∈ base, b.Writable) (hl : l.Writable) (hr : r.Writable)
    (hcategory : (if r.get "category" = .str (Str.lit "decisions") then ConflictCategory.decision else .projectContext) =
      if l.get "category" = .str (Str.lit "decisions") then .decision else .projectContext)
    (h : conflictOf ancestor base left right key l r = .ok c) :
    ∃ d, conflictOf ancestor base right left key r l = .ok d ∧ ConflictMirror c d ∧ d.toDict.Writable := by
  simp only [conflictOf, bind_eq_ok] at h
  obtain ⟨refs, hrefs, leftRef, hleft, rightRef, hright, stableKey, hkey, hcreate⟩ := h
  have hb : (base.getD .null).Writable := by
    cases base with
    | none => exact writable_null
    | some b => exact hbase b rfl
  obtain ⟨d, hd⟩ := ConflictEntry.exists_create (if l.get "category" = .str (Str.lit "decisions") then .decision else .projectContext)
    stableKey hb hr hl (refs ++ [rightRef, leftRef])
  obtain ⟨hc₁, hc₂, hc₃, hc₄, hc₅, hc₆⟩ := ConflictEntry.of_create hcreate
  obtain ⟨hd₁, hd₂, hd₃, hd₄, hd₅, hd₆⟩ := ConflictEntry.of_create hd
  refine ⟨d, ?_, ⟨?_, ?_, ?_, ?_, ?_, ?_⟩, ?_⟩
  · simp only [conflictOf, hcategory, bind_eq_ok]
    exact ⟨refs, hrefs, rightRef, hright, leftRef, hleft, stableKey, hkey, hd⟩
  · rw [hd₁, hc₁]
  · rw [hd₂, hc₂]
  · rw [hd₃, hc₃]
  · rw [hd₄, hc₅]
  · rw [hd₅, hc₄]
  · rw [hd₆, hc₆]
    have hswap : (refs ++ [rightRef, leftRef]).Perm (refs ++ [leftRef, rightRef]) := (List.Perm.swap leftRef rightRef []).append_left refs
    exact (EvidenceRef.sort_perm _).trans (hswap.trans (EvidenceRef.sort_perm _).symm)
  · exact ConflictEntry.writable_toDict (hd₃ ▸ hb) (hd₄ ▸ hr) (hd₅ ▸ hl)

theorem conflictOf_fields {ancestor left right : ContextCheckpoint} {base : Option Json} {key : Str} {l r : Json} {c : ConflictEntry}
    (h : conflictOf ancestor base left right key l r = .ok c) : c.stableKey.1 = key ∧
      c.category = if l.get "category" = .str (Str.lit "decisions") then .decision else .projectContext := by
  simp only [conflictOf, bind_eq_ok] at h
  obtain ⟨refs, -, leftRef, -, rightRef, -, stableKey, hkey, hcreate⟩ := h
  obtain ⟨hcategory, hstable, -⟩ := ConflictEntry.of_create hcreate
  refine ⟨?_, hcategory⟩
  rw [parallelText, catching_eq_ok, text_eq_ok] at hkey
  rw [hstable, Json.str.inj hkey]

section
variable {mode : ReconciliationMode} {accepted : Option (List Str)} {ancestor : ContextCheckpoint} {base : List (Str × Json)}
  {left right : Side} {key : Str}

theorem reconcileKey_mirror (hmode : mode ≠ .acceptedHandoff)
    (hbase : ∀ l, entryAt left.changed key = some l → ∀ b ∈ entryAt base key, b.Writable) {o : Outcome}
    (h : reconcileKey mode accepted ancestor base left right key = .ok o) :
    ∃ o', reconcileKey mode accepted ancestor base right left key = .ok o' ∧ o.Mirror o' := by
  unfold reconcileKey at h ⊢
  split_ifs at h ⊢ with haccepted
  · cases h
    exact ⟨_, rfl, trivial⟩
  · cases hl : entryAt left.changed key with
    | none =>
      rw [hl] at h
      cases hr : entryAt right.changed key with
      | none =>
        rw [hr] at h
        cases h
        exact ⟨_, rfl, trivial⟩
      | some r =>
        rw [hr] at h
        dsimp only at h ⊢
        split_ifs at h ⊢
        · cases h
          exact ⟨_, rfl, rfl⟩
        · cases h
          exact ⟨_, rfl, trivial⟩
    | some l =>
      rw [hl] at h
      cases hr : entryAt right.changed key with
      | none =>
        rw [hr] at h
        dsimp only at h ⊢
        split_ifs at h ⊢
        · cases h
          exact ⟨_, rfl, rfl⟩
        · cases h
          exact ⟨_, rfl, trivial⟩
      | some r =>
        rw [hr] at h
        dsimp only at h ⊢
        by_cases hallowed : mode.allows l = true ∧ mode.allows r = true
        · rw [if_pos hallowed] at h
          rw [if_pos hallowed.symm]
          simp only [bind_eq_ok] at h ⊢
          obtain ⟨mine, hmine, theirs, htheirs, h⟩ := h
          by_cases hsame : mine ≠ theirs
          · rw [if_pos hsame] at h
            obtain ⟨c, hc, h⟩ := bind_eq_ok.mp h
            cases h
            have hcategory := (category_eq hmode hallowed.2).trans (category_eq hmode hallowed.1).symm
            obtain ⟨d, hd, hmirror⟩ := conflictOf_mirror (hbase l hl) (writable_of_parallelCanonical hmine)
              (writable_of_parallelCanonical htheirs) hcategory hc
            refine ⟨.conflict d, ⟨theirs, htheirs, mine, hmine, ?_⟩, hmirror⟩
            rw [if_pos hsame.symm, hd]
            rfl
          · rw [if_neg hsame] at h
            cases h
            exact ⟨.selected key, ⟨theirs, htheirs, mine, hmine, if_neg fun e => hsame e.symm⟩, rfl⟩
        · rw [if_neg hallowed] at h
          rw [if_neg fun e => hallowed e.symm]
          cases h
          exact ⟨_, rfl, trivial⟩

/-- A conflict is found under its own key, with the category of the mode. -/
theorem reconcileKey_conflict (hmode : mode ≠ .acceptedHandoff) {c : ConflictEntry}
    (h : reconcileKey mode accepted ancestor base left right key = .ok (.conflict c)) :
    c.stableKey.1 = key ∧ c.category = conflictCategory mode := by
  unfold reconcileKey at h
  split_ifs at h
  · cases h
  · split at h
    · cases h
    · split_ifs at h <;> cases h
    · split_ifs at h <;> cases h
    · split_ifs at h with hallowed
      · simp only [bind_eq_ok] at h
        obtain ⟨mine, hmine, theirs, htheirs, h⟩ := h
        split_ifs at h
        · obtain ⟨c', hc, h⟩ := bind_eq_ok.mp h
          cases h
          obtain ⟨hkey, hcategory⟩ := conflictOf_fields hc
          exact ⟨hkey, hcategory.trans (category_eq hmode hallowed.1)⟩
        · cases h
      · cases h

theorem outcomes_mirror (hmode : mode ≠ .acceptedHandoff) {l r : ContextCheckpoint} {o : List Outcome}
    (h : outcomes mode accepted ancestor l r = .ok o) :
    ∃ o', outcomes mode accepted ancestor r l = .ok o' ∧ List.Forall₂ Outcome.Mirror o o' := by
  simp only [outcomes, bind_eq_ok] at h
  obtain ⟨base, hbase, le, hle, re, hre, lc, hlc, rc, hrc, h⟩ := h
  have hturns := mapM_forall₂ (g := reconcileKey mode accepted ancestor base ⟨r, rc⟩ ⟨l, lc⟩) (R := Outcome.Mirror)
    (fun key _ o ho => reconcileKey_mirror hmode (fun v hv b hb => writable_of_changedEntries hlc (mem_of_entryAt hv) hb) ho) h
  obtain ⟨o', ho', hall⟩ := hturns
  refine ⟨o', ?_, hall⟩
  simp only [outcomes, bind_eq_ok]
  refine ⟨base, hbase, re, hre, le, hle, rc, hrc, lc, hlc, ?_⟩
  rw [sortedUnion_congr (m := lc.map (·.1) ++ rc.map (·.1)) fun k => by rw [List.mem_append, List.mem_append, or_comm]]
  exact ho'

/-- The conflicts of a mode that no handoff restricts are found in the order in which a report keeps them. -/
theorem sorted_foundConflicts (hmode : mode ≠ .acceptedHandoff) {keys : List Str} (hkeys : keys.Pairwise (· < ·)) {o : List Outcome}
    (h : keys.mapM (reconcileKey mode accepted ancestor base left right) = .ok o) :
    (foundConflicts o).Pairwise (fun c d => c.sortKey ≤ d.sortKey) ∧
      ∀ c ∈ foundConflicts o, c.stableKey.1 ∈ keys ∧ c.category = conflictCategory mode := by
  induction keys generalizing o with
  | nil =>
    cases h
    exact ⟨.nil, nofun⟩
  | cons key keys ih =>
    simp only [List.mapM_cons, bind_eq_ok, pure_eq_ok] at h
    obtain ⟨x, hx, rest, hrest, rfl⟩ := h
    obtain ⟨hlt, hkeys⟩ := List.pairwise_cons.mp hkeys
    obtain ⟨hsorted, hall⟩ := ih hkeys hrest
    cases x with
    | skipped => exact ⟨hsorted, fun c hc => (hall c hc).imp_left (List.mem_cons_of_mem _)⟩
    | selected k => exact ⟨hsorted, fun c hc => (hall c hc).imp_left (List.mem_cons_of_mem _)⟩
    | conflict c =>
      obtain ⟨hkey, hcategory⟩ := reconcileKey_conflict hmode hx
      constructor
      · refine List.pairwise_cons.mpr ⟨fun d hd => ?_, hsorted⟩
        obtain ⟨hmem, hdcategory⟩ := hall d hd
        have hless : c.stableKey.1 < d.stableKey.1 := hkey ▸ hlt _ hmem
        rw [ConflictEntry.sortKey, ConflictEntry.sortKey, hcategory, hdcategory]
        exact Prod.Lex.toLex_le_toLex.mpr (.inr ⟨rfl, Prod.Lex.toLex_le_toLex.mpr (.inl hless)⟩)
      · intro d hd
        obtain rfl | hd := List.mem_cons.mp hd
        · exact ⟨by simp [hkey], hcategory⟩
        · exact (hall d hd).imp_left (List.mem_cons_of_mem _)

theorem sort_foundConflicts (hmode : mode ≠ .acceptedHandoff) {l r : ContextCheckpoint} {o : List Outcome}
    (h : outcomes mode accepted ancestor l r = .ok o) : ConflictEntry.sort (foundConflicts o) = foundConflicts o := by
  simp only [outcomes, bind_eq_ok] at h
  obtain ⟨base, -, le, -, re, -, lc, -, rc, -, h⟩ := h
  exact (sorted_foundConflicts hmode (sorted_sortedUnion _) h).1.insertionSort_eq

end

theorem foundConflicts_mirror {o o' : List Outcome} (h : List.Forall₂ Outcome.Mirror o o') :
    List.Forall₂ (fun c d => ConflictMirror c d ∧ d.toDict.Writable) (foundConflicts o) (foundConflicts o') := by
  induction h with
  | nil => exact .nil
  | @cons x y _ _ hxy _ ih =>
    cases x <;> cases y <;> first | exact ih | exact .cons hxy ih | cases hxy

theorem selectedKeys_mirror {o o' : List Outcome} (h : List.Forall₂ Outcome.Mirror o o') : selectedKeys o' = selectedKeys o := by
  induction h with
  | nil => rfl
  | @cons x y _ _ hxy _ ih =>
    cases x <;> cases y <;> first | exact ih | exact congrArg₂ List.cons hxy ih | cases hxy

/-! ### Mirrored reconciliations -/

/-- The same reconciliation with its sides exchanged. -/
structure Mirror (x y : NarrowReconciliation) : Prop where
  commonAncestor : y.commonAncestor = x.commonAncestor
  left : y.left = x.right
  right : y.right = x.left
  selected : y.selectedEntryIds = x.selectedEntryIds
  conflicts : List.Forall₂ ConflictMirror x.conflicts.entries y.conflicts.entries
  result : y.result = x.result

variable {a : Arguments} {ancestor : ContextCheckpoint} {left right : Branch}

theorem acceptedIds_swap (hmode : a.mode ≠ .acceptedHandoff) {l r : ContextCheckpoint} :
    acceptedIds a.mode a.handoff a.admission l r = acceptedIds a.mode a.handoff a.admission r l := by
  cases hm : a.mode with
  | acceptedHandoff => exact absurd hm hmode
  | knowledge => rfl
  | decisions => rfl

/-- A reconciliation is made of what is found, where its conflicts can be written and are not too many. -/
theorem exists_between {accepted : Option (List Str)} {o : List Outcome} {ancestorRef leftRef rightRef : WorkspaceStateRef}
    {selected : Texts 512} (haccepted : acceptedIds a.mode a.handoff a.admission left.checkpoint right.checkpoint = .ok accepted)
    (ho : outcomes a.mode accepted ancestor left.checkpoint right.checkpoint = .ok o)
    (hancestor : WorkspaceStateRef.fromCheckpoint ancestor none = .ok ancestorRef)
    (hleft : WorkspaceStateRef.fromCheckpoint left.checkpoint left.lineage = .ok leftRef)
    (hright : WorkspaceStateRef.fromCheckpoint right.checkpoint right.lineage = .ok rightRef)
    (hlength : (foundConflicts o).length ≤ maxConflicts) (hwritable : ∀ e ∈ foundConflicts o, e.toDict.Writable)
    (hselected : sortedUniqueText (.arr ((selectedKeys o).map .str)) "selected_entry_ids" 512 = .ok selected) :
    ∃ x, between a ancestor left right = .ok x ∧ x.commonAncestor = ancestorRef ∧ x.left = leftRef ∧ x.right = rightRef ∧
      x.selectedEntryIds = selected ∧ x.conflicts.entries = ConflictEntry.sort (foundConflicts o) ∧
      x.result = if foundConflicts o = [] then .applicable else .manualRequired := by
  obtain ⟨report, hreport⟩ := ConflictReport.exists_create (some ancestorRef) leftRef rightRef .diverged hlength hwritable
  obtain ⟨-, hbase, hl, hr, hancestry, hentries⟩ := ConflictReport.of_create hreport
  have hempty : report.entries = [] ↔ foundConflicts o = [] := by
    rw [hentries, ← List.length_eq_zero_iff, (ConflictEntry.sort_perm _).length_eq, List.length_eq_zero_iff]
  have hreportWritable : report.toDict.Writable :=
    ConflictReport.writable_toDict fun e he => hwritable e ((ConflictEntry.sort_perm _).mem_iff.mp (hentries ▸ he))
  have hpayload : (mkObj (unsignedFields ⟨a.reconciliationId, ancestorRef, leftRef, rightRef, a.mode, selected, report,
      if foundConflicts o = [] then .applicable else .manualRequired, ancestorRef.stateDigest⟩)).Writable := by
    refine writable_mkObj ?_
    simp only [unsignedFields, List.mem_cons, List.not_mem_nil, or_false, forall_eq_or_imp, forall_eq]
    exact ⟨writable_lit _, writable_uuid _, ancestorRef.writable_toDict, leftRef.writable_toDict, rightRef.writable_toDict, writable_lit _,
      writable_map writable_text _, hreportWritable, writable_lit _⟩
  obtain ⟨d, hd⟩ := domainDigest_of_writable "leanctx.narrow-reconciliation.v1" hpayload
  rw [← parallelDigest_eq_ok] at hd
  have hcheck : ReconciliationFields.check ⟨a.reconciliationId, ancestorRef, leftRef, rightRef, a.mode, selected, report,
      if foundConflicts o = [] then .applicable else .manualRequired, d⟩ = .ok () := by
    simp only [unsignedFields] at hd
    simp only [ReconciliationFields.check, unsignedFields, hd, bind_eq_ok, ensure_eq_ok, exists_const, Except.ok.injEq, exists_eq_left',
      and_true]
    refine ⟨?_, hbase, hl, hr, hancestry⟩
    rw [Ne, hempty]
    split_ifs with h
    · exact ⟨(by rintro ⟨⟩), fun hne => absurd h hne⟩
    · exact ⟨fun _ => h, fun _ => rfl⟩
  refine ⟨⟨_, hcheck⟩, ?_, rfl, rfl, rfl, rfl, hentries, rfl⟩
  simp only [between, bind_eq_ok, make_eq_ok]
  exact ⟨accepted, haccepted, o, ho, ancestorRef, hancestor, leftRef, hleft, rightRef, hright, report, hreport, selected, hselected, d, hd,
    rfl⟩

/-- Where a reconciliation is made, so is its mirror image. -/
theorem exists_mirror (hmode : a.mode ≠ .acceptedHandoff) {x : NarrowReconciliation} (h : between a ancestor left right = .ok x) :
    ∃ y, between a ancestor right left = .ok y ∧ x.Mirror y := by
  simp only [between, bind_eq_ok, make_eq_ok] at h
  obtain ⟨accepted, haccepted, o, ho, ancestorRef, hancestor, leftRef, hleft, rightRef, hright, report, hreport, selected, hselected,
    d, -, hx⟩ := h
  obtain ⟨o', ho', hmirror⟩ := outcomes_mirror hmode ho
  have hconflicts := foundConflicts_mirror hmirror
  obtain ⟨hlength, -, -, -, -, hentries⟩ := ConflictReport.of_create hreport
  have hwritable : ∀ e ∈ foundConflicts o', e.toDict.Writable := by
    intro e he
    obtain ⟨c, -, -, hw⟩ := exists_mem_of_forall₂ hconflicts.flip he
    exact hw
  obtain ⟨y, hy, hyancestor, hyleft, hyright, hyselected, hyentries, hyresult⟩ := exists_between
    ((acceptedIds_swap hmode).symm.trans haccepted) ho' hancestor hright hleft (hconflicts.length_eq ▸ hlength) hwritable
    ((selectedKeys_mirror hmirror).symm ▸ hselected)
  have hempty : foundConflicts o' = [] ↔ foundConflicts o = [] := by
    rw [← List.length_eq_zero_iff, ← List.length_eq_zero_iff, hconflicts.length_eq]
  refine ⟨y, hy, ?_, ?_, ?_, ?_, ?_, ?_⟩
  · rw [hyancestor, hx]
  · rw [hyleft, hx]
  · rw [hyright, hx]
  · rw [hyselected, hx]
  · rw [hyentries, sort_foundConflicts hmode ho', hx, hentries, sort_foundConflicts hmode ho]
    exact hconflicts.imp fun _ _ h => h.1
  · rw [hyresult, hx]
    simp only [hempty]

/-- In the modes knowledge and decisions reconciliation treats its two sides alike: it succeeds for one order of them where it does
    for the other, and what it makes is the same with the sides exchanged. -/
theorem between_symmetric (a : Arguments) (hmode : a.mode ≠ .acceptedHandoff) (ancestor : ContextCheckpoint) (left right : Branch) :
    ((∃ x, between a ancestor left right = .ok x) ↔ ∃ y, between a ancestor right left = .ok y) ∧
      ∀ x y, between a ancestor left right = .ok x → between a ancestor right left = .ok y → x.Mirror y := by
  refine ⟨⟨fun ⟨x, hx⟩ => ?_, fun ⟨y, hy⟩ => ?_⟩, fun x y hx hy => ?_⟩
  · obtain ⟨y, hy, -⟩ := exists_mirror hmode hx
    exact ⟨y, hy⟩
  · obtain ⟨x, hx, -⟩ := exists_mirror hmode hy
    exact ⟨x, hx⟩
  · obtain ⟨y', hy', hmirror⟩ := exists_mirror hmode hx
    rw [hy] at hy'
    cases hy'
    exact hmirror

/-! ### A decision of one side -/

theorem exists_bare {l : List ProjectContextEntry} (h : SampleEntries l) (ws : Uuid) : ∃ c : ContextCheckpoint, c.workspaceId = ws ∧
    c.logicalState.get "entries" = entriesJson l := by
  obtain ⟨d, -⟩ := digest_of_writable writable_null
  obtain ⟨c, -, hws, -, -, hcontent⟩ := (h.storable ws).exists_checkpoint (numberedUuid 7) d.eventRef d.eventRef d.prefix_eventRef
  refine ⟨c, hws, ?_⟩
  rw [hcontent.logicalState, LogicalState.toDict]
  simp [get_mkObj, LogicalState.bare]

/-- A decision that the left side has made is selected, and in the mirror image, where the right side has made it, it is too. -/
theorem exists_between_symmetric : ∃ a ancestor left right x y, between a ancestor left right = .ok x ∧
    between a ancestor right left = .ok y ∧ x.selectedEntryIds.1 ≠ [] ∧ x.Mirror y := by
  obtain ⟨ancestor, -, hancestor⟩ := exists_bare .nil (numberedUuid 0)
  obtain ⟨c, -, hc⟩ := exists_bare .one (numberedUuid 1)
  let a : Arguments := ⟨.decisions, numberedUuid 2, none, none⟩
  have hentry : keyed (entriesJson [decision]) "entry_id" "entries" = .ok [(decision.entryId.1, decision.toDict.plain)] := by rfl
  have ho : outcomes .decisions none ancestor c ancestor = .ok [.selected decision.entryId.1] := by
    simp only [outcomes, hancestor, hc, hentry]
    rfl
  have hselected : sortedUniqueText (.arr ((selectedKeys [.selected decision.entryId.1]).map .str)) "selected_entry_ids" 512 =
      .ok ⟨[⟨decision.entryId.1, by decide⟩], List.pairwise_singleton _ _, by decide⟩ := by rfl
  obtain ⟨x, hx, -, -, -, hids, -⟩ := @exists_between a ancestor ⟨c, none⟩ ⟨ancestor, none⟩ _ _ _ _ _ _ rfl ho rfl rfl rfl
    (Nat.zero_le _) nofun hselected
  obtain ⟨hiff, hmirror⟩ := between_symmetric a (by decide) ancestor ⟨c, none⟩ ⟨ancestor, none⟩
  obtain ⟨y, hy⟩ := hiff.mp ⟨x, hx⟩
  exact ⟨a, ancestor, _, _, x, y, hx, hy, by rw [hids]; exact List.cons_ne_nil _ _, hmirror x y hx hy⟩

end NarrowReconciliation
end LeanCtx
