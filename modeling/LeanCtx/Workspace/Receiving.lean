import LeanCtx.Workspace.Delivering

/-! Receiving: a sample workspace admits the handoff of its own checkpoint and applies it. -/

namespace LeanCtx
open Json

/-! ### Values that sample events carry -/

/-- A value with its keys in order and without secrets, of at most some bytes. -/
structure Modest (m : Nat) (v : Json) : Prop where
  plain : IsPlain v
  safe : Safe v
  writable : Writable v
  small : byteLength v ≤ m

theorem Modest.mono {m n : Nat} {v : Json} (h : Modest m v) (hmn : m ≤ n) : Modest n v :=
  ⟨h.plain, h.safe, h.writable, h.small.trans hmn⟩

theorem modest_of_closed {m : Nat} {v : Json} (h : (decide (v.plain = v) && v.strings.all (fun s => !isSensitive s) &&
    v.canonicalBytes?.isSome && decide (byteLength v ≤ m)) = true) : Modest m v := by
  simp only [Bool.and_eq_true, decide_eq_true_eq, List.all_eq_true, Bool.not_eq_true'] at h
  exact ⟨h.1.1.1, h.1.1.2, Option.isSome_iff_exists.mp h.1.2, h.2⟩

theorem modest_uuid (u : Uuid) : Modest 100 u.json :=
  ⟨rfl, safe_uuid u, writable_uuid u, by rw [byteLength_uuid]; decide⟩

theorem modest_digest (d : Digest) : Modest 100 d.json :=
  ⟨rfl, safe_digest d, writable_digest d, by rw [byteLength_digest]; decide⟩

theorem modest_null : Modest 100 .null := modest_of_closed (by decide)

theorem modest_mkObj {f : List (String × Json)} {m n : Nat} (ks : List String) (hks : f.map (·.1) = ks)
    (hkeys : ks.all (fun k => decide ((quote (Str.lit k)).utf8Length ≤ 38) && !isSensitive (Str.lit k)) = true)
    (hnodup : ks.Nodup) (hne : ks ≠ []) (hn : 1 + ks.length * (m + 40) ≤ n) (h : ∀ p ∈ f, Modest m p.2) : Modest n (mkObj f) := by
  have hshort : ks.all (fun k => decide ((quote (Str.lit k)).utf8Length ≤ 38)) = true := List.all_eq_true.mpr fun k hk =>
    (Bool.and_eq_true_iff.mp (List.all_eq_true.mp hkeys k hk)).1
  have hsafe : ks.all (fun k => !isSensitive (Str.lit k)) = true := List.all_eq_true.mpr fun k hk =>
    (Bool.and_eq_true_iff.mp (List.all_eq_true.mp hkeys k hk)).2
  have hnil : f ≠ [] := by
    rintro rfl
    exact hne hks.symm
  obtain ⟨hwritable, hlength⟩ := small_mkObj ks hks hshort hnodup hnil fun p hp => ⟨(h p hp).writable, (h p hp).small⟩
  refine ⟨isPlain_mkObj fun p hp => (h p hp).plain, safe_mkObj ks hks hsafe fun p hp => (h p hp).safe, hwritable, ?_⟩
  rw [← hks, List.length_map] at hn
  exact hlength.trans hn

theorem WorkspaceStateRef.modest_toDict (x : WorkspaceStateRef) : Modest 9000 x.toDict :=
  ⟨x.isPlain_toDict, x.safe_toDict, x.small_toDict.1, x.small_toDict.2⟩

variable {k : HandoffSample} {source receiver : WorkspaceStateRef} {target handoffId : Uuid} {d : Digest}

theorem modest_handoff (hk : k ≠ .leaky) : Modest 120000 (handoffFields k source target handoffId d).toDict := by
  refine modest_mkObj (m := 9000) ["schema_version", "handoff_id", "source", "target", "task", "selected_entries", "source_anchors",
    "recovery_refs", "package_refs", "required_policy_floor", "bounds", "handoff_digest"] rfl (by decide) (by decide) (by decide)
    (by decide) ?_
  have htarget : Modest 9000 (mkObj [("workspace_id", target.json), ("role", optional Text.json (none : Option (Text 128)))]) :=
    modest_mkObj (m := 100) ["workspace_id", "role"] rfl (by decide) (by decide) (by decide) (by decide)
      (by simp [modest_uuid, optional, modest_null])
  have hclosed : ∀ {v : Json}, _ → Modest 9000 v := fun h => modest_of_closed h
  have hsample : Modest 9000 k.task.json ∧ Modest 9000 (.arr (k.anchors.map SourceAnchor.toDict)) := by
    cases k with
    | leaky => exact absurd rfl hk
    | _ => exact ⟨hclosed (by decide +kernel), hclosed (by decide +kernel)⟩
  simp only [HandoffFields.unsignedFields, handoffFields, List.cons_append, List.nil_append, List.mem_cons, List.not_mem_nil, or_false,
    forall_eq_or_imp, forall_eq]
  exact ⟨hclosed (by decide), (modest_uuid _).mono (by decide), source.modest_toDict, htarget, hsample.1,
    hclosed (by decide +kernel), hsample.2, hclosed (by decide +kernel), hclosed (by decide +kernel),
    hclosed (by decide +kernel), hclosed (by decide +kernel), (modest_digest _).mono (by decide)⟩

/-- The fields of a report without conflicts. -/
def reportFields (left right : WorkspaceStateRef) (d : Digest) : ReportFields where
  base := none
  left := left
  right := right
  ancestry := .exact
  entries := []
  reportId := d

theorem modest_report : Modest 64000 (reportFields source receiver d).toDict := by
  refine modest_mkObj (m := 9000) ["schema_version", "base", "left", "right", "ancestry", "entries", "report_id"] rfl
    (by decide) (by decide) (by decide) (by decide) ?_
  simp only [ReportFields.unsignedFields, reportFields, List.cons_append, List.nil_append, List.mem_cons, List.not_mem_nil, or_false,
    forall_eq_or_imp, forall_eq]
  exact ⟨modest_of_closed (by decide), modest_null.mono (by decide), source.modest_toDict, receiver.modest_toDict,
    modest_of_closed (by decide), modest_of_closed (by decide), (modest_digest _).mono (by decide)⟩

namespace HandoffSample

/-- What a receiver without sources finds of the sources of a sample handoff. -/
def sourceResult : HandoffSample → SourceResult
  | .anchored => .unavailable
  | _ => .available

def decision : HandoffSample → Decision
  | .anchored => .degraded
  | _ => .admitted

def reasonCodes : HandoffSample → Texts 16
  | .anchored => ⟨[⟨Str.lit "SOURCE_UNAVAILABLE", by decide⟩], List.pairwise_singleton _ _, by decide⟩
  | _ => ⟨[], List.Pairwise.nil, by decide⟩

end HandoffSample

/-- The fields of the admission of a sample handoff. -/
def admissionFields (k : HandoffSample) (h : ContextHandoff) (receiver : Uuid) (report : ConflictReport) (d : Digest) :
    AdmissionFields where
  handoffId := h.handoffId
  handoffDigest := h.handoffDigest
  receiverWorkspaceId := receiver
  targetResult := .matching
  lineageResult := .verified
  policyResult := .monotonic
  packageResult := .exact
  sourceResult := k.sourceResult
  conflicts := report
  decision := k.decision
  reasonCodes := k.reasonCodes
  admissionDigest := d

theorem modest_admission {h : ContextHandoff} {report : ConflictReport} (hreport : Modest 64000 report.toDict) (ws : Uuid) :
    Modest 900000 (admissionFields k h ws report d).toDict := by
  refine modest_mkObj (m := 64000) ["schema_version", "handoff_id", "handoff_digest", "receiver_workspace_id", "target_result",
    "lineage_result", "policy_result", "package_result", "source_result", "conflicts", "decision", "reason_codes", "admission_digest"] rfl
    (by decide) (by decide) (by decide) (by decide) ?_
  have hname : ∀ n ∈ [AdmissionFields.schema, "match", "verified", "monotonic", "exact"], Modest 64000 (.str n) := by
    intro n hn
    simp only [List.mem_cons, List.not_mem_nil, or_false] at hn
    rcases hn with rfl | rfl | rfl | rfl | rfl <;> exact modest_of_closed (by decide)
  have hsample : Modest 64000 (.str k.sourceResult.name) ∧ Modest 64000 (.str k.decision.name) ∧ Modest 64000 k.reasonCodes.json := by
    cases k <;> exact ⟨modest_of_closed (by decide), modest_of_closed (by decide), modest_of_closed (by decide)⟩
  simp only [List.mem_cons, List.not_mem_nil, or_false, forall_eq_or_imp, forall_eq] at hname
  obtain ⟨hschema, hmatch, hverified, hmonotonic, hexact⟩ := hname
  simp only [AdmissionFields.unsignedFields, admissionFields, List.cons_append, List.nil_append, List.mem_cons, List.not_mem_nil, or_false,
    forall_eq_or_imp, forall_eq]
  exact ⟨hschema, (modest_uuid _).mono (by decide), (modest_digest _).mono (by decide), (modest_uuid _).mono (by decide), hmatch,
    hverified, hmonotonic, hexact, hsample.1, hreport, hsample.2.1, hsample.2.2, (modest_digest _).mono (by decide)⟩

/-! ### Admission -/

section
variable {s : State} {c : ContextCheckpoint} {h : ContextHandoff} {n : Nat} {ws hid : Uuid} {l : List ProjectContextEntry}

/-- A sample handoff that names a checkpoint of its receiver. -/
structure State.Sample.Handoff (s : State) (k : HandoffSample) (c : ContextCheckpoint) (h : ContextHandoff) : Prop where
  checkpoint : ∃ l, SampleCheckpoint c l
  stored : s.checkpoints.get? c.checkpointId = some c
  workspace : c.workspaceId = s.identity.workspaceId
  root : s.forkLineage = none
  fields : ∃ hid d, h.toHandoffFields =
    handoffFields k ⟨c.workspaceId, c.checkpointId, c.stateDigest, c.envelopeDigest, none, nofun⟩ c.workspaceId hid d

theorem SampleCheckpoint.logical_get (h : SampleCheckpoint c l) : c.logicalState.get "entries" = entriesJson l ∧
    c.logicalState.get "sources" = .arr [] ∧ c.logicalState.get "package_pins" = .arr [] := by
  rw [h.logicalState, LogicalState.toDict]
  simp only [get_mkObj, LogicalState.bare]
  exact ⟨rfl, rfl, rfl⟩

theorem exists_report (source receiver : WorkspaceStateRef) : ∃ report, ConflictReport.create none source receiver .exact [] = .ok report ∧
    ∃ d, report.toReportFields = reportFields source receiver d := by
  have hwritable : Writable (mkObj (reportFields source receiver source.stateDigest).unsignedFields) := by
    refine writable_mkObj ?_
    simp only [ReportFields.unsignedFields, reportFields, List.mem_cons, List.not_mem_nil, or_false, forall_eq_or_imp, forall_eq]
    exact ⟨writable_lit _, writable_null, source.modest_toDict.writable, receiver.modest_toDict.writable, writable_lit _,
      writable_arr fun _ h => absurd h List.not_mem_nil⟩
  obtain ⟨d, hd⟩ := domainDigest_of_writable "leanctx.conflict-report.v1" hwritable
  rw [← parallelDigest_eq_ok] at hd
  have hcheck : (reportFields source receiver d).check = .ok () := by
    have hunsigned : (reportFields source receiver d).unsignedFields = (reportFields source receiver source.stateDigest).unsignedFields := rfl
    simp only [ReportFields.check, hunsigned, hd, bind_eq_ok, ensure_eq_ok, exists_const, Except.ok.injEq, exists_eq_left']
    exact ⟨Nat.zero_le _, rfl, rfl⟩
  refine ⟨⟨reportFields source receiver d, hcheck⟩, ?_, d, rfl⟩
  exact bind_eq_ok.mpr ⟨(), ensure_true (Nat.zero_le _) _, bind_eq_ok.mpr ⟨d, hd, ConflictReport.make_eq_ok.mpr rfl⟩⟩

theorem exists_admission (k : HandoffSample) (h : ContextHandoff) (ws : Uuid) {report : ConflictReport}
    (hreport : Modest 64000 report.toDict) (hnone : report.entries = []) : ∃ d, (admissionFields k h ws report d).check = .ok () ∧
    parallelDigest "leanctx.handoff-admission.v1" (mkObj (admissionFields k h ws report d).unsignedFields) = .ok d := by
  have hall := modest_admission (k := k) (h := h) (d := h.handoffDigest) hreport ws
  have hwritable : Writable (mkObj (admissionFields k h ws report h.handoffDigest).unsignedFields) := by
    refine writable_mkObj fun p hp => ?_
    exact writable_of_mkObj (by simp [AdmissionFields.unsignedFields]) hall.writable p (List.mem_append_left _ hp)
  obtain ⟨d, hd⟩ := domainDigest_of_writable "leanctx.handoff-admission.v1" hwritable
  rw [← parallelDigest_eq_ok] at hd
  have hunsigned : (admissionFields k h ws report d).unsignedFields = (admissionFields k h ws report h.handoffDigest).unsignedFields := rfl
  refine ⟨d, ?_, hunsigned ▸ hd⟩
  have hsound : (admissionFields k h ws report d).hardFailure = false := by
    cases k <;> simp [AdmissionFields.hardFailure, admissionFields, hnone, HandoffSample.sourceResult]
  simp only [AdmissionFields.check, hunsigned, hd, bind_eq_ok, ensure_eq_ok, exists_const, Except.ok.injEq, exists_eq_left', hsound]
  cases k <;> simp [admissionFields, HandoffSample.decision, HandoffSample.sourceResult, HandoffSample.reasonCodes]

theorem State.Sample.Handoff.exists_admitHandoff (hs : s.Sample ws l n) (hh : Handoff s k c h) :
    ∃ x report d, s.admitHandoff (some s) [] h c = .ok x ∧ x.toAdmissionFields = admissionFields k h c.workspaceId report d ∧
      report.entries = [] ∧ Modest 64000 report.toDict := by
  obtain ⟨hid, hd, hfields⟩ := hh.fields
  obtain ⟨l', hcheckpoint⟩ := hh.checkpoint
  obtain ⟨bytes, hbytes⟩ := canonical_of_writable hcheckpoint.small.1
  have hcheck : s.checkStored c = .ok () := by
    rw [State.checkStored, hh.stored]
    simp only [hbytes, ok_bind, ensure_of_true]
  have hlineage : s.admitsLineage (some s) h = true := by
    rw [State.admitsLineage, ContextHandoff.sourceLineage, hfields]
    simp [handoffFields, hh.workspace, hh.stored, hh.root]
  have href : WorkspaceStateRef.fromCheckpoint c s.forkLineage =
      .ok ⟨c.workspaceId, c.checkpointId, c.stateDigest, c.envelopeDigest, none, nofun⟩ := by
    rw [hh.root, WorkspaceStateRef.fromCheckpoint, WorkspaceStateRef.make, dif_pos]
  have hconflicts : ∀ r, s.handoffConflicts r h = .ok [] := by
    intro r
    obtain ⟨b, hb⟩ := canonical_of_writable decision.writable_toDict
    rw [State.handoffConflicts, hfields, hs.entries]
    rcases hs.content with rfl | rfl
    · rfl
    · have hfound : [decision].reverse.find? (fun y => y.entryId = decision.entryId) = some decision := rfl
      simp only [handoffFields, List.foldlM_cons, List.foldlM_nil, ProjectContextEntry.fromDict_toDict, ok_bind, hfound, hb, if_pos]
      rfl
  obtain ⟨report, hreport, rd, hreportFields⟩ := exists_report h.source ⟨c.workspaceId, c.checkpointId, c.stateDigest, c.envelopeDigest,
    none, nofun⟩
  have hnone : report.entries = [] := by rw [hreportFields]; rfl
  have hmodest : Modest 64000 report.toDict := by
    rw [hreportFields]
    exact modest_report
  obtain ⟨d, hvalid, hdigest⟩ := exists_admission k h c.workspaceId hmodest hnone
  refine ⟨⟨admissionFields k h c.workspaceId report d, hvalid⟩, report, d, ?_, rfl, hnone, hmodest⟩
  obtain ⟨-, hsources, hpins⟩ := hcheckpoint.logical_get
  have hfindings : HandoffAdmission.findings h c [] = .ok ⟨true, true, true, !k.anchors.isEmpty, false, false⟩ := by
    have hempty : sortedUniqueText (.arr (([] : List Str).map .str)) "available_source_ids" maxHandoffAnchors =
      .ok ⟨[], List.Pairwise.nil, by decide⟩ := rfl
    rw [HandoffAdmission.findings, hcheckpoint.policy, ok_bind, hempty, ok_bind, hfields, hsources]
    cases k <;> simp [handoffFields, WorkspacePolicy.isTightening_refl, HandoffSample.anchors, lastWith, itemsOf]
  have hreasons : sortedUniqueText (.arr ((HandoffAdmission.reasons ⟨true, true, true, !k.anchors.isEmpty, false, false⟩ true report).map
      fun r => .str (Str.lit r))) "reason_codes" 16 = .ok k.reasonCodes := by
    simp only [HandoffAdmission.reasons, hnone]
    cases k <;> rfl
  have hdecision : HandoffAdmission.decisionOf ⟨true, true, true, !k.anchors.isEmpty, false, false⟩ true report = k.decision := by
    cases k <;> simp [HandoffAdmission.decisionOf, hnone, HandoffAdmission.Findings.source, HandoffSample.anchors, HandoffSample.decision]
  have hsource : (if HandoffAdmission.Findings.source ⟨true, true, true, !k.anchors.isEmpty, false, false⟩ = true then SourceResult.available
      else if false = true then .mismatch else .unavailable) = k.sourceResult := by
    cases k <;> rfl
  have havailable : (((s.sources.items.filter fun p => p.2.engineBinding.isSome || p.1 ∈ ([] : List SourceId)).map fun p => p.1.1).insertionSort
      (· ≤ ·)) = [] := by
    rw [hs.sources]
    rfl
  rw [State.admitHandoff, hcheck, ok_bind]
  simp only [hlineage, href, ok_bind, hconflicts, if_true, hreport, havailable]
  rw [HandoffAdmission.evaluate, hfindings, ok_bind, hreasons, ok_bind]
  simp only [hdecision, hsource]
  exact bind_eq_ok.mpr ⟨d, hdigest, HandoffAdmission.make_eq_ok.mpr rfl⟩

/-! ### Application -/

theorem modest_handoffPayload {h : ContextHandoff} {x : HandoffAdmission} (hh : Modest 120000 h.toDict) (hx : Modest 900000 x.toDict) :
    Modest 2000000 (mkObj (handoffPayload h x)) := by
  refine modest_mkObj (m := 900000) ["handoff", "admission"] rfl (by decide) (by decide) (by decide) (by decide) ?_
  simp only [handoffPayload, List.mem_cons, List.not_mem_nil, or_false, forall_eq_or_imp, forall_eq]
  exact ⟨hh.mono (by decide), hx⟩

/-- The sources that a sample handoff brings. -/
def HandoffSample.imported : HandoffSample → Dict SourceId SourceAnchor
  | .anchored => Dict.empty.set verifiedAnchor.sourceId verifiedAnchor
  | _ => .empty

theorem HandoffSample.eq_of_mem_imported {k : HandoffSample} {a : SourceAnchor} (h : a ∈ k.imported.values) : a = verifiedAnchor := by
  cases k with
  | anchored =>
    rcases Dict.mem_values_set h with h | h
    · exact h
    · cases h
  | plain => cases h
  | leaky => cases h

/-- The entries that a sample handoff brings. -/
def handedEntries (l : List ProjectContextEntry) : List ProjectContextEntry := if l = [] then [LeanCtx.decision] else []

theorem append_handedEntries (hl : SampleEntries l) : l ++ handedEntries l = [decision] := by
  rcases hl with rfl | rfl <;> rfl

/-- A sample workspace applies a sample handoff. -/
theorem State.Sample.Handoff.applyEvent_handoff {x : HandoffAdmission} {report : ConflictReport} {d : Digest} {e : Event}
    (hs : s.Sample ws l n) (hn : n + 1 < 20) (hh : Handoff s k c h) (hk : k ≠ .leaky) (hnew : s.appliedHandoffs.get? h.handoffId = none)
    (hx : x.toAdmissionFields = admissionFields k h c.workspaceId report d) (hnone : report.entries = [])
    (hreport : Modest 64000 report.toDict) (hkind : e.kind = .handoffApplied) (hpayload : e.payload = (mkObj (handoffPayload h x)).plain)
    (hid : e.eventId = numberedUuid (n + 1)) : ∃ receipt, applyEvent false (some s) e =
      .ok ((s.handedOver k.imported (handedEntries l) ⟨h.handoffId, h.handoffDigest, e.eventId⟩).after e receipt) := by
  obtain ⟨hid', hd, hfields⟩ := hh.fields
  have hmodest : Modest 2000000 (mkObj (handoffPayload h x)) := by
    refine modest_handoffPayload ?_ ?_
    · rw [hfields]
      exact modest_handoff hk
    · rw [hx]
      exact modest_admission hreport _
  rw [hmodest.plain] at hpayload
  have hgets : (mkObj (handoffPayload h x)).get "handoff" = h.toDict ∧ (mkObj (handoffPayload h x)).get "admission" = x.toDict := by
    simp [handoffPayload, get_mkObj]
  have hcheck : checkPayload e = .ok () := checkPayload_of_safe hpayload (by rw [hkind]; rfl) hmodest.safe
  have hlineage : s.lineageOk h.source = true := by
    rw [State.lineageOk, hfields]
    simp [handoffFields, hh.workspace, hh.stored, hh.root, isSource]
  have htarget : h.targetWorkspaceId = s.identity.workspaceId := by
    rw [hfields]
    exact hh.workspace
  have hfloor : s.policy.isTightening h.requiredPolicyFloor = true := by
    rw [hfields, hs.policy]
    exact WorkspacePolicy.isTightening_refl _
  have hids : x.handoffId = h.handoffId ∧ x.handoffDigest = h.handoffDigest ∧ x.receiverWorkspaceId = s.identity.workspaceId ∧
      x.decision ≠ .rejected ∧ h.targetWorkspaceId = s.identity.workspaceId := by
    rw [hx]
    exact ⟨rfl, rfl, hh.workspace, by cases k <;> rintro ⟨⟩, htarget⟩
  have hresults : s.lineageOk h.source = true ∧ x.lineageResult = .verified ∧ x.targetResult = .matching ∧
      x.policyResult = .monotonic ∧ x.packageResult = .exact ∧ x.conflicts.entries = [] ∧
      s.policy.isTightening h.requiredPolicyFloor = true := by
    rw [hx]
    exact ⟨hlineage, rfl, rfl, rfl, rfl, hnone, hfloor⟩
  have hrecord : s.checkNotApplied ⟨h.handoffId, h.handoffDigest, e.eventId⟩ = .ok () := State.checkNotApplied_eq_ok.mpr hnew
  have hparts : h.sourceAnchors = k.anchors.map SourceAnchor.toDict ∧ h.packageRefs = [] ∧ h.selectedEntries = [decision.toDict] := by
    rw [hfields]
    exact ⟨rfl, rfl, rfl⟩
  have himported : s.importedSources x.decision (k.anchors.map SourceAnchor.toDict) = .ok k.imported := by
    rw [hx]
    cases k with
    | anchored =>
      have hread : SourceAnchor.fromDict verifiedAnchor.toDict true = .ok verifiedAnchor :=
        SourceAnchor.fromDict_toDict ⟨by decide, by decide⟩ fun _ => rfl
      have habsent : s.sources.get? verifiedAnchor.sourceId = none := by rw [hs.sources]; rfl
      simp only [State.importedSources, HandoffSample.anchors, List.map_cons, List.map_nil, List.foldlM_cons, List.foldlM_nil, hread,
        projecting_ok, ok_bind, habsent]
      rfl
    | _ => rfl
  have hdecision : State.checkDecision x k.imported = .ok () := by
    rw [State.checkDecision, hx]
    cases k <;> rfl
  have happended : s.appendedEntries k.imported [decision.toDict] = .ok (handedEntries l) := by
    rw [State.appendedEntries, hs.entries]
    rcases hs.content with rfl | rfl
    · have hallowed : decision.category ∈ s.policy.allowedCategories := by
        rw [hs.policy]
        decide
      have hfound : ∀ i ∈ decision.sourceIds.1, s.sources.contains i = true ∨ k.imported.contains i = true :=
        fun i hi => absurd hi List.not_mem_nil
      simp only [List.foldlM_cons, List.foldlM_nil, ProjectContextEntry.fromDict_toDict, projecting_ok, ok_bind, List.append_nil,
        List.reverse_nil, List.find?_nil, ensure_true hallowed, ensure_true hfound]
      rfl
    · have hfound : ([decision] ++ []).reverse.find? (fun y => y.entryId = decision.entryId) = some decision := rfl
      simp only [List.foldlM_cons, List.foldlM_nil, ProjectContextEntry.fromDict_toDict, projecting_ok, ok_bind, hfound, pyEq_refl]
      rfl
  have hsources : ∀ a ∈ k.imported.values, a = verifiedAnchor := fun _ => HandoffSample.eq_of_mem_imported
  have hvalues : ∀ a ∈ (s.sources.update k.imported).values, a = verifiedAnchor := by
    intro a ha
    rcases Dict.mem_values_update ha with ha | ha
    · rw [hs.sources] at ha
      cases ha
    · exact hsources a ha
  have hbounds : (s.handedOver k.imported (handedEntries l) ⟨h.handoffId, h.handoffDigest, e.eventId⟩).ensureBounds true = .ok () := by
    refine SampleEntries.one.ensureBounds hs.policy ?_ ?_ ?_ ?_ ?_
    · show s.entries ++ handedEntries l = [decision]
      rw [hs.entries, append_handedEntries hs.content]
    · show s.events.length ≤ 1000
      rw [hs.events]
      omega
    · show (s.sources.update k.imported).size ≤ 1000
      rw [hs.sources]
      cases k <;> decide
    · show s.sessions.length ≤ _
      rw [hs.sessions]
      exact Nat.zero_le _
    · show s.packagePins.size ≤ _
      rw [hs.pins]
      exact Nat.zero_le _
  have hexternal : k.imported.values.forM (s.handedOver k.imported (handedEntries l)
      ⟨h.handoffId, h.handoffDigest, e.eventId⟩).ensureExternalAllowed = .ok () :=
    forM_eq_ok.mpr fun a ha => ensure_true (Or.inl (by rw [hsources a ha]; rfl)) _
  have heffect : s.effect false e = .ok (s.handedOver k.imported (handedEntries l) ⟨h.handoffId, h.handoffDigest, e.eventId⟩) := by
    rw [State.effect, hkind]
    simp only [hpayload, State.applyHandoff, hgets]
    rw [ContextHandoff.fromDict_toDict, projecting_ok, ok_bind, HandoffAdmission.fromDict_toDict, projecting_ok, ok_bind,
      ensure_true hids, ok_bind, ensure_true hresults, ok_bind, hrecord, ok_bind, hparts.1, hparts.2.1, hparts.2.2, himported, ok_bind,
      hdecision, ok_bind, show s.checkPins [] = .ok () from rfl, ok_bind, happended, ok_bind, hexternal, projecting_ok, ok_bind, hbounds]
    rfl
  obtain ⟨receipt, hr⟩ := State.recordEvent_of_empty (s := s.handedOver k.imported (handedEntries l)
    ⟨h.handoffId, h.handoffDigest, e.eventId⟩) (e := e) ⟨hs.policy ▸ small_openPolicy, fun a ha => by
      rw [hvalues a ha]
      exact Option.isSome_iff_exists.mp (by decide +kernel)⟩ (by rw [ReceiptParts.ofEvent, hkind])
    ((State.ensureBounds_withEvent _ e).trans hbounds) (hs.newEvent hn hid)
  exact ⟨receipt, applyEvent_some.mpr ⟨hcheck, by rw [hkind]; decide, hs.lifecycle, _, heffect, hr⟩⟩

/-- The state after the application of a plain handoff, before its event is recorded. -/
def State.applied (s : State) (h : ContextHandoff) (eventId : Uuid) : State :=
  { s with entries := [decision], appliedHandoffs := s.appliedHandoffs.set h.handoffId ⟨h.handoffId, h.handoffDigest, eventId⟩ }

theorem State.Sample.Handoff.step_handoff {x : HandoffAdmission} {report : ConflictReport} {d : Digest} (hs : s.Sample ws l n)
    (hn : n + 1 < 20) (hh : Handoff s .plain c h) (hnew : s.appliedHandoffs.get? h.handoffId = none)
    (hx : x.toAdmissionFields = admissionFields .plain h c.workspaceId report d) (hnone : report.entries = [])
    (hreport : Modest 64000 report.toDict) :
    Step s (s.applied h (numberedUuid (n + 1))) ws [decision] n .handoffApplied (mkObj (handoffPayload h x)) := by
  obtain ⟨hid', hd, hfields⟩ := hh.fields
  have hmodest : Modest 2000000 (mkObj (handoffPayload h x)) := by
    refine modest_handoffPayload ?_ ?_
    · rw [hfields]
      exact modest_handoff nofun
    · rw [hx]
      exact modest_admission hreport _
  refine ⟨hmodest.writable, hmodest.small, fun e hkind hpayload hid => ?_, fun e receipt hid => ?_⟩
  · obtain ⟨receipt, hr⟩ := applyEvent_handoff hs hn hh nofun hnew hx hnone hreport hkind hpayload hid
    have hstate : s.handedOver HandoffSample.plain.imported (handedEntries l) ⟨h.handoffId, h.handoffDigest, e.eventId⟩ =
        s.applied h (numberedUuid (n + 1)) := by
      rw [State.handedOver, hs.entries, append_handedEntries hs.content, hid]
      rfl
    exact ⟨receipt, hstate ▸ hr⟩
  · exact hs.after .one hn hid s.checkpoints (s.appliedHandoffs.set h.handoffId ⟨h.handoffId, h.handoffDigest, numberedUuid (n + 1)⟩) receipt

end

/-! ### The operation -/

section
variable {s : State} {c : ContextCheckpoint} {h : ContextHandoff} {n : Nat} {ws : Uuid} {files : List EventFile}
  {l : List ProjectContextEntry}

/-- The arguments with which a sample workspace applies a handoff. -/
def applyArguments (c : ContextCheckpoint) (eventId : Uuid) : ApplyArguments where
  receiverCheckpoint := some c
  checkpointId := numberedUuid 40
  checkpointEventId := numberedUuid 41
  eventId := eventId
  root := fun _ => none
  bound := []

theorem State.Sample.Handoff.exists_apply (hs : s.Sample ws l n) (hn : n + 1 < 20) (hh : Handoff s .plain c h)
    (hnew : s.appliedHandoffs.get? h.handoffId = none) (hproject : project ws files = .ok s) : ∃ files' e receipt given,
      applyHandoffWorkspace ws files h (applyArguments c (numberedUuid (n + 1))) = (files', .ok given) ∧
      applyEvent false (some s) e = .ok ((s.applied h (numberedUuid (n + 1))).after e receipt) ∧ e.eventId = numberedUuid (n + 1) ∧
      ((s.applied h (numberedUuid (n + 1))).after e receipt).Sample ws [decision] (n + 1) ∧
      project ws files' = .ok ((s.applied h (numberedUuid (n + 1))).after e receipt) := by
  obtain ⟨x, report, d, hadmit, hx, hnone, hreport⟩ := Handoff.exists_admitHandoff hs hh
  have hstep := Handoff.step_handoff hs hn hh hnew hx hnone hreport
  obtain ⟨e, receipt, p, he, happly, hnext, happend, -, hfinal⟩ := hstep.append hs hn hproject
  obtain ⟨-, -, -, hid, -⟩ := Event.sealed_record he
  obtain ⟨hhid, hd, hfields⟩ := hh.fields
  have hself : s.senderOf (fun _ => none) h = some s := by
    rw [State.senderOf, if_pos]
    rw [hfields]
    exact hh.workspace
  have hsafe : Safe (mkObj (handoffPayload h x)) := by
    refine (modest_handoffPayload ?_ ?_).safe
    · rw [hfields]
      exact modest_handoff (by rintro ⟨⟩)
    · rw [hx]
      exact modest_admission hreport _
  have hadmitted : x.decision ≠ .rejected := by
    rw [hx]
    rintro ⟨⟩
  generalize hr : LeanCtx.append ws files ⟨.handoffApplied, mkObj (handoffPayload h x), numberedUuid (n + 1), false, .ok ()⟩ = r at happend
  obtain ⟨files', q⟩ := r
  obtain rfl : q = .ok p := happend
  refine ⟨files', e, receipt, p.receipt, ?_, happly, hid, hnext, files_of_append hr ▸ hfinal⟩
  rw [applyHandoffWorkspace, readState, hproject, catching_ok]
  simp only [hnew, receiverCheckpoint, applyArguments, readState, hproject, catching_ok, ok_bind, hself, hadmit, if_neg hadmitted,
    appendEvent, rejectSensitive_of_safe hsafe, hr]
  rfl

end

/-- A sample workspace with a handoff of its own. -/
theorem exists_handoff : ∃ s c₀ c files h, Machine.Reaches Accepts (fun _ e => e.kind ≠ .workspaceRestored) s ∧
    s.Sample (numberedUuid 0) [decision] 4 ∧ SampleCheckpoint c₀ [] ∧ c₀.workspaceId = numberedUuid 0 ∧
    s.checkpoints.get? c₀.checkpointId = some c₀ ∧ s.createHandoff c (handoffArguments (numberedUuid 0) (numberedUuid 30)) = .ok h ∧
    State.Sample.Handoff s .plain c h ∧ s.appliedHandoffs = .empty ∧ project (numberedUuid 0) files = .ok s := by
  obtain ⟨s, c₀, c, files, hreach, hsample, hc₀, hws₀, hstored₀, hc, hws, hstored, hlineage, happlied, hproject⟩ := exists_committed
  obtain ⟨h, hh, d, hfields⟩ := hc.exists_createHandoff hstored (by simp [hlineage]) (numberedUuid 0) (numberedUuid 30)
  refine ⟨s, c₀, c, files, h, hreach, hsample, hc₀, hws₀, hstored₀, hh, ⟨⟨_, hc⟩, hstored, hws.trans hsample.workspace.symm, hlineage, numberedUuid 30, d,
    ?_⟩, happlied, hproject⟩
  rw [hfields, ← hws]
  simp only [hlineage]

end LeanCtx
