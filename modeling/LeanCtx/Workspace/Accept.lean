import LeanCtx.Workspace.Replay

/-! What the state machine accepts: an event whose payload holds no secret, that a state can record, and the first event of a
    workspace of any identity and policy. -/

namespace LeanCtx
open Json

/-! ### Values without secrets -/

/-- No string of a value is a secret. -/
def Safe (v : Json) : Prop := ∀ s ∈ v.strings, isSensitive s = false

theorem rejectSensitive_of_safe {v : Json} (h : Safe v) (field : String) : rejectSensitive v field = .ok () :=
  rejectSensitive_eq_ok.mpr h

theorem mem_stringsList {l : List Json} {s : Str} : s ∈ stringsList l ↔ ∃ v ∈ l, s ∈ v.strings := by
  induction l with
  | nil => exact ⟨nofun, nofun⟩
  | cons v l ih => simp [stringsList_cons, ih]

theorem mem_stringsFields {f : List (Str × Json)} {s : Str} :
    s ∈ stringsFields f ↔ ∃ p ∈ f, s = p.1 ∨ s ∈ p.2.strings := by
  induction f with
  | nil => exact ⟨nofun, nofun⟩
  | cons p f ih => simp [stringsFields_cons, ih, or_assoc]

theorem safe_arr {l : List Json} (h : ∀ v ∈ l, Safe v) : Safe (.arr l) := by
  intro s hs
  obtain ⟨v, hv, hs⟩ := mem_stringsList.mp hs
  exact h v hv s hs

theorem safe_obj {f : List (Str × Json)} (h : ∀ p ∈ f, isSensitive p.1 = false ∧ Safe p.2) : Safe (.obj f) := by
  intro s hs
  obtain ⟨p, hp, rfl | hs⟩ := mem_stringsFields.mp hs
  · exact (h p hp).1
  · exact (h p hp).2 s hs

/-- An object whose keys are given is safe if the keys and its values are. -/
theorem safe_mkObj {f : List (String × Json)} (ks : List String) (hks : f.map (·.1) = ks)
    (hkeys : ks.all (fun k => !isSensitive (Str.lit k)) = true) (h : ∀ p ∈ f, Safe p.2) : Safe (mkObj f) := by
  refine safe_obj fun p hp => ?_
  obtain ⟨q, hq, rfl⟩ := List.mem_map.mp (mem_of_mem_sortFields hp)
  have hq' : q.1 ∈ ks := hks ▸ List.mem_map_of_mem hq
  exact ⟨by simpa using List.all_eq_true.mp hkeys q.1 hq', h q hq⟩

/-- The names and the schemas of what the state machine records. -/
def recordNames : List String :=
  ["admission", "allow_external_sources", "allow_unsigned", "allowed_categories", "anchor", "artifact_digest", "canonical_id", "category",
    "checkpoint", "checkpoint_envelope_digest", "checkpoint_id", "child_name", "child_workspace_id", "content_hash", "created_at",
    "effective_child_policy", "engine_binding", "engine_identity", "entries", "entry_id", "envelope_digest", "execution_ref", "fork",
    "fork_contract", "fork_digest", "fork_event_ref", "fork_id", "fork_lineage", "freshness", "identity", "inheritance_digest",
    "inherited_content_digest", "inherited_state", "interface_version", "kind", "lineage", "logical_state", "manifest_digest",
    "max_context_bytes", "max_context_entries", "max_entry_bytes", "max_events", "max_sessions", "max_sources", "name", "package",
    "package_digest", "package_lock_digest", "package_pins", "parent_checkpoint_envelope_digest", "parent_checkpoint_id",
    "parent_checkpoint_state_digest", "parent_policy", "parent_policy_digest", "parent_workspace_id", "policy", "policy_decision",
    "policy_digest", "policy_inheritance", "previous_policy_digest", "project_context_digest", "provenance", "receipt_refs", "recovery",
    "recovery_refs", "relation", "requested_child_policy", "revision", "schema_version", "scope", "sdk_contract", "session_id",
    "signature_state", "signer_public_key", "source", "source_anchors", "source_id", "source_ids", "sources", "state_digest", "state_id",
    "state_schema_version", "transport_version", "trust", "trust_state", "trusted_signer", "value", "version", "workspace_id",
    "workspace_state_ref", "leanctx.fork-lineage/v1", "leanctx.workspace-state-ref/v1", "leanctx.policy-inheritance/v1",
    "leanctx.workspace-fork/v1", "leanctx.workspace-identity/v1", "leanctx.project-context-entry/v1", "leanctx.workspace-policy/v1",
    "leanctx.package-pin/v1", "leanctx.workspace.state/v1", "leanctx.context-checkpoint/v2", "leanctx.source-anchor/v1"]

theorem isSensitive_recordNames : ∀ k ∈ recordNames, isSensitive (Str.lit k) = false := by decide +kernel

theorem all_insensitive {ks : List String} (h : ks ⊆ recordNames) : ks.all (fun k => !isSensitive (Str.lit k)) = true := by
  refine List.all_eq_true.mpr fun k hk => ?_
  rw [isSensitive_recordNames k (h hk)]
  rfl

theorem safe_str {s : Str} (h : isSensitive s = false) : Safe (.str s) := by
  intro t ht
  rwa [List.mem_singleton.mp ht]

theorem safe_name {k : String} (h : k ∈ recordNames) : Safe (.str (Str.lit k)) := safe_str (isSensitive_recordNames k h)

theorem safe_of_not_telling {s : Str} (h : ∀ c ∈ s, ¬Telling c) : Safe (.str s) := safe_str (isSensitive_eq_false h)

theorem safe_digest (d : Digest) : Safe d.json := safe_of_not_telling d.not_telling

theorem safe_uuid (u : Uuid) : Safe u.json := safe_of_not_telling u.not_telling

theorem safe_null : Safe .null := nofun

theorem safe_bool (b : Bool) : Safe (.bool b) := nofun

theorem safe_positive (n : Positive) : Safe n.json := nofun

theorem safe_map {α : Type} {f : α → Json} {l : List α} (h : ∀ a ∈ l, Safe (f a)) : Safe (.arr (l.map f)) := by
  refine safe_arr fun v hv => ?_
  obtain ⟨a, ha, rfl⟩ := List.mem_map.mp hv
  exact h a ha

/-- Putting keys in order does not change the strings. -/
theorem safe_plain {v : Json} (h : Safe v) : Safe v.plain := by
  revert h
  refine induct (P := fun v => Safe v → Safe v.plain) (fun h => h) (fun _ h => h) (fun _ h => h) (fun _ h => h)
    (fun _ h => h) (fun l ih h => ?_) (fun f ih h => ?_) v
  · rw [plain, plainList_eq]
    exact safe_map fun v hv => ih v hv fun s hs => h s (mem_stringsList.mpr ⟨v, hv, hs⟩)
  · rw [plain, plainFields_eq]
    refine safe_obj fun p hp => ?_
    obtain ⟨q, hq, rfl⟩ := List.mem_map.mp (mem_of_mem_sortFields hp)
    exact ⟨h q.1 (mem_stringsFields.mpr ⟨q, hq, Or.inl rfl⟩),
      ih q hq fun s hs => h s (mem_stringsFields.mpr ⟨q, hq, Or.inr hs⟩)⟩

theorem safe_dateTime (t : DateTime) : Safe t.json := by
  refine safe_of_not_telling fun c hc => ?_
  have := text_chars t c hc
  unfold Telling
  omega

theorem safe_category (c : Category) : Safe (.str c.name) := safe_str (by cases c <;> decide)

theorem WorkspacePolicy.safe_toDict (x : WorkspacePolicy) : Safe x.toDict := by
  refine safe_mkObj ["schema_version", "allowed_categories", "max_events", "max_context_entries", "max_entry_bytes",
    "max_context_bytes", "max_sources", "max_sessions", "allow_external_sources"] rfl (all_insensitive (by decide)) ?_
  simp only [List.mem_cons, List.not_mem_nil, or_false, forall_eq_or_imp, forall_eq]
  exact ⟨safe_str (by decide), safe_map fun c _ => safe_category c, safe_positive _, safe_positive _,
    safe_positive _, safe_positive _, safe_positive _, safe_positive _, safe_bool _⟩

theorem WorkspaceIdentity.safe_toDict {x : WorkspaceIdentity} (h : Safe x.name.json) : Safe x.toDict := by
  refine safe_mkObj ["schema_version", "workspace_id", "name", "created_at", "state_id"] rfl (all_insensitive (by decide)) ?_
  simp only [List.mem_cons, List.not_mem_nil, or_false, forall_eq_or_imp, forall_eq]
  exact ⟨safe_name (by decide), safe_uuid _, h, safe_dateTime _, safe_digest _⟩

theorem safe_refs {max : Nat} {l : Refs max} (h : ∀ r ∈ l.1, Safe r.json) : Safe l.json := safe_map h

theorem safe_ids {max : Nat} {l : Ids max} (h : ∀ i ∈ l.1, Safe i.json) : Safe l.json := safe_map h

/-- An entry that no source, session or receipt stands behind holds no secret if its value does not. -/
theorem ProjectContextEntry.safe_toDict {x : ProjectContextEntry} (hvalue : Safe x.value.json) (hsources : x.sourceIds.1 = [])
    (hsession : x.sessionId = none) (hreceipts : x.receiptRefs.1 = []) (hrecovery : x.recoveryRefs.1 = []) :
    Safe x.toDict := by
  refine safe_mkObj ["schema_version", "entry_id", "category", "value", "source_ids", "session_id", "receipt_refs",
    "recovery_refs"] rfl (all_insensitive (by decide)) ?_
  simp only [List.mem_cons, List.not_mem_nil, or_false, forall_eq_or_imp, forall_eq]
  exact ⟨safe_str (by decide), safe_uuid _, safe_category _, hvalue, safe_ids (by simp [hsources]),
    by rw [hsession]; exact safe_null, safe_refs (by simp [hreceipts]), safe_refs (by simp [hrecovery])⟩

/-! ### Identities -/

theorem writable_dateTime (t : DateTime) : Writable t.json := writable_str (isScalar_of_isText (isText_text t))

namespace WorkspaceIdentity

theorem writable_toDict (x : WorkspaceIdentity) : x.toDict.Writable := by
  refine writable_mkObj ?_
  simp [writable_lit, writable_uuid, writable_text, writable_dateTime, writable_digest]

/-- An identity is its own if its state's identifier is computed from it. -/
structure Own (x : WorkspaceIdentity) : Prop where
  stateId : digest (base x.workspaceId x.name x.createdAt) = .ok x.stateId
  year : 1000 ≤ x.createdAt.year

theorem fromDict_toDict {x : WorkspaceIdentity} (h : x.Own) : fromDict x.toDict = .ok x := by
  have htime := parseTimestamp_json h.year "created_at"
  have hmake : make x.workspaceId x.name x.createdAt = .ok x := by
    rw [make, h.stateId]
    rfl
  simp [fromDict, toDict, get_mkObj, htime, hmake]

/-- Every name and time give an identity. -/
theorem exists_own (workspaceId : Uuid) (name : Text 128) (createdAt : DateTime) (h : 1000 ≤ createdAt.year) :
    ∃ x : WorkspaceIdentity, x.Own ∧ x.workspaceId = workspaceId ∧ x.name = name ∧ x.createdAt = createdAt := by
  have hwritable : (base workspaceId name createdAt).Writable := by
    refine writable_mkObj ?_
    simp [writable_lit, writable_uuid, writable_text, writable_dateTime]
  obtain ⟨d, hd⟩ := digest_of_writable hwritable
  exact ⟨⟨workspaceId, name, createdAt, d⟩, ⟨hd, h⟩, rfl, rfl, rfl⟩

end WorkspaceIdentity

/-! ### Recording -/

theorem SessionRecord.writable_toDict (x : SessionRecord) : x.toDict.Writable := by
  refine writable_mkObj ?_
  simp [writable_text, Ids.json, writable_map]

theorem AppliedHandoff.writable_toDict (x : AppliedHandoff) : x.toDict.Writable := by
  refine writable_mkObj ?_
  simp [writable_uuid, writable_digest]

theorem writable_previousText (d : Option Digest) : Writable (.str (previousText d)) := by
  cases d with
  | none => exact writable_str (by decide)
  | some d => exact writable_digest d

/-- The numbers of the policy and the sources can be written. -/
structure State.Written (s : State) : Prop where
  policy : s.policy.Small
  sources : ∀ a ∈ s.sources.values, Writable a.toDict

namespace State
variable {s s' : State} {e : Event}

theorem Written.digest (h : s.Written) : ∃ d, s.digest = .ok d := by
  have hsources : Writable (.arr (s.sources.sortedValues.map SourceAnchor.toDict)) := writable_arr fun v hv => by
    obtain ⟨a, ha, rfl⟩ := List.mem_map.mp hv
    exact h.sources a (Dict.mem_sortedValues.mp ha)
  refine digest_of_writable (writable_mkObj ?_)
  simp only [List.mem_cons, List.not_mem_nil, or_false, forall_eq_or_imp, forall_eq]
  exact ⟨s.identity.writable_toDict, hsources, WorkspacePolicy.writable_toDict h.policy,
    writable_map SessionRecord.writable_toDict _, writable_entriesJson _, writable_optional ForkLineage.writable_toDict _,
    writable_map AppliedHandoff.writable_toDict _, by cases s.lifecycle <;> exact writable_lit _, writable_previousText _⟩

/-- What a receipt can say of its event. -/
structure Readable (parts : ReceiptParts) : Prop where
  sourceIds : ∃ x, ids parts.sourceIds "source_ids" maxReceiptIds = .ok x
  sessionId : ∃ x, optionalText parts.sessionId "session_id" 512 = .ok x
  engineRefs : ∃ x, refs parts.engineReceiptRefs "engine_receipt_refs" maxReceiptRefs = .ok x
  recoveryRefs : ∃ x, refs parts.recoveryRefs "recovery_refs" maxReceiptRefs = .ok x

theorem readable_empty : Readable .empty := ⟨⟨_, rfl⟩, ⟨_, rfl⟩, ⟨_, rfl⟩, ⟨_, rfl⟩⟩

/-- A new event is recorded by a state within its bounds. -/
theorem recordEvent_of_parts {parts : ReceiptParts} (h : s.Written) (hparts : ReceiptParts.ofEvent e = .ok parts)
    (hread : Readable parts) (hbounds : (s.withEvent e).ensureBounds false = .ok ())
    (hfresh : s.receipts.contains e.eventId = false) :
    ∃ receipt, s.recordEvent e = .ok { s.withEvent e with receipts := s.receipts.set e.eventId receipt } := by
  obtain ⟨d, hd⟩ := Written.digest (s := s.withEvent e) ⟨h.policy, h.sources⟩
  obtain ⟨⟨_, h1⟩, ⟨_, h2⟩, ⟨_, h3⟩, ⟨_, h4⟩⟩ := hread
  have hreceipt : ∃ receipt, receiptForEvent (s.withEvent e) e = .ok receipt := by
    rw [receiptForEvent, hparts, ok_bind, hd, ok_bind, h1, ok_bind, h2, ok_bind, h3, ok_bind, h4, ok_bind]
    exact ⟨_, rfl⟩
  obtain ⟨receipt, hreceipt⟩ := hreceipt
  exact ⟨receipt, recordEvent_eq_ok.mpr ⟨receipt, hbounds, hreceipt, hfresh, rfl⟩⟩

/-- An event that names no source and no session is recorded by a state within its bounds. -/
theorem recordEvent_of_empty (h : s.Written) (hparts : ReceiptParts.ofEvent e = .ok .empty)
    (hbounds : (s.withEvent e).ensureBounds false = .ok ()) (hfresh : s.receipts.contains e.eventId = false) :
    ∃ receipt, s.recordEvent e = .ok { s.withEvent e with receipts := s.receipts.set e.eventId receipt } :=
  recordEvent_of_parts h hparts readable_empty hbounds hfresh

end State

/-- A payload of the right keys without secrets passes what is checked of every payload. -/
theorem checkPayload_of_safe {e : Event} {f : List (String × Json)} (hpayload : e.payload = mkObj f)
    (hkeys : f.map (·.1) = payloadKeys e.kind) (hsafe : Safe (mkObj f)) : checkPayload e = .ok () := by
  rw [checkPayload, hpayload, rejectSensitive_of_safe hsafe, ok_bind, exact_mkObj hkeys, projecting_ok]

/-! ### The first event -/

/-- The payload of the event that creates a workspace. -/
def createdPayload (identity : WorkspaceIdentity) (policy : WorkspacePolicy) : Json :=
  Json.mkObj [("identity", identity.toDict), ("policy", policy.toDict)]

theorem exists_record (workspaceId : Uuid) (n : Positive) (eventId : Uuid) (kind : EventKind) {payload : Json}
    (previous : Option Digest) (hn : (natText n.1).length ≤ maxIntDigits) (h : Writable payload) :
    ∃ e, Event.record workspaceId n eventId kind payload previous = .ok e := by
  have hplain : Writable payload.plain := by
    obtain ⟨b, hb⟩ := h
    exact ⟨b, by rw [canonicalBytes?_plain, hb]⟩
  have hwritable : Writable (Json.mkObj (Event.unsignedFields workspaceId n eventId kind payload.plain previous)) := by
    refine writable_mkObj ?_
    simp only [Event.unsignedFields, List.mem_cons, List.not_mem_nil, or_false, forall_eq_or_imp, forall_eq]
    exact ⟨writable_lit _, writable_uuid _, writable_int (by simpa using hn), writable_uuid _, writable_lit _, hplain,
      writable_previousText _⟩
  obtain ⟨d, hd⟩ := digest_of_writable hwritable
  exact ⟨_, by rw [Event.record, hd]; rfl⟩

theorem plain_createdPayload (identity : WorkspaceIdentity) (policy : WorkspacePolicy) :
    (createdPayload identity policy).plain = createdPayload identity policy := by
  refine isPlain_mkObj ?_
  simp only [List.mem_cons, List.not_mem_nil, or_false, forall_eq_or_imp, forall_eq]
  refine ⟨isPlain_mkObj ?_, isPlain_mkObj ?_⟩
  · simp only [List.mem_cons, List.not_mem_nil, or_false, forall_eq_or_imp, forall_eq]
    exact ⟨rfl, rfl, rfl, rfl, rfl⟩
  · simp only [List.mem_cons, List.not_mem_nil, or_false, forall_eq_or_imp, forall_eq]
    refine ⟨rfl, isPlain_arr fun v hv => ?_, rfl, rfl, rfl, rfl, rfl, rfl, rfl⟩
    obtain ⟨c, -, rfl⟩ := List.mem_map.mp hv
    rfl

/-- A workspace of any identity and policy can be created. -/
theorem exists_created {identity : WorkspaceIdentity} {policy : WorkspacePolicy} (hown : identity.Own)
    (hsafe : Safe identity.name.json) (hsmall : policy.Small) (hempty : 2 ≤ policy.maxContextBytes.1) (eventId : Uuid)
    (allow : Bool) : ∃ e receipt,
      Event.record identity.workspaceId .one eventId .workspaceCreated (createdPayload identity policy) none = .ok e ∧
      applyEvent allow none e = .ok { (State.created identity policy).withEvent e with
        receipts := Dict.empty.set eventId receipt } := by
  have hwritable : (createdPayload identity policy).Writable := writable_mkObj <| by
    simp [identity.writable_toDict, WorkspacePolicy.writable_toDict hsmall]
  obtain ⟨e, he⟩ := exists_record identity.workspaceId .one eventId .workspaceCreated none (by decide)
    hwritable
  obtain ⟨-, hws, -, hid, hkind, hpayload, -⟩ := Event.sealed_record he
  rw [plain_createdPayload] at hpayload
  have hcheck : checkPayload e = .ok () := by
    refine checkPayload_of_safe hpayload (by rw [hkind]; rfl) (safe_mkObj ["identity", "policy"] rfl (all_insensitive (by decide)) ?_)
    simp only [List.mem_cons, List.not_mem_nil, or_false, forall_eq_or_imp, forall_eq]
    exact ⟨WorkspaceIdentity.safe_toDict hsafe, policy.safe_toDict⟩
  have hcreate : State.create e = .ok (State.created identity policy) := by
    have hidentity := WorkspaceIdentity.fromDict_toDict hown
    simp [State.create, hpayload, createdPayload, get_mkObj, hidentity, hws]
  have hbounds : ((State.created identity policy).withEvent e).ensureBounds false = .ok () := by
    have hbytes : stateContextBytes [] = .ok 2 := rfl
    have hpos : 1 ≤ policy.maxEvents.1 := policy.maxEvents.2
    simp [State.ensureBounds, State.created, State.withEvent, hbytes, hpos, hempty, Dict.size, Dict.empty]
  obtain ⟨receipt, hrecord⟩ := State.recordEvent_of_empty (s := State.created identity policy) (e := e)
    ⟨hsmall, fun _ ha => absurd ha List.not_mem_nil⟩ (by rw [ReceiptParts.ofEvent, hkind]) hbounds rfl
  rw [hid] at hrecord
  exact ⟨e, receipt, he, applyEvent_none.mpr ⟨hcheck, hkind, _, hcreate, hrecord⟩⟩

/-! ### Commits without a session -/

/-- The payload of a commit of entries without a session. -/
def commitPayload (l : List ProjectContextEntry) : Json :=
  Json.mkObj [("entries", entriesJson l), ("provenance", .null)]

/-- An entry that names no source, session or receipt. -/
structure ProjectContextEntry.Bare (x : ProjectContextEntry) : Prop where
  sourceIds : x.sourceIds.1 = []
  sessionId : x.sessionId = none
  receiptRefs : x.receiptRefs.1 = []
  recoveryRefs : x.recoveryRefs.1 = []

theorem ProjectContextEntry.isPlain_toDict (x : ProjectContextEntry) : IsPlain x.toDict := by
  have hmap : ∀ {α : Type} (f : α → Json) (l : List α), (∀ a, IsPlain (f a)) → IsPlain (.arr (l.map f)) := by
    intro α f l hf
    refine isPlain_arr fun v hv => ?_
    obtain ⟨a, -, rfl⟩ := List.mem_map.mp hv
    exact hf a
  refine isPlain_mkObj ?_
  simp only [List.mem_cons, List.not_mem_nil, or_false, forall_eq_or_imp, forall_eq]
  exact ⟨rfl, rfl, rfl, rfl, hmap _ _ fun _ => rfl, by cases x.sessionId <;> rfl, hmap _ _ fun _ => rfl,
    hmap _ _ fun _ => rfl⟩

theorem plain_commitPayload (l : List ProjectContextEntry) : (commitPayload l).plain = commitPayload l := by
  refine isPlain_mkObj ?_
  simp only [List.mem_cons, List.not_mem_nil, or_false, forall_eq_or_imp, forall_eq]
  refine ⟨isPlain_arr fun v hv => ?_, rfl⟩
  obtain ⟨x, -, rfl⟩ := List.mem_map.mp hv
  exact x.isPlain_toDict

theorem writable_commitPayload (l : List ProjectContextEntry) : (commitPayload l).Writable :=
  writable_mkObj (by simp [writable_entriesJson, writable_null])

/-- The receipt of a commit of bare entries names nothing. -/
theorem ofEvent_commit {e : Event} {l : List ProjectContextEntry} (hkind : e.kind = .contextCommitted)
    (hpayload : e.payload = commitPayload l) (hbare : ∀ x ∈ l, x.Bare) : ReceiptParts.ofEvent e = .ok .empty := by
  have hentries : (commitPayload l).get "entries" = entriesJson l := by simp [commitPayload, get_mkObj]
  have hsources : (l.flatMap fun x => x.sourceIds.1) = [] := List.flatMap_eq_nil_iff.mpr fun x hx => (hbare x hx).sourceIds
  have hreceipts : (l.flatMap fun x => x.receiptRefs.1) = [] :=
    List.flatMap_eq_nil_iff.mpr fun x hx => (hbare x hx).receiptRefs
  have hrecovery : (l.flatMap fun x => x.recoveryRefs.1) = [] :=
    List.flatMap_eq_nil_iff.mpr fun x hx => (hbare x hx).recoveryRefs
  have hsessions : l.filterMap (·.sessionId) = [] :=
    List.filterMap_eq_nil_iff.mpr fun x hx => (hbare x hx).sessionId
  rw [ReceiptParts.ofEvent, hkind]
  simp only [hpayload, hentries, entriesJson]
  rw [mapM_map entryFromInput_toDict, ok_bind, hsources, hreceipts, hrecovery, ReceiptParts.sessionOf, hsessions]
  rfl

/-- What a state needs to take a commit of bare entries. -/
structure State.Takes (s : State) (e : Event) (l : List ProjectContextEntry) : Prop where
  kind : e.kind = .contextCommitted
  payload : e.payload = commitPayload l
  active : s.lifecycle = .active
  written : s.Written
  nonempty : l ≠ []
  bare : ∀ x ∈ l, x.Bare
  safe : ∀ x ∈ l, Safe x.value.json
  fresh : ∀ x ∈ l, x.entryId ∉ s.entries.map (·.entryId)
  allowed : ∀ x ∈ l, x.category ∈ s.policy.allowedCategories ∧ x.value.1.utf8Length ≤ s.policy.maxEntryBytes.1
  bounds : ({ s with entries := s.entries ++ l } : State).ensureBounds true = .ok ()
  newEvent : s.receipts.contains e.eventId = false

/-- The bounds that a policy sets. -/
theorem State.ensureBounds_eq_ok {s : State} {extra : Bool} {u : Unit} : s.ensureBounds extra = .ok u ↔
    s.events.length + (if extra = true then 1 else 0) ≤ s.policy.maxEvents.1 ∧ s.sources.size ≤ s.policy.maxSources.1 ∧
      s.sessions.length ≤ s.policy.maxSessions.1 ∧ s.entries.length ≤ s.policy.maxContextEntries.1 ∧
      s.packagePins.size ≤ maxPackagePins ∧ (∀ x ∈ s.entries, x.value.1.utf8Length ≤ s.policy.maxEntryBytes.1) ∧
      ∃ n, stateContextBytes s.entries = .ok n ∧ n ≤ s.policy.maxContextBytes.1 := by
  simp only [ensureBounds, bind_eq_ok, ensure_eq_ok, exists_const]

/-- A bound that counts the next event counts it after it has been added. -/
theorem State.ensureBounds_withEvent (s : State) (e : Event) : (s.withEvent e).ensureBounds false = s.ensureBounds true := by
  have hcount : (s.withEvent e).events.length + (if false = true then 1 else 0) =
      s.events.length + (if true = true then 1 else 0) := by simp [withEvent]
  unfold ensureBounds
  rw [hcount]
  rfl

theorem applyEvent_commit {s : State} {e : Event} {l : List ProjectContextEntry} (h : s.Takes e l) (allow : Bool) :
    ∃ receipt, applyEvent allow (some s) e = .ok { ({ s with entries := s.entries ++ l } : State).withEvent e with
      receipts := s.receipts.set e.eventId receipt } := by
  have hentries : (commitPayload l).get "entries" = entriesJson l := by simp [commitPayload, get_mkObj]
  have hnull : (commitPayload l).get "provenance" = .null := by simp [commitPayload, get_mkObj]
  have hcheck : checkPayload e = .ok () := by
    refine checkPayload_of_safe h.payload (by rw [h.kind]; rfl) (safe_mkObj ["entries", "provenance"] rfl (all_insensitive (by decide)) ?_)
    simp only [List.mem_cons, List.not_mem_nil, or_false, forall_eq_or_imp, forall_eq]
    exact ⟨safe_map fun x hx => ProjectContextEntry.safe_toDict (h.safe x hx) (h.bare x hx).sourceIds (h.bare x hx).sessionId
      (h.bare x hx).receiptRefs (h.bare x hx).recoveryRefs, safe_null⟩
  have hprovenance : validateContextProvenance s .null l = .ok () :=
    ensure_true (fun x hx => ⟨(h.bare x hx).sessionId, (h.bare x hx).receiptRefs, (h.bare x hx).recoveryRefs⟩) _
  have hchecks : l.forM s.checkEntry = .ok () := forM_eq_ok.mpr fun x hx => by
    have hsources := (h.bare x hx).sourceIds
    have hsession := (h.bare x hx).sessionId
    have hids : ∀ i ∈ x.sourceIds.1, s.sources.contains i = true := by simp [hsources]
    have hknown : ∀ i ∈ x.sessionId, i ∈ s.sessions.map (·.sessionId) := by simp [hsession]
    rw [State.checkEntry, ensure_true hids, ok_bind, ensure_true hknown, ok_bind, ensure_true (h.allowed x hx).1, ok_bind,
      ensure_true (h.allowed x hx).2]
  have heffect : s.effect allow e = .ok { s with entries := s.entries ++ l } := by
    have hraw : l.map ProjectContextEntry.toDict ≠ [] := by simpa using h.nonempty
    have heq : pyEq (entriesJson l) (.arr (l.map ProjectContextEntry.toDict)) = true := pyEq_refl _
    rw [State.effect, h.kind]
    simp only [h.payload, State.commitContext, hentries, hnull, show entriesJson l = .arr (l.map ProjectContextEntry.toDict) from rfl]
    rw [ensure_true hraw, ok_bind, mapM_map entryFromInput_toDict, projecting_ok, ok_bind, ensure_true heq, ok_bind,
      hprovenance, ok_bind, ensure_true h.fresh, ok_bind, hchecks, ok_bind, h.bounds]
    rfl
  have hbounds := (State.ensureBounds_withEvent { s with entries := s.entries ++ l } e).trans h.bounds
  obtain ⟨receipt, hrecord⟩ := State.recordEvent_of_empty (s := { s with entries := s.entries ++ l }) (e := e)
    ⟨h.written.policy, h.written.sources⟩ (ofEvent_commit h.kind h.payload h.bare) hbounds h.newEvent
  exact ⟨receipt, applyEvent_some.mpr ⟨hcheck, by rw [h.kind]; decide, h.active, _, heffect, hrecord⟩⟩

/-! ### Sources and sessions -/

/-- What a state needs to take a new source. -/
structure State.TakesSource (s : State) (e : Event) (a : SourceAnchor) : Prop where
  kind : e.kind = .sourceAttached
  payload : e.payload = Json.mkObj [("anchor", a.toDict)]
  active : s.lifecycle = .active
  written : s.Written
  stable : a.freshness.Stable
  trust : a.trust.level ≠ .verified
  safe : Safe a.toDict
  writable : Writable a.toDict
  new : s.sources.contains a.sourceId = false
  room : s.sources.size + 1 ≤ s.policy.maxSources.1
  external : a.kind = .filesystem ∨ s.policy.allowExternalSources = true
  bounds : ({ s with sources := s.sources.set a.sourceId a } : State).ensureBounds true = .ok ()
  newEvent : s.receipts.contains e.eventId = false

theorem applyEvent_source {s : State} {e : Event} {a : SourceAnchor} (h : s.TakesSource e a) (allow : Bool) :
    ∃ receipt, applyEvent allow (some s) e =
      .ok { ({ s with sources := s.sources.set a.sourceId a } : State).withEvent e with
        receipts := s.receipts.set e.eventId receipt } := by
  have hanchor : (Json.mkObj [("anchor", a.toDict)]).get "anchor" = a.toDict := by simp [get_mkObj]
  have hread : SourceAnchor.fromDict a.toDict allow = .ok a :=
    SourceAnchor.fromDict_toDict h.stable fun hv => absurd hv h.trust
  have hcheck : checkPayload e = .ok () := by
    refine checkPayload_of_safe h.payload (by rw [h.kind]; rfl) (safe_mkObj ["anchor"] rfl (all_insensitive (by decide)) ?_)
    simpa using h.safe
  have hevent : State.eventAnchor allow (Json.mkObj [("anchor", a.toDict)]) = .ok a := by
    rw [State.eventAnchor, hanchor, hread, projecting_ok, ok_bind, rejectSensitive_of_safe h.safe, projecting_ok, ok_bind,
      ensure_true (pyEq_refl _)]
    rfl
  have heffect : s.effect allow e = .ok { s with sources := s.sources.set a.sourceId a } := by
    rw [State.effect, h.kind]
    simp only [h.payload, State.attachSource]
    rw [hevent, ok_bind, ensure_true h.new, ok_bind, ensure_true h.room, ok_bind,
      State.ensureExternalAllowed_eq_ok (u := ()) |>.mpr h.external, projecting_ok, ok_bind]
    rfl
  have hparts : ReceiptParts.ofEvent e = .ok { ReceiptParts.empty with sourceIds := .arr [a.sourceId.json] } := by
    have hid : a.toDict.get "source_id" = .str a.sourceId.1 := by
      rw [SourceAnchor.toDict]
      simp [get_mkObj, Text.json]
    rw [ReceiptParts.ofEvent, h.kind]
    simp only [h.payload, hanchor, hid]
    rfl
  have hone : [a.sourceId].length ≤ maxReceiptIds := show 1 ≤ 4096 by decide
  have hids : ∃ x, ids (.arr [a.sourceId.json]) "source_ids" maxReceiptIds = .ok x :=
    ⟨⟨[a.sourceId], by simp, hone⟩, ids_json ⟨[a.sourceId], by simp, hone⟩ _⟩
  obtain ⟨receipt, hrecord⟩ := State.recordEvent_of_parts (s := { s with sources := s.sources.set a.sourceId a }) (e := e)
    ⟨h.written.policy, fun b hb => (Dict.mem_values_set hb).elim (fun hba => hba ▸ h.writable) (h.written.sources b)⟩ hparts
    ⟨hids, ⟨_, rfl⟩, ⟨_, rfl⟩, ⟨_, rfl⟩⟩ ((State.ensureBounds_withEvent _ e).trans h.bounds) h.newEvent
  exact ⟨receipt, applyEvent_some.mpr ⟨hcheck, by rw [h.kind]; decide, h.active, _, heffect, hrecord⟩⟩

/-- What a state needs to take a new session. -/
structure State.TakesSession (s : State) (e : Event) (r : SessionRecord) : Prop where
  kind : e.kind = .sessionAttached
  payload : e.payload = r.toDict
  active : s.lifecycle = .active
  written : s.Written
  safe : Safe r.toDict
  nonempty : r.sourceIds.1 ≠ []
  new : r.sessionId ∉ s.sessions.map (·.sessionId)
  known : ∀ i ∈ r.sourceIds.1, s.sources.contains i = true
  room : s.sessions.length + 1 ≤ s.policy.maxSessions.1
  bounds : ({ s with sessions := s.sessions ++ [r] } : State).ensureBounds true = .ok ()
  newEvent : s.receipts.contains e.eventId = false

theorem applyEvent_session {s : State} {e : Event} {r : SessionRecord} (h : s.TakesSession e r) (allow : Bool) :
    ∃ receipt, applyEvent allow (some s) e =
      .ok { ({ s with sessions := s.sessions ++ [r] } : State).withEvent e with
        receipts := s.receipts.set e.eventId receipt } := by
  have hgets : r.toDict.get "session_id" = r.sessionId.json ∧ r.toDict.get "task_id" = r.taskId.json ∧
      r.toDict.get "source_ids" = r.sourceIds.json := by
    rw [SessionRecord.toDict]
    simp [get_mkObj]
  have hcheck : checkPayload e = .ok () := checkPayload_of_safe h.payload (by rw [h.kind]; rfl) h.safe
  have hids := ids_json r.sourceIds "source_ids"
  have heffect : s.effect allow e = .ok { s with sessions := s.sessions ++ [r] } := by
    rw [State.effect, h.kind]
    simp only [h.payload, State.attachSession, hgets]
    rw [text_json, projecting_ok, ok_bind, text_json, projecting_ok, ok_bind, hids, projecting_ok, ok_bind,
      ensure_true ⟨pyEq_refl _, h.nonempty⟩, ok_bind, ensure_true h.new, ok_bind, ensure_true h.known, ok_bind,
      ensure_true h.room]
    rfl
  have hparts : ReceiptParts.ofEvent e =
      .ok { ReceiptParts.empty with sourceIds := r.sourceIds.json, sessionId := .str r.sessionId.1 } := by
    have hstr : (r.sourceIds.1.map Text.json).all Json.isStr = true := by
      rw [List.all_map]
      exact List.all_eq_true.mpr fun _ _ => rfl
    rw [ReceiptParts.ofEvent, h.kind]
    simp only [h.payload, hgets, Ids.json, Text.json]
    rw [ensure_true hstr]
    rfl
  have hlong : ∃ x, ids r.sourceIds.json "source_ids" maxReceiptIds = .ok x :=
    ⟨⟨r.sourceIds.1, r.sourceIds.2.1, r.sourceIds.2.2.trans (by decide)⟩,
      ids_json ⟨r.sourceIds.1, r.sourceIds.2.1, r.sourceIds.2.2.trans (by decide)⟩ _⟩
  obtain ⟨receipt, hrecord⟩ := State.recordEvent_of_parts (s := { s with sessions := s.sessions ++ [r] }) (e := e)
    ⟨h.written.policy, h.written.sources⟩ hparts ⟨hlong, ⟨_, optionalText_json (some r.sessionId) _⟩, ⟨_, rfl⟩, ⟨_, rfl⟩⟩
    ((State.ensureBounds_withEvent _ e).trans h.bounds) h.newEvent
  exact ⟨receipt, applyEvent_some.mpr ⟨hcheck, by rw [h.kind]; decide, h.active, _, heffect, hrecord⟩⟩

end LeanCtx
