import LeanCtx.Workspace.Sampling

/-! The structure of a state: its entries and pins are pairwise distinct, the lock digest is that of the pins, the content is
    within the bounds of the policy and the receipts are those of the journal. -/

namespace LeanCtx
open Json

/-! ### The invariant -/

/-- The entries and the pins of a logical state are distinct, and its lock digest is that of its pins. -/
structure LogicalState.Whole (l : LogicalState) : Prop where
  entries : (l.entries.map (·.entryId)).Nodup
  keyed : ∀ p ∈ l.packagePins.items, p.2.key = p.1
  lock : packageLock l.packagePins.values = .ok l.packageLockDigest

namespace State

/-- The content is within the bounds of the policy. -/
structure WithinBounds (s : State) : Prop where
  events : s.events.length ≤ s.policy.maxEvents.1
  sources : s.sources.size ≤ s.policy.maxSources.1
  sessions : s.sessions.length ≤ s.policy.maxSessions.1
  entries : s.entries.length ≤ s.policy.maxContextEntries.1
  pins : s.packagePins.size ≤ maxPackagePins
  values : ∀ x ∈ s.entries, x.value.1.utf8Length ≤ s.policy.maxEntryBytes.1
  bytes : ∃ n, stateContextBytes s.entries = .ok n ∧ n ≤ s.policy.maxContextBytes.1

/-- The receipts are those of the events, in the order of the journal. -/
structure Receipted (s : State) : Prop where
  keys : s.receipts.keys = s.events.map (·.eventId)
  receipts : ∀ p ∈ s.receipts.items, p.2.eventId = p.1

structure Structured (s : State) : Prop where
  entries : (s.entries.map (·.entryId)).Nodup
  pins : (s.packagePins.values.map fun x => (x.name, x.version)).Nodup
  lock : packageLock s.packagePins.values = .ok s.packageLockDigest
  bounds : s.WithinBounds
  receipts : s.receipts.keys = s.events.map (·.eventId)
  distinct : (s.events.map (·.eventId)).Nodup
  own : ∀ e ∈ s.events, ∃ r, s.receipts.get? e.eventId = some r ∧ r.eventId = e.eventId

end State

/-- The entries that an event commits are of distinct identifiers. -/
def CommitsDistinct (e : Event) : Prop := e.kind = .contextCommitted → ∀ raw entries, e.payload.get "entries" = .arr raw →
  raw.mapM entryFromInput = .ok entries → (entries.map (·.entryId)).Nodup

/-! ### What keeps it -/

theorem LogicalState.Whole.of_components {v : Json} {ws : Uuid} {l : LogicalState} (h : logicalStateComponents v ws = .ok l) :
    l.Whole := by
  simp only [logicalStateComponents, bind_eq_ok, ensure_eq_ok, exists_const] at h
  obtain ⟨_, -, -, -, h⟩ := h
  split at h
  · simp only [bind_eq_ok, ensure_eq_ok, exists_const, pure_eq_ok] at h
    obtain ⟨-, _, -, -, policy, -, anchors, -, entries, -, pins, -, -, -, -, -, -, -, hdistinct, hsorted, lock, hlock, -, rfl⟩ := h
    have hnodup : ((pins.map fun p => (p.key, p)).map Prod.fst).Nodup := by
      rw [List.map_map]
      exact hsorted.imp fun hlt => ne_of_lt hlt
    have hitems := Dict.items_ofItems hnodup
    refine ⟨hdistinct, fun p hp => ?_, ?_⟩
    · rw [hitems] at hp
      obtain ⟨pin, -, rfl⟩ := List.mem_map.mp hp
      rfl
    · have hvalues : (Dict.ofItems (pins.map fun p => (p.key, p))).values = pins := by
        rw [Dict.values, hitems, List.map_map]
        exact List.map_id _
      rw [hvalues]
      exact hlock
  · cases h

namespace State
variable {s s' : State} {allow : Bool} {e : Event}

theorem nodup_append_of_new {l l' : List ProjectContextEntry} (h : (l.map (·.entryId)).Nodup) (h' : (l'.map (·.entryId)).Nodup)
    (hnew : ∀ x ∈ l', x.entryId ∉ l.map (·.entryId)) : ((l ++ l').map (·.entryId)).Nodup := by
  rw [List.map_append, List.nodup_append]
  refine ⟨h, h', fun i hi j hj => ?_⟩
  rintro rfl
  obtain ⟨x, hx, rfl⟩ := List.mem_map.mp hj
  exact hnew x hx hi

/-- The entries that a handoff adds are new and distinct. -/
theorem nodup_appendedEntries {imported : Dict SourceId SourceAnchor} {raw : List Json} {l : List ProjectContextEntry}
    (hs : (s.entries.map (·.entryId)).Nodup) (h : s.appendedEntries imported raw = .ok l) :
    ((s.entries ++ l).map (·.entryId)).Nodup := by
  refine foldlM_invariant (P := fun l => ((s.entries ++ l).map (·.entryId)).Nodup) (by rwa [List.append_nil]) ?_ h
  intro l v l' hv hl hstep
  simp only [bind_eq_ok, projecting_eq_ok] at hstep
  obtain ⟨x, -, hstep⟩ := hstep
  split at hstep
  · simp only [bind_eq_ok, ensure_eq_ok, exists_const, pure_eq_ok] at hstep
    obtain ⟨-, rfl⟩ := hstep
    exact hl
  · next hnone =>
    simp only [bind_eq_ok, ensure_eq_ok, exists_const, pure_eq_ok] at hstep
    obtain ⟨-, -, rfl⟩ := hstep
    rw [← List.append_assoc]
    refine nodup_append_of_new hl (List.nodup_singleton _) fun y hy hmem => ?_
    obtain rfl := List.mem_singleton.mp hy
    obtain ⟨z, hz, heq⟩ := List.mem_map.mp hmem
    exact absurd heq (by simpa using List.find?_eq_none.mp hnone z (List.mem_reverse.mpr hz))

theorem whole_pinPackage {p : Json} (h : s.logical.Whole) (hp : s.pinPackage p = .ok s') : s'.logical.Whole := by
  obtain ⟨pin, lock, -, -, hnone, hlock, rfl⟩ := pinPackage_eq_ok hp
  refine ⟨h.entries, fun q hq => ?_, hlock⟩
  have hitems : (s.packagePins.set pin.key pin).items = s.packagePins.items ++ [(pin.key, pin)] :=
    Dict.items_set_of_get?_none pin hnone
  have hq : q ∈ (s.packagePins.set pin.key pin).items := hq
  rw [hitems, List.mem_append, List.mem_singleton] at hq
  rcases hq with hq | rfl
  · exact h.keyed q hq
  · rfl

/-- An event whose entries are distinct keeps the logical state whole. -/
theorem whole_effect (h : s.logical.Whole) (hd : CommitsDistinct e) (he : s.effect allow e = .ok s') : s'.logical.Whole := by
  unfold effect at he
  split at he
  · cases he
  · obtain ⟨a, -, -, -, -, rfl⟩ := attachSource_eq_ok he
    exact ⟨h.entries, h.keyed, h.lock⟩
  · obtain ⟨a, _, _, -, -, -, -, -, rfl⟩ := updateSource_eq_ok he
    exact ⟨h.entries, h.keyed, h.lock⟩
  · obtain ⟨_, _, -, -, -, -, -, -, rfl⟩ := tightenPolicy_eq_ok he
    exact ⟨h.entries, h.keyed, h.lock⟩
  · obtain ⟨_, -, -, -, -, -, rfl⟩ := attachSession_eq_ok he
    exact ⟨h.entries, h.keyed, h.lock⟩
  · next hkind =>
    obtain ⟨raw, entries, hraw, -, hentries, -, -, hnew, -, rfl⟩ := commitContext_eq_ok he
    exact ⟨nodup_append_of_new h.entries (hd hkind raw entries hraw hentries) hnew, h.keyed, h.lock⟩
  · obtain ⟨_, _, parent, -, -, -, -, hparent, -, rfl⟩ := fork_eq_ok he
    have hwhole := LogicalState.Whole.of_components hparent
    exact ⟨hwhole.entries, hwhole.keyed, hwhole.lock⟩
  · obtain ⟨_, _, imported, appended, -, -, -, -, -, -, -, -, happended, -, rfl⟩ := applyHandoff_eq_ok he
    exact ⟨nodup_appendedEntries h.entries happended, h.keyed, h.lock⟩
  · exact whole_pinPackage h he
  · obtain ⟨_, _, -, -, -, -, -, -, -, rfl⟩ := createCheckpoint_eq_ok he
    exact ⟨h.entries, h.keyed, h.lock⟩
  · obtain ⟨_, target, -, htarget, -, -, rfl⟩ := restore_eq_ok he
    have hwhole := LogicalState.Whole.of_components htarget
    exact ⟨hwhole.entries, hwhole.keyed, hwhole.lock⟩
  · obtain ⟨_, target, -, -, -, -, htarget, -, -, rfl⟩ := seed_eq_ok he
    have hwhole := LogicalState.Whole.of_components htarget
    exact ⟨hwhole.entries, hwhole.keyed, hwhole.lock⟩
  · obtain rfl := sealWorkspace_eq_ok he
    exact h
  · cases he
    exact ⟨h.entries, h.keyed, h.lock⟩
  · obtain rfl := abort_eq_ok he
    exact ⟨h.entries, h.keyed, h.lock⟩

theorem receiptForEvent_eventId {r : WorkspaceReceipt} (h : receiptForEvent s e = .ok r) : r.eventId = e.eventId := by
  simp only [receiptForEvent, bind_eq_ok, pure_eq_ok] at h
  obtain ⟨_, -, _, -, _, -, _, -, _, -, _, -, rfl⟩ := h
  rfl

/-- Recording an event adds its receipt, within the bounds of the policy. -/
theorem receipted_recordEvent (h : s.Receipted) (he : s.recordEvent e = .ok s') : s'.Receipted ∧ s'.WithinBounds := by
  obtain ⟨receipt, hbounds, hreceipt, hnew, rfl⟩ := recordEvent_eq_ok.mp he
  have hnone : s.receipts.get? e.eventId = none := by simpa [Dict.contains] using hnew
  have hitems := Dict.items_set_of_get?_none receipt hnone
  obtain ⟨hevents, hsources, hsessions, hentries, hpins, hvalues, hbytes⟩ := ensureBounds_eq_ok.mp hbounds
  refine ⟨⟨?_, fun p hp => ?_⟩, ⟨hevents, hsources, hsessions, hentries, hpins, hvalues, hbytes⟩⟩
  · show (s.receipts.set e.eventId receipt).keys = (s.events ++ [e]).map (·.eventId)
    rw [Dict.keys, hitems, List.map_append, List.map_append]
    exact congrArg (· ++ [e.eventId]) h.keys
  · have hp : p ∈ (s.receipts.set e.eventId receipt).items := hp
    rw [hitems, List.mem_append, List.mem_singleton] at hp
    rcases hp with hp | rfl
    · exact h.receipts p hp
    · exact receiptForEvent_eventId hreceipt

end State

/-! ### Reachable states -/

/-- What every accepted event keeps. -/
structure State.StructuredInv (s : State) : Prop where
  whole : s.logical.Whole
  receipted : s.Receipted
  bounds : s.WithinBounds

theorem State.StructuredInv.structured {s : State} (h : s.StructuredInv) : s.Structured := by
  obtain ⟨hwhole, hreceipted, hbounds⟩ := h
  have hkeys : s.packagePins.values.map PackagePin.key = s.packagePins.items.map Prod.fst := by
    rw [Dict.values, List.map_map]
    exact List.map_congr_left hwhole.keyed
  have hnodup : (s.packagePins.values.map PackagePin.key).Nodup := hkeys ▸ s.packagePins.nodup
  refine ⟨hwhole.entries, hnodup, hwhole.lock, hbounds, hreceipted.keys, hreceipted.keys ▸ s.receipts.nodup, fun e he => ?_⟩
  have hmem : e.eventId ∈ s.receipts.keys := hreceipted.keys ▸ List.mem_map_of_mem he
  obtain ⟨⟨i, r⟩, hr, rfl⟩ := List.mem_map.mp hmem
  exact ⟨r, Dict.get?_eq_some.mpr hr, hreceipted.receipts _ hr⟩

theorem structuredInv_applyEvent {allow : Bool} {s s' : State} {e : Event} (h : s.StructuredInv) (hd : CommitsDistinct e)
    (he : applyEvent allow (some s) e = .ok s') : s'.StructuredInv := by
  obtain ⟨-, -, -, t, ht, hrecord⟩ := applyEvent_some.mp he
  obtain ⟨-, hevents, hreceipts, -⟩ := State.effect_frame ht
  have hwhole := State.whole_effect h.whole hd ht
  have hreceipted : t.Receipted := ⟨by rw [hreceipts, hevents]; exact h.receipted.keys, hreceipts ▸ h.receipted.receipts⟩
  obtain ⟨hreceipted', hbounds⟩ := State.receipted_recordEvent hreceipted hrecord
  obtain ⟨_, -, -, -, rfl⟩ := State.recordEvent_eq_ok.mp hrecord
  exact ⟨⟨hwhole.entries, hwhole.keyed, hwhole.lock⟩, hreceipted', hbounds⟩

theorem structuredInv_created {allow : Bool} {s : State} {e : Event} (he : applyEvent allow none e = .ok s) : s.StructuredInv := by
  obtain ⟨-, -, t, ht, hrecord⟩ := applyEvent_none.mp he
  obtain ⟨identity, policy, -, -, rfl⟩ := State.create_eq_ok ht
  have hreceipted : (State.created identity policy).Receipted := ⟨rfl, fun _ hp => absurd hp List.not_mem_nil⟩
  obtain ⟨hreceipted', hbounds⟩ := State.receipted_recordEvent hreceipted hrecord
  obtain ⟨_, -, -, -, rfl⟩ := State.recordEvent_eq_ok.mp hrecord
  exact ⟨⟨List.nodup_nil, fun _ hp => absurd hp List.not_mem_nil, rfl⟩, hreceipted', hbounds⟩

/-- Where every committed event holds distinct entries, every state that is reached is structured. -/
theorem structured_of_commitsDistinct {s : State} (h : Machine.Reaches Accepts (fun _ e => CommitsDistinct e) s) : s.Structured := by
  refine (h.invariant (I := State.StructuredInv) ?_ ?_).structured
  · rintro e s - ⟨allow, he⟩
    exact structuredInv_created he
  · rintro s e s' hs hd ⟨allow, he⟩
    exact structuredInv_applyEvent hs hd he

/-! ### A commit of one entry twice -/

/-- A sample workspace commits copies of its entry. -/
theorem State.Sample.exists_commit {s : State} {ws : Uuid} {l : List ProjectContextEntry} (h : s.Sample ws [] 1) (hne : l ≠ [])
    (hl : ∀ x ∈ l, x = decision) (hlength : l.length ≤ 2) (hbytes : byteLength (entriesJson l) ≤ 2000) : ∃ e s',
      e.kind = .contextCommitted ∧ e.payload = commitPayload l ∧ applyEvent false (some s) e = .ok s' ∧ s'.entries = l := by
  have hnext : (nextSequence (some s)).1 = 2 := congrArg Nat.succ h.events
  have hdigits : (natText (nextSequence (some s)).1).length ≤ maxIntDigits := by
    rw [hnext]
    decide
  obtain ⟨e, he⟩ := exists_record ws (nextSequence (some s)) (numberedUuid 2) .contextCommitted s.lastEventDigest hdigits
    (writable_commitPayload l)
  obtain ⟨-, -, -, hid, hkind, hpayload, -⟩ := Event.sealed_record he
  have hsum : s.entries ++ l = l := by
    rw [h.entries]
    rfl
  have hallowed : decision.category ∈ s.policy.allowedCategories ∧ decision.value.1.utf8Length ≤ s.policy.maxEntryBytes.1 := by
    rw [h.policy]
    decide
  have hroom : (openPolicy.maxEvents.1, openPolicy.maxContextEntries.1, openPolicy.maxEntryBytes.1, openPolicy.maxContextBytes.1) =
      (1000000000, 1000000000, 1000000000, 1000000000) := rfl
  simp only [Prod.mk.injEq] at hroom
  obtain ⟨b, hb⟩ := canonical_of_writable (writable_entriesJson l)
  have hbounds : ({ s with entries := s.entries ++ l } : State).ensureBounds true = .ok () := by
    refine State.ensureBounds_eq_ok.mpr ⟨?events, ?sources, ?sessions, ?entries, ?pins, ?values, b.length, ?bytes, ?total⟩
    case events =>
      rw [h.policy, hroom.1, h.events]
      decide
    case sources =>
      rw [h.sources]
      exact Nat.zero_le _
    case sessions =>
      rw [h.sessions]
      exact Nat.zero_le _
    case entries =>
      rw [hsum, h.policy, hroom.2.1]
      exact hlength.trans (by decide)
    case pins =>
      rw [h.pins]
      exact Nat.zero_le _
    case values =>
      rw [hsum]
      intro x hx
      rw [hl x hx]
      exact hallowed.2
    case bytes =>
      rw [hsum, stateContextBytes, hb]
      rfl
    case total =>
      rw [h.policy, hroom.2.2.2, length_canonicalBytes (canonical_eq_ok.mp hb)]
      exact hbytes.trans (by decide)
  obtain ⟨receipt, hr⟩ := LeanCtx.applyEvent_commit (e := e) (l := l) ⟨hkind, hpayload.trans (plain_commitPayload l), h.lifecycle,
    h.written, hne, fun x hx => hl x hx ▸ SampleEntries.one.bare decision (List.mem_singleton_self _),
    fun x hx => hl x hx ▸ SampleEntries.one.safe decision (List.mem_singleton_self _), by simp [h.entries],
    fun x hx => hl x hx ▸ hallowed, hbounds, h.newEvent (by decide) hid⟩ false
  exact ⟨e, _, hkind, hpayload.trans (plain_commitPayload l), hr, hsum⟩

/-- A workspace whose commits are of distinct entries. -/
theorem exists_structured : ∃ s : State, s.entries = [decision] ∧ s.Structured := by
  obtain ⟨files, s, -, hsample, -, -, -, e₁, hcreated, hstart⟩ := exists_sample
  obtain ⟨e, s', hkind, hpayload, he, hentries⟩ := hsample.exists_commit (List.cons_ne_nil decision []) (by simp) (by decide)
    (by decide +kernel)
  have hfirst : CommitsDistinct e₁ := fun h => absurd (hcreated.symm.trans h) nofun
  have hdistinct : CommitsDistinct e := by
    intro _ raw entries hraw hentries
    have hget : (commitPayload [decision]).get "entries" = .arr [decision.toDict] := by simp [commitPayload, get_mkObj, entriesJson]
    rw [hpayload, hget] at hraw
    cases hraw
    have hread : [decision.toDict].mapM entryFromInput = .ok [decision] := mapM_map (l := [decision]) entryFromInput_toDict
    obtain rfl := Except.ok.inj (hread.symm.trans hentries)
    exact List.nodup_singleton _
  exact ⟨s', hentries, structured_of_commitsDistinct (.next (.start hfirst hstart) hdistinct ⟨false, he⟩)⟩

/-- A workspace that commits one entry twice in one event is reached, and its entries are not distinct. -/
theorem not_structured : ¬∀ s, Machine.Reaches Accepts (fun _ _ => True) s → s.Structured := by
  intro hall
  obtain ⟨files, s, -, hsample, -, -, -, e₁, -, hstart⟩ := exists_sample
  obtain ⟨e, s', -, -, he, hentries⟩ := hsample.exists_commit (List.cons_ne_nil decision [decision]) (by simp) (by decide)
    (by decide +kernel)
  have hdistinct := (hall s' (.next (.start trivial hstart) trivial ⟨false, he⟩)).entries
  rw [hentries] at hdistinct
  exact absurd hdistinct (by decide)

end LeanCtx
