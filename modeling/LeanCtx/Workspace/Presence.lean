import LeanCtx.Workspace.Receiving

/-! Presence: the entries of the handoffs that were applied stay, unless a restore takes them away. -/

namespace LeanCtx
open Json

/-! ### Readers and the order of keys -/

theorem hasExactly_plain (v : Json) (ks : List String) : v.plain.hasExactly ks = v.hasExactly ks := by
  cases v with
  | obj f =>
    rw [Bool.eq_iff_iff, plain, plainFields_eq, hasExactly_obj, hasExactly_obj]
    simp only [mem_keys_sortFields, List.map_map]
    rfl
  | _ => rfl

theorem text_plain (v : Json) (field : String) (max : Nat) : text v.plain field max = text v field max := by
  cases v <;> rfl

theorem sortedSet_plain {α : Type} [LinearOrder α] {item : Json → Except Err α} (h : ∀ v, item v.plain = item v)
    (notList tooMany repeated : Err) (max : Nat) (v : Json) :
    sortedSet item notList tooMany repeated max v.plain = sortedSet item notList tooMany repeated max v := by
  cases v with
  | arr l =>
    have hitems : (l.map plain).mapM item = l.mapM item := by
      induction l with
      | nil => rfl
      | cons v l ih => rw [List.map_cons, List.mapM_cons, List.mapM_cons, h, ih]
    rw [plain, plainList_eq, sortedSet, sortedSet, List.length_map, hitems]
  | _ => rfl

theorem ref_plain (v : Json) (field : String) (max : Nat) : ref v.plain field max = ref v field max := by
  rw [ref, ref, text_plain]

theorem refs_plain (v : Json) (field : String) (max : Nat) : refs v.plain field max = refs v field max :=
  sortedSet_plain (fun v => ref_plain v field 512) _ _ _ _ v

theorem ids_plain (v : Json) (field : String) (max : Nat) : ids v.plain field max = ids v field max :=
  sortedSet_plain (fun v => text_plain v field 128) _ _ _ _ v

theorem ProjectContextEntry.fromDict_plain (v : Json) : fromDict v.plain = fromDict v := by
  have hstr : ∀ (v : Json) (s : Str), v.plain = .str s ↔ v = .str s := by
    intro v s
    cases v <;> simp [plain]
  have huuid : ∀ (v : Json) (field : String), uuid v.plain field = uuid v field := by
    intro v field
    cases v <;> rfl
  have hcategory : ∀ v : Json, memberOf Category.all Category.name (.validation "entry category is invalid") v.plain =
      memberOf Category.all Category.name (.validation "entry category is invalid") v := by
    intro v
    cases v <;> rfl
  have hoptional : ∀ (v : Json) (field : String) (max : Nat), optionalText v.plain field max = optionalText v field max := by
    intro v field max
    cases v <;> rfl
  unfold fromDict
  simp only [exact, hasExactly_plain, get_plain, hstr, huuid, hcategory, hoptional, text_plain, refs_plain, ids_plain]
  congr 1
  funext _
  congr 1
  funext _
  congr 1
  -- the three lists
  congr 1
  funext field _
  cases v.get field <;> rfl

/-! ### Entries that a handoff leaves -/

/-- Every entry of a handoff is among some entries. -/
def ContextHandoff.PresentIn (h : ContextHandoff) (l : List ProjectContextEntry) : Prop :=
  ∀ v ∈ h.selectedEntries, ∃ x ∈ l, ProjectContextEntry.fromDict v = .ok x

theorem ContextHandoff.PresentIn.mono {h : ContextHandoff} {l m : List ProjectContextEntry} (hl : h.PresentIn l)
    (hlm : ∀ x ∈ l, x ∈ m) : h.PresentIn m := fun v hv => (hl v hv).imp fun _ hx => ⟨hlm _ hx.1, hx.2⟩

/-- Documents that differ only in the order of their keys hand over the same entries. -/
theorem ContextHandoff.PresentIn.of_plain {g h : ContextHandoff} {l : List ProjectContextEntry} (hg : g.PresentIn l)
    (heq : g.selectedEntries.map plain = h.selectedEntries.map plain) : h.PresentIn l := by
  intro v hv
  obtain ⟨w, hw, hplain⟩ := List.mem_map.mp (heq ▸ List.mem_map_of_mem hv : v.plain ∈ g.selectedEntries.map plain)
  obtain ⟨x, hx, hread⟩ := hg w hw
  exact ⟨x, hx, by rw [← ProjectContextEntry.fromDict_plain, ← hplain, ProjectContextEntry.fromDict_plain, hread]⟩

theorem ContextHandoff.fields_of_fromDict {v : Json} {h : ContextHandoff} (hv : fromDict v = .ok h) :
    v.get "handoff_id" = h.handoffId.json ∧ pyTuple (v.get "selected_entries") = .ok h.selectedEntries := by
  simp only [fromDict, bind_eq_ok, ensure_eq_ok, exists_const, pure_eq_ok] at hv
  obtain ⟨_, -, -, _, -, -, source, -, entries, hentries, anchors, -, raw, -, refs, -, floor, -, handoffId, hid, target, -, task, -,
    d, -, role, -, recovery, -, x, hx, -, rfl⟩ := hv
  rw [make_eq_ok.mp hx]
  exact ⟨uuid_eq_ok.mp hid, hentries⟩

namespace State
variable {s s' : State} {allow : Bool} {e : Event}

/-- The journal holds the event that applied a handoff. -/
def Applied (s : State) (h : ContextHandoff) : Prop :=
  ∃ e ∈ s.events, e.kind = .handoffApplied ∧ ContextHandoff.fromDict (e.payload.get "handoff") = .ok h

/-- A restore keeps the entries of the handoffs that were applied. -/
def KeepsApplied (s : Option State) (e : Event) : Prop := ∀ t ∈ s, e.kind = .workspaceRestored →
  ∀ c l, t.namedCheckpoint e.payload = .ok c → logicalStateComponents c.logicalState t.identity.workspaceId = .ok l →
    ∀ h, t.Applied h → h.PresentIn l.entries

/-- What a handoff adds, with what is there already, is what it hands over. -/
theorem present_appendedEntries {imported : Dict SourceId SourceAnchor} {h : ContextHandoff} {l : List ProjectContextEntry}
    (hl : s.appendedEntries imported h.selectedEntries = .ok l) : h.PresentIn (s.entries ++ l) := by
  refine foldlM_forall (Q := fun v l => ∃ x ∈ s.entries ++ l, ProjectContextEntry.fromDict v = .ok x) ?_ ?_ hl
  · intro acc v acc' hstep
    simp only [bind_eq_ok, projecting_eq_ok] at hstep
    obtain ⟨x, hx, hstep⟩ := hstep
    split at hstep
    · next existing hfound =>
      simp only [bind_eq_ok, ensure_eq_ok, exists_const, pure_eq_ok] at hstep
      obtain ⟨heq, rfl⟩ := hstep
      obtain rfl := ProjectContextEntry.eq_of_pyEq heq
      exact ⟨existing, List.mem_reverse.mp (List.mem_of_find?_eq_some hfound), hx⟩
    · simp only [bind_eq_ok, ensure_eq_ok, exists_const, pure_eq_ok] at hstep
      obtain ⟨-, -, rfl⟩ := hstep
      exact ⟨x, by simp, hx⟩
  · rintro v acc w acc' ⟨x, hx, hread⟩ hstep
    refine ⟨x, ?_, hread⟩
    simp only [bind_eq_ok, projecting_eq_ok] at hstep
    obtain ⟨y, -, hstep⟩ := hstep
    split at hstep
    · simp only [bind_eq_ok, ensure_eq_ok, exists_const, pure_eq_ok] at hstep
      obtain ⟨-, rfl⟩ := hstep
      exact hx
    · simp only [bind_eq_ok, ensure_eq_ok, exists_const, pure_eq_ok] at hstep
      obtain ⟨-, -, rfl⟩ := hstep
      rw [← List.append_assoc]
      exact List.mem_append_left _ hx

theorem empty_of_fork {i : Uuid} {p : Json} (h : s.fork i p = .ok s') : s.entries = [] := by
  simp only [fork, bind_eq_ok, ensure_eq_ok] at h
  obtain ⟨_, -, _, ⟨-, hempty, -⟩, -⟩ := h
  exact hempty

theorem empty_of_seed {p : Json} (h : s.seed p = .ok s') : s.entries = [] := by
  simp only [seed, bind_eq_ok, ensure_eq_ok] at h
  obtain ⟨_, ⟨-, hempty, -⟩, -⟩ := h
  exact hempty

/-- Only a restore takes entries away. -/
theorem entries_effect (h : s.effect allow e = .ok s') : (∀ x ∈ s.entries, x ∈ s'.entries) ∨ e.kind = .workspaceRestored ∧
    ∃ c l, s.namedCheckpoint e.payload = .ok c ∧ logicalStateComponents c.logicalState s.identity.workspaceId = .ok l ∧
      s'.entries = l.entries := by
  unfold effect at h
  split at h
  · cases h
  · obtain ⟨_, -, -, -, -, rfl⟩ := attachSource_eq_ok h
    exact Or.inl fun _ hx => hx
  · obtain ⟨_, _, _, -, -, -, -, -, rfl⟩ := updateSource_eq_ok h
    exact Or.inl fun _ hx => hx
  · obtain ⟨_, _, -, -, -, -, -, -, rfl⟩ := tightenPolicy_eq_ok h
    exact Or.inl fun _ hx => hx
  · obtain ⟨_, -, -, -, -, -, rfl⟩ := attachSession_eq_ok h
    exact Or.inl fun _ hx => hx
  · obtain ⟨_, _, -, -, -, -, -, -, -, rfl⟩ := commitContext_eq_ok h
    exact Or.inl fun _ hx => List.mem_append_left _ hx
  · rw [empty_of_fork h]
    exact Or.inl nofun
  · obtain ⟨_, _, _, _, -, -, -, -, -, -, -, -, -, -, rfl⟩ := applyHandoff_eq_ok h
    exact Or.inl fun _ hx => List.mem_append_left _ hx
  · obtain ⟨_, _, -, -, -, -, rfl⟩ := pinPackage_eq_ok h
    exact Or.inl fun _ hx => hx
  · obtain ⟨_, _, -, -, -, -, -, -, -, rfl⟩ := createCheckpoint_eq_ok h
    exact Or.inl fun _ hx => hx
  · next hkind =>
    obtain ⟨c, l, hc, hl, -, -, rfl⟩ := restore_eq_ok h
    exact Or.inr ⟨hkind, c, l, hc, hl, rfl⟩
  · rw [empty_of_seed h]
    exact Or.inl nofun
  · obtain rfl := sealWorkspace_eq_ok h
    exact Or.inl fun _ hx => hx
  · cases h
    exact Or.inl fun _ hx => hx
  · obtain rfl := abort_eq_ok h
    exact Or.inl fun _ hx => hx

/-- Only the application of a handoff is recorded as one. -/
theorem appliedHandoffs_effect (h : s.effect allow e = .ok s') :
    (e.kind ≠ .handoffApplied ∧ s'.appliedHandoffs = s.appliedHandoffs) ∨ ∃ g, e.kind = .handoffApplied ∧
      ContextHandoff.fromDict (e.payload.get "handoff") = .ok g ∧ s.appliedHandoffs.get? g.handoffId = none ∧
      s'.appliedHandoffs = s.appliedHandoffs.set g.handoffId ⟨g.handoffId, g.handoffDigest, e.eventId⟩ ∧ g.PresentIn s'.entries := by
  by_cases hkind : e.kind = .handoffApplied
  · rw [effect, hkind] at h
    obtain ⟨g, admission, imported, appended, hg, -, -, -, -, hnew, -, -, happended, -, rfl⟩ := applyHandoff_eq_ok h
    exact Or.inr ⟨g, hkind, hg, hnew, rfl, present_appendedEntries happended⟩
  · refine Or.inl ⟨hkind, ?_⟩
    unfold effect at h
    split at h
    · cases h
    · obtain ⟨_, -, -, -, -, rfl⟩ := attachSource_eq_ok h
      rfl
    · obtain ⟨_, _, _, -, -, -, -, -, rfl⟩ := updateSource_eq_ok h
      rfl
    · obtain ⟨_, _, -, -, -, -, -, -, rfl⟩ := tightenPolicy_eq_ok h
      rfl
    · obtain ⟨_, -, -, -, -, -, rfl⟩ := attachSession_eq_ok h
      rfl
    · obtain ⟨_, _, -, -, -, -, -, -, -, rfl⟩ := commitContext_eq_ok h
      rfl
    · obtain ⟨_, _, _, -, -, -, -, -, -, rfl⟩ := fork_eq_ok h
      rfl
    · next happlied => exact absurd happlied hkind
    · obtain ⟨_, _, -, -, -, -, rfl⟩ := pinPackage_eq_ok h
      rfl
    · obtain ⟨_, _, -, -, -, -, -, -, -, rfl⟩ := createCheckpoint_eq_ok h
      rfl
    · obtain ⟨_, _, -, -, -, -, rfl⟩ := restore_eq_ok h
      rfl
    · obtain ⟨_, _, -, -, -, -, -, -, -, rfl⟩ := seed_eq_ok h
      rfl
    · obtain rfl := sealWorkspace_eq_ok h
      rfl
    · cases h
      rfl
    · obtain rfl := abort_eq_ok h
      rfl

/-- The handoffs that were applied are on record, and their entries are there. -/
structure HandsOver (s : State) : Prop where
  recorded : ∀ i r, s.appliedHandoffs.get? i = some r → ∃ g, s.Applied g ∧ g.handoffDigest = r.handoffDigest
  applied : ∀ g, s.Applied g → s.appliedHandoffs.get? g.handoffId ≠ none
  present : ∀ g, s.Applied g → g.PresentIn s.entries
  reads : ∀ e ∈ s.events, e.kind = .handoffApplied → ∃ g, ContextHandoff.fromDict (e.payload.get "handoff") = .ok g

theorem handsOver_applyEvent (hs : s.HandsOver) (hcond : KeepsApplied (some s) e) (h : applyEvent allow (some s) e = .ok s') :
    s'.HandsOver := by
  obtain ⟨-, -, -, u, hu, hrecord⟩ := applyEvent_some.mp h
  obtain ⟨_, -, -, -, rfl⟩ := recordEvent_eq_ok.mp hrecord
  have hevents : u.events = s.events := (effect_frame hu).2.1
  -- the handoffs that were applied before are there still
  have hpresent : ∀ g, s.Applied g → g.PresentIn u.entries := by
    intro g hg
    rcases entries_effect hu with hkept | ⟨hkind, c, l, hc, hl, hentries⟩
    · exact (hs.present g hg).mono hkept
    · rw [hentries]
      exact hcond s rfl hkind c l hc hl g hg
  have hold : ∀ g, s.Applied g → (u.withEvent e).Applied g := by
    rintro g ⟨e', he', hkind, hread⟩
    exact ⟨e', List.mem_append_left _ (hevents.symm ▸ he'), hkind, hread⟩
  have hnew : ∀ g, (u.withEvent e).Applied g → s.Applied g ∨ e.kind = .handoffApplied ∧
      ContextHandoff.fromDict (e.payload.get "handoff") = .ok g := by
    rintro g ⟨e', he', hkind, hread⟩
    rcases List.mem_append.mp he' with he' | he'
    · exact Or.inl ⟨e', hevents ▸ he', hkind, hread⟩
    · obtain rfl := List.mem_singleton.mp he'
      exact Or.inr ⟨hkind, hread⟩
  rcases appliedHandoffs_effect hu with ⟨hkind, hsame⟩ | ⟨g, hkind, hread, hfresh, hset, hg⟩
  · have hback : ∀ g, (u.withEvent e).Applied g → s.Applied g := fun g hg => (hnew g hg).resolve_right fun h => hkind h.1
    refine ⟨fun i r hr => ?_, fun g hg => ?_, fun g hg => hpresent g (hback g hg), fun e' he' happlied => ?_⟩
    · obtain ⟨g, hg, hdigest⟩ := hs.recorded i r (hsame ▸ hr)
      exact ⟨g, hold g hg, hdigest⟩
    · show u.appliedHandoffs.get? g.handoffId ≠ none
      rw [hsame]
      exact hs.applied g (hback g hg)
    · rcases List.mem_append.mp he' with he' | he'
      · exact hs.reads e' (hevents ▸ he') happlied
      · obtain rfl := List.mem_singleton.mp he'
        exact absurd happlied hkind
  · have hself : (u.withEvent e).Applied g := ⟨e, List.mem_append_right _ (List.mem_singleton_self e), hkind, hread⟩
    have hback : ∀ k, (u.withEvent e).Applied k → s.Applied k ∨ k = g := fun k hk => (hnew k hk).imp_right fun h =>
      Except.ok.inj (h.2.symm.trans hread)
    refine ⟨fun i r hr => ?_, fun k hk => ?_, fun k hk => ?_, fun e' he' happlied => ?_⟩
    · have hget : (s.appliedHandoffs.set g.handoffId ⟨g.handoffId, g.handoffDigest, e.eventId⟩).get? i = some r := hset ▸ hr
      by_cases hi : g.handoffId = i
      · subst hi
        rw [Dict.get?_set_self] at hget
        cases hget
        exact ⟨g, hself, rfl⟩
      · rw [Dict.get?_set_of_ne _ _ hi] at hget
        obtain ⟨k, hk, hdigest⟩ := hs.recorded i r hget
        exact ⟨k, hold k hk, hdigest⟩
    · show u.appliedHandoffs.get? k.handoffId ≠ none
      rw [hset]
      rcases hback k hk with hk | rfl
      · have hne : g.handoffId ≠ k.handoffId := fun heq => hs.applied k hk (heq ▸ hfresh)
        rw [Dict.get?_set_of_ne _ _ hne]
        exact hs.applied k hk
      · rw [Dict.get?_set_self]
        nofun
    · rcases hback k hk with hk | rfl
      · exact hpresent k hk
      · exact hg
    · rcases List.mem_append.mp he' with he' | he'
      · exact hs.reads e' (hevents ▸ he') happlied
      · obtain rfl := List.mem_singleton.mp he'
        exact ⟨g, hread⟩

end State

open State
variable {s t : State} {h : ContextHandoff} {ws : Uuid} {files files' : List EventFile} {a : ApplyArguments}

theorem handsOver_of_reaches (hreach : Machine.Reaches Accepts KeepsApplied s) : s.HandsOver := by
  refine hreach.invariant (I := State.HandsOver) ?_ ?_
  · rintro e s - ⟨allow, he⟩
    obtain ⟨-, hkind, u, hu, hrecord⟩ := applyEvent_none.mp he
    obtain ⟨identity, policy, -, -, rfl⟩ := create_eq_ok hu
    obtain ⟨_, -, -, -, rfl⟩ := recordEvent_eq_ok.mp hrecord
    have hnone : ∀ e' ∈ ((State.created identity policy).withEvent e).events, e'.kind ≠ .handoffApplied := by
      intro e' he' happlied
      obtain rfl : e' = e := List.mem_singleton.mp he'
      rw [hkind] at happlied
      cases happlied
    exact ⟨nofun, fun g ⟨e', he', happlied, _⟩ => absurd happlied (hnone e' he'),
      fun g ⟨e', he', happlied, _⟩ => absurd happlied (hnone e' he'), fun e' he' happlied => absurd happlied (hnone e' he')⟩
  · rintro s e s' hs hcond ⟨allow, he⟩
    exact handsOver_applyEvent hs hcond he

/-! ### What an append leaves -/

theorem exists_obj_of_isObj {v : Json} (h : v.isObj = true) : ∃ f, v = .obj f := by
  cases v with
  | obj f => exact ⟨f, rfl⟩
  | _ => cases h

theorem isObj_of_get {v w : Json} {k : String} (h : v.get k = w) (hw : w ≠ .null) : v.isObj = true := by
  cases v with
  | obj f => rfl
  | _ => exact absurd h.symm hw

/-- A successful append leaves the event in the journal, as it was asked for: it was there already, or it was accepted. -/
theorem event_of_appendEvent {r : Request} {p : Appended} (hs : project ws files = .ok s)
    (happend : appendEvent ws files r = (files', .ok p)) (ht : project ws files' = .ok t) (hobj : r.payload.isObj = true) :
    (∃ e ∈ t.events, e.kind = r.kind ∧ (e.payload.isObj = true → e.payload.plain = r.payload.plain)) ∧
      (t = s ∨ ∃ e, e.kind = r.kind ∧ applyEvent r.verified (some s) e = .ok t) := by
  have hafter : append ws files r = (files', .ok p) := by
    unfold appendEvent at happend
    split at happend
    · cases happend
    · exact happend
  have hstate : t = p.state := by
    by_cases hfits : Fits s r
    · exact Except.ok.inj (ht.symm.trans (project_append_of_fits hs hafter hfits).1)
    · cases ht.symm.trans (project_append_of_not_fits hs hafter hfits)
  obtain ⟨s', hs', hcase⟩ := append_eq_ok hafter
  obtain rfl := Except.ok.inj (hs.symm.trans hs')
  rcases hcase with ⟨-, hsame, hreceipt⟩ | ⟨-, e, data, he, happly, -⟩
  · refine ⟨?_, Or.inl (hstate.trans hsame)⟩
    rw [hstate, hsame]
    -- the event that is there already is the one that was asked for
    rw [append, prepare, readState, hs, catching_ok, ok_bind, hreceipt] at hafter
    cases hretry : retryReceipt s p.receipt r.eventId r.kind r.payload with
    | error err =>
      simp only [hretry, error_bind] at hafter
      cases hafter
    | ok receipt =>
      unfold retryReceipt at hretry
      split at hretry
      · cases hretry
      · next e hfound =>
        simp only [bind_eq_ok, ensure_eq_ok, exists_const, sameRequest] at hretry
        obtain ⟨same, hrequest, rfl, -⟩ := hretry
        split_ifs at hrequest with hkind
        · simp only [bind_eq_ok, pure_eq_ok, decide_eq_true_eq] at hrequest
          obtain ⟨stored, hstored, given, hgiven, rfl⟩ := hrequest
          refine ⟨e, List.mem_of_find?_eq_some hfound, hkind, fun hpayload => ?_⟩
          obtain ⟨f, hf⟩ := exists_obj_of_isObj hpayload
          obtain ⟨g, hg⟩ := exists_obj_of_isObj hobj
          rw [hf] at hstored ⊢
          rw [hg] at hgiven ⊢
          exact canonicalBytes?_inj (canonical_eq_ok.mp hstored) (canonical_eq_ok.mp hgiven)
        · cases hrequest
  · obtain ⟨-, -, -, -, hkind, hpayload, -⟩ := Event.sealed_record he
    refine ⟨⟨e, ?_, hkind, fun _ => by rw [hpayload, plain_plain]⟩, Or.inr ⟨e, hkind, hstate ▸ happly⟩⟩
    obtain ⟨-, -, -, u, hu, hrecord⟩ := applyEvent_some.mp (hstate ▸ happly)
    obtain ⟨_, -, -, -, rfl⟩ := recordEvent_eq_ok.mp hrecord
    exact List.mem_append_right _ (List.mem_singleton_self e)

/-- A checkpoint that is taken first applies no handoff and restores nothing. -/
theorem reaches_receiverCheckpoint {c : ContextCheckpoint} (hreach : Machine.Reaches Accepts KeepsApplied s)
    (hs : project ws files = .ok s) (hc : receiverCheckpoint ws files a = (files', .ok c)) (ht : project ws files' = .ok t) :
    Machine.Reaches Accepts KeepsApplied t := by
  unfold receiverCheckpoint at hc
  split at hc
  · cases hc
    exact Except.ok.inj (hs.symm.trans ht) ▸ hreach
  · unfold checkpointWorkspace at hc
    split at hc
    · cases hc
    · next c' hc' =>
      generalize happend : appendEvent ws files ⟨.checkpointCreated, mkObj [("checkpoint", c'.toDict)], a.checkpointEventId, false,
        .ok ()⟩ = r at hc
      obtain ⟨files'', p⟩ := r
      cases p with
      | error err => cases hc
      | ok p =>
        cases hc
        rcases (event_of_appendEvent hs happend ht rfl).2 with rfl | ⟨e, hkind, he⟩
        · exact hreach
        · refine .next hreach ?_ ⟨_, he⟩
          rintro u - hrestored
          rw [hkind] at hrestored
          cases hrestored

/-! ### Applied means present -/

/-- SHA-256 tells a handoff from the handoffs that were applied. -/
def State.Distinguishes (s : State) (h : ContextHandoff) : Prop :=
  ∀ g, s.Applied g → g.handoffDigest = h.handoffDigest → g.toDict.plain = h.toDict.plain

/-- The entries that a document of a handoff selects. -/
theorem selected_of_plain {v : Json} {g : ContextHandoff} (hg : ContextHandoff.fromDict v = .ok g)
    (hv : v.plain = h.toDict.plain) : g.selectedEntries.map plain = h.selectedEntries.map plain := by
  have hget : (v.get "selected_entries").plain = .arr (h.selectedEntries.map plain) := by
    rw [← get_plain, hv, get_plain, HandoffFields.toDict, HandoffFields.unsignedFields, get_mkObj, ← plainList_eq]
    rfl
  have hread := (ContextHandoff.fields_of_fromDict hg).2
  cases hw : v.get "selected_entries" with
  | arr l =>
    rw [hw] at hget hread
    obtain rfl := Except.ok.inj hread
    rw [plain, plainList_eq] at hget
    exact Json.arr.inj hget
  | _ =>
    rw [hw] at hget
    cases hget

end LeanCtx
