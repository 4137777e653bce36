import LeanCtx.Workspace.Writing

/-! Appends that are tried again: what an append leaves for one with the same event identifier, whatever other clients append, stop and
    fail in between. -/

namespace LeanCtx
open Json Machine Reading

/-! ### Journals that grow -/

/-- A state that comes after another: nothing of the journal and no receipt is lost. -/
structure State.Extends (s t : State) : Prop where
  events : s.events <+: t.events
  receipts : ∀ i receipt, s.receipts.get? i = some receipt → t.receipts.get? i = some receipt

theorem State.Extends.refl (s : State) : s.Extends s := ⟨List.prefix_refl _, fun _ _ h => h⟩

theorem State.Extends.trans {s t u : State} (h : s.Extends t) (h' : t.Extends u) : s.Extends u :=
  ⟨h.events.trans h'.events, fun i receipt hi => h'.receipts i receipt (h.receipts i receipt hi)⟩

theorem Records.extends {s t : State} {e : Event} (h : Records (some s) e t) : s.Extends t := by
  refine ⟨?_, fun i receipt hi => ?_⟩
  · rw [h.events]
    exact List.prefix_append _ _
  · have hne : i ≠ e.eventId := by
      rintro rfl
      rw [h.fresh s rfl] at hi
      cases hi
    rw [h.others i hne]
    exact hi

/-- The events of a state have distinct identifiers, and each one has a receipt. -/
structure State.Distinct (s : State) : Prop where
  nodup : (s.events.map (·.eventId)).Nodup
  receipts : ∀ e ∈ s.events, s.receipts.get? e.eventId ≠ none

section
variable {workspaceId : Uuid} {files files' : List EventFile} {r : Request} {s t : State}

theorem distinct_of_project (h : project workspaceId files = .ok t) : t.Distinct := by
  have hinv : ∀ u ∈ some t, u.Distinct := by
    refine foldlM_invariant (P := fun u => ∀ v ∈ u, v.Distinct) (by simp) ?_ (project_eq_ok.mp h).2.1
    rintro u f v - hu hv t ht
    obtain ⟨e, -, hv⟩ := bind_eq_ok.mp hv
    obtain ⟨s', hs', hv⟩ := bind_eq_ok.mp hv
    cases hv
    obtain rfl := Option.some.inj ht
    have hrecords := applyEvent_records hs'
    obtain ⟨receipt, -, hreceipt⟩ := hrecords.receipt
    have hnew : s'.receipts.get? e.eventId ≠ none := by rw [hreceipt]; exact Option.some_ne_none _
    cases u with
    | none =>
      have hevents : s'.events = [e] := hrecords.events
      refine ⟨by rw [hevents]; exact List.nodup_singleton _, fun e' he' => ?_⟩
      rw [hevents, List.mem_singleton] at he'
      rwa [he']
    | some s =>
      have hs := hu s rfl
      have hevents : s'.events = s.events ++ [e] := hrecords.events
      refine ⟨?_, fun e' he' => ?_⟩
      · rw [hevents, List.map_append]
        refine List.nodup_append.mpr ⟨hs.nodup, List.nodup_singleton _, fun i hi j hj hij => ?_⟩
        obtain ⟨e', he', rfl⟩ := List.mem_map.mp hi
        rw [List.map_singleton, List.mem_singleton] at hj
        exact hs.receipts e' he' (by rw [hij, hj]; exact hrecords.fresh s rfl)
      · rw [hevents, List.mem_append, List.mem_singleton] at he'
        obtain he' | rfl := he'
        · obtain ⟨receipt', hreceipt'⟩ := Option.ne_none_iff_exists'.mp (hs.receipts e' he')
          rw [hrecords.extends.receipts _ _ hreceipt']
          exact Option.some_ne_none _
        · exact hnew
  exact hinv t rfl

theorem exists_append_of_publish {event : Event} {candidate : State} {file : EventFile}
    (h : prepare workspaceId files r = .ok (.publish event candidate file)) :
    ∃ receipt, append workspaceId files r = (files ++ [file], .ok ⟨files ++ [file], candidate, receipt⟩) := by
  have happend : append workspaceId files r =
      (files ++ [file], (fun receipt => ⟨files ++ [file], candidate, receipt⟩) <$> receiptForEvent candidate event) := by
    rw [append, h]
  simp only [prepare, readState, bind_eq_ok, catching_eq_ok] at h
  obtain ⟨s, -, h⟩ := h
  split at h
  · simp only [bind_eq_ok, pure_eq_ok, reduceCtorEq, and_false, exists_false] at h
  · simp only [bind_eq_ok, ensure_eq_ok, catching_eq_ok, exists_const, pure_eq_ok, Prepared.publish.injEq] at h
    obtain ⟨-, -, e, -, t, ht, _, -, data, -, -, rfl, rfl, -⟩ := h
    obtain ⟨receipt, hreceipt, -⟩ := (applyEvent_records ht).receipt
    exact ⟨receipt, by rw [happend, hreceipt]; rfl⟩

/-- A journal after an append that can be read was one that could be read before it, with nothing more in it. -/
theorem exists_extends_of_append (ht : project workspaceId (append workspaceId files r).1 = .ok t) :
    ∃ s, project workspaceId files = .ok s ∧ s.Extends t := by
  cases hprepare : prepare workspaceId files r with
  | error err =>
    rw [append_of_error hprepare] at ht
    exact ⟨t, ht, .refl t⟩
  | ok x =>
    cases x with
    | retried s receipt =>
      rw [append_of_retried hprepare] at ht
      exact ⟨t, ht, .refl t⟩
    | publish event candidate file =>
      obtain ⟨receipt, happend⟩ := exists_append_of_publish hprepare
      obtain ⟨s, hs, hcases⟩ := append_eq_ok happend
      rw [happend] at ht
      refine ⟨s, hs, ?_⟩
      obtain ⟨hfiles, -⟩ | ⟨-, e, data, -, happly, -⟩ := hcases
      · simp at hfiles
      -- an event that is too large to be read again would have made the journal corrupt
      by_cases hfits : Fits s r
      · cases (project_append_of_fits hs happend hfits).1.symm.trans ht
        exact (applyEvent_records happly).extends
      · cases (project_append_of_not_fits hs happend hfits).symm.trans ht

theorem exists_extends (h : AppendRuns workspaceId files files') (ht : project workspaceId files' = .ok t) :
    ∃ s, project workspaceId files = .ok s ∧ s.Extends t := by
  induction h generalizing t with
  | refl => exact ⟨t, ht, .refl t⟩
  | next _ _ hs ih =>
    obtain rfl := hs
    obtain ⟨s, hs, hextends⟩ := exists_extends_of_append ht
    obtain ⟨s', hs', hextends'⟩ := ih hs
    exact ⟨s', hs', hextends'.trans hextends⟩

/-! ### Events that are there -/

/-- A state holds the event of a request, and the receipt for it. -/
structure State.Keeps (s : State) (r : Request) (e : Event) (receipt : WorkspaceReceipt) : Prop where
  event : e ∈ s.events
  id : e.eventId = r.eventId
  kind : e.kind = r.kind
  payload : ∃ b, canonical e.payload = .ok b ∧ canonical r.payload = .ok b
  receipt : s.receipts.get? r.eventId = some receipt

theorem State.Keeps.of_extends {e : Event} {receipt : WorkspaceReceipt} (h : s.Keeps r e receipt) (hextends : s.Extends t) :
    t.Keeps r e receipt :=
  ⟨hextends.events.subset h.event, h.id, h.kind, h.payload, hextends.receipts _ _ h.receipt⟩

/-- An event with the identifier of another is that one. -/
theorem State.Distinct.find? (h : t.Distinct) {e : Event} (he : e ∈ t.events) :
    t.events.find? (·.eventId = e.eventId) = some e ∧ t.events.filter (·.eventId = e.eventId) = [e] := by
  obtain ⟨l, l', hl⟩ := List.append_of_mem he
  have hnodup := h.nodup
  rw [hl, List.map_append, List.map_cons] at hnodup
  obtain ⟨-, htail, hne⟩ := List.nodup_append.mp hnodup
  have hleft : ∀ e' ∈ l, e'.eventId ≠ e.eventId := fun e' he' => hne _ (List.mem_map_of_mem he') _ (List.mem_cons_self)
  have hright : ∀ e' ∈ l', e'.eventId ≠ e.eventId :=
    fun e' he' heq => (List.nodup_cons.mp htail).1 (heq ▸ List.mem_map_of_mem he')
  rw [hl]
  refine ⟨?_, ?_⟩
  · rw [List.find?_append, List.find?_eq_none.mpr (by simpa using hleft), List.find?_cons_of_pos (by simp)]
    rfl
  · rw [List.filter_append, List.filter_eq_nil_iff.mpr (by simpa using hleft), List.filter_cons_of_pos (by simp),
      List.filter_eq_nil_iff.mpr (by simpa using hright), List.nil_append]

/-- An append that has a receipt leaves the event of its request. -/
theorem exists_keeps {a : Appended} (h : append workspaceId files r = (files', .ok a)) (ht : project workspaceId files' = .ok t) :
    ∃ e, t.Keeps r e a.receipt := by
  cases hprepare : prepare workspaceId files r with
  | error err =>
    rw [append_of_error hprepare] at h
    cases h
  | ok x =>
    cases x with
    | retried s receipt =>
      rw [append_of_retried hprepare] at h
      cases h
      simp only [prepare, readState, bind_eq_ok, catching_eq_ok] at hprepare
      obtain ⟨s', hs', hprepare⟩ := hprepare
      cases hs'.symm.trans ht
      split at hprepare
      · next previous hprevious =>
        simp only [bind_eq_ok, pure_eq_ok, Prepared.retried.injEq] at hprepare
        obtain ⟨receipt', hretry, rfl, rfl⟩ := hprepare
        unfold retryReceipt at hretry
        split at hretry
        · cases hretry
        · next e he =>
          simp only [bind_eq_ok, ensure_eq_ok, exists_const, pure_eq_ok] at hretry
          obtain ⟨_, hsame, rfl, rfl⟩ := hretry
          unfold sameRequest at hsame
          split_ifs at hsame with hkind
          swap
          · cases hsame
          simp only [bind_eq_ok, pure_eq_ok, decide_eq_true_eq] at hsame
          obtain ⟨stored, hstored, given, hgiven, rfl⟩ := hsame
          exact ⟨e, List.mem_of_find?_eq_some he, by simpa using List.find?_some he, hkind, ⟨_, hstored, hgiven⟩, hprevious⟩
      · simp only [bind_eq_ok, pure_eq_ok, reduceCtorEq, and_false, exists_false] at hprepare
    | publish event candidate file =>
      obtain ⟨s, hs, hcases⟩ := append_eq_ok h
      obtain ⟨receipt, happend⟩ := exists_append_of_publish hprepare
      have hfiles : files' = files ++ [file] := congrArg Prod.fst (h.symm.trans happend)
      obtain ⟨hsame, -⟩ | ⟨-, e, data, he, happly, hdata, -, hreceipt⟩ := hcases
      · rw [hsame] at hfiles
        simp at hfiles
      by_cases hfits : Fits s r
      · obtain ⟨hproject, hstored⟩ := project_append_of_fits hs h hfits
        cases hproject.symm.trans ht
        obtain ⟨-, -, -, hid, hkind, hpayload, -⟩ := Event.sealed_record he
        have hrecords := applyEvent_records happly
        have hmem : e ∈ a.state.events := by
          rw [hrecords.events]
          exact List.mem_append_right _ (List.mem_singleton_self e)
        have hwritable : ∃ b, canonical e.payload = .ok b := by
          rw [Event.toDict_eq] at hdata
          exact canonical_of_writable (writable_of_mkObj (by simp) ⟨data, canonical_eq_ok.mp hdata⟩ ("payload", e.payload) (by simp))
        obtain ⟨b, hb⟩ := hwritable
        refine ⟨e, hmem, hid, hkind, ⟨b, hb, ?_⟩, hstored⟩
        rw [hpayload, canonical, canonicalBytes?_plain] at hb
        exact hb
      · cases (project_append_of_not_fits hs h hfits).symm.trans ht

/-- An append of an event that is there is answered with its receipt, where it asks for the same; else it is refused. -/
theorem State.Keeps.append {r' : Request} {e : Event} {receipt : WorkspaceReceipt} (h : t.Keeps r e receipt)
    (ht : project workspaceId files = .ok t) (hid : r'.eventId = r.eventId) :
    (r'.kind = r.kind → canonical r'.payload = canonical r.payload →
      append workspaceId files r' = (files, .ok ⟨files, t, receipt⟩)) ∧
      (r'.kind ≠ r.kind ∨ (∃ b, canonical r'.payload = .ok b ∧ canonical r.payload ≠ .ok b) →
        append workspaceId files r' = (files, .error .conflict)) := by
  obtain ⟨b, hstored, hgiven⟩ := h.payload
  have hfind : t.events.find? (·.eventId = r'.eventId) = some e := by
    rw [hid, ← h.id]
    exact ((distinct_of_project ht).find? h.event).1
  have hprepare : prepare workspaceId files r' = do
      let same ← sameRequest e r'.kind r'.payload
      ensure (same = true) .conflict
      return .retried t receipt := by
    have hretry : retryReceipt t receipt r'.eventId r'.kind r'.payload = do
        let same ← sameRequest e r'.kind r'.payload
        ensure (same = true) .conflict
        return receipt := by
      rw [retryReceipt, hfind]
    rw [prepare, readState, ht, catching_ok, ok_bind, hid, h.receipt]
    simp only
    rw [← hid, hretry]
    simp only [bind_assoc, pure_bind]
  refine ⟨fun hkind hpayload => ?_, fun hother => ?_⟩
  · have hsame : sameRequest e r'.kind r'.payload = .ok true := by
      rw [sameRequest, if_pos (h.kind.trans hkind.symm), hstored, hpayload, hgiven]
      simp
    rw [hsame] at hprepare
    exact append_of_retried hprepare
  · have hsame : sameRequest e r'.kind r'.payload = .ok false := by
      unfold sameRequest
      obtain hkind | ⟨b', hb', hne⟩ := hother
      · rw [if_neg fun heq => hkind (heq.symm.trans h.kind)]
      · split_ifs with hkind
        · have hbytes : b ≠ b' := fun heq => hne (heq ▸ hgiven)
          rw [hstored, hb']
          simp [hbytes]
        · rfl
    rw [hsame] at hprepare
    exact append_of_error hprepare

end

namespace Store
variable {workspaceId : Uuid} {σ₀ σ σ' : Store}

/-- A step ends no append, or the one that holds the lock, with the journal that is in the directory. -/
theorem answers_next {a : Action} (hs : σ.next workspaceId a = some σ') : σ'.answers = σ.answers ∨
    ∃ answer, answer.after = σ.directory.journal ∧ σ'.directory = σ.directory ∧ σ'.answers = σ.answers ++ [answer] := by
  have hfailed (h : Holder) (cleaned : Bool) : (σ.failed h cleaned).answers = σ.answers := by
    unfold Store.failed
    split <;> rfl
  unfold Store.next at hs
  cases hholder : σ.holder with
  | none =>
    rw [hholder] at hs
    cases a with
    | acquire r =>
      cases hs
      exact .inl rfl
    | _ => cases hs
  | some h =>
    rw [hholder] at hs
    replace hs : σ.advance workspaceId h a = some σ' := hs
    cases a with
    | acquire r => cases hs
    | release =>
      simp only [advance] at hs
      split at hs
      · cases hs
        exact .inr ⟨_, rfl, rfl, rfl⟩
      · cases hs
    | fail cleaned =>
      cases hs
      exact .inl (hfailed h cleaned)
    | stop =>
      cases hs
      exact .inl rfl
    | create temporary file =>
      simp only [advance] at hs
      split at hs
      · split_ifs at hs <;> cases hs <;> first | exact .inl (hfailed h false) | exact .inl rfl
      · cases hs
    | link =>
      simp only [advance] at hs
      split at hs
      · split_ifs at hs <;> cases hs <;> first | exact .inl (hfailed h true) | exact .inl rfl
      · cases hs
    | write count =>
      simp only [advance] at hs
      split at hs
      · split_ifs at hs
        cases hs
        exact .inl rfl
      · cases hs
    | project | unlink | check =>
      simp only [advance] at hs
      split at hs
      · cases hs
        exact .inl rfl
      · cases hs

theorem runs_of_mem_answers (hidle : σ₀.IsIdle) (h : Reaches workspaceId σ₀ σ) {a : Answer} (ha : a ∈ σ.answers) :
    AppendRuns workspaceId a.after σ.directory.journal := by
  induction h with
  | refl =>
    rw [hidle.answers] at ha
    cases ha
  | next hreach _ hs ih =>
    obtain ⟨hinv, -⟩ := hidle.inv.of_reaches hreach
    have hruns := (Inv.next ⟨hinv.tidy, .refl, hinv.follows, hinv.appends, hinv.past, hinv.ordered⟩ hs).1.runs
    obtain hsame | ⟨answer, hafter, hdirectory, hmore⟩ := answers_next hs
    · exact (ih (hsame ▸ ha)).trans hruns
    · rw [hmore] at ha
      obtain ha | ha := List.mem_append.mp ha
      · exact (ih ha).trans hruns
      · rw [List.mem_singleton.mp ha, hafter, hdirectory]
        exact .refl

/-- What a client has a receipt for is kept, once: whatever clients append, stop and fail after it, a state of the journal holds one event with
    its identifier, of its kind and with its payload, and its receipt. An append that is tried again publishes nothing and has that receipt,
    and one that asks for something else under the identifier is refused. -/
theorem keeps_acknowledged (hidle : σ₀.IsIdle) (h : Reaches workspaceId σ₀ σ) {t : State} (ht : project workspaceId σ.directory.journal = .ok t)
    {a : Answer} (ha : a ∈ σ.answers) {receipt : WorkspaceReceipt} (hresult : a.result = .ok receipt) :
    t.receipts.get? a.request.eventId = some receipt ∧
      (∃ e, t.events.filter (·.eventId = a.request.eventId) = [e] ∧ e.kind = a.request.kind ∧
        canonical e.payload = canonical a.request.payload) ∧
      ∀ r : Request, r.eventId = a.request.eventId →
        (r.kind = a.request.kind → canonical r.payload = canonical a.request.payload →
          append workspaceId σ.directory.journal r = (σ.directory.journal, .ok ⟨σ.directory.journal, t, receipt⟩)) ∧
        (r.kind ≠ a.request.kind ∨ (∃ b, canonical r.payload = .ok b ∧ canonical a.request.payload ≠ .ok b) →
          append workspaceId σ.directory.journal r = (σ.directory.journal, .error .conflict)) := by
  obtain ⟨hinv, -⟩ := hidle.inv.of_reaches h
  obtain ⟨hafter, happend⟩ | ⟨-, ⟨err, herr⟩, -⟩ := hinv.appends a ha
  · rw [hresult] at happend
    cases hsecond : (append workspaceId a.before a.request).2 with
    | error err =>
      rw [hsecond] at happend
      cases happend
    | ok x =>
      rw [hsecond] at happend
      obtain rfl : receipt = x.receipt := Except.ok.inj happend
      obtain ⟨s, hs, hextends⟩ := exists_extends (runs_of_mem_answers hidle h ha) ht
      obtain ⟨e, he⟩ := exists_keeps (Prod.ext hafter.symm hsecond : append workspaceId a.before a.request = (a.after, .ok x)) hs
      have hkeeps := he.of_extends hextends
      obtain ⟨b, hstored, hgiven⟩ := hkeeps.payload
      refine ⟨hkeeps.receipt, ⟨e, ?_, hkeeps.kind, hstored.trans hgiven.symm⟩, fun r hid => hkeeps.append ht hid⟩
      rw [← hkeeps.id]
      exact ((distinct_of_project ht).find? hkeeps.event).2
  · rw [hresult] at herr
    cases herr

/-- A client that has a receipt for a commit appends it again. -/
theorem exists_keeps_acknowledged : ∃ (σ : Store) (t : State) (a : Answer) (receipt : WorkspaceReceipt), a ∈ σ.answers ∧
    project (numberedUuid 0) σ.directory.journal = .ok t ∧ a.result = .ok receipt ∧
      t.receipts.get? a.request.eventId = some receipt ∧
      (∃ e, t.events.filter (·.eventId = a.request.eventId) = [e] ∧ e.kind = a.request.kind ∧
        canonical e.payload = canonical a.request.payload) ∧
      ∀ r : Request, r.eventId = a.request.eventId →
        (r.kind = a.request.kind → canonical r.payload = canonical a.request.payload →
          append (numberedUuid 0) σ.directory.journal r = (σ.directory.journal, .ok ⟨σ.directory.journal, t, receipt⟩)) ∧
        (r.kind ≠ a.request.kind ∨ (∃ b, canonical r.payload = .ok b ∧ canonical a.request.payload ≠ .ok b) →
          append (numberedUuid 0) σ.directory.journal r = (σ.directory.journal, .error .conflict)) := by
  obtain ⟨σ₀, s, hidle, hs, hname, r, event, candidate, file, receipt, t, hprepare, hreceipt, ht⟩ := exists_idle
  have hinv : Inv (numberedUuid 0) σ₀.directory.journal σ₀ := hidle.inv
  obtain ⟨σ, hreach, -, hjournal, hanswers⟩ := hinv.exists_append hidle.holder r (List.prefix_refl _)
    fun hmem => hname _ hmem (List.prefix_refl temporaryMark)
  have hresult := (append_of_publish hprepare).2.2.2.trans hreceipt
  rw [hidle.answers, List.nil_append] at hanswers
  have hmem : ⟨r, σ₀.directory.journal, σ.directory.journal, false,
      (·.receipt) <$> (append (numberedUuid 0) σ₀.directory.journal r).2⟩ ∈ σ.answers := by
    rw [hanswers]
    exact List.mem_singleton_self _
  rw [← hjournal] at ht
  exact ⟨σ, t, _, receipt, hmem, ht, hresult, keeps_acknowledged hidle hreach ht hmem hresult⟩

end Store

end LeanCtx
