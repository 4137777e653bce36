import LeanCtx.Workspace.Accept

/-! Agreement of append and replay. The writer checks an event in memory; the reader checks the bytes that were written, and
    refuses a file of more than 16 MiB and a sequence of more than sixteen digits. Those are the only two ways in which a
    successful append can be read otherwise than it was computed. -/

namespace LeanCtx
open Json

/-! ### The size of a record -/

theorem mem_joinComma {l : List Str} {t : Str} (h : t ∈ l) {c : Nat} (hc : c ∈ t) : c ∈ joinComma l := by
  induction l with
  | nil => cases h
  | cons u l ih =>
    cases l with
    | nil =>
      rw [List.mem_singleton.mp h] at hc
      exact hc
    | cons v l =>
      rw [joinComma, List.mem_append, List.mem_cons]
      rcases List.mem_cons.mp h with rfl | h
      · exact Or.inl hc
      · exact Or.inr (Or.inr (ih h))

theorem fieldTexts?_mem {f : List (Str × Json)} {ts : List Str} (h : fieldTexts? f = some ts) {p : Str × Json} (hp : p ∈ f) :
    ∃ t, p.2.text? = some t ∧ ∃ u ∈ ts, ∀ c ∈ t, c ∈ u := by
  induction f generalizing ts with
  | nil => cases hp
  | cons q f ih =>
    obtain ⟨t, ht, h⟩ := Option.bind_eq_some_iff.mp h
    obtain ⟨us, hus, rfl⟩ := Option.map_eq_some_iff.mp h
    rcases List.mem_cons.mp hp with rfl | hp
    · exact ⟨t, ht, _, List.mem_cons_self, fun c hc => by simp [hc]⟩
    · obtain ⟨t, ht, u, hu, hsub⟩ := ih hus hp
      exact ⟨t, ht, u, List.mem_cons_of_mem _ hu, hsub⟩

/-- The fields of an object that can be written can be written. -/
theorem writable_of_mkObj {f : List (String × Json)} (hnodup : (f.map (·.1)).Nodup) (h : Writable (mkObj f)) :
    ∀ p ∈ f, Writable p.2 := by
  intro p hp
  obtain ⟨t, ht, hscalar⟩ := writable_iff.mp h
  rw [plain_mkObj, mkObj] at ht
  obtain ⟨ts, hts, rfl⟩ := Option.map_eq_some_iff.mp ht
  have hkeys : (((f.map fun p => (p.1, p.2.plain)).map fun p => (Str.lit p.1, p.2)).map (·.1)).Nodup := by
    rw [List.map_map, List.map_map]
    have := hnodup.map Str.lit_injective
    rwa [List.map_map] at this
  have hmem : (Str.lit p.1, p.2.plain) ∈ sortFields ((f.map fun p => (p.1, p.2.plain)).map fun p => (Str.lit p.1, p.2)) := by
    rw [(perm_sortFields hkeys).mem_iff, List.map_map]
    exact List.mem_map.mpr ⟨p, hp, rfl⟩
  obtain ⟨t, ht, u, hu, hsub⟩ := fieldTexts?_mem hts hmem
  refine writable_iff.mpr ⟨t, ht, List.all_eq_true.mpr fun c hc => ?_⟩
  refine List.all_eq_true.mp hscalar c ?_
  rw [List.cons_append, List.mem_cons, List.mem_append]
  exact Or.inr (Or.inl (mem_joinComma hu (hsub c hc)))

/-- The bytes of the file of an event that is not the first: its payload, its kind, its sequence and what is always there. -/
def recordBytes (sequence : Nat) (kind : EventKind) (payload : Json) : Nat :=
  byteLength payload + (Str.lit kind.name).length + (natText sequence).length + 366

theorem byteLength_le_recordBytes (sequence : Nat) (kind : EventKind) (payload : Json) :
    byteLength payload ≤ recordBytes sequence kind payload := by
  unfold recordBytes
  omega

theorem Uuid.isBare (u : Uuid) : u.1.length = 36 ∧ ∀ c ∈ u.1, IsBare c := by
  obtain ⟨s, hs⟩ := u
  simp only [isUuid, Bool.and_eq_true, List.all_eq_true, beq_iff_eq] at hs
  refine ⟨hs.1, fun c (hc : c ∈ s) => ?_⟩
  obtain ⟨i, hi, rfl⟩ := List.mem_iff_getElem.mp hc
  have hchar := hs.2 (s[i], i) (List.mem_zipIdx_iff_getElem?.mpr (List.getElem?_eq_getElem hi))
  simp only at hchar
  split_ifs at hchar
  · rw [beq_iff_eq.mp hchar]
    decide
  · simp only [Sha256.isHex, Bool.or_eq_true, Bool.and_eq_true, decide_eq_true_eq] at hchar
    unfold IsBare
    omega

theorem byteLength_uuid (u : Uuid) : byteLength u.json = 38 :=
  (byteLength_str u.isBare.2).trans (by rw [u.isBare.1])

theorem Digest.isBare (d : Digest) : d.1.length = 71 ∧ ∀ c ∈ d.1, IsBare c := by
  obtain ⟨s, hs⟩ := d
  simp only [isDigest, Bool.and_eq_true, decide_eq_true_eq, lit_sha256, beq_iff_eq] at hs
  obtain ⟨⟨⟨t, rfl⟩, hlength⟩, hhex⟩ := hs
  refine ⟨hlength, fun c hc => ?_⟩
  rcases List.mem_append.mp hc with hc | hc
  · simp only [List.mem_cons, List.not_mem_nil, or_false] at hc
    unfold IsBare
    omega
  · have hchar := List.all_eq_true.mp hhex c (by simpa using hc)
    simp only [Sha256.isHex, Bool.or_eq_true, Bool.and_eq_true, decide_eq_true_eq] at hchar
    unfold IsBare
    omega

theorem byteLength_digest (d : Digest) : byteLength d.json = 73 :=
  (byteLength_str d.isBare.2).trans (by rw [d.isBare.1])

theorem byteLength_kind (k : EventKind) : byteLength (.str k.name) = (Str.lit k.name).length + 2 := by
  refine byteLength_str fun c hc => ?_
  revert c
  cases k <;> decide

theorem byteLength_positive {n : Positive} (h : Writable n.json) : byteLength n.json = (natText n.1).length := by
  rw [byteLength_eq_textLength h]
  obtain ⟨t, ht, -⟩ := writable_iff.mp h
  rw [Positive.json, plain, text?] at ht
  split_ifs at ht with hlen
  have htext : (Positive.json n).plain.text? = some (natText n.1) := by
    rw [Positive.json, plain, text?, if_pos hlen]
    rfl
  rw [textLength, htext, Option.map_some, Option.getD_some, Str.utf8Length]
  have hpoints : (natText n.1).map Str.pointLength = (natText n.1).map fun _ => 1 := by
    refine List.map_congr_left fun c hc => if_pos ?_
    have := List.all_eq_true.mp (isDigit_natText n.1) c hc
    simp only [isDigit, Bool.and_eq_true, decide_eq_true_eq] at this
    omega
  rw [hpoints, List.map_const', List.sum_replicate, smul_eq_mul, Nat.mul_one]

theorem length_eventFile {e : Event} {data : Bytes} (hdata : canonical e.toDict = .ok data)
    (hprevious : e.previousDigest ≠ none) :
    (eventFile e data).data.length = recordBytes e.sequence.1 e.kind e.payload := by
  have hbytes := canonical_eq_ok.mp hdata
  obtain ⟨d, hd⟩ := Option.ne_none_iff_exists'.mp hprevious
  rw [Event.toDict_eq] at hbytes
  have hfields := writable_of_mkObj (by simp) ⟨data, hbytes⟩
  have hlength := byteLength_mkObj hfields (by simp) (by simp)
  rw [← length_canonicalBytes hbytes] at hlength
  have hsequence : Writable e.sequence.json := hfields ("sequence", e.sequence.json) (by simp)
  have hschema : byteLength (.str Event.schema) = 28 := byteLength_str (by decide)
  have hprev : byteLength (.str (previousText e.previousDigest)) = 73 := by
    rw [hd]
    exact byteLength_digest d
  simp only [List.map_cons, List.map_nil, List.sum_cons, List.sum_nil, byteLength_uuid, byteLength_digest, byteLength_kind,
    byteLength_positive hsequence, hschema, hprev] at hlength
  have hquotes : ∀ s : String, (∀ c ∈ Str.lit s, IsBare c) → (quote (Str.lit s)).utf8Length = (Str.lit s).length + 2 :=
    fun s hs => utf8Length_quote hs
  rw [hquotes "schema_version" (by decide), hquotes "workspace_id" (by decide), hquotes "sequence" (by decide),
    hquotes "event_id" (by decide), hquotes "kind" (by decide), hquotes "payload" (by decide),
    hquotes "previous_digest" (by decide), hquotes "event_digest" (by decide)] at hlength
  have hkeys : (Str.lit "schema_version").length = 14 ∧ (Str.lit "workspace_id").length = 12 ∧
      (Str.lit "sequence").length = 8 ∧ (Str.lit "event_id").length = 8 ∧ (Str.lit "kind").length = 4 ∧
      (Str.lit "payload").length = 7 ∧ (Str.lit "previous_digest").length = 15 ∧ (Str.lit "event_digest").length = 12 := by
    decide
  obtain ⟨h1, h2, h3, h4, h5, h6, h7, h8⟩ := hkeys
  rw [h1, h2, h3, h4, h5, h6, h7, h8] at hlength
  have hfile : (eventFile e data).data.length = data.length + 1 := List.length_append
  rw [hfile, recordBytes]
  omega

/-! ### Append and replay -/

/-- The event is there already, or its record is small enough to be read again. -/
def Fits (s : State) (r : Request) : Prop :=
  s.receipts.contains r.eventId = true ∨
    recordBytes (s.events.length + 1) r.kind r.payload ≤ maxEventBytes ∧ s.events.length + 1 < 10 ^ sequenceWidth

/-- What a successful append did: nothing, or it wrote the file of an event that the state accepts. -/
theorem append_eq_ok {workspaceId : Uuid} {files files' : List EventFile} {r : Request} {a : Appended}
    (h : append workspaceId files r = (files', .ok a)) : ∃ s, project workspaceId files = .ok s ∧
      ((files' = files ∧ a.state = s ∧ s.receipts.get? r.eventId = some a.receipt) ∨
        (s.receipts.get? r.eventId = none ∧ ∃ e data,
          Event.record workspaceId (nextSequence (some s)) r.eventId r.kind r.payload s.lastEventDigest = .ok e ∧
          applyEvent r.verified (some s) e = .ok a.state ∧ canonical e.toDict = .ok data ∧
          files' = files ++ [eventFile e data] ∧ receiptForEvent a.state e = .ok a.receipt)) := by
  unfold append at h
  split at h
  · cases h
  · next s receipt hprepare =>
    cases h
    simp only [prepare, readState, bind_eq_ok, catching_eq_ok] at hprepare
    obtain ⟨s', hs', hprepare⟩ := hprepare
    split at hprepare
    · next previous hprevious =>
      simp only [bind_eq_ok, pure_eq_ok, Prepared.retried.injEq] at hprepare
      obtain ⟨receipt', hretry, rfl, rfl⟩ := hprepare
      refine ⟨s', hs', Or.inl ⟨rfl, rfl, ?_⟩⟩
      unfold retryReceipt at hretry
      split at hretry
      · cases hretry
      · simp only [bind_eq_ok, ensure_eq_ok, exists_const, pure_eq_ok] at hretry
        obtain ⟨_, -, -, rfl⟩ := hretry
        exact hprevious
    · simp only [bind_eq_ok, pure_eq_ok, reduceCtorEq, and_false, exists_false] at hprepare
  · next event candidate file hprepare =>
    cases hreceipt : receiptForEvent candidate event with
    | error err =>
      rw [hreceipt] at h
      cases h
    | ok receipt =>
      rw [hreceipt] at h
      cases h
      simp only [prepare, readState, bind_eq_ok, catching_eq_ok] at hprepare
      obtain ⟨s, hs, hprepare⟩ := hprepare
      split at hprepare
      · simp only [bind_eq_ok, pure_eq_ok, reduceCtorEq, and_false, exists_false] at hprepare
      · next hnew =>
        simp only [bind_eq_ok, ensure_eq_ok, catching_eq_ok, exists_const, pure_eq_ok, Prepared.publish.injEq] at hprepare
        obtain ⟨-, -, e, he, t, ht, _, -, data, hdata, -, rfl, rfl, rfl⟩ := hprepare
        exact ⟨s, hs, Or.inr ⟨hnew, e, data, he, ht, hdata, rfl, hreceipt⟩⟩

theorem checkPayload_of_applyEvent {allow : Bool} {s : State} {e : Event} {t : State}
    (h : applyEvent allow (some s) e = .ok t) :
    e.payload.isObj = true ∧ rejectSensitive e.payload "payload" = .ok () := by
  obtain ⟨hpayload, -⟩ := applyEvent_some.mp h
  simp only [checkPayload, projecting_eq_ok, bind_eq_ok, exact, ensure_eq_ok] at hpayload
  obtain ⟨u, hsafe, hkeys⟩ := hpayload
  refine ⟨?_, hsafe⟩
  unfold Json.hasExactly at hkeys
  split at hkeys
  · next hobj =>
    rw [hobj]
    rfl
  · cases hkeys

/-- A state that was projected has events, and knows the digest of the last one. -/
theorem lastEventDigest_of_project {workspaceId : Uuid} {files : List EventFile} {s : State}
    (h : project workspaceId files = .ok s) : s.events ≠ [] ∧ s.lastEventDigest ≠ none := by
  have hinv : ∀ t ∈ some s, t.events ≠ [] ∧ t.lastEventDigest ≠ none := by
    refine foldlM_invariant (P := fun u => ∀ t ∈ u, t.events ≠ [] ∧ t.lastEventDigest ≠ none) (by simp) ?_
      (project_eq_ok.mp h).2.1
    rintro u f v - - hv t ht
    obtain ⟨e, -, hv⟩ := bind_eq_ok.mp hv
    obtain ⟨s', hs', hv⟩ := bind_eq_ok.mp hv
    cases hv
    obtain rfl := Option.some.inj ht
    have hrecords := applyEvent_records hs'
    exact ⟨by rw [hrecords.events]; simp, by rw [hrecords.last]; simp⟩
  exact hinv s rfl

section
variable {workspaceId : Uuid} {files files' : List EventFile} {r : Request} {a : Appended} {s : State} {e : Event}
  {data : Bytes}

/-- The file of a record of the bytes that were computed. -/
theorem length_record (hs : project workspaceId files = .ok s)
    (he : Event.record workspaceId (nextSequence (some s)) r.eventId r.kind r.payload s.lastEventDigest = .ok e)
    (hdata : canonical e.toDict = .ok data) :
    (eventFile e data).data.length = recordBytes (s.events.length + 1) r.kind r.payload := by
  obtain ⟨-, -, hseq, -, hkind, hpayload, hprevious⟩ := Event.sealed_record he
  obtain ⟨-, hlast⟩ := lastEventDigest_of_project hs
  rw [length_eventFile hdata (by rwa [hprevious]), hseq, hkind, hpayload, recordBytes, byteLength_plain]
  rfl

/-- A successful append that fits is read again as the state and the receipt that it computed. -/
theorem project_append_of_fits (hs : project workspaceId files = .ok s)
    (h : append workspaceId files r = (files', .ok a)) (hfits : Fits s r) :
    project workspaceId files' = .ok a.state ∧ a.state.receipts.get? r.eventId = some a.receipt := by
  obtain ⟨s', hs', hcase⟩ := append_eq_ok h
  obtain rfl := Except.ok.inj (hs.symm.trans hs')
  obtain ⟨rfl, rfl, hreceipt⟩ | ⟨hnew, e, data, he, ht, hdata, rfl, hreceipt⟩ := hcase
  · exact ⟨hs, hreceipt⟩
  obtain ⟨hsealed, hw, hseq, hid, hkind, hpayload, hprevious⟩ := Event.sealed_record he
  obtain ⟨hobj, hsafe⟩ := checkPayload_of_applyEvent ht
  obtain ⟨-, -, hidentity⟩ := project_eq_ok.mp hs
  obtain ⟨hevents, hlast⟩ := lastEventDigest_of_project hs
  have hfollows : e.Follows := by
    refine iff_of_false ?_ (by rwa [hprevious])
    rw [hseq]
    exact fun h1 => hevents (List.eq_nil_of_length_eq_zero (Nat.succ.inj h1))
  obtain ⟨hbytes, hsequence⟩ := hfits.resolve_left (by rw [Dict.contains, hnew]; decide)
  have hsequence' : e.sequence.1 < 10 ^ sequenceWidth := by rwa [hseq]
  have hname := matchEventName_eventFileName hsequence'
  rw [hseq] at hname
  refine ⟨(project_concat (f := eventFile e data) hs hname).1 ?_ ?_, ?_⟩
  · -- the file is read as the event, which replay accepts
    have hread := readEvent_eventFile hsealed hobj hsafe hfollows hdata (length_record hs he hdata ▸ hbytes) hsequence'
    rw [hw, hseq, hprevious] at hread
    rw [extend, show lastDigest (some s) = s.lastEventDigest from rfl, hread, ok_bind, applyEvent_mono ht, ok_bind]
    rfl
  · rw [(applyEvent_records ht).identity s rfl, hidentity]
  · obtain ⟨receipt, hreceipt', hstored⟩ := (applyEvent_records ht).receipt
    rw [← hid, hstored, ← Except.ok.inj (hreceipt.symm.trans hreceipt')]

/-- A successful append that does not fit makes the workspace corrupt to every later reader. -/
theorem project_append_of_not_fits (hs : project workspaceId files = .ok s)
    (h : append workspaceId files r = (files', .ok a)) (hfits : ¬Fits s r) :
    project workspaceId files' = .error .corrupt := by
  obtain ⟨s', hs', hcase⟩ := append_eq_ok h
  obtain rfl := Except.ok.inj (hs.symm.trans hs')
  obtain ⟨rfl, rfl, hreceipt⟩ | ⟨-, e, data, he, -, hdata, rfl, -⟩ := hcase
  · exact absurd (Or.inl (by rw [Dict.contains, hreceipt]; rfl)) hfits
  obtain ⟨-, -, hseq, -⟩ := Event.sealed_record he
  by_cases hsequence : s.events.length + 1 < 10 ^ sequenceWidth
  · have hname := matchEventName_eventFileName (e := e) (by rwa [hseq])
    rw [hseq] at hname
    have hbytes : ¬recordBytes (s.events.length + 1) r.kind r.payload ≤ maxEventBytes :=
      fun hbytes => hfits (Or.inr ⟨hbytes, hsequence⟩)
    rw [← length_record hs he hdata] at hbytes
    refine (project_concat (f := eventFile e data) hs hname).2 ?_
    rw [extend, readEvent_of_large (not_le.mp hbytes), error_bind]
  · have hname : matchEventName (eventFile e data).name = none :=
      matchEventName_eq_none (by rw [hseq]; exact not_lt.mp hsequence)
    exact project_of_badName hname (by simp)

/-- A successful append is read again as the state and the receipt that it computed exactly if it fits. -/
theorem append_reread_iff_fits (hs : project workspaceId files = .ok s)
    (h : append workspaceId files r = (files', .ok a)) :
    (project workspaceId files' = .ok a.state ∧ a.state.receipts.get? r.eventId = some a.receipt) ↔ Fits s r := by
  refine ⟨fun hread => ?_, project_append_of_fits hs h⟩
  by_contra hfits
  rw [project_append_of_not_fits hs h hfits] at hread
  cases hread.1

end

/-! ### A commit that is too large to be read again -/

/-- A policy with room for everything. -/
def openPolicy : WorkspacePolicy where
  allowedCategories := Category.all
  maxEvents := ⟨1000000000, by decide⟩
  maxContextEntries := ⟨1000000000, by decide⟩
  maxEntryBytes := ⟨1000000000, by decide⟩
  maxContextBytes := ⟨1000000000, by decide⟩
  maxSources := ⟨1000000000, by decide⟩
  maxSessions := ⟨1000000000, by decide⟩
  allowExternalSources := true
  sorted := by decide

theorem small_openPolicy : openPolicy.Small := by
  simp only [WorkspacePolicy.Small, openPolicy, List.mem_cons, List.not_mem_nil, or_false, forall_eq_or_imp, forall_eq]
  decide

theorem isUuid_numbered (n : Nat) : isUuid (paddedText 8 (n % 10 ^ 8) ++ Str.lit "-0000-4000-8000-000000000000") = true := by
  have hlength : (paddedText 8 (n % 10 ^ 8)).length = 8 := length_paddedText (by decide) (Nat.mod_lt _ (by decide))
  have hdigits := isDigit_paddedText 8 (n % 10 ^ 8)
  have hrest : Str.lit "-0000-4000-8000-000000000000" = [45, 48, 48, 48, 48, 45, 52, 48, 48, 48, 45, 56, 48, 48, 48, 45, 48,
    48, 48, 48, 48, 48, 48, 48, 48, 48, 48, 48] := by decide
  rw [hrest]
  generalize paddedText 8 (n % 10 ^ 8) = l at hlength hdigits
  match l, hlength with
  | [a, b, c, d, e, f, g, h], _ =>
    have hhex : ∀ c, isDigit c = true → Sha256.isHex c = true := fun c hc => by
      simp only [isDigit, Bool.and_eq_true, decide_eq_true_eq] at hc
      simp only [Sha256.isHex, Bool.or_eq_true, Bool.and_eq_true, decide_eq_true_eq]
      exact Or.inl hc
    simp only [List.all_cons, List.all_nil, Bool.and_true, Bool.and_eq_true] at hdigits
    obtain ⟨ha, hb, hc, hd, he, hf, hg, hh⟩ := hdigits
    simp [isUuid, List.zipIdx, hhex a ha, hhex b hb, hhex c hc, hhex d hd, hhex e he, hhex f hf, hhex g hg, hhex h hh]
    decide

/-- A UUID that starts with a number of up to eight digits. -/
def numberedUuid (n : Nat) : Uuid := ⟨_, isUuid_numbered n⟩

theorem numberedUuid_inj {m n : Nat} (hm : m < 10 ^ 8) (hn : n < 10 ^ 8) (h : numberedUuid m = numberedUuid n) : m = n := by
  have htext := List.append_cancel_right (Subtype.ext_iff.mp h)
  rw [Nat.mod_eq_of_lt hm, Nat.mod_eq_of_lt hn] at htext
  rw [← decimalValue_paddedText 8 m, ← decimalValue_paddedText 8 n, htext]

theorem isText_replicate {n max : Nat} (hpos : 0 < n) (h : n ≤ max) : isText max (List.replicate n 97) = true := by
  have hpoint : Str.pointLength 97 = 1 := rfl
  have hscalar : Str.isScalar 97 = true := rfl
  have hempty : (List.replicate n 97).isEmpty = false := by simp; omega
  simp [isText, Str.utf8Length, hpoint, hscalar, hempty, h]

/-- An entry as long as entries can be. -/
def longEntry (n : Nat) : ProjectContextEntry where
  entryId := numberedUuid n
  category := .facts
  value := ⟨List.replicate 4096 97, isText_replicate (by decide) le_rfl⟩
  sourceIds := .nil
  sessionId := none
  receiptRefs := .nil
  recoveryRefs := .nil

theorem safe_longEntry (n : Nat) : Safe (longEntry n).toDict := by
  refine ProjectContextEntry.safe_toDict (safe_of_not_telling fun c hc => ?_) rfl rfl rfl rfl
  rw [List.eq_of_mem_replicate hc]
  decide

theorem utf8Length_longEntry (n : Nat) : (longEntry n).value.1.utf8Length = 4096 := by
  have hpoint : Str.pointLength 97 = 1 := rfl
  rw [longEntry, Str.utf8Length, List.map_replicate, hpoint, List.sum_replicate]
  rfl

theorem byteLength_longEntry (n : Nat) : byteLength (longEntry n).toDict = 4300 := by
  have hlength := byteLength_mkObj (writable_of_mkObj (by simp) (longEntry n).writable_toDict) (by simp) (by simp)
  have hvalue : byteLength (longEntry n).value.json = 4098 := by
    refine (byteLength_str fun c hc => ?_).trans (by rw [longEntry, List.length_replicate])
    rw [List.eq_of_mem_replicate hc]
    decide
  have hschema : byteLength (.str ProjectContextEntry.schema) = 34 := byteLength_str (by decide)
  have hcategory : byteLength (.str Category.facts.name) = 7 := byteLength_str (by decide)
  have hnone : byteLength (.arr []) = 2 := by decide
  have hnull : byteLength .null = 4 := by decide
  have hquotes : ((["schema_version", "entry_id", "category", "value", "source_ids", "session_id", "receipt_refs",
      "recovery_refs"] : List String).map fun k => (quote (Str.lit k)).utf8Length) = [16, 10, 10, 7, 12, 12, 14, 15] := by
    decide
  simp only [List.map_cons, List.map_nil, List.cons.injEq] at hquotes
  rw [ProjectContextEntry.toDict, hlength]
  simp only [List.map_cons, List.map_nil, List.sum_cons, List.sum_nil, byteLength_uuid, hvalue, hschema, hquotes,
    show (longEntry n).category = .facts from rfl, hcategory, show (longEntry n).sourceIds.json = .arr [] from rfl,
    show optional Text.json (longEntry n).sessionId = .null from rfl,
    show (longEntry n).receiptRefs.json = .arr [] from rfl, show (longEntry n).recoveryRefs.json = .arr [] from rfl, hnone,
    hnull]
  rfl

theorem Event.exists_canonical {ws : Uuid} {n : Positive} {i : Uuid} {kind : EventKind} {payload : Json}
    {previous : Option Digest} {e : Event} (h : Event.record ws n i kind payload previous = .ok e) :
    ∃ data, canonical e.toDict = .ok data := by
  obtain ⟨b, hb, -⟩ := digest_eq_ok.mp (Event.sealed_record h).1.digest
  have hunsigned : ∀ p ∈ e.unsigned, Writable p.2 := writable_of_mkObj (by simp [Event.unsigned, Event.unsignedFields]) ⟨b, hb⟩
  refine canonical_of_writable (writable_mkObj fun p hp => ?_)
  rcases List.mem_append.mp hp with hp | hp
  · exact hunsigned p hp
  · rw [List.mem_singleton.mp hp]
    exact writable_digest _

/-- The journal of the first event alone. -/
theorem project_singleton {e : Event} {data : Bytes} {s : State} (hsealed : e.Sealed) (hseq : e.sequence = .one)
    (hprevious : e.previousDigest = none) (hdata : canonical e.toDict = .ok data)
    (hlength : (eventFile e data).data.length ≤ maxEventBytes) (hs : applyEvent true none e = .ok s) :
    project e.workspaceId [eventFile e data] = .ok s := by
  have hsequence : e.sequence.1 < 10 ^ sequenceWidth := by
    rw [hseq]
    decide
  obtain ⟨hpayload, hkind, t, ht, hrecord⟩ := applyEvent_none.mp hs
  obtain ⟨identity, policy, hws, -, rfl⟩ := State.create_eq_ok ht
  simp only [checkPayload, projecting_eq_ok, bind_eq_ok, exact, ensure_eq_ok] at hpayload
  obtain ⟨_, hsafe, hkeys⟩ := hpayload
  have hobj : e.payload.isObj = true := by
    unfold Json.hasExactly at hkeys
    split at hkeys
    · next hobj =>
      rw [hobj]
      rfl
    · cases hkeys
  have hfollows : e.Follows := iff_of_true (by rw [hseq]; rfl) hprevious
  have hread := readEvent_eventFile hsealed hobj hsafe hfollows hdata hlength hsequence
  rw [hseq, hprevious] at hread
  have hname := matchEventName_eventFileName hsequence
  obtain ⟨receipt, -, -, -, rfl⟩ := State.recordEvent_eq_ok.mp hrecord
  refine project_eq_ok.mpr ⟨fun f hf => ?_, ?_, hws⟩
  · rw [List.mem_singleton.mp hf, eventFile, hname]
    rfl
  · rw [sortFiles, List.insertionSort_cons, List.insertionSort_nil, List.orderedInsert_nil, List.foldlM_cons, extend,
      show nextSequence none = Positive.one from rfl, show lastDigest none = none from rfl, hread, ok_bind, hs, ok_bind]
    rfl

def sampleName : Text 128 := ⟨Str.lit "workspace", by decide⟩

def sampleTime : DateTime := ⟨2026, 1, 1, 0, 0, 0, 0, by decide⟩

theorem byteLength_createdPayload {identity : WorkspaceIdentity} (hname : identity.name = sampleName)
    (htime : identity.createdAt = sampleTime) : byteLength (createdPayload identity openPolicy) ≤ 1000 := by
  have hidentity := byteLength_mkObj (writable_of_mkObj (by simp) identity.writable_toDict) (by simp) (by simp)
  have hpolicy : byteLength openPolicy.toDict ≤ 400 := by decide +kernel
  have hschema : byteLength (.str WorkspaceIdentity.schema) = 31 := byteLength_str (by decide)
  have hjson : byteLength sampleName.json = 11 ∧ byteLength sampleTime.json = 22 := by decide
  have hquotes : ((["schema_version", "workspace_id", "name", "created_at", "state_id"] : List String).map
      fun k => (quote (Str.lit k)).utf8Length) = [16, 14, 6, 12, 10] := by decide
  have hwritable : ∀ p ∈ [("identity", identity.toDict), ("policy", openPolicy.toDict)], Writable p.2 := by
    simp [identity.writable_toDict, WorkspacePolicy.writable_toDict small_openPolicy]
  have hkeys : (quote (Str.lit "identity")).utf8Length = 10 ∧ (quote (Str.lit "policy")).utf8Length = 8 := by decide
  simp only [List.map_cons, List.map_nil, List.cons.injEq, and_true] at hquotes
  simp only [List.map_cons, List.map_nil, List.sum_cons, List.sum_nil, byteLength_uuid, byteLength_digest, hschema, hname,
    htime, hjson, hquotes] at hidentity
  rw [createdPayload, byteLength_mkObj hwritable (by simp) (by simp)]
  simp only [List.map_cons, List.map_nil, List.sum_cons, List.sum_nil, hkeys]
  rw [WorkspaceIdentity.toDict, hname, htime, hidentity]
  omega

theorem length_firstFile {e : Event} {data : Bytes} (hdata : canonical e.toDict = .ok data) (hseq : e.sequence = .one)
    (hprevious : e.previousDigest = none) (hkind : e.kind = .workspaceCreated) (hpayload : byteLength e.payload ≤ 1000) :
    (eventFile e data).data.length ≤ maxEventBytes := by
  have hbytes := canonical_eq_ok.mp hdata
  rw [Event.toDict_eq] at hbytes
  have hlength := byteLength_mkObj (writable_of_mkObj (by simp) ⟨data, hbytes⟩) (by simp) (by simp)
  rw [← length_canonicalBytes hbytes] at hlength
  have hschema : byteLength (.str Event.schema) = 28 := byteLength_str (by decide)
  have hprev : byteLength (.str (previousText none)) = 66 := byteLength_str (by decide)
  have hone : byteLength Positive.one.json = 1 := by decide
  have hcreated : byteLength (.str EventKind.workspaceCreated.name) = 19 := byteLength_str (by decide)
  have hquotes : ((["schema_version", "workspace_id", "sequence", "event_id", "kind", "payload", "previous_digest",
      "event_digest"] : List String).map fun k => (quote (Str.lit k)).utf8Length) = [16, 14, 10, 10, 6, 9, 17, 14] := by
    decide
  simp only [List.map_cons, List.map_nil, List.cons.injEq, and_true] at hquotes
  simp only [List.map_cons, List.map_nil, List.sum_cons, List.sum_nil, byteLength_uuid, byteLength_digest, hschema, hseq,
    hprevious, hkind, hprev, hone, hcreated, hquotes] at hlength
  have hfile : (eventFile e data).data.length = data.length + 1 := List.length_append
  rw [hfile, maxEventBytes]
  omega

/-- An event that the state accepts is published under a name that no file has. -/
theorem append_publish {workspaceId : Uuid} {files : List EventFile} {r : Request} {s t : State} {e : Event} {data : Bytes}
    (hs : project workspaceId files = .ok s) (hfresh : s.receipts.get? r.eventId = none) (hactive : s.lifecycle = .active)
    (hbudget : s.events.length + 1 ≤ s.policy.maxEvents.1)
    (he : Event.record workspaceId (nextSequence (some s)) r.eventId r.kind r.payload s.lastEventDigest = .ok e)
    (ht : applyEvent r.verified (some s) e = .ok t) (hpublish : r.prePublish = .ok ())
    (hdata : canonical e.toDict = .ok data) (hname : ∀ f ∈ files, f.name ≠ eventFileName e) :
    ∃ receipt, append workspaceId files r = (files ++ [eventFile e data], .ok ⟨files ++ [eventFile e data], t, receipt⟩) := by
  obtain ⟨receipt, hreceipt, -⟩ := (applyEvent_records ht).receipt
  have hnew : eventFileName e ∉ files.map (·.name) := by
    rintro hmem
    obtain ⟨f, hf, hname'⟩ := List.mem_map.mp hmem
    exact hname f hf hname'
  have he' : Event.record workspaceId ⟨s.events.length + 1, Nat.succ_pos _⟩ r.eventId r.kind r.payload s.lastEventDigest =
      .ok e := he
  have hprepare : prepare workspaceId files r = .ok (.publish e t (eventFile e data)) := by
    rw [prepare, readState, hs, catching_ok, ok_bind, hfresh]
    simp only [ensure_true hactive, ensure_true hbudget, ok_bind, he', ht, catching_ok, hpublish, hdata, ensure_true hnew]
    rfl
  refine ⟨receipt, ?_⟩
  rw [append, hprepare]
  simp only [hreceipt]
  rfl

/-- More long entries than a file has room for. -/
def longCommit : List ProjectContextEntry := (List.range 4200).map longEntry

theorem byteLength_longCommit : byteLength (entriesJson longCommit) = 18064201 := by
  have hsum : ((longCommit.map ProjectContextEntry.toDict).map fun v => byteLength v + 1) = List.replicate 4200 4301 := by
    rw [List.map_map, longCommit, List.map_map]
    refine List.eq_replicate_iff.mpr ⟨by simp, fun n hn => ?_⟩
    obtain ⟨k, -, rfl⟩ := List.mem_map.mp hn
    simp [byteLength_longEntry]
  rw [entriesJson, byteLength_arr, hsum, List.sum_replicate]
  · rfl
  · intro v hv
    obtain ⟨x, -, rfl⟩ := List.mem_map.mp hv
    exact x.writable_toDict
  · simp [longCommit]

/-- A workspace with the open policy has room for the long commit. -/
theorem ensureBounds_longCommit {s : State} (hpolicy : s.policy = openPolicy) (hentries : s.entries = [])
    (hevents : s.events.length ≤ 1000) (hsources : s.sources.size ≤ 1000) (hsessions : s.sessions = [])
    (hpins : s.packagePins.size ≤ 128) :
    ({ s with entries := s.entries ++ longCommit } : State).ensureBounds true = .ok () := by
  obtain ⟨b, hb⟩ := canonical_of_writable (writable_entriesJson longCommit)
  have hlength := length_canonicalBytes (canonical_eq_ok.mp hb)
  rw [byteLength_longCommit] at hlength
  have hbytes : stateContextBytes longCommit = .ok 18064201 := by rw [stateContextBytes, hb, ← hlength]; rfl
  have hvalues : ∀ x ∈ longCommit, x.value.1.utf8Length ≤ openPolicy.maxEntryBytes.1 := by
    intro x hx
    obtain ⟨n, -, rfl⟩ := List.mem_map.mp hx
    rw [utf8Length_longEntry]
    decide
  have hlen : longCommit.length = 4200 := by simp [longCommit]
  have hpos : (openPolicy.maxEvents.1, openPolicy.maxSources.1, openPolicy.maxContextEntries.1) =
      (1000000000, 1000000000, 1000000000) := rfl
  simp only [Prod.mk.injEq] at hpos
  refine State.ensureBounds_eq_ok.mpr ⟨?_, ?_, ?_, ?_, hpins, ?_, 18064201, ?_, ?_⟩
  · show s.events.length + 1 ≤ s.policy.maxEvents.1
    rw [hpolicy, hpos.1]
    omega
  · show s.sources.size ≤ s.policy.maxSources.1
    rw [hpolicy, hpos.2.1]
    omega
  · rw [hsessions]
    exact Nat.zero_le _
  · rw [hpolicy, hentries, List.nil_append, hlen, hpos.2.2]
    decide
  · show ∀ x ∈ s.entries ++ longCommit, x.value.1.utf8Length ≤ s.policy.maxEntryBytes.1
    rw [hpolicy, hentries, List.nil_append]
    exact hvalues
  · show stateContextBytes (s.entries ++ longCommit) = _
    rw [hentries, List.nil_append]
    exact hbytes
  · have hroom : s.policy.maxContextBytes.1 = 1000000000 := by rw [hpolicy]; rfl
    show 18064201 ≤ s.policy.maxContextBytes.1
    omega

/-- A workspace of one event takes a commit of bare entries that its policy has room for. -/
theorem exists_append_commit {l : List ProjectContextEntry} (hne : l ≠ []) (hbare : ∀ x ∈ l, x.Bare)
    (hsafe : ∀ x ∈ l, Safe x.value.json) (hvalues : ∀ x ∈ l, x.value.1.utf8Length ≤ 1000000000)
    (hbounds : ∀ s : State, s.policy = openPolicy → s.entries = [] → s.events.length ≤ 1000 → s.sources.size ≤ 1000 →
      s.sessions = [] → s.packagePins.size ≤ 128 →
      ({ s with entries := s.entries ++ l } : State).ensureBounds true = .ok ()) :
    ∃ (workspaceId : Uuid) (files files' : List EventFile) (r : Request) (a : Appended) (s : State),
      project workspaceId files = .ok s ∧ append workspaceId files r = (files', .ok a) ∧
      s.receipts.get? r.eventId = none ∧ r.payload = commitPayload l := by
  obtain ⟨identity, hown, hws, hname, htime⟩ := WorkspaceIdentity.exists_own (numberedUuid 0) sampleName sampleTime
    (by decide)
  obtain ⟨e, receipt, he, hs⟩ := exists_created hown (by rw [hname]; exact safe_str (by decide)) small_openPolicy
    (by decide) (numberedUuid 1) true
  obtain ⟨data, hdata⟩ := Event.exists_canonical he
  obtain ⟨hsealed, hws', hseq, hid, hkind, hpayload, hprevious⟩ := Event.sealed_record he
  rw [plain_createdPayload] at hpayload
  have hproject := project_singleton hsealed hseq hprevious hdata
    (length_firstFile hdata hseq hprevious hkind (hpayload ▸ byteLength_createdPayload hname htime)) hs
  rw [hws'] at hproject
  generalize hstate : ({ (State.created identity openPolicy).withEvent e with
    receipts := Dict.empty.set (numberedUuid 1) receipt } : State) = s at hproject hs
  have hnext : (nextSequence (some s)).1 = 2 := by
    rw [← hstate]
    rfl
  have hfresh : s.receipts.get? (numberedUuid 2) = none := by
    rw [← hstate]
    exact Dict.get?_set_of_ne _ _ fun h => absurd (numberedUuid_inj (by decide) (by decide) h) (by decide)
  obtain ⟨e', he'⟩ := exists_record identity.workspaceId (nextSequence (some s)) (numberedUuid 2)
    .contextCommitted s.lastEventDigest (by rw [hnext]; decide) (writable_commitPayload l)
  obtain ⟨data', hdata'⟩ := Event.exists_canonical he'
  obtain ⟨-, -, hseq', hid', hkind', hpayload', -⟩ := Event.sealed_record he'
  rw [plain_commitPayload] at hpayload'
  have htakes : s.Takes e' l := by
    subst hstate
    refine ⟨hkind', hpayload', rfl, ⟨small_openPolicy, fun _ ha => absurd ha List.not_mem_nil⟩, hne, hbare, hsafe,
      fun _ _ => List.not_mem_nil, fun x hx => ⟨Category.mem_all _, hvalues x hx⟩, hbounds _ rfl rfl (show 1 ≤ 1000 by decide)
        (show 0 ≤ 1000 by decide) rfl (show 0 ≤ 128 by decide), ?_⟩
    rw [hid', Dict.contains, hfresh]
    rfl
  obtain ⟨receipt', happly⟩ := applyEvent_commit htakes false
  have hnames : ∀ f ∈ [eventFile e data], f.name ≠ eventFileName e' := by
    intro f hf heq
    have heq : eventFileName e = eventFileName e' := by
      rw [List.mem_singleton.mp hf] at heq
      exact heq
    have hname := matchEventName_eventFileName (e := e) (by rw [hseq]; decide)
    rw [heq, matchEventName_eventFileName (by rw [hseq', hnext]; decide), hseq', hnext, hseq] at hname
    simp only [Option.some.injEq, Prod.mk.injEq] at hname
    exact absurd hname.1 (by decide)
  obtain ⟨receipt'', happend⟩ := append_publish
    (r := ⟨.contextCommitted, commitPayload l, numberedUuid 2, false, .ok ()⟩) hproject hfresh (by rw [← hstate]; rfl)
    (by rw [← hstate]; exact (show 2 ≤ 1000000000 by decide)) he' happly rfl hdata' hnames
  exact ⟨identity.workspaceId, _, _, _, _, s, hproject, happend, hfresh, rfl⟩

/-- A workspace of one event takes a commit whose record is too large to be read again. -/
theorem exists_append_too_large : ∃ (workspaceId : Uuid) (files files' : List EventFile) (r : Request) (a : Appended)
    (s : State), project workspaceId files = .ok s ∧ append workspaceId files r = (files', .ok a) ∧ ¬Fits s r := by
  have hmem : ∀ x ∈ longCommit, ∃ n, longEntry n = x := fun x hx => by
    obtain ⟨n, -, hn⟩ := List.mem_map.mp hx
    exact ⟨n, hn⟩
  obtain ⟨workspaceId, files, files', r, a, s, hs, ha, hfresh, hpayload⟩ := exists_append_commit (l := longCommit)
    (by simp [longCommit]) (fun x hx => by obtain ⟨n, rfl⟩ := hmem x hx; exact ⟨rfl, rfl, rfl, rfl⟩) (fun x hx => by
      obtain ⟨n, rfl⟩ := hmem x hx
      refine safe_of_not_telling fun c hc => ?_
      rw [List.eq_of_mem_replicate hc]
      decide) (fun x hx => by
      obtain ⟨n, rfl⟩ := hmem x hx
      rw [utf8Length_longEntry]
      decide) fun s => ensureBounds_longCommit
  refine ⟨workspaceId, files, files', r, a, s, hs, ha, ?_⟩
  rintro (hfits | ⟨hbytes, -⟩)
  · rw [Dict.contains, hfresh] at hfits
    cases hfits
  · have hlength := byteLength_mkObj (writable_of_mkObj (by simp) (writable_commitPayload longCommit)) (by simp) (by simp)
    simp only [List.map_cons, List.map_nil, List.sum_cons, List.sum_nil, byteLength_longCommit] at hlength
    have hrecord := byteLength_le_recordBytes (s.events.length + 1) r.kind r.payload
    rw [hpayload, commitPayload, hlength] at hrecord
    rw [hpayload, commitPayload] at hbytes
    have hmax : maxEventBytes = 16777216 := rfl
    omega

/-- Not every successful append is read again as it was computed. -/
theorem not_append_reread : ¬∀ (workspaceId : Uuid) (files files' : List EventFile) (r : Request) (a : Appended) (s : State),
    project workspaceId files = .ok s → append workspaceId files r = (files', .ok a) →
      project workspaceId files' = .ok a.state ∧ a.state.receipts.get? r.eventId = some a.receipt := by
  intro h
  obtain ⟨workspaceId, files, files', r, a, s, hs, ha, hfits⟩ := exists_append_too_large
  have hread := (h workspaceId files files' r a s hs ha).1
  rw [project_append_of_not_fits hs ha hfits] at hread
  cases hread

/-- A journal and an append that the equivalence speaks of. -/
theorem append_reread_iff_fits_longCommit : ∃ (workspaceId : Uuid) (files files' : List EventFile) (r : Request)
    (a : Appended) (s : State), project workspaceId files = .ok s ∧ append workspaceId files r = (files', .ok a) ∧
    ((project workspaceId files' = .ok a.state ∧ a.state.receipts.get? r.eventId = some a.receipt) ↔ Fits s r) := by
  obtain ⟨workspaceId, files, files', r, a, s, hs, ha, -⟩ := exists_append_too_large
  exact ⟨workspaceId, files, files', r, a, s, hs, ha, append_reread_iff_fits hs ha⟩

end LeanCtx
