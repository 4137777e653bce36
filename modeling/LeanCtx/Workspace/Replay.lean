import LeanCtx.Json.Length
import LeanCtx.Workspace.Reread

/-! Reading the journal back: the file that is written for an event reads as the event, as long as it is not too large and
    its sequence has no more digits than a name has room for; and replaying one file more applies one event more. -/

namespace LeanCtx
open Json

/-! ### The file of an event -/

theorem canonicalBytes?_getLast {f : List (Str × Json)} {b : Bytes} (h : canonicalBytes? (.obj f) = some b) :
    b.getLast? = some 125 := by
  obtain ⟨t, ht, hutf8⟩ := Option.bind_eq_some_iff.mp h
  rw [plain, text?] at ht
  obtain ⟨ts, -, rfl⟩ := Option.map_eq_some_iff.mp ht
  unfold Str.utf8? at hutf8
  split_ifs at hutf8
  cases hutf8
  rw [List.flatMap_append, List.getLast?_append]
  rfl

/-- An event whose digest is its own, of a payload that has its keys in order. -/
structure Event.Sealed (e : Event) : Prop where
  plain : IsPlain e.payload
  digest : LeanCtx.digest (Json.mkObj e.unsigned) = .ok e.eventDigest

theorem Event.sealed_record {workspaceId : Uuid} {n : Positive} {eventId : Uuid} {kind : EventKind} {payload : Json}
    {previous : Option Digest} {e : Event} (h : Event.record workspaceId n eventId kind payload previous = .ok e) :
    e.Sealed ∧ e.workspaceId = workspaceId ∧ e.sequence = n ∧ e.eventId = eventId ∧ e.kind = kind ∧
      e.payload = payload.plain ∧ e.previousDigest = previous := by
  unfold Event.record at h
  cases hd : LeanCtx.digest (Json.mkObj (Event.unsignedFields workspaceId n eventId kind payload.plain previous)) with
  | error err =>
    rw [hd] at h
    cases h
  | ok d =>
    rw [hd] at h
    cases h
    exact ⟨⟨isPlain_plain payload, hd⟩, rfl, rfl, rfl, rfl, rfl, rfl⟩

namespace Event

/-- The fields of an event, in the order in which they are written down. -/
theorem toDict_eq (e : Event) : e.toDict = Json.mkObj [("schema_version", .str schema),
    ("workspace_id", e.workspaceId.json), ("sequence", e.sequence.json), ("event_id", e.eventId.json),
    ("kind", .str e.kind.name), ("payload", e.payload), ("previous_digest", .str (previousText e.previousDigest)),
    ("event_digest", e.eventDigest.json)] := rfl

theorem isPlain_toDict {e : Event} (h : IsPlain e.payload) : IsPlain e.toDict := by
  rw [toDict_eq]
  refine isPlain_mkObj fun p hp => ?_
  simp only [List.mem_cons, List.not_mem_nil, or_false] at hp
  rcases hp with rfl | rfl | rfl | rfl | rfl | rfl | rfl | rfl
  case inr.inr.inr.inr.inr.inl => exact h
  all_goals rfl

theorem unsignedValue_toDict (e : Event) : unsignedValue e.toDict = Json.mkObj e.unsigned := by
  simp [unsignedValue, toDict_eq, get_mkObj, unsigned, unsignedFields]

/-- The predecessor that an event names is none for the first one and some other one after it. -/
def Follows (e : Event) : Prop := e.sequence.1 = 1 ↔ e.previousDigest = none

theorem Follows.checkPrevious {e : Event} (h : e.Follows) :
    checkPrevious (.str (previousText e.previousDigest)) e.sequence = .ok () := by
  unfold Follows at h
  unfold LeanCtx.checkPrevious
  cases hprevious : e.previousDigest with
  | none => rw [if_pos (h.mpr hprevious), previousText, Option.map_none, Option.getD_none, ensure_true rfl]
  | some d =>
    have hd := digestValue_json d "previous_digest"
    rw [Digest.json] at hd
    rw [if_neg (by rw [h, hprevious]; exact Option.some_ne_none d), previousText, Option.map_some, Option.getD_some, hd]
    rfl

/-- The value of a sealed event reads as the event. -/
theorem eventOfValue_toDict {e : Event} {data : Bytes} (hsealed : e.Sealed) (hobj : e.payload.isObj = true)
    (hsafe : rejectSensitive e.payload "payload" = .ok ()) (hfollows : e.Follows) (hdata : canonical e.toDict = .ok data) :
    eventOfValue e.workspaceId e.toDict (data ++ [10]) e.eventDigest.hex e.sequence e.previousDigest = .ok e := by
  have hkeys : e.toDict.hasExactly eventKeys = true := hasExactly_mkObj_self _
  have hkind := memberOf_name EventKind.mem_all EventKind.name_injective .typeError e.kind
  have hdigest := hsealed.digest
  have hprevious := hfollows.checkPrevious
  unfold eventOfValue
  rw [ensure_true hkeys, unsignedValue_toDict, hdigest, hdata]
  simp [toDict_eq, get_mkObj, hkind, hobj, hsafe, hprevious]

end Event

/-- The file that is written for an event whose canonical bytes are given. -/
def eventFile (e : Event) (data : Bytes) : EventFile := ⟨eventFileName e, data ++ [10]⟩

/-- A file that is well named and not too large is read by its value. -/
theorem readEvent_concat {workspaceId : Uuid} {f : EventFile} {n : Positive} {previous : Option Digest} {hex : Str}
    {data : Bytes} {v : Json} (hname : matchEventName f.name = some (n.1, hex)) (hdata : f.data = data ++ [10])
    (hlength : f.data.length ≤ maxEventBytes) (hlast : data.getLast? ≠ some 10) (hloads : strictLoads? data = some v) :
    readEvent workspaceId f n previous = eventOfValue workspaceId v f.data hex n previous := by
  have hend : f.data.getLast? = some 10 ∧ f.data.dropLast.getLast? ≠ some 10 := by
    rw [hdata, List.getLast?_concat, List.dropLast_concat]
    exact ⟨rfl, hlast⟩
  have hloads : strictLoads? f.data.dropLast = some v := by rw [hdata, List.dropLast_concat, hloads]
  unfold readEvent
  rw [hname]
  dsimp only
  rw [ensure_true rfl, ensure_true hlength, ensure_true hend, hloads, ok_bind, ok_bind, ok_bind]

/-- An event's file that is not too large reads as the event. -/
theorem readEvent_eventFile {e : Event} {data : Bytes} (hsealed : e.Sealed) (hobj : e.payload.isObj = true)
    (hsafe : rejectSensitive e.payload "payload" = .ok ()) (hfollows : e.Follows) (hdata : canonical e.toDict = .ok data)
    (hlength : (eventFile e data).data.length ≤ maxEventBytes) (hsequence : e.sequence.1 < 10 ^ sequenceWidth) :
    readEvent e.workspaceId (eventFile e data) e.sequence e.previousDigest = .ok e := by
  have hbytes := canonical_eq_ok.mp hdata
  have hlast : data.getLast? = some 125 := canonicalBytes?_getLast hbytes
  have hplain : e.toDict.plain = e.toDict := Event.isPlain_toDict hsealed.plain
  have hloads : strictLoads? data = some e.toDict := (strictLoads?_canonical hbytes).trans (congrArg some hplain)
  rw [readEvent_concat (matchEventName_eventFileName hsequence) rfl hlength (by rw [hlast]; decide) hloads]
  exact Event.eventOfValue_toDict hsealed hobj hsafe hfollows hdata

/-- A file that is too large is corrupt to the reader. -/
theorem readEvent_of_large {workspaceId : Uuid} {f : EventFile} {n : Positive} {previous : Option Digest}
    (h : maxEventBytes < f.data.length) : readEvent workspaceId f n previous = .error .corrupt := by
  have hlarge : ∀ ε (e : ε), ensure (f.data.length ≤ maxEventBytes) e = .error e := fun _ _ => if_neg (not_le.mpr h)
  unfold readEvent
  split
  · rfl
  · next sequence hex _ =>
    by_cases hseq : sequence = n.1
    · rw [ensure_true hseq, ok_bind, hlarge, error_bind]
    · rw [ensure, if_neg hseq, error_bind]

/-- A file that was read has the name of its sequence. -/
theorem matchEventName_of_readEvent {workspaceId : Uuid} {f : EventFile} {n : Positive} {previous : Option Digest}
    {e : Event} (h : readEvent workspaceId f n previous = .ok e) : ∃ hex, matchEventName f.name = some (n.1, hex) := by
  unfold readEvent at h
  split at h
  · cases h
  · next sequence hex hname =>
    obtain ⟨rfl, -⟩ := ensure_bind_eq_ok.mp h
    exact ⟨hex, hname⟩

/-- What was read follows the events before it. -/
theorem readEvent_eq_ok {workspaceId : Uuid} {f : EventFile} {n : Positive} {previous : Option Digest} {e : Event}
    (h : readEvent workspaceId f n previous = .ok e) :
    e.workspaceId = workspaceId ∧ e.sequence = n ∧ e.previousDigest = previous := by
  unfold readEvent at h
  split at h
  · cases h
  · simp only [bind_eq_ok, ensure_eq_ok, exists_const] at h
    obtain ⟨-, -, -, h⟩ := h
    split at h
    · cases h
    · simp only [eventOfValue, bind_eq_ok, ensure_eq_ok, projecting_eq_ok, exists_const, pure_eq_ok] at h
      obtain ⟨-, -, _, -, -, _, -, -, -, _, -, _, -, -, _, -, _, -, _, -, -, _, -, -, rfl⟩ := h
      exact ⟨rfl, rfl, rfl⟩

/-! ### Replaying one file more -/

/-- The sequence of the event after a state. -/
def nextSequence (s : Option State) : Positive := ⟨(s.elim 0 (·.events.length)) + 1, Nat.succ_pos _⟩

/-- The digest of the last event of a state. -/
def lastDigest (s : Option State) : Option Digest := s.bind (·.lastEventDigest)

/-- Read the file of the next event and apply the event. -/
def extend (workspaceId : Uuid) (s : Option State) (f : EventFile) : Except Failure (Option State) := do
  let e ← readEvent workspaceId f (nextSequence s) (lastDigest s)
  let s' ← applyEvent true s e
  return some s'

theorem Records.next {s : Option State} {e : Event} {s' : State} (h : Records s e s') :
    nextSequence (some s') = (nextSequence s).succ ∧ lastDigest (some s') = some e.eventDigest := by
  refine ⟨?_, h.last⟩
  cases s with
  | none =>
    have hlength : s'.events.length = 1 := by rw [h.events, Option.map_none, Option.getD_none]; rfl
    exact Subtype.ext (congrArg Nat.succ hlength)
  | some s => simp [nextSequence, Positive.succ, h.events]

/-- Replay takes one file after the other. -/
theorem replay_eq_foldlM (workspaceId : Uuid) (l : List EventFile) (s : Option State) :
    replay workspaceId l (nextSequence s) (lastDigest s) s = l.foldlM (extend workspaceId) s := by
  induction l generalizing s with
  | nil => rfl
  | cons f l ih =>
    rw [replay, List.foldlM_cons, extend]
    cases hread : readEvent workspaceId f (nextSequence s) (lastDigest s) with
    | error err => rfl
    | ok e =>
      simp only [ok_bind]
      cases happly : applyEvent true s e with
      | error err => rfl
      | ok s' =>
        obtain ⟨hnext, hlast⟩ := (applyEvent_records happly).next
        simp only [ok_bind]
        rw [← hnext, ← hlast, ih]
        rfl

/-- The files that were replayed are numbered from the first sequence on, and each of them added one event. -/
theorem foldlM_extend {workspaceId : Uuid} {l : List EventFile} {s t : Option State}
    (h : l.foldlM (extend workspaceId) s = .ok t) : (nextSequence s).1 ≤ (nextSequence t).1 ∧
      ∀ f ∈ l, ∃ k hex, matchEventName f.name = some (k, hex) ∧ k < (nextSequence t).1 := by
  induction l generalizing s with
  | nil =>
    cases h
    exact ⟨le_rfl, fun _ hf => absurd hf List.not_mem_nil⟩
  | cons f l ih =>
    rw [List.foldlM_cons] at h
    obtain ⟨u, hu, hl⟩ := bind_eq_ok.mp h
    obtain ⟨hle, hnames⟩ := ih hl
    obtain ⟨e, he, hu⟩ := bind_eq_ok.mp hu
    obtain ⟨s', hs', hu⟩ := bind_eq_ok.mp hu
    cases hu
    have hnext : (nextSequence (some s')).1 = (nextSequence s).1 + 1 := by rw [(applyEvent_records hs').next.1]; rfl
    refine ⟨by omega, fun g hg => ?_⟩
    rcases List.mem_cons.mp hg with rfl | hg
    · obtain ⟨hex, hname⟩ := matchEventName_of_readEvent he
      exact ⟨_, hex, hname, by omega⟩
    · exact hnames g hg

/-! ### Projecting one file more -/

theorem project_eq_ok {workspaceId : Uuid} {files : List EventFile} {s : State} : project workspaceId files = .ok s ↔
    (∀ f ∈ files, (matchEventName f.name).isSome = true) ∧
      (sortFiles files).foldlM (extend workspaceId) none = .ok (some s) ∧ s.identity.workspaceId = workspaceId := by
  have hreplay := replay_eq_foldlM workspaceId (sortFiles files) none
  rw [show nextSequence none = Positive.one from rfl, show lastDigest none = none from rfl] at hreplay
  simp only [project, hreplay, bind_eq_ok, ensure_eq_ok, exists_const]
  constructor
  · rintro ⟨hnames, t, ht, h⟩
    cases t with
    | none => cases h
    | some t =>
      simp only [bind_eq_ok, ensure_eq_ok, exists_const, pure_eq_ok] at h
      obtain ⟨hid, rfl⟩ := h
      exact ⟨hnames, ht, hid⟩
  · rintro ⟨hnames, ht, hid⟩
    refine ⟨hnames, some s, ht, ?_⟩
    simp only [bind_eq_ok, ensure_eq_ok, exists_const, pure_eq_ok]
    exact ⟨hid, trivial⟩

/-- A file that is numbered after all others is the last one. -/
theorem sortFiles_concat {files : List EventFile} {f : EventFile} {k : Nat} {hex : Str}
    (hf : matchEventName f.name = some (k, hex))
    (h : ∀ g ∈ files, ∃ j hex, matchEventName g.name = some (j, hex) ∧ j < k) :
    sortFiles (files ++ [f]) = sortFiles files ++ [f] := by
  refine insertionSort_concat fun g hg => ?_
  obtain ⟨j, hex', hg, hlt⟩ := h g hg
  obtain ⟨digits, rest, hname, hlen, hdigits, hvalue⟩ := matchEventName_eq_some hg
  obtain ⟨digits', rest', hname', hlen', hdigits', hvalue'⟩ := matchEventName_eq_some hf
  rw [hname, hname']
  exact le_of_lt (lt_of_decimalValue_lt rest rest' (hlen.trans hlen'.symm) hdigits hdigits' (by omega))

theorem mem_sortFiles {files : List EventFile} {f : EventFile} : f ∈ sortFiles files ↔ f ∈ files :=
  (List.perm_insertionSort _ files).mem_iff

/-- A file numbered after those of a journal extends the state that the journal projects to. -/
theorem project_concat {workspaceId : Uuid} {files : List EventFile} {s : State} (h : project workspaceId files = .ok s)
    {f : EventFile} {hex : Str} (hname : matchEventName f.name = some ((nextSequence (some s)).1, hex)) :
    (∀ {t : State}, extend workspaceId (some s) f = .ok (some t) → t.identity.workspaceId = workspaceId →
      project workspaceId (files ++ [f]) = .ok t) ∧
    ∀ {e : Failure}, extend workspaceId (some s) f = .error e → project workspaceId (files ++ [f]) = .error e := by
  obtain ⟨hnames, hfold, hid⟩ := project_eq_ok.mp h
  have hnumbered := (foldlM_extend hfold).2
  have hsort : sortFiles (files ++ [f]) = sortFiles files ++ [f] :=
    sortFiles_concat hname fun g hg => hnumbered g (mem_sortFiles.mpr hg)
  have hall : ∀ g ∈ files ++ [f], (matchEventName g.name).isSome = true := by
    intro g hg
    rcases List.mem_append.mp hg with hg | hg
    · exact hnames g hg
    · rw [List.mem_singleton.mp hg, hname]
      rfl
  have hfold' : (sortFiles (files ++ [f])).foldlM (extend workspaceId) none = extend workspaceId (some s) f := by
    rw [hsort, List.foldlM_append, hfold, ok_bind, List.foldlM_cons]
    cases extend workspaceId (some s) f <;> rfl
  refine ⟨fun ht hw => project_eq_ok.mpr ⟨hall, hfold'.trans ht, hw⟩, fun he => ?_⟩
  have hreplay := replay_eq_foldlM workspaceId (sortFiles (files ++ [f])) none
  rw [show nextSequence none = Positive.one from rfl, show lastDigest none = none from rfl, hfold', he] at hreplay
  rw [project, ensure_true hall, ok_bind, hreplay, error_bind]

theorem project_of_badName {workspaceId : Uuid} {files : List EventFile} {f : EventFile} (h : matchEventName f.name = none)
    (hf : f ∈ files) : project workspaceId files = .error .corrupt := by
  have hbad : ¬∀ g ∈ files, (matchEventName g.name).isSome = true := fun hall => by
    have := hall f hf
    rw [h] at this
    cases this
  rw [project, ensure, if_neg hbad, error_bind]

end LeanCtx
