import LeanCtx.Json.Without
import LeanCtx.Machine.Chain
import LeanCtx.Workspace.Calendar
import LeanCtx.Workspace.Retrying
import LeanCtx.Workspace.Storing

/-! The chain of events: a journal that can be read is made of the files that are written for its events, and the digest of an event stands
    for the whole journal up to it. -/

namespace LeanCtx
open Json Machine

/-! ### What is read is what is written -/

theorem exists_find? {f : List (Str × Json)} {j : Str} (h : j ∈ f.map (·.1)) : ∃ v, f.find? (fun p => p.1 = j) = some (j, v) := by
  obtain ⟨p, hp, hpj⟩ := List.mem_map.mp h
  have hsome : (f.find? fun p => p.1 = j).isSome = true := List.find?_isSome.mpr ⟨p, hp, decide_eq_true hpj⟩
  obtain ⟨q, hq⟩ := Option.isSome_iff_exists.mp hsome
  have hqj : q.1 = j := by simpa using List.find?_some hq
  exact ⟨q.2, by rw [hq, ← hqj]⟩

/-- An object in order that holds some fields and no other is the object with these fields. -/
theorem Json.eq_mkObj {v : Json} {f : List (String × Json)} (hplain : IsPlain v) (hkeys : v.hasExactly (f.map (·.1)) = true)
    (hget : ∀ p ∈ f, v.get p.1 = p.2) : v = mkObj f := by
  obtain ⟨g, rfl⟩ : ∃ g, v = .obj g := by
    cases v with
    | obj g => exact ⟨g, rfl⟩
    | _ => cases hkeys
  have hmap : (f.map fun p => (Str.lit p.1, p.2)).map (·.1) = (f.map (·.1)).map Str.lit := by
    rw [List.map_map, List.map_map]
    rfl
  rw [hasExactly_obj, ← hmap] at hkeys
  refine congrArg Json.obj (Agree.eq_of_ordered (fun j => ?_) (isPlain_obj hplain).1 (ordered_sortFields _))
  rw [find?_sortFields]
  by_cases hj : j ∈ (f.map fun p => (Str.lit p.1, p.2)).map (·.1)
  · obtain ⟨x, hx⟩ := exists_find? hj
    obtain ⟨y, hy⟩ := exists_find? ((hkeys j).mpr hj)
    obtain ⟨p, hp, heq⟩ := List.mem_map.mp (List.mem_of_find?_eq_some hx)
    cases heq
    have hvalue := hget p hp
    rw [Json.get, get?, hy] at hvalue
    rw [hx, hy, ← hvalue]
    rfl
  · have hnone : ∀ l : List (Str × Json), j ∉ l.map (·.1) → l.find? (fun p => p.1 = j) = none := fun l hl =>
      List.find?_eq_none.mpr fun q hq => by simpa using fun heq : q.1 = j => hl (heq ▸ List.mem_map_of_mem hq)
    rw [hnone _ hj, hnone _ (mt (hkeys j).mp hj)]

/-- A name that the reader takes for a sequence and a digest is the one that is written for them. -/
theorem eq_eventFileName {name : Str} {e : Event} (h : matchEventName name = some (e.sequence.1, e.eventDigest.hex)) :
    name = eventFileName e := by
  unfold matchEventName at h
  simp only at h
  split_ifs at h with hc
  obtain ⟨hlength, hdigits, hdash, -, hsuffix⟩ := hc
  obtain ⟨hsequence, hhex⟩ := Prod.mk.inj (Option.some.inj h)
  have hwidth : (name.take sequenceWidth).length = sequenceWidth := by
    rw [List.length_take, hlength]
    decide
  have hsmall : e.sequence.1 < 10 ^ sequenceWidth := by
    have hlt := decimalValue_lt hdigits
    rwa [hwidth, hsequence] at hlt
  have hpadded : name.take sequenceWidth = paddedText sequenceWidth e.sequence.1 :=
    decimalValue_inj (hwidth.trans (length_paddedText (by decide) hsmall).symm) hdigits (isDigit_paddedText _ _)
      (hsequence.trans (decimalValue_paddedText _ _).symm)
  have hlt : sequenceWidth < name.length := by
    rw [hlength]
    decide
  have hdrop : name.drop sequenceWidth = 45 :: name.drop (sequenceWidth + 1) := by
    rw [List.drop_eq_getElem_cons hlt]
    rw [List.getElem?_eq_getElem hlt, Option.some.injEq] at hdash
    rw [hdash]
  have hrest : name.drop (sequenceWidth + 1) = e.eventDigest.hex ++ Str.lit ".json" := by
    have hsplit := List.take_append_drop 64 (name.drop (sequenceWidth + 1))
    rw [List.drop_drop, hhex, show sequenceWidth + 1 + 64 = sequenceWidth + 65 from rfl, hsuffix] at hsplit
    exact hsplit.symm
  rw [eventFileName, ← hpadded, ← hrest, ← hdrop, List.take_append_drop]

theorem name_of_memberOf {α : Type} {all : List α} {name : α → String} {err : Err} {v : Json} {a : α}
    (h : memberOf all name err v = .ok a) : v = .str (Str.lit (name a)) := by
  unfold memberOf at h
  split at h
  · split at h
    · next s _ b hb =>
      cases h
      have hname : Str.lit (name a) = s := by simpa using List.find?_some hb
      rw [hname]
    · cases h
  all_goals cases h

namespace Event

/-- The file that is written for an event. -/
def file (e : Event) : EventFile := eventFile e ((canonicalBytes? e.toDict).getD [])

theorem isPlain_unsigned {e : Event} (h : IsPlain e.payload) : IsPlain (mkObj e.unsigned) := by
  refine isPlain_mkObj fun p hp => ?_
  simp only [unsigned, unsignedFields, List.mem_cons, List.not_mem_nil, or_false] at hp
  rcases hp with rfl | rfl | rfl | rfl | rfl | rfl | rfl
  case inr.inr.inr.inr.inr.inl => exact h
  all_goals rfl

end Event

/-- A file that was read is the one that is written for its event. -/
theorem eq_file_of_readEvent {workspaceId : Uuid} {f : EventFile} {n : Positive} {previous : Option Digest} {e : Event}
    (h : readEvent workspaceId f n previous = .ok e) : f = e.file ∧ e.Sealed := by
  have hpayload := plain_of_readEvent h
  unfold readEvent at h
  split at h
  · cases h
  · next sequence hex hname =>
    simp only [bind_eq_ok, ensure_eq_ok, exists_const] at h
    obtain ⟨rfl, -, -, h⟩ := h
    split at h
    · cases h
    · next v hv =>
      simp only [eventOfValue, bind_eq_ok, ensure_eq_ok, projecting_eq_ok, exists_const, pure_eq_ok] at h
      obtain ⟨hkeys, hschema, b, hb, hdata, ws, hws, rfl, hsequence, eventId, hid, kind, hkind, -, _, -, _, -, eventDigest, hdigest,
        hprevious, d, hd, ⟨rfl, hhex⟩, rfl⟩ := h
      have hbytes := canonical_eq_ok.mp hb
      rw [← hdata, List.dropLast_concat] at hv
      obtain ⟨hplain, -⟩ := isPlain_of_loads hv hbytes
      have hvalue : v = (⟨ws, n, eventId, kind, v.get "payload", previous, eventDigest⟩ : Event).toDict := by
        rw [Event.toDict_eq]
        refine eq_mkObj hplain hkeys fun p hp => ?_
        simp only [List.mem_cons, List.not_mem_nil, or_false] at hp
        rcases hp with rfl | rfl | rfl | rfl | rfl | rfl | rfl | rfl
        · exact hschema
        · exact uuid_eq_ok.mp hws
        · exact hsequence
        · exact uuid_eq_ok.mp hid
        · exact name_of_memberOf hkind
        · rfl
        · exact hprevious
        · exact digestValue_eq_ok.mp hdigest
      refine ⟨?_, hpayload, ?_⟩
      · obtain ⟨name, data⟩ := f
        rw [Event.file, ← hvalue, hbytes, Option.getD_some, eventFile, EventFile.mk.injEq]
        exact ⟨eq_eventFileName (by rw [hname, hhex]), hdata.symm⟩
      · rw [← Event.unsignedValue_toDict, ← hvalue, hd]

/-! ### Digests of events -/

theorem previousText_inj {a b : Option Digest} (h : previousText a = previousText b) : a = b := by
  have hne : ∀ d : Digest, d.1 ≠ zeroDigest := fun d heq => by
    obtain ⟨s, hs⟩ := d
    simp only [isDigest, Bool.and_eq_true, decide_eq_true_eq, lit_sha256] at hs
    obtain ⟨⟨⟨t, ht⟩, -⟩, -⟩ := hs
    exact absurd (show (some 115 : Option Nat) = some 48 from congrArg List.head? (ht.trans heq)) (by decide)
  cases a with
  | none =>
    cases b with
    | none => rfl
    | some d => exact absurd h.symm (hne d)
  | some d =>
    cases b with
    | none => exact absurd h (hne d)
    | some d' => exact congrArg some (Subtype.ext h)

/-- Events whose digests are computed of the same bytes are the same. -/
theorem Event.Sealed.eq_of_bytes {e e' : Event} (h : e.Sealed) (h' : e'.Sealed) {b : Bytes}
    (hb : canonicalBytes? (mkObj e.unsigned) = some b) (hb' : canonicalBytes? (mkObj e'.unsigned) = some b) : e = e' := by
  have hvalue : mkObj e.unsigned = mkObj e'.unsigned :=
    (isPlain_unsigned h.plain).symm.trans ((canonicalBytes?_inj hb hb').trans (isPlain_unsigned h'.plain))
  have hdigest : e.eventDigest = e'.eventDigest := Except.ok.inj (h.digest.symm.trans (hvalue ▸ h'.digest))
  have hget : ∀ k, (mkObj e.unsigned).get k = (mkObj e'.unsigned).get k := fun k => by rw [hvalue]
  obtain ⟨ws, n, eventId, kind, payload, previous, d⟩ := e
  obtain ⟨ws', n', eventId', kind', payload', previous', d'⟩ := e'
  have hws := hget "workspace_id"
  have hn := hget "sequence"
  have hid := hget "event_id"
  have hkind := hget "kind"
  have hpayload := hget "payload"
  have hprevious := hget "previous_digest"
  simp only [unsigned, unsignedFields, get_mkObj, List.find?, String.reduceEq, decide_false, decide_true, Option.map_some,
    Option.getD_some] at hws hn hid hkind hpayload hprevious
  obtain rfl : ws = ws' := Subtype.ext (Json.str.inj hws)
  obtain rfl : n = n' := Subtype.ext (Int.ofNat.inj (Json.int.inj hn))
  obtain rfl : eventId = eventId' := Subtype.ext (Json.str.inj hid)
  obtain rfl : kind = kind' := EventKind.name_injective (Str.lit_injective (Json.str.inj hkind))
  obtain rfl : previous = previous' := previousText_inj (Json.str.inj hprevious)
  obtain rfl : d = d' := hdigest
  rw [hpayload]

/-- SHA-256 has one value for two byte strings that differ, each of which an event in one of two lists has its digest of. -/
def HashCollision (l m : List Event) : Prop := ∃ e ∈ l, ∃ e' ∈ m, ∃ b b', canonicalBytes? (mkObj e.unsigned) = some b ∧
  canonicalBytes? (mkObj e'.unsigned) = some b' ∧ b ≠ b' ∧ Sha256.hexdigest b = Sha256.hexdigest b'

theorem digestOf_inj {b b' : Bytes} (h : digestOf b = digestOf b') : Sha256.hexdigest b = Sha256.hexdigest b' :=
  List.append_cancel_left (congrArg Subtype.val h)

theorem hashCollision_of_collide {l m : List Event} (hl : ∀ e ∈ l, e.Sealed) (hm : ∀ e ∈ m, e.Sealed)
    (h : Collide Event.eventDigest l m) : HashCollision l m := by
  obtain ⟨e, he, e', he', hne, hdigest⟩ := h
  obtain ⟨b, hb, hd⟩ := digest_eq_ok.mp (hl e he).digest
  obtain ⟨b', hb', hd'⟩ := digest_eq_ok.mp (hm e' he').digest
  refine ⟨e, he, e', he', b, b', hb, hb', ?_, digestOf_inj (hd.trans (hdigest.trans hd'.symm))⟩
  rintro rfl
  exact hne ((hl e he).eq_of_bytes (hm e' he') hb hb')

/-! ### Journals -/

/-- The events of a state, if there is one. -/
def eventsOf (s : Option State) : List Event := (s.map (·.events)).getD []

/-- Some files are those of the events of a state, each of which is sealed and names the one before it. -/
structure Filed (files : List EventFile) (s : Option State) : Prop where
  files : files = (eventsOf s).map Event.file
  isSealed : ∀ e ∈ eventsOf s, e.Sealed
  chained : Chained Event.eventDigest Event.previousDigest none (eventsOf s)
  last : lastDigest s = (eventsOf s).getLast?.map Event.eventDigest
  numbered : ∀ i e, (eventsOf s)[i]? = some e → e.sequence.1 = i + 1

theorem nextSequence_eq (s : Option State) : (nextSequence s).1 = (eventsOf s).length + 1 := by cases s <;> rfl

section
variable {workspaceId workspaceId' : Uuid} {files files' : List EventFile} {s : Option State} {t t' : State}

theorem Filed.extend (h : Filed files s) {f : EventFile} {u : Option State} (hu : LeanCtx.extend workspaceId s f = .ok u) :
    Filed (files ++ [f]) u := by
  obtain ⟨e, he, hu⟩ := bind_eq_ok.mp hu
  obtain ⟨s', hs', hu⟩ := bind_eq_ok.mp hu
  cases hu
  have hrecords := applyEvent_records hs'
  have hevents : eventsOf (some s') = eventsOf s ++ [e] := hrecords.events
  obtain ⟨-, hsequence, hprevious⟩ := readEvent_eq_ok he
  obtain ⟨hfile, hsealed⟩ := eq_file_of_readEvent he
  constructor
  case files => rw [hevents, List.map_append, ← h.files, hfile, List.map_singleton]
  case isSealed =>
    rw [hevents]
    intro e' he'
    rcases List.mem_append.mp he' with he' | he'
    · exact h.isSealed e' he'
    · rwa [List.mem_singleton.mp he']
  case chained =>
    rw [hevents]
    exact chained_concat.mpr ⟨h.chained, by rw [hprevious, h.last, Option.or_none]⟩
  case last => rw [hevents, List.getLast?_concat]; exact hrecords.last
  case numbered =>
    intro i e' hi
    rw [hevents] at hi
    obtain hlt | hge := lt_or_ge i (eventsOf s).length
    · rw [List.getElem?_append_left hlt] at hi
      exact h.numbered i e' hi
    · obtain ⟨hlt, hget⟩ := List.getElem?_eq_some_iff.mp hi
      rw [List.length_append, List.length_singleton] at hlt
      obtain rfl : i = (eventsOf s).length := by omega
      obtain rfl : e = e' := by simpa using hget
      rw [hsequence, nextSequence_eq]

theorem Filed.foldlM (h : Filed files s) {l : List EventFile} {u : Option State}
    (hu : l.foldlM (LeanCtx.extend workspaceId) s = .ok u) : Filed (files ++ l) u := by
  induction l generalizing files s with
  | nil =>
    cases hu
    rwa [List.append_nil]
  | cons f l ih =>
    rw [List.foldlM_cons] at hu
    obtain ⟨v, hv, hu⟩ := bind_eq_ok.mp hu
    rw [List.append_cons]
    exact ih (h.extend hv) hu

/-- A journal that can be read is made of the files of its events. -/
theorem filed_of_project (h : project workspaceId files = .ok t) : Filed (sortFiles files) (some t) := by
  have hnone : Filed [] none := ⟨rfl, nofun, trivial, rfl, nofun⟩
  exact hnone.foldlM (project_eq_ok.mp h).2.1

theorem exists_mem_events (h : project workspaceId files = .ok t) : ∃ e, e ∈ t.events := by
  refine List.exists_mem_of_ne_nil _ fun hnil => ?_
  have hfiles : sortFiles files = [] := by rw [(filed_of_project h).files, show eventsOf (some t) = [] from hnil, List.map_nil]
  have hfold := (project_eq_ok.mp h).2.1
  rw [hfiles] at hfold
  cases hfold

/-- The digest of an event stands for the journal up to it: where two journals that can be read have events with one digest, these are the
    same, and the files up to them are the same byte by byte, unless the two show a collision of SHA-256. -/
theorem journal_of_digest (h : project workspaceId files = .ok t) (h' : project workspaceId' files' = .ok t') {e e' : Event}
    (he : e ∈ t.events) (he' : e' ∈ t'.events) (hdigest : e.eventDigest = e'.eventDigest) :
    (e = e' ∧ (sortFiles files).take e.sequence.1 = (sortFiles files').take e.sequence.1) ∨ HashCollision t.events t'.events := by
  have hfiled := filed_of_project h
  have hfiled' := filed_of_project h'
  obtain ⟨l, r, hl⟩ := List.append_of_mem he
  obtain ⟨l', r', hl'⟩ := List.append_of_mem he'
  have hevents : eventsOf (some t) = l ++ e :: r := hl
  have hevents' : eventsOf (some t') = l' ++ e' :: r' := hl'
  have hchained := hfiled.chained
  have hchained' := hfiled'.chained
  rw [hevents] at hchained
  rw [hevents'] at hchained'
  obtain ⟨rfl, rfl⟩ | hcollide := hchained.eq_upTo_or_collide hchained' hdigest
  · have hsequence : e.sequence.1 = l.length + 1 := hfiled.numbered l.length e (by rw [hevents]; simp)
    refine .inl ⟨rfl, ?_⟩
    rw [hfiled.files, hfiled'.files, hevents, hevents', hsequence, ← List.map_take, ← List.map_take, List.append_cons l e r,
      List.append_cons l e r', List.take_left' (by simp), List.take_left' (by simp)]
  · rw [← hl, ← hl'] at hcollide
    exact .inr (hashCollision_of_collide hfiled.isSealed hfiled'.isSealed hcollide)

end

/-- The first event of a sample journal, before a commit and after it. -/
theorem exists_journal_of_digest : ∃ (files files' : List EventFile) (s t : State) (e : Event),
    project (numberedUuid 0) files = .ok s ∧ project (numberedUuid 0) files' = .ok t ∧ e ∈ s.events ∧ e ∈ t.events ∧
      ((e = e ∧ (sortFiles files).take e.sequence.1 = (sortFiles files').take e.sequence.1) ∨ HashCollision s.events t.events) := by
  obtain ⟨σ, s, -, hs, -, r, -, -, -, -, t, -, -, ht⟩ := Store.exists_idle
  obtain ⟨s', hs', hextends⟩ := exists_extends_of_append ht
  obtain rfl : s = s' := Except.ok.inj (hs.symm.trans hs')
  obtain ⟨e, he⟩ := exists_mem_events hs
  exact ⟨_, _, s, t, e, hs, ht, he, hextends.events.subset he, journal_of_digest hs ht he (hextends.events.subset he) rfl⟩

end LeanCtx
