import LeanCtx.Workspace.Journal

/-! What has been appended is read again: an event that was accepted in memory is accepted on replay, and the file that was
    written for it reads as the event, as long as the file is not too large and its sequence has sixteen digits. -/

namespace LeanCtx

/-! ### Replay accepts what a caller's append accepts -/

theorem SourceTrust.fromDict_mono {v : Json} {allow : Bool} {x : SourceTrust} (h : fromDict v allow = .ok x) :
    fromDict v true = .ok x := by
  unfold fromDict at h ⊢
  rw [bind_eq_ok] at h ⊢
  obtain ⟨u, hu, h⟩ := h
  refine ⟨u, hu, ?_⟩
  cases hrefs : v.get "evidence_refs" with
  | arr l =>
    simp only [hrefs, bind_eq_ok, ensure_eq_ok, exists_const] at h ⊢
    exact ⟨Or.inr trivial, h.2⟩
  | _ =>
    simp only [hrefs, bind_eq_ok] at h
    obtain ⟨_, h, -⟩ := h
    cases h

theorem SourceAnchor.fromDict_mono {v : Json} {allow : Bool} {x : SourceAnchor} (h : fromDict v allow = .ok x) :
    fromDict v true = .ok x := by
  simp only [fromDict, bind_eq_ok, ensure_eq_ok, exists_const, catching_eq_ok] at h ⊢
  obtain ⟨u, hu, hschema, revision, hrevision, freshness, hfreshness, recovery, hrecovery, trust, htrust, hrest⟩ := h
  exact ⟨u, hu, hschema, revision, hrevision, freshness, hfreshness, recovery, hrecovery, trust,
    SourceTrust.fromDict_mono htrust, hrest⟩

namespace State
variable {s s' : State} {allow : Bool} {p : Json} {e : Event}

theorem eventAnchor_mono {a : SourceAnchor} (h : eventAnchor allow p = .ok a) : eventAnchor true p = .ok a := by
  simp only [eventAnchor, bind_eq_ok, projecting_eq_ok] at h ⊢
  obtain ⟨b, hb, hrest⟩ := h
  exact ⟨b, SourceAnchor.fromDict_mono hb, hrest⟩

theorem effect_mono (h : s.effect allow e = .ok s') : s.effect true e = .ok s' := by
  cases hkind : e.kind with
  | sourceAttached =>
    simp only [effect, hkind, attachSource, bind_eq_ok] at h ⊢
    obtain ⟨a, ha, hrest⟩ := h
    exact ⟨a, eventAnchor_mono ha, hrest⟩
  | sourceUpdated =>
    simp only [effect, hkind, updateSource, bind_eq_ok] at h ⊢
    obtain ⟨a, ha, hrest⟩ := h
    exact ⟨a, eventAnchor_mono ha, hrest⟩
  | _ =>
    simp only [effect, hkind] at h ⊢
    exact h

end State

/-- Replaying an event gives the state that the append computed. -/
theorem applyEvent_mono {allow : Bool} {s : Option State} {e : Event} {s' : State} (h : applyEvent allow s e = .ok s') :
    applyEvent true s e = .ok s' := by
  cases s with
  | none => exact applyEvent_none.mpr (applyEvent_none.mp h)
  | some s =>
    obtain ⟨hpayload, hkind, hactive, t, ht, hrecord⟩ := applyEvent_some.mp h
    exact applyEvent_some.mpr ⟨hpayload, hkind, hactive, t, State.effect_mono ht, hrecord⟩

/-! ### What an accepted event leaves -/

/-- What every accepted event adds: itself at the end of the journal, and its receipt. -/
structure Records (s : Option State) (e : Event) (s' : State) : Prop where
  events : s'.events = (s.map (·.events)).getD [] ++ [e]
  last : s'.lastEventDigest = some e.eventDigest
  fresh : ∀ t ∈ s, t.receipts.get? e.eventId = none
  receipt : ∃ r, receiptForEvent s' e = .ok r ∧ s'.receipts.get? e.eventId = some r
  others : ∀ i, i ≠ e.eventId → s'.receipts.get? i = s.bind fun t => t.receipts.get? i
  identity : ∀ t ∈ s, s'.identity = t.identity

theorem receiptForEvent_withReceipts (s : State) (e : Event) (d : Dict Uuid WorkspaceReceipt) :
    receiptForEvent { s with receipts := d } e = receiptForEvent s e := rfl

theorem applyEvent_records {allow : Bool} {s : Option State} {e : Event} {s' : State}
    (h : applyEvent allow s e = .ok s') : Records s e s' := by
  -- a recorded event leaves its receipt in the state that it was recorded in
  have hrecorded : ∀ {t : State}, t.recordEvent e = .ok s' → s'.events = t.events ++ [e] ∧
      s'.lastEventDigest = some e.eventDigest ∧ t.receipts.get? e.eventId = none ∧
      (∃ r, receiptForEvent s' e = .ok r ∧ s'.receipts.get? e.eventId = some r) ∧
      (∀ i, i ≠ e.eventId → s'.receipts.get? i = t.receipts.get? i) ∧ s'.identity = t.identity := by
    intro t ht
    obtain ⟨r, -, hr, hnew, rfl⟩ := State.recordEvent_eq_ok.mp ht
    refine ⟨rfl, rfl, by simpa [Dict.contains] using hnew, ⟨r, hr, Dict.get?_set_self _ _ _⟩, fun i hi => ?_, rfl⟩
    exact Dict.get?_set_of_ne _ _ (Ne.symm hi)
  cases s with
  | none =>
    obtain ⟨-, -, t, ht, hrecord⟩ := applyEvent_none.mp h
    obtain ⟨identity, policy, -, -, rfl⟩ := State.create_eq_ok ht
    obtain ⟨hevents, hlast, -, hreceipt, hothers, -⟩ := hrecorded hrecord
    exact ⟨hevents, hlast, by simp, hreceipt, fun i hi => hothers i hi, by simp⟩
  | some s =>
    obtain ⟨-, -, -, t, ht, hrecord⟩ := applyEvent_some.mp h
    obtain ⟨hidentity, hevents, hreceipts, -⟩ := State.effect_frame ht
    obtain ⟨hevents', hlast, hfresh, hreceipt, hothers, hidentity'⟩ := hrecorded hrecord
    refine ⟨by rw [hevents', hevents]; rfl, hlast, ?_, hreceipt, fun i hi => ?_, ?_⟩
    · rintro _ ⟨⟩
      rw [← hreceipts, hfresh]
    · rw [hothers i hi, hreceipts]
      rfl
    · rintro _ ⟨⟩
      rw [hidentity', hidentity]

/-! ### The order of the files -/

theorem insertionSort_concat {α : Type} {r : α → α → Prop} [DecidableRel r] {l : List α} {a : α} (h : ∀ b ∈ l, r b a) :
    (l ++ [a]).insertionSort r = l.insertionSort r ++ [a] := by
  have hordered : ∀ (m : List α) (b : α), r b a → (m ++ [a]).orderedInsert r b = m.orderedInsert r b ++ [a] := by
    intro m b hb
    induction m with
    | nil => simp [hb]
    | cons c m ih =>
      simp only [List.cons_append, List.orderedInsert]
      split_ifs
      · rfl
      · rw [ih, List.cons_append]
  induction l with
  | nil => rfl
  | cons b l ih =>
    rw [List.cons_append, List.insertionSort_cons, ih fun c hc => h c (by simp [hc]), hordered _ b (h b (by simp)),
      List.insertionSort_cons]

/-- A name that the reader takes for a sequence and a digest. -/
theorem matchEventName_eq_some {name : Str} {n : Nat} {hex : Str} (h : matchEventName name = some (n, hex)) :
    ∃ digits rest, name = digits ++ rest ∧ digits.length = sequenceWidth ∧ digits.all isDigit = true ∧
      decimalValue digits = n := by
  unfold matchEventName at h
  simp only at h
  split_ifs at h with hc
  cases h
  refine ⟨_, _, (List.take_append_drop sequenceWidth name).symm, ?_, hc.2.1, rfl⟩
  rw [List.length_take, hc.1]
  decide

theorem eventFileName_length (e : Event) : (eventFileName e).length = (paddedText sequenceWidth e.sequence.1).length + 70 := by
  have hhex : e.eventDigest.hex.length = 64 := by
    obtain ⟨d, hd⟩ := e.eventDigest
    simp only [isDigest, Bool.and_eq_true, beq_iff_eq] at hd
    simp [Digest.hex, hd.1.2]
  have hsuffix : (Str.lit ".json").length = 5 := by decide
  simp [eventFileName, hhex, hsuffix]

/-- The name of an event's file is read as its sequence and digest, if the sequence fits. -/
theorem matchEventName_eventFileName {e : Event} (h : e.sequence.1 < 10 ^ sequenceWidth) :
    matchEventName (eventFileName e) = some (e.sequence.1, e.eventDigest.hex) := by
  have hlen : (paddedText sequenceWidth e.sequence.1).length = sequenceWidth := length_paddedText (by decide) h
  have hhex : e.eventDigest.hex.length = 64 ∧ e.eventDigest.hex.all Sha256.isHex = true := by
    obtain ⟨d, hd⟩ := e.eventDigest
    simp only [isDigest, Bool.and_eq_true, beq_iff_eq] at hd
    exact ⟨by simp [Digest.hex, hd.1.2], hd.2⟩
  have htake : (eventFileName e).take sequenceWidth = paddedText sequenceWidth e.sequence.1 := by
    rw [eventFileName, List.take_append_of_le_length hlen.ge, List.take_of_length_le hlen.le]
  have hdrop : ∀ k, (eventFileName e).drop (sequenceWidth + k) = (45 :: (e.eventDigest.hex ++ Str.lit ".json")).drop k := by
    intro k
    rw [eventFileName, ← List.drop_drop, List.drop_left' hlen]
  have hsep : (eventFileName e)[sequenceWidth]? = some 45 := by
    rw [eventFileName, List.getElem?_append_right hlen.le, hlen, Nat.sub_self]
    rfl
  have hname : ((eventFileName e).drop (sequenceWidth + 1)).take 64 = e.eventDigest.hex := by
    rw [hdrop, List.drop_succ_cons, List.drop_zero, List.take_append_of_le_length hhex.1.ge,
      List.take_of_length_le hhex.1.le]
  have hsuffix : (eventFileName e).drop (sequenceWidth + 65) = Str.lit ".json" := by
    rw [hdrop, List.drop_succ_cons, List.drop_left' hhex.1]
  have hlength : (eventFileName e).length = sequenceWidth + 70 := by rw [eventFileName_length, hlen]
  simp only [matchEventName, htake, hname, hsuffix, hlength, hsep, isDigit_paddedText, hhex.2, and_self, if_true,
    decimalValue_paddedText]

theorem matchEventName_eq_none {e : Event} (h : 10 ^ sequenceWidth ≤ e.sequence.1) :
    matchEventName (eventFileName e) = none := by
  have hlen : sequenceWidth < (paddedText sequenceWidth e.sequence.1).length := lt_length_paddedText (by decide) h
  unfold matchEventName
  rw [if_neg]
  rintro ⟨hlength, -⟩
  rw [eventFileName_length] at hlength
  omega

end LeanCtx
