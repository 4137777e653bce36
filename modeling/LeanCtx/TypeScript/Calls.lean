import LeanCtx.TypeScript.Session

/-! What each call of a TypeScript session does. -/

namespace LeanCtx.TypeScript.Session

theorem makeReceipt_ok {s : Session} {outcome : HostOutcome} {usage : Option Usage} {typeName : Option Str} {r : Receipt}
    (h : s.makeReceipt outcome usage typeName = .ok r) :
    .ofView r.view = s.view ∧ r.sessionId = s.sessionId ∧ r.taskId = s.taskId := by
  unfold makeReceipt at h
  cases hview : s.view with
  | none =>
    simp only [hview, catching_eq_ok, certify_eq_ok] at h
    obtain ⟨_, rfl⟩ := h
    exact ⟨rfl, rfl, rfl⟩
  | view v =>
    simp only [hview, catching_eq_ok, certify_eq_ok] at h
    obtain ⟨_, rfl⟩ := h
    exact ⟨rfl, rfl, rfl⟩
  | foreign x =>
    simp only [hview] at h
    cases h

theorem exists_makeReceipt {s : Session} {v : Option ContextView} (hview : s.view = .ofView v)
    (hsession : validId s.sessionId = true) (htask : validId s.taskId = true) (hd : ∀ d ∈ s.degradations, d ≠ [])
    (outcome : HostOutcome) : ∃ r, s.makeReceipt outcome none none = .ok r := by
  have hplan : ∀ i ∈ s.plan.map (·.planId), isPlanId i = true := by
    intro i hi
    obtain ⟨p, -, rfl⟩ := Option.mem_map.mp hi
    exact p.isPlanId_planId
  have hcheck : ∀ w i, (i = .sealed → ∃ v ∈ w, v.verify = true) → ReceiptFields.check
      ⟨s.sessionId, s.taskId, s.plan.map (·.planId), w, outcome, i, s.degradations, none, none⟩ = .ok () := by
    intro w i hi
    simp only [ReceiptFields.check, bind_eq_ok, ensure_eq_ok, exists_const]
    exact ⟨hsession, htask, hplan, nofun, hd, hi, nofun, nofun⟩
  unfold makeReceipt
  cases v with
  | none =>
    rw [hview]
    exact ⟨_, catching_eq_ok.mpr (certify_eq_ok.mpr ⟨hcheck _ _ nofun, rfl⟩)⟩
  | some v =>
    rw [hview]
    refine ⟨_, catching_eq_ok.mpr (certify_eq_ok.mpr ⟨hcheck _ _ fun hi => ⟨v, rfl, ?_⟩, rfl⟩)⟩
    by_contra hverify
    have hunsealed : v.integrityStatus = .unsealed := if_neg hverify
    exact absurd (hunsealed.symm.trans hi) nofun

/-- A session comes to have a plan of its own. -/
structure Takes (s : Session) (p : ContextPlan) : Prop where
  terminal : s.state.terminal = false
  sessionId : p.sessionId.1 = s.sessionId
  taskId : p.taskId.1 = s.taskId

theorem planIntent_cases (s : Session) (source : ContextSource) (mode freshness : Str) :
    (∃ e, s.planIntent source mode freshness = (s, .error e)) ∨
      (∃ p, s.plan = some p ∧ s.planIntent source mode freshness = (s, .ok p)) ∨
      ∃ p, s.Takes p ∧ s.planIntent source mode freshness = ({ s with plan := some p, state := .planned }, .ok p) := by
  unfold planIntent
  split
  · exact .inl ⟨_, rfl⟩
  · next hterminal =>
    split
    · exact .inl ⟨_, rfl⟩
    · next candidate hmake =>
      split
      · next plan hplan =>
        split
        · exact .inl ⟨_, rfl⟩
        · exact .inr (.inl ⟨plan, hplan, rfl⟩)
      · obtain ⟨hsession, htaskId, -, -⟩ := ContextPlan.make_eq_ok.mp hmake
        exact .inr (.inr ⟨candidate, ⟨by simpa using hterminal, hsession, htaskId⟩, rfl⟩)

theorem intend_cases (s : Session) (source : Option ContextSource) (mode freshness : Str) :
    (∃ e, s.intend source mode freshness = (s, .error e)) ∨
      (∃ p, s.plan = some p ∧ s.intend source mode freshness = (s, .ok p)) ∨
      ∃ p, s.Takes p ∧ s.intend source mode freshness = ({ s with plan := some p, state := .planned }, .ok p) := by
  cases source with
  | none =>
    unfold intend
    cases hplan : s.plan with
    | none => exact .inl ⟨_, rfl⟩
    | some p => exact .inr (.inl ⟨p, rfl, rfl⟩)
  | some source =>
    have heq : s.intend (some source) mode freshness = s.planIntent source mode freshness := by
      unfold intend
      cases s.plan <;> rfl
    rw [heq]
    exact s.planIntent_cases source mode freshness

/-- The first part of a prepare call changes nothing, and ends it; or it leaves the session executing, with a plan. -/
theorem begin_cases (s : Session) (source : Option ContextSource) (mode freshness : Str) :
    (∃ e, s.begin source mode freshness = (s, .ends (.error e))) ∨
      (s.state.terminal = false ∧ s.prepared = true ∧ s.begin source mode freshness = (s, .ends (.ok s.view))) ∨
      ∃ p, s.state.terminal = false ∧ s.prepared = false ∧ (s.plan = some p ∨ s.Takes p) ∧
        s.begin source mode freshness = ({ s with plan := some p, state := .executing }, .asks p) := by
  unfold begin
  split
  · exact .inl ⟨_, rfl⟩
  · next hterminal =>
    have hterminal : s.state.terminal = false := by simpa using hterminal
    split
    · next hprepared => exact .inr (.inl ⟨hterminal, hprepared, rfl⟩)
    · next hprepared =>
      have hprepared : s.prepared = false := by simpa using hprepared
      rcases s.intend_cases source mode freshness with ⟨e, heq⟩ | ⟨p, hp, heq⟩ | ⟨p, hp, heq⟩
      · rw [heq]
        exact .inl ⟨e, rfl⟩
      · rw [heq]
        exact .inr (.inr ⟨p, hterminal, hprepared, .inl hp, by rw [← hp]⟩)
      · rw [heq]
        exact .inr (.inr ⟨p, hterminal, hprepared, .inr hp, rfl⟩)

theorem addDegradation_eq (s : Session) (d : Str) :
    s.addDegradation d = { s with degradations := (s.addDegradation d).degradations } := by
  unfold addDegradation
  split <;> rfl

theorem degradations_addDegradation {s : Session} {d : Str} (h : ∀ e ∈ s.degradations, e ≠ []) (hd : d ≠ []) :
    ∀ e ∈ (s.addDegradation d).degradations, e ≠ [] := by
  unfold addDegradation
  split
  · exact h
  · intro e he
    rcases List.mem_append.mp he with he | he
    · exact h e he
    · exact List.mem_singleton.mp he ▸ hd

/-- The view of a session after an error: the evidence of the error, if it has any. -/
def evidence (s : Session) (x : Thrown) : ClientValue :=
  match x.evidence with
  | some v => .view v
  | none => s.view

/-- After an error that it does not survive a session is aborted with a receipt, or it is left with a view that is no view. -/
theorem abortEngineFailure_cases {s : Session} (x : Thrown) (hsession : validId s.sessionId = true)
    (htask : validId s.taskId = true) (hd : ∀ d ∈ s.degradations, d ≠ []) :
    ∃ d, (∀ e ∈ d, e ≠ []) ∧
      ((∃ v r, s.evidence x = .ofView v ∧ r.view = v ∧
        s.abortEngineFailure x =
          ({ s with view := s.evidence x, degradations := d, receipt := some r, state := .aborted }, .error (.thrown x))) ∨
      ∃ y e, s.evidence x = .foreign y ∧
        s.abortEngineFailure x = ({ s with view := s.evidence x, degradations := d }, .error e)) := by
  let t : Session := { s with view := s.evidence x }.addDegradation x.degradation
  have ht : t = { s with view := s.evidence x, degradations := t.degradations } := addDegradation_eq _ _
  have hdegradations : ∀ e ∈ t.degradations, e ≠ [] := degradations_addDegradation hd x.degradation_ne_nil
  have hfails {e : Error} (he : t.makeReceipt .aborted none none = .error e) : s.abortEngineFailure x = (t, .error e) := by
    cases hx : x.evidence <;> simp only [abortEngineFailure, t, evidence, hx] at he ⊢ <;> rw [he]
  have haborts {r : Receipt} (hr : t.makeReceipt .aborted none none = .ok r) :
      s.abortEngineFailure x = ({ t with receipt := some r, state := .aborted }, .error (.thrown x)) := by
    cases hx : x.evidence <;> simp only [abortEngineFailure, t, evidence, hx] at hr ⊢ <;> rw [hr]
  refine ⟨t.degradations, hdegradations, ?_⟩
  rcases (s.evidence x).eq_ofView_or_foreign with ⟨v, hv⟩ | ⟨y, hy⟩
  · have hview : t.view = .ofView v := (congrArg view ht).trans hv
    have hids : t.sessionId = s.sessionId ∧ t.taskId = s.taskId := by
      rw [ht]
      exact ⟨rfl, rfl⟩
    obtain ⟨r, hr⟩ := exists_makeReceipt hview (hids.1 ▸ hsession) (hids.2 ▸ htask) hdegradations .aborted
    have hrv : r.view = v := ClientValue.ofView_inj.mp ((makeReceipt_ok hr).1.trans hview)
    exact .inl ⟨v, r, hv, hrv, by rw [haborts hr, ht]⟩
  · have hview : t.view = .foreign y := (congrArg view ht).trans hy
    have he : t.makeReceipt .aborted none none = .error (.validation "receipt view must be ContextView") := by
      unfold makeReceipt
      rw [hview]
    exact .inr ⟨y, _, hy, by rw [hfails he, ht]⟩

/-- What a prepare call does with the answer of the engine. -/
theorem resume_cases {s : Session} (answer : Answer) (hd : ∀ d ∈ s.degradations, d ≠ []) :
    (∃ w d, answer = .ok w ∧ w.status.isSome = true ∧ (∀ e ∈ d, e ≠ []) ∧
      s.resume answer = ({ s with view := w, prepared := true, degradations := d }, .ok w)) ∨
    (∃ x d, answer = .error x ∧ x.failsOpen = true ∧ s.failOpen = true ∧ (∀ e ∈ d, e ≠ []) ∧
      s.resume answer = ({ s with view := .none, prepared := true, degradations := d }, .ok .none)) ∨
    (∃ x, answer = .error x ∧ ¬(x.failsOpen = true ∧ s.failOpen = true) ∧ s.resume answer = s.abortEngineFailure x) ∨
    ∃ w, answer = .ok w ∧ w.status = none ∧
      s.resume answer = { s with view := w, prepared := true }.abortEngineFailure typeError := by
  cases answer with
  | ok w =>
    cases hstatus : w.status with
    | none => exact .inr (.inr (.inr ⟨w, rfl, hstatus, by simp only [resume, hstatus]⟩))
    | some status =>
      have hset : s.resume (.ok w) = (if status = .str "degraded" then
          { s with view := w, prepared := true }.addDegradation "engine:degraded" else { s with view := w, prepared := true }, .ok w) := by
        simp only [resume, hstatus]
      have hdw : ∀ e ∈ ({ s with view := w, prepared := true } : Session).degradations, e ≠ [] := hd
      by_cases hdegraded : status = .str "degraded"
      · rw [if_pos hdegraded, addDegradation_eq] at hset
        exact .inl ⟨w, _, rfl, hstatus ▸ rfl, degradations_addDegradation hdw (by simp [Str.lit]), hset⟩
      · rw [if_neg hdegraded] at hset
        exact .inl ⟨w, s.degradations, rfl, hstatus ▸ rfl, hd, hset⟩
  | error x =>
    by_cases hopen : x.failsOpen = true ∧ s.failOpen = true
    · have hset : s.resume (.error x) = ({ s.addDegradation x.degradation with prepared := true, view := .none }, .ok .none) := by
        simp only [resume, if_pos hopen]
      rw [addDegradation_eq] at hset
      exact .inr (.inl ⟨x, _, rfl, hopen.1, hopen.2, degradations_addDegradation hd x.degradation_ne_nil, hset⟩)
    · exact .inr (.inr (.inl ⟨x, rfl, hopen, by simp only [resume, if_neg hopen]⟩))

/-- A call for a receipt changes nothing, and then it only returns the receipt that is there. -/
def Keeps (s : Session) (x : Session × Except Error Receipt) : Prop := x.1 = s ∧ ∀ r, x.2 = .ok r → s.receipt = some r

theorem keeps_error (s : Session) (e : Error) : s.Keeps (s, .error e) := ⟨rfl, fun _ h => by cases h⟩

theorem keeps_ok {s : Session} {r : Receipt} (h : s.receipt = some r) : s.Keeps (s, .ok r) :=
  ⟨rfl, fun _ hr => Except.ok.inj hr ▸ h⟩

/-- A completion keeps the session, or it records a receipt. -/
theorem complete_cases (s : Session) (outcome : Str) (usage : Option Usage) :
    s.Keeps (s.complete outcome usage) ∨
      ∃ o r, s.state = .executing ∧ s.makeReceipt o usage none = .ok r ∧
        s.complete outcome usage = ({ s with receipt := some r, state := .completed }, .ok r) := by
  unfold complete
  split
  · split
    · next r hr =>
      split
      · exact .inl (keeps_ok hr)
      · exact .inl (keeps_error s _)
    · exact .inl (keeps_error s _)
  · exact .inl (keeps_error s _)
  · exact .inl (keeps_error s _)
  · exact .inl (keeps_error s _)
  · exact .inl (keeps_error s _)
  · next hstate =>
    split
    · exact .inl (keeps_error s _)
    · next o _ =>
      split
      · exact .inl (keeps_error s _)
      · next r hr => exact .inr ⟨o, r, hstate, hr, rfl⟩

/-- An abortion keeps the session, or it records a receipt. -/
theorem abort_cases (s : Session) (typeName : Str) :
    s.Keeps (s.abort typeName) ∨
      ∃ r, s.state.terminal = false ∧ s.makeReceipt .aborted none (some typeName) = .ok r ∧
        s.abort typeName = ({ s with receipt := some r, state := .aborted }, .ok r) := by
  unfold abort
  split
  · split
    · next r hr => exact .inl (keeps_ok hr)
    · exact .inl (keeps_error s _)
  · split
    · next r hr =>
      split
      · exact .inl (keeps_ok hr)
      · exact .inl (keeps_error s _)
    · exact .inl (keeps_error s _)
  · exact .inl (keeps_error s _)
  all_goals
    next hstate =>
    split
    · exact .inl (keeps_error s _)
    · next r hr => exact .inr ⟨r, by rw [hstate]; rfl, hr, rfl⟩

theorem close_cases (s : Session) :
    s.close.1 = s ∨ (s.state = .completed ∨ s.state = .aborted) ∧ s.close.1 = { s with state := .closed } := by
  unfold close
  split
  · exact .inl rfl
  · next h => exact .inr ⟨.inl h, rfl⟩
  · next h => exact .inr ⟨.inr h, rfl⟩
  · exact .inl rfl

end LeanCtx.TypeScript.Session
