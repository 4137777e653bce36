import LeanCtx.Session.Lifecycle
import LeanCtx.Machine.Run

/-! The calls of a session, and what holds in every state that they reach. -/

namespace LeanCtx

/-- A call of the host, with what the client does in it. -/
inductive SessionCall
  | create (task sessionId taskId : Str) (failOpen : Bool)
  | plan (source : ContextSource) (mode freshness : Str)
  | prepare (source : Option ContextSource) (mode freshness : Str) (client : ContextPlan → Outcome)
  | complete (outcome : Str) (usage : Option Json)
  | abort (typeName : Str)
  | recover (view : Option ContextView)
      (client : Str → Str → Ref 512 → Ref 512 → Digest → Except Raised (Option RecoveredSource))
  | close

namespace Session

/-- The session after a call. -/
def next (s : Session) : SessionCall → Session
  | .create _ _ _ _ => s
  | .plan source mode freshness => (s.planIntent source mode freshness).1
  | .prepare source mode freshness client => (s.prepare source mode freshness client).1
  | .complete outcome usage => (s.complete outcome usage).1
  | .abort typeName => (s.abort typeName).1
  | .recover view client => (s.recover view client).1
  | .close => s.close.1

/-- A session is created, and then changed by calls. -/
def Step : Option Session → SessionCall → Session → Prop
  | none, .create task sessionId taskId failOpen, t => create task sessionId taskId failOpen = .ok t
  | none, _, _ => False
  | some s, call, t => s.next call = t

/-- The sessions that calls reach. -/
abbrev Reachable : Session → Prop := Machine.Reaches Step fun _ _ => True

/-! ### What a call does -/

/-- A session takes a plan of its own, as it has none. -/
structure Planned (s t : Session) (p : ContextPlan) : Prop where
  terminal : s.state.terminal = false
  unplanned : s.plan = none
  sessionId : p.sessionId.1 = s.sessionId
  taskId : p.taskId.1 = s.taskId
  planned : t = { s with plan := some p, state := .planned }

/-- The plan that a session is asked for is the one that it has, or it is a new one. -/
theorem planIntent_cases (s : Session) (source : ContextSource) (mode freshness : Str) :
    ((s.planIntent source mode freshness).1 = s ∧ ∀ p, (s.planIntent source mode freshness).2 = .ok p → s.plan = some p) ∨
      ∃ p, (s.planIntent source mode freshness).2 = .ok p ∧ s.Planned (s.planIntent source mode freshness).1 p ∧
        p.Of source mode freshness := by
  unfold planIntent
  split
  · exact .inl ⟨rfl, fun _ h => by cases h⟩
  · next hterminal =>
    split
    · exact .inl ⟨rfl, fun _ h => by cases h⟩
    · next candidate hmake =>
      split
      · next plan hplan =>
        split
        · exact .inl ⟨rfl, fun _ h => by cases h⟩
        · exact .inl ⟨rfl, fun p hp => (Except.ok.inj hp) ▸ hplan⟩
      · next hnone =>
        obtain ⟨hsession, htaskId, -, hof⟩ := ContextPlan.make_eq_ok.mp hmake
        exact .inr ⟨candidate, rfl, ⟨by simpa using hterminal, hnone, hsession, htaskId, rfl⟩, hof⟩

theorem intend_some {s : Session} {source : ContextSource} {mode freshness : Str} :
    s.intend (some source) mode freshness = s.planIntent source mode freshness := by
  unfold intend
  cases s.plan <;> rfl

/-- A prepare call comes to ask the client for the view of a plan. -/
structure Asks (s : Session) (source : Option ContextSource) (mode freshness : Str) (t : Session) (p : ContextPlan) : Prop where
  terminal : s.state.terminal = false
  prepared : s.prepared = false
  intend : s.intend source mode freshness = (t, .ok p)

/-- The session that asks the client has the plan; it is the one before the call, or one that has taken the plan. -/
theorem Asks.cases {s t : Session} {source : Option ContextSource} {mode freshness : Str} {p : ContextPlan}
    (h : s.Asks source mode freshness t p) :
    t = s ∧ s.plan = some p ∨ ∃ x, source = some x ∧ s.Planned t p ∧ p.Of x mode freshness := by
  have hintend := h.intend
  cases source with
  | none =>
    cases hplan : s.plan with
    | none =>
      simp only [Session.intend, hplan] at hintend
      cases hintend
    | some plan =>
      simp only [Session.intend, hplan] at hintend
      cases hintend
      exact .inl ⟨rfl, rfl⟩
  | some x =>
    rw [intend_some] at hintend
    have hcases := s.planIntent_cases x mode freshness
    rw [hintend] at hcases
    rcases hcases with ⟨rfl, hp⟩ | ⟨q, hq, hplanned, hof⟩
    · exact .inl ⟨rfl, hp p rfl⟩
    · cases hq
      exact .inr ⟨x, rfl, hplanned, hof⟩

theorem Asks.prepare {s t : Session} {source : Option ContextSource} {mode freshness : Str} {p : ContextPlan}
    (h : s.Asks source mode freshness t p) (client : ContextPlan → Outcome) :
    s.prepare source mode freshness client = { t with state := .executing }.settle (client p) := by
  unfold Session.prepare
  rw [if_neg (by simp [h.terminal]), if_neg (by simp [h.prepared]), h.intend]

/-- A prepare call changes nothing and returns the view that is there, or raises; it only takes a plan and raises; or it asks
    the client. -/
theorem prepare_cases (s : Session) (source : Option ContextSource) (mode freshness : Str) (client : ContextPlan → Outcome) :
    (s.prepared = true ∧ s.state.terminal = false ∧ s.prepare source mode freshness client = (s, .ok s.view)) ∨
      (∃ e, s.prepare source mode freshness client = (s, .error e)) ∨
      ∃ t p, s.Asks source mode freshness t p ∧
        s.prepare source mode freshness client = { t with state := .executing }.settle (client p) := by
  unfold prepare
  split
  · exact .inr (.inl ⟨_, rfl⟩)
  · next hterminal =>
    split
    · next hprepared => exact .inl ⟨hprepared, by simpa using hterminal, rfl⟩
    · next hprepared =>
      split
      · next t e hintend =>
        -- Where no plan is established, the session has not been changed.
        have ht : t = s := by
          cases source with
          | none =>
            unfold intend at hintend
            cases hplan : s.plan <;> simp only [hplan] at hintend <;> cases hintend
            rfl
          | some x =>
            rw [intend_some] at hintend
            have hcases := s.planIntent_cases x mode freshness
            rw [hintend] at hcases
            rcases hcases with ⟨h, -⟩ | ⟨q, hq, -⟩
            · exact h
            · cases hq
        exact .inr (.inl ⟨e, by rw [ht]⟩)
      · next t p hintend =>
        exact .inr (.inr ⟨t, p, ⟨by simpa using hterminal, by simpa using hprepared, hintend⟩, rfl⟩)

/-! ### Receipts -/

end Session

/-- The integrity of the evidence for a view, or for none. -/
def integrityOf : Option ContextView → Integrity
  | none => .unsealed
  | some v => v.integrityStatus

/-- A receipt records a session. -/
structure ContextReceipt.Records (r : ContextReceipt) (s : Session) : Prop where
  sessionId : r.sessionId.1 = s.sessionId
  taskId : r.taskId.1 = s.taskId
  plan : r.planId = s.plan.map (·.planId)
  view : ClientValue.ofView r.view = s.view
  integrity : r.integrity = integrityOf r.view
  degradations : r.degradations = s.degradations

namespace Session

theorem makeReceipt_of_ofView {s : Session} {v : Option ContextView} (h : s.view = .ofView v) (outcome : HostOutcome)
    (usage : Option Json) (typeName : Option Str) :
    s.makeReceipt outcome usage typeName = catching (ContextReceipt.make s.sessionId s.taskId (s.plan.map (·.planId)) s.view outcome
      (integrityOf v) s.degradations usage typeName) SessionError.validation := by
  unfold makeReceipt
  cases v <;> rw [h] <;> rfl

/-- No receipt is made of a session whose view is no view. -/
theorem makeReceipt_of_foreign {s : Session} {x : Foreign} (h : s.view = .foreign x) (outcome : HostOutcome) (usage : Option Json)
    (typeName : Option Str) : ∃ e, s.makeReceipt outcome usage typeName = .error e := by
  have hmake : ∀ i, ∃ e, catching (ContextReceipt.make s.sessionId s.taskId (s.plan.map (·.planId)) (.foreign x) outcome i
      s.degradations usage typeName) SessionError.validation = .error e := by
    intro i
    cases hr : ContextReceipt.make s.sessionId s.taskId (s.plan.map (·.planId)) (.foreign x) outcome i s.degradations usage typeName with
    | error e => exact ⟨_, rfl⟩
    | ok r =>
      obtain ⟨-, -, -, hview, -⟩ := ContextReceipt.make_eq_ok.mp hr
      exact absurd hview ClientValue.ofView_ne_foreign
  unfold makeReceipt
  simp only [h]
  split
  · exact ⟨_, rfl⟩
  · exact hmake _
  · exact hmake _

/-- A receipt is made of a session whose view is a view or none. -/
theorem makeReceipt_eq_ok {s : Session} {outcome : HostOutcome} {usage : Option Json} {typeName : Option Str} {r : ContextReceipt} :
    s.makeReceipt outcome usage typeName = .ok r ↔
      r.Records s ∧ r.outcome = outcome ∧ r.usage = usage ∧ r.hostExceptionType = typeName := by
  constructor
  · intro h
    rcases s.view.eq_ofView_or_foreign with ⟨v, hview⟩ | ⟨x, hview⟩
    · rw [makeReceipt_of_ofView hview, catching_eq_ok, ContextReceipt.make_eq_ok] at h
      obtain ⟨hsession, htaskId, hplan, hv, houtcome, hintegrity, hdegradations, husage, htype⟩ := h
      have hrv : r.view = v := ClientValue.ofView_inj.mp (hv.trans hview)
      exact ⟨⟨hsession, htaskId, hplan, hv, hrv ▸ hintegrity, hdegradations⟩, houtcome, husage, htype⟩
    · obtain ⟨e, he⟩ := makeReceipt_of_foreign hview outcome usage typeName
      exact absurd (he.symm.trans h) nofun
  · rintro ⟨⟨hsession, htaskId, hplan, hv, hintegrity, hdegradations⟩, houtcome, husage, htype⟩
    rw [makeReceipt_of_ofView hv.symm, catching_eq_ok, ContextReceipt.make_eq_ok]
    exact ⟨hsession, htaskId, hplan, hv, houtcome, hintegrity, hdegradations, husage, htype⟩

/-- A session is executing: it has a plan of its own and no receipt yet. -/
structure Executing (s : Session) : Prop where
  state : s.state = .executing
  receipt : s.receipt = none
  plan : ∃ p, s.plan = some p ∧ p.sessionId.1 = s.sessionId ∧ p.taskId.1 = s.taskId
  degradations : ∀ d ∈ s.degradations, d ≠ []

theorem addDegradation_eq (s : Session) (d : Str) :
    s.addDegradation d = { s with degradations := (s.addDegradation d).degradations } := by
  unfold addDegradation
  split <;> rfl

theorem degradations_addDegradation {s : Session} {d : Str} (h : ∀ e ∈ s.degradations, e ≠ []) (hd : d ≠ []) :
    ∀ e ∈ (s.addDegradation d).degradations, e ≠ [] := by
  unfold addDegradation
  split
  · exact h
  · intro e he
    rcases List.mem_append.mp he with he | he
    · exact h e he
    · exact List.mem_singleton.mp he ▸ hd

/-- An executing session gets a receipt, unless its view is no view. -/
theorem Executing.exists_makeReceipt {s : Session} (h : s.Executing) {v : Option ContextView} (hview : s.view = .ofView v)
    (outcome : HostOutcome) : ∃ r, s.makeReceipt outcome none none = .ok r := by
  obtain ⟨p, hp, hsession, htaskId⟩ := h.plan
  let x : ReceiptFields := ⟨p.sessionId, p.taskId, some p.planId, v, outcome, integrityOf v, s.degradations, none, none⟩
  have hsealed : x.integrity = .sealed → ∃ w ∈ x.view, w.verify = true := by
    cases v with
    | none => nofun
    | some w =>
      intro hi
      refine ⟨w, rfl, ?_⟩
      by_contra hverify
      have hunsealed : w.integrityStatus = .unsealed := if_neg hverify
      exact absurd (hunsealed.symm.trans hi) nofun
  have hcheck : x.check = .ok () := by
    have hplan : ∀ i ∈ x.planId, isPlanId i = true := fun i hi => Option.some.inj hi ▸ p.isPlanId_planId
    have hdegradations : ∀ d ∈ x.degradations, d ≠ [] := h.degradations
    simp only [ReceiptFields.check, bind_eq_ok, ensure_eq_ok, exists_const]
    exact ⟨hplan, (), rfl, hdegradations, (), rfl, hsealed⟩
  refine ⟨⟨x, hcheck⟩, makeReceipt_eq_ok.mpr ⟨⟨hsession, htaskId, ?_, hview.symm, rfl, rfl⟩, rfl, rfl, rfl⟩⟩
  rw [hp]
  rfl

/-- The view of a session after an exception: the evidence of the exception, if it has any. -/
def evidence (s : Session) (x : Raised) : ClientValue := if x.evidence ≠ .none then x.evidence else s.view

/-- The session after an exception, before its receipt is made. -/
def failed (s : Session) (x : Raised) : Session := { s with view := s.evidence x }.addDegradation x.degradation

theorem Executing.failed {s : Session} (h : s.Executing) (x : Raised) : (s.failed x).Executing := by
  have hview : ({ s with view := s.evidence x } : Session).Executing := ⟨h.state, h.receipt, h.plan, h.degradations⟩
  rw [Session.failed, addDegradation_eq]
  exact ⟨h.state, h.receipt, h.plan, degradations_addDegradation hview.degradations x.degradation_ne_nil⟩

/-- After an exception that it does not survive a session is aborted with a receipt, or it is left executing with a view that is
    no view. -/
theorem Executing.abortEngineFailure {s : Session} (h : s.Executing) (x : Raised) :
    (∃ v r, s.evidence x = .ofView v ∧ r.Records (s.failed x) ∧ r.outcome = .aborted ∧
      s.abortEngineFailure x = ({ s.failed x with receipt := some r, state := .aborted }, .error (.raised x))) ∨
    ∃ y e, s.evidence x = .foreign y ∧ s.abortEngineFailure x = (s.failed x, .error e) := by
  have hfailed : (if x.evidence ≠ .none then { s with view := x.evidence } else s).addDegradation x.degradation = s.failed x := by
    unfold Session.failed evidence
    split <;> rfl
  have hview : (s.failed x).view = s.evidence x := by
    rw [Session.failed, addDegradation_eq]
  rcases (s.evidence x).eq_ofView_or_foreign with ⟨v, hv⟩ | ⟨y, hy⟩
  · obtain ⟨r, hr⟩ := (h.failed x).exists_makeReceipt (hview.trans hv) .aborted
    obtain ⟨hrecords, houtcome, -⟩ := makeReceipt_eq_ok.mp hr
    refine .inl ⟨v, r, hv, hrecords, houtcome, ?_⟩
    simp only [Session.abortEngineFailure, hfailed, hr]
  · obtain ⟨e, he⟩ := makeReceipt_of_foreign (hview.trans hy) .aborted none none
    refine .inr ⟨y, e, hy, ?_⟩
    simp only [Session.abortEngineFailure, hfailed, he]

/-- What an executing session does with the outcome of the client. -/
theorem Executing.settle {s : Session} (h : s.Executing) (o : Outcome) :
    (∃ w d, o = .ok w ∧ w.status.isSome = true ∧ (∀ e ∈ d, e ≠ []) ∧
      s.settle o = ({ s with view := w, prepared := true, degradations := d }, .ok w)) ∨
    (∃ x, o = .error x ∧ x.kind = .base ∧ s.settle o = (s, .error (.raised x))) ∨
    (∃ x d, o = .error x ∧ x.kind ≠ .base ∧ x.failsOpen = true ∧ s.failOpen = true ∧ (∀ e ∈ d, e ≠ []) ∧
      s.settle o = ({ s with view := .none, prepared := true, degradations := d }, .ok .none)) ∨
    ∃ x u, u.Executing ∧ s.settle o = u.abortEngineFailure x ∧
      (o = .error x ∧ x.kind ≠ .base ∧ ¬(x.failsOpen = true ∧ s.failOpen = true) ∧ u = s ∨
        ∃ w, o = .ok w ∧ w.status = none ∧ x = attributeError ∧ u = { s with view := w, prepared := true }) := by
  cases o with
  | ok w =>
    have hw : ({ s with view := w, prepared := true } : Session).Executing := ⟨h.state, h.receipt, h.plan, h.degradations⟩
    cases hstatus : w.status with
    | none =>
      refine .inr (.inr (.inr ⟨attributeError, _, hw, ?_, .inr ⟨w, rfl, hstatus, rfl, rfl⟩⟩))
      simp only [Session.settle, hstatus]
    | some status =>
      have hset : s.settle (.ok w) = (if status = .str "degraded" then
          { s with view := w, prepared := true }.addDegradation "engine:degraded" else { s with view := w, prepared := true }, .ok w) := by
        simp only [Session.settle, hstatus]
      by_cases hdegraded : status = .str "degraded"
      · rw [if_pos hdegraded, addDegradation_eq] at hset
        exact .inl ⟨w, _, rfl, hstatus ▸ rfl, degradations_addDegradation hw.degradations (by simp [Str.lit]), hset⟩
      · rw [if_neg hdegraded] at hset
        exact .inl ⟨w, s.degradations, rfl, hstatus ▸ rfl, h.degradations, hset⟩
  | error x =>
    by_cases hbase : x.kind = .base
    · exact .inr (.inl ⟨x, rfl, hbase, by simp only [Session.settle, hbase, if_true]⟩)
    by_cases hopen : x.failsOpen = true ∧ s.failOpen = true
    · have hset : s.settle (.error x) = ({ s.addDegradation x.degradation with prepared := true, view := .none }, .ok .none) := by
        simp only [Session.settle, hbase, if_false, if_pos hopen]
      rw [addDegradation_eq] at hset
      exact .inr (.inr (.inl ⟨x, _, rfl, hbase, hopen.1, hopen.2,
        degradations_addDegradation h.degradations x.degradation_ne_nil, hset⟩))
    · exact .inr (.inr (.inr ⟨x, s, h, by simp only [Session.settle, hbase, hopen, if_false], .inl ⟨rfl, hbase, hopen, rfl⟩⟩))

/-- An executing session returns what the client has given, or none where it fails open. -/
theorem Executing.eq_of_settle {s : Session} (h : s.Executing) {o : Outcome} {w : ClientValue} (hw : (s.settle o).2 = .ok w) :
    o = .ok w ∧ w.status.isSome = true ∨ w = .none ∧ (s.settle o).1.view = .none ∧ (s.settle o).1.prepared = true := by
  rcases h.settle o with ⟨w', d, ho, hstatus, -, hset⟩ | ⟨x, -, -, hset⟩ | ⟨x, d, -, -, -, -, -, hset⟩ | ⟨x, u, hu, hset, -⟩
  · rw [hset] at hw
    cases Except.ok.inj hw
    exact .inl ⟨ho, hstatus⟩
  · rw [hset] at hw
    cases hw
  · rw [hset] at hw ⊢
    cases Except.ok.inj hw
    exact .inr ⟨rfl, rfl, rfl⟩
  · rw [hset] at hw
    rcases hu.abortEngineFailure x with ⟨v, r, -, -, -, heq⟩ | ⟨y, e, -, heq⟩
    · rw [heq] at hw
      cases hw
    · rw [heq] at hw
      cases hw

/-- A call for a receipt changes nothing, and then it only returns the receipt that is there. -/
def Keeps (s : Session) (x : Session × Except SessionError ContextReceipt) : Prop :=
  x.1 = s ∧ ∀ r, x.2 = .ok r → s.receipt = some r

theorem keeps_error (s : Session) (e : SessionError) : s.Keeps (s, .error e) := ⟨rfl, fun _ h => by cases h⟩

theorem keeps_ok {s : Session} {r : ContextReceipt} (h : s.receipt = some r) : s.Keeps (s, .ok r) :=
  ⟨rfl, fun _ hr => Except.ok.inj hr ▸ h⟩

/-- A completion keeps the session, or it records a receipt. -/
theorem complete_cases (s : Session) (outcome : Str) (usage : Option Json) :
    s.Keeps (s.complete outcome usage) ∨
      ∃ o r, s.state = .executing ∧ s.makeReceipt o usage none = .ok r ∧
        s.complete outcome usage = ({ s with receipt := some r, state := .completed }, .ok r) := by
  unfold complete
  split
  · split
    · next r hr =>
      split
      · exact .inl (keeps_ok hr)
      · exact .inl (keeps_error s _)
    · exact .inl (keeps_error s _)
  · exact .inl (keeps_error s _)
  · exact .inl (keeps_error s _)
  · exact .inl (keeps_error s _)
  · exact .inl (keeps_error s _)
  · next hstate =>
    split
    · exact .inl (keeps_error s _)
    · next o _ =>
      split
      · exact .inl (keeps_error s _)
      · next r hr => exact .inr ⟨o, r, hstate, hr, rfl⟩

/-- An abortion keeps the session, or it records a receipt. -/
theorem abort_cases (s : Session) (typeName : Str) :
    s.Keeps (s.abort typeName) ∨
      ∃ r, s.state.terminal = false ∧ s.makeReceipt .aborted none (some typeName) = .ok r ∧
        s.abort typeName = ({ s with receipt := some r, state := .aborted }, .ok r) := by
  unfold abort
  split
  · split
    · next r hr => exact .inl (keeps_ok hr)
    · exact .inl (keeps_error s _)
  · split
    · next r hr =>
      split
      · exact .inl (keeps_ok hr)
      · exact .inl (keeps_error s _)
    · exact .inl (keeps_error s _)
  · exact .inl (keeps_error s _)
  all_goals
    next hstate =>
    split
    · exact .inl (keeps_error s _)
    · next r hr => exact .inr ⟨r, by rw [hstate]; rfl, hr, rfl⟩

/-- Closing changes nothing, or it closes a session that is completed or aborted. -/
theorem close_cases (s : Session) :
    s.close.1 = s ∨ (s.state = .completed ∨ s.state = .aborted) ∧ s.close = ({ s with state := .closed }, .ok ()) := by
  unfold close
  split
  · exact .inl rfl
  · next h => exact .inr ⟨.inl h, rfl⟩
  · next h => exact .inr ⟨.inr h, rfl⟩
  · exact .inl rfl

/-- A call leaves a session as it is, gives it a plan, asks the client, records a receipt, or closes it. -/
theorem next_cases (s : Session) (call : SessionCall) :
    s.next call = s ∨
      (∃ p, s.Planned (s.next call) p) ∨
      (∃ source mode freshness client t p, call = .prepare source mode freshness client ∧ s.Asks source mode freshness t p ∧
        s.next call = ({ t with state := .executing }.settle (client p)).1) ∨
      (∃ r state, r.Records s ∧ s.state.terminal = false ∧ state.terminal = true ∧
        s.next call = { s with receipt := some r, state := state }) ∨
      (s.state = .completed ∨ s.state = .aborted) ∧ s.next call = { s with state := .closed } := by
  cases call with
  | create task sessionId taskId failOpen => exact .inl rfl
  | plan source mode freshness =>
    rcases s.planIntent_cases source mode freshness with ⟨heq, -⟩ | ⟨p, -, hp, -⟩
    · exact .inl heq
    · exact .inr (.inl ⟨p, hp⟩)
  | prepare source mode freshness client =>
    rcases s.prepare_cases source mode freshness client with ⟨-, -, heq⟩ | ⟨e, heq⟩ | ⟨t, p, hasks, heq⟩
    · exact .inl (by rw [next, heq])
    · exact .inl (by rw [next, heq])
    · exact .inr (.inr (.inl ⟨source, mode, freshness, client, t, p, rfl, hasks, by rw [next, heq]⟩))
  | complete outcome usage =>
    rcases s.complete_cases outcome usage with hkeeps | ⟨o, r, hstate, hr, heq⟩
    · exact .inl hkeeps.1
    · refine .inr (.inr (.inr (.inl ⟨r, .completed, (makeReceipt_eq_ok.mp hr).1, ?_, rfl, by rw [next, heq]⟩)))
      rw [hstate]
      rfl
  | abort typeName =>
    rcases s.abort_cases typeName with hkeeps | ⟨r, hstate, hr, heq⟩
    · exact .inl hkeeps.1
    · exact .inr (.inr (.inr (.inl ⟨r, .aborted, (makeReceipt_eq_ok.mp hr).1, hstate, rfl, by rw [next, heq]⟩)))
  | recover view client => exact .inl rfl
  | close =>
    rcases s.close_cases with heq | ⟨hstate, heq⟩
    · exact .inl heq
    · exact .inr (.inr (.inr (.inr ⟨hstate, by rw [next, heq]⟩)))

/-! ### Sessions that are reached -/

/-- What holds of every session that calls reach. -/
structure Inv (s : Session) : Prop where
  plan : ∀ p ∈ s.plan, p.sessionId.1 = s.sessionId ∧ p.taskId.1 = s.taskId
  degradations : ∀ d ∈ s.degradations, d ≠ []
  prepared : s.prepared = true → s.plan.isSome = true
  executing : s.state = .executing → s.plan.isSome = true
  receipt : s.receipt.isSome = true ↔ s.state.terminal = true
  recorded : ∀ r ∈ s.receipt, r.Records s

theorem Inv.receipt_eq_none {s : Session} (h : s.Inv) (hterminal : s.state.terminal = false) : s.receipt = none := by
  rw [← Option.not_isSome_iff_eq_none, h.receipt, hterminal]
  nofun

theorem Executing.inv {s : Session} (h : s.Executing) : s.Inv where
  plan p hp := by
    obtain ⟨q, hq, hids⟩ := h.plan
    cases hp.symm.trans hq
    exact hids
  degradations := h.degradations
  prepared _ := by
    obtain ⟨q, hq, -⟩ := h.plan
    rw [hq]
    rfl
  executing _ := by
    obtain ⟨q, hq, -⟩ := h.plan
    rw [hq]
    rfl
  receipt := by
    rw [h.receipt, h.state]
    exact ⟨nofun, nofun⟩
  recorded r hr := by
    rw [h.receipt] at hr
    cases hr

theorem Asks.executing {s t : Session} {source : Option ContextSource} {mode freshness : Str} {p : ContextPlan}
    (h : s.Asks source mode freshness t p) (inv : s.Inv) : Executing { t with state := .executing } := by
  have hreceipt := inv.receipt_eq_none h.terminal
  rcases h.cases with ⟨rfl, hplan⟩ | ⟨-, -, hplanned, -⟩
  · exact ⟨rfl, hreceipt, ⟨p, hplan, inv.plan p hplan⟩, inv.degradations⟩
  · cases hplanned.planned
    exact ⟨rfl, hreceipt, ⟨p, rfl, hplanned.sessionId, hplanned.taskId⟩, inv.degradations⟩

/-- A receipt of a session stays one in a terminal state. -/
theorem Inv.record {s : Session} (h : s.Inv) {r : ContextReceipt} (hr : r.Records s) {state : SessionState}
    (hstate : state.terminal = true) : Inv { s with receipt := some r, state := state } where
  plan := h.plan
  degradations := h.degradations
  prepared := h.prepared
  executing he := by
    cases he
    cases hstate
  receipt := by
    rw [hstate]
    exact ⟨fun _ => rfl, fun _ => rfl⟩
  recorded r' hr' := by
    cases hr'
    exact ⟨hr.sessionId, hr.taskId, hr.plan, hr.view, hr.integrity, hr.degradations⟩

theorem Executing.inv_settle {s : Session} (h : s.Executing) (o : Outcome) : (s.settle o).1.Inv := by
  rcases h.settle o with ⟨w, d, -, -, hd, hset⟩ | ⟨x, -, -, hset⟩ | ⟨x, d, -, -, -, -, hd, hset⟩ | ⟨x, u, hu, hset, -⟩
  · rw [hset]
    exact Executing.inv ⟨h.state, h.receipt, h.plan, hd⟩
  · rw [hset]
    exact h.inv
  · rw [hset]
    exact Executing.inv ⟨h.state, h.receipt, h.plan, hd⟩
  · rw [hset]
    rcases hu.abortEngineFailure x with ⟨v, r, -, hr, -, heq⟩ | ⟨y, e, -, heq⟩
    · rw [heq]
      exact (hu.failed x).inv.record hr rfl
    · rw [heq]
      exact (hu.failed x).inv

theorem Planned.inv {s t : Session} {p : ContextPlan} (h : s.Planned t p) (inv : s.Inv) : t.Inv := by
  have hreceipt := inv.receipt_eq_none h.terminal
  cases h.planned
  refine ⟨?_, inv.degradations, fun _ => rfl, nofun, ?_, ?_⟩
  · intro q hq
    cases hq
    exact ⟨h.sessionId, h.taskId⟩
  · rw [hreceipt]
    exact ⟨nofun, nofun⟩
  · intro r hr
    rw [hreceipt] at hr
    cases hr

theorem Inv.create {task sessionId taskId : Str} {failOpen : Bool} {s : Session}
    (h : create task sessionId taskId failOpen = .ok s) : s.Inv := by
  simp only [Session.create, bind_eq_ok, catching_eq_ok, pure_eq_ok] at h
  obtain ⟨task, -, rfl⟩ := h
  exact ⟨by simp, by simp, by simp, by simp, by simp [SessionState.terminal], by simp⟩

theorem Inv.next {s : Session} (inv : s.Inv) (call : SessionCall) : (s.next call).Inv := by
  rcases s.next_cases call with heq | ⟨p, hp⟩ | ⟨source, mode, freshness, client, t, p, -, hasks, heq⟩ |
    ⟨r, state, hr, -, hstate, heq⟩ | ⟨hstate, heq⟩
  · rw [heq]
    exact inv
  · exact hp.inv inv
  · rw [heq]
    exact (hasks.executing inv).inv_settle (client p)
  · rw [heq]
    exact inv.record hr hstate
  · rw [heq]
    refine ⟨inv.plan, inv.degradations, inv.prepared, nofun, ⟨fun _ => rfl, fun _ => ?_⟩, fun r hr => ?_⟩
    · refine inv.receipt.mpr ?_
      rcases hstate with h | h <;> rw [h] <;> rfl
    · obtain hr := inv.recorded r hr
      exact ⟨hr.sessionId, hr.taskId, hr.plan, hr.view, hr.integrity, hr.degradations⟩

theorem Reachable.inv {s : Session} (h : s.Reachable) : s.Inv := by
  refine Machine.Reaches.invariant (fun call s _ hstep => ?_) (fun s call t inv _ hstep => ?_) h
  · cases call with
    | create task sessionId taskId failOpen => exact Inv.create hstep
    | _ => cases hstep
  · cases hstep
    exact inv.next call

end Session

/-! ### A session and a plan for it -/

namespace Session.Sample

/-- A file under a root. -/
def source (root : Str) : ContextSource := ⟨"a", root, "text/plain", none, none⟩

/-- A session that has just been created. -/
def created (failOpen : Bool) : Session :=
  ⟨⟨"task", by decide⟩, "session", "task", failOpen, .created, none, .none, none, false, []⟩

theorem create_created (failOpen : Bool) : create "task" "session" "task" failOpen = .ok (created failOpen) := rfl

theorem reachable_created (failOpen : Bool) : (created failOpen).Reachable :=
  have h : Step none (.create "task" "session" "task" failOpen) (created failOpen) := create_created failOpen
  .start trivial h

theorem descriptor_source : ∃ d, (source "/p").descriptor = some d ∧ d.Writable ∧ (source "/q").descriptor = some d := by
  have hp : (source "/p").relativePath = some (Str.lit "a") := by decide
  have hq : (source "/q").relativePath = some (Str.lit "a") := by decide
  refine ⟨_, by rw [ContextSource.descriptor, hp]; rfl, ?_, by rw [ContextSource.descriptor, hq]; rfl⟩
  refine Json.writable_mkObj ?_
  simp [source, writable_lit]

/-- The session with a plan. -/
def planned (failOpen : Bool) (p : ContextPlan) : Session := { created failOpen with plan := some p, state := .planned }

/-- The session can be asked to prepare a view of the file. -/
theorem exists_asks (failOpen : Bool) : ∃ p, (created failOpen).Asks (some (source "/p")) "aggressive" "reuse" (planned failOpen p) p ∧
    ContextPlan.make "session" "task" "task" (source "/p") "aggressive" "reuse" = .ok p := by
  obtain ⟨d, hd, hwritable, -⟩ := descriptor_source
  have hsession : isText 512 (Str.lit "session") = true := by decide
  have htask : isText 512 (Str.lit "task") = true := by decide
  have htaskText : isTask maxTaskBytes (Str.lit "task") = true := by decide
  obtain ⟨p, hp⟩ := ContextPlan.exists_make hsession htask htaskText hd hwritable
  refine ⟨p, ⟨rfl, rfl, ?_⟩, hp⟩
  rw [intend_some, planIntent]
  rw [if_neg nofun, show ContextPlan.make (created failOpen).sessionId (created failOpen).taskId (created failOpen).task.1
    (source "/p") "aggressive" "reuse" = .ok p from hp]
  rfl

/-- There is a view of every source and status. -/
theorem exists_view_status (s : ContextSource) (status : InstanceStatus) : ∃ v : ContextView, v.source = s ∧ v.status = status := by
  let x : ViewFields := ⟨s, none, none, none, ⟨"source:a", by decide⟩, digestOf [], none, status, [], none, none, .obj [], .obj []⟩
  have hx : x.check = .ok () := by
    simp [ViewFields.check, ViewFields.checkOutput, x, ensure, maxMeasurements, Json.isObj]
  exact ⟨⟨x, hx⟩, rfl, rfl⟩

theorem exists_view (s : ContextSource) : ∃ v : ContextView, v.source = s := by
  obtain ⟨v, hv, -⟩ := exists_view_status s .succeeded
  exact ⟨v, hv⟩

end Session.Sample

end LeanCtx
