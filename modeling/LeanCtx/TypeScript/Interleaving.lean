import LeanCtx.TypeScript.Calls
import LeanCtx.Session.Calls

/-! Interleavings of the calls of one TypeScript session, in which prepare calls are suspended and resumed. -/

namespace LeanCtx.TypeScript

/-- A step of an interleaving: a call, the first part of a prepare call, or the second part of one that is suspended. -/
inductive Event
  | create (task sessionId taskId : Str) (failOpen : Bool)
  | plan (source : ContextSource) (mode freshness : Str)
  | begin (source : Option ContextSource) (mode freshness : Str)
  | resume (i : Nat) (answer : Answer)
  | complete (outcome : Str) (usage : Option Usage)
  | abort (typeName : Str)
  | recover (view : Option ContextView)
      (engine : Str → Str → Ref 512 → Ref 512 → Digest → Except Thrown (Option RecoveredSource))
  | close

/-- A session, the plans of its suspended prepare calls, the receipts that its complete and abort calls have returned, and the
    views that its prepare calls have returned. -/
structure Interleaving where
  session : Session
  suspended : List ContextPlan
  receipts : List Receipt
  results : List ContextView

namespace Interleaving

/-- The views that have been returned, with a new one. -/
def withResult (l : List ContextView) : Except Error ClientValue → List ContextView
  | .ok (.view v) => l ++ [v]
  | _ => l

/-- The receipts that have been returned, with a new one. -/
def withReceipt (l : List Receipt) : Except Error Receipt → List Receipt
  | .ok r => l ++ [r]
  | .error _ => l

/-- The interleaving after a step. -/
def next (x : Interleaving) : Event → Interleaving
  | .create _ _ _ _ => x
  | .plan source mode freshness => { x with session := (x.session.planIntent source mode freshness).1 }
  | .begin source mode freshness =>
    match x.session.begin source mode freshness with
    | (s, .ends result) => { x with session := s, results := withResult x.results result }
    | (s, .asks p) => { x with session := s, suspended := x.suspended ++ [p] }
  | .resume i answer =>
    if i < x.suspended.length then
      { x with
        session := (x.session.resume answer).1
        suspended := x.suspended.eraseIdx i
        results := withResult x.results (x.session.resume answer).2 }
    else x
  | .complete outcome usage =>
    { x with
      session := (x.session.complete outcome usage).1
      receipts := withReceipt x.receipts (x.session.complete outcome usage).2 }
  | .abort typeName =>
    { x with session := (x.session.abort typeName).1, receipts := withReceipt x.receipts (x.session.abort typeName).2 }
  | .recover view engine => { x with session := (x.session.recover view engine).1 }
  | .close => { x with session := x.session.close.1 }

/-- A session is created, and then its calls take their steps. -/
def Step : Option Interleaving → Event → Interleaving → Prop
  | none, .create task sessionId taskId failOpen, y =>
    Session.create task sessionId taskId failOpen = .ok y.session ∧ y.suspended = [] ∧ y.receipts = [] ∧ y.results = []
  | none, _, _ => False
  | some x, e, y => x.next e = y

/-- A prepare call is resumed on a session that is not terminal, or where it leaves the view as it is and makes no receipt in the
    place of one that has been returned; and it returns no view where another one has been returned. -/
def Harmless (x : Interleaving) : Answer → Prop
  | .ok (.view v) => (x.session.state.terminal = true → x.session.view = .view v) ∧ ∀ w ∈ x.results, w = v
  | .ok .none => x.session.state.terminal = true → x.session.state = .aborted ∧ x.receipts = []
  | .ok (.foreign _) => x.session.state.terminal = false
  | .error e =>
    if e.failsOpen = true ∧ x.session.failOpen = true then x.session.state.terminal = true → x.session.view = .none
    else x.session.state.terminal = true → x.session.state = .aborted ∧ x.receipts = []

/-- The steps of which the prepare calls that resume are harmless. -/
def Cond : Option Interleaving → Event → Prop
  | some x, .resume i answer => i < x.suspended.length → x.Harmless answer
  | _, _ => True

/-- What is said of an interleaving: the receipts that have been returned are the session's, with its view, and all views that
    prepare calls have returned are one. -/
structure Sound (x : Interleaving) : Prop where
  receipt : ∀ r ∈ x.receipts, x.session.receipt = some r
  view : ∀ r ∈ x.receipts, .ofView r.view = x.session.view
  results : ∀ v ∈ x.results, ∀ w ∈ x.results, v = w

/-- A step leaves a terminal state only by closing. -/
def Ends (x : Interleaving) (e : Event) : Prop :=
  x.session.state.terminal = true → (x.next e).session.state = x.session.state ∨
    (x.session.state = .completed ∨ x.session.state = .aborted) ∧ (x.next e).session.state = .closed

/-! ### The invariant -/

/-- What holds of every interleaving whose resumed calls are harmless. -/
structure Inv (x : Interleaving) : Prop where
  ids : ∀ p ∈ x.session.plan, p.sessionId.1 = x.session.sessionId ∧ p.taskId.1 = x.session.taskId
  suspended : x.suspended ≠ [] → x.session.plan.isSome = true
  degradations : ∀ d ∈ x.session.degradations, d ≠ []
  unended : x.session.state.terminal = false → x.session.receipt = none ∧ x.receipts = []
  ended : x.session.state.terminal = true → ∃ r, x.session.receipt = some r ∧ .ofView r.view = x.session.view
  receipts : ∀ r ∈ x.receipts, x.session.receipt = some r
  results : ∀ v ∈ x.results, ∀ w ∈ x.results, v = w
  viewed : x.session.state.terminal = false → ∀ v, x.session.view = .view v → ∀ w ∈ x.results, w = v

theorem Inv.sound {x : Interleaving} (inv : x.Inv) : x.Sound where
  receipt := inv.receipts
  view r hr := by
    have hreceipt := inv.receipts r hr
    cases hterminal : x.session.state.terminal with
    | false =>
      rw [(inv.unended hterminal).2] at hr
      cases hr
    | true =>
      obtain ⟨q, hq, hview⟩ := inv.ended hterminal
      cases hq.symm.trans hreceipt
      exact hview
  results := inv.results

theorem validId_text (t : Text 512) : validId t.1 = true := by
  have h := t.2
  simp only [isText, Bool.and_eq_true] at h
  rw [validId, Bool.and_eq_true]
  exact ⟨h.1.1.2, h.1.2⟩

/-- The identifiers of a session with a suspended call are those of its plan. -/
theorem Inv.validIds {x : Interleaving} (inv : x.Inv) (h : x.suspended ≠ []) :
    validId x.session.sessionId = true ∧ validId x.session.taskId = true := by
  obtain ⟨p, hp⟩ := Option.isSome_iff_exists.mp (inv.suspended h)
  obtain ⟨hsession, htask⟩ := inv.ids p hp
  exact ⟨hsession ▸ validId_text _, htask ▸ validId_text _⟩

/-- A call that keeps the session returns its receipt, if it returns any. -/
theorem Inv.keep {x : Interleaving} (inv : x.Inv) {y : Session × Except Error Receipt} (h : x.session.Keeps y) :
    Inv { x with session := y.1, receipts := withReceipt x.receipts y.2 } := by
  obtain ⟨t, result⟩ := y
  obtain ⟨rfl, hresult⟩ := h
  have hreceipts : ∀ r ∈ withReceipt x.receipts result, x.session.receipt = some r := by
    intro r hr
    cases result with
    | error e => exact inv.receipts r hr
    | ok q =>
      rcases List.mem_append.mp hr with hr | hr
      · exact inv.receipts r hr
      · exact List.mem_singleton.mp hr ▸ hresult q rfl
  refine { inv with unended := fun hterminal => ?_, receipts := hreceipts }
  obtain ⟨hnone, -⟩ := inv.unended hterminal
  refine ⟨hnone, List.eq_nil_iff_forall_not_mem.mpr fun r hr => ?_⟩
  exact absurd (hnone.symm.trans (hreceipts r hr)) nofun

/-- A call that records a receipt returns it. -/
theorem Inv.record {x : Interleaving} (inv : x.Inv) (hopen : x.session.state.terminal = false) {r : Receipt}
    (hview : .ofView r.view = x.session.view) {state : SessionState} (hstate : state.terminal = true) :
    Inv { x with session := { x.session with receipt := some r, state := state }, receipts := x.receipts ++ [r] } := by
  obtain ⟨-, hnil⟩ := inv.unended hopen
  refine ⟨inv.ids, inv.suspended, inv.degradations, fun hterminal => ?_, fun _ => ⟨r, rfl, hview⟩, ?_, inv.results,
    fun hterminal => ?_⟩
  · exact absurd (hstate.symm.trans hterminal) nofun
  · intro q hq
    rw [hnil] at hq
    rw [List.mem_singleton.mp hq]
  · exact absurd (hstate.symm.trans hterminal) nofun

/-! ### Resuming -/

/-- The call returns the value of the engine. -/
theorem Inv.resume_value {x : Interleaving} (inv : x.Inv) (hplan : x.session.plan.isSome = true) {w : ClientValue}
    (hstatus : w.status.isSome = true) (hw : x.Harmless (.ok w)) {d : List Str} (hd : ∀ e ∈ d, e ≠ []) (l : List ContextPlan) :
    Inv { x with
      session := { x.session with view := w, prepared := true, degradations := d }
      suspended := l
      results := withResult x.results (.ok w) } := by
  cases w with
  | none => cases hstatus
  | foreign y =>
    refine ⟨inv.ids, fun _ => hplan, hd, inv.unended, fun hterminal => ?_, inv.receipts, inv.results, fun _ v hv => ?_⟩
    · exact absurd (hw.symm.trans hterminal) nofun
    · cases hv
  | view v =>
    obtain ⟨hterminal, hsame⟩ := hw
    have hall : ∀ u ∈ x.results ++ [v], u = v := by
      intro u hu
      rcases List.mem_append.mp hu with hu | hu
      · exact hsame u hu
      · exact List.mem_singleton.mp hu
    refine ⟨inv.ids, fun _ => hplan, hd, inv.unended, fun hended => ?_, inv.receipts, fun u hu w hw => ?_, fun _ v' hv' u hu => ?_⟩
    · obtain ⟨r, hr, hview⟩ := inv.ended hended
      exact ⟨r, hr, hview.trans (hterminal hended)⟩
    · rw [hall u hu, hall w hw]
    · cases hv'
      exact hall u hu

/-- A prepare call returns the view of the session, if there is one. -/
theorem Inv.cached {x : Interleaving} (inv : x.Inv) (hopen : x.session.state.terminal = false) :
    Inv { x with results := withResult x.results (.ok x.session.view) } := by
  cases hview : x.session.view with
  | none => exact inv
  | foreign y => exact inv
  | view v =>
    have hall : ∀ u ∈ x.results ++ [v], u = v := by
      intro u hu
      rcases List.mem_append.mp hu with hu | hu
      · exact inv.viewed hopen v hview u hu
      · exact List.mem_singleton.mp hu
    refine ⟨inv.ids, inv.suspended, inv.degradations, inv.unended, inv.ended, inv.receipts, fun u hu w hw => ?_, fun _ v' hv' u hu => ?_⟩
    · rw [hall u hu, hall w hw]
    · cases hview.symm.trans hv'
      exact hall u hu

/-- The call returns null, as the session fails open. -/
theorem Inv.resume_open {x : Interleaving} (inv : x.Inv) (hplan : x.session.plan.isSome = true)
    (hterminal : x.session.state.terminal = true → x.session.view = .none) {d : List Str} (hd : ∀ e ∈ d, e ≠ []) (l : List ContextPlan) :
    Inv { x with session := { x.session with view := .none, prepared := true, degradations := d }, suspended := l } := by
  refine ⟨inv.ids, fun _ => hplan, hd, inv.unended, fun hended => ?_, inv.receipts, inv.results, fun _ v hv => ?_⟩
  · obtain ⟨r, hr, hview⟩ := inv.ended hended
    exact ⟨r, hr, hview.trans (hterminal hended)⟩
  · cases hv

/-- The call throws, and the session is aborted or is left as it is, with a view that is no view. -/
theorem Inv.resume_throw {x : Interleaving} (inv : x.Inv) (hplan : x.session.plan.isSome = true)
    (hsession : validId x.session.sessionId = true) (htask : validId x.session.taskId = true)
    {s : Session} {w : ClientValue} {b : Bool} (hs : s = { x.session with view := w, prepared := b }) {e : Thrown}
    (hended : x.session.state.terminal = true → x.session.state = .aborted ∧ x.receipts = [] ∧ ∃ v, s.evidence e = .ofView v)
    (l : List ContextPlan) :
    Inv { x with session := (s.abortEngineFailure e).1, suspended := l, results := withResult x.results (s.abortEngineFailure e).2 } ∧
      ((s.abortEngineFailure e).1.state = x.session.state ∨ (s.abortEngineFailure e).1.state = .aborted) := by
  subst hs
  obtain ⟨d, hd, ⟨v, r, hv, hrv, heq⟩ | ⟨y, err, hy, heq⟩⟩ :=
    Session.abortEngineFailure_cases (s := { x.session with view := w, prepared := b }) e hsession htask inv.degradations
  · rw [heq]
    refine ⟨⟨inv.ids, fun _ => hplan, hd, nofun, fun _ => ⟨r, rfl, ?_⟩, ?_, inv.results, nofun⟩, .inr rfl⟩
    · rw [hrv, hv]
    · intro q hq
      cases hterminal : x.session.state.terminal with
      | false =>
        rw [(inv.unended hterminal).2] at hq
        cases hq
      | true =>
        rw [(hended hterminal).2.1] at hq
        cases hq
  · rw [heq]
    have hopen : x.session.state.terminal = false := by
      by_contra hnot
      obtain ⟨-, -, v, hv⟩ := hended (by simpa using hnot)
      exact ClientValue.ofView_ne_foreign (hv.symm.trans hy)
    refine ⟨⟨inv.ids, fun _ => hplan, hd, inv.unended, fun hterminal => ?_, inv.receipts, inv.results, fun _ v hv => ?_⟩, .inl rfl⟩
    · exact absurd (hopen.symm.trans hterminal) nofun
    · exact absurd (hy.symm.trans hv) nofun

/-- A harmless answer keeps the invariant, and leaves a terminal state as it is. -/
theorem Inv.resume {x : Interleaving} (inv : x.Inv) {i : Nat} (hi : i < x.suspended.length) {answer : Answer} (h : x.Harmless answer) :
    (x.next (.resume i answer)).Inv ∧ x.Ends (.resume i answer) := by
  have hsome : x.suspended ≠ [] := List.ne_nil_of_length_pos (by omega)
  obtain ⟨hsession, htask⟩ := inv.validIds hsome
  have hplan := inv.suspended hsome
  simp only [Ends, next, if_pos hi]
  rcases x.session.resume_cases answer inv.degradations with ⟨w, d, rfl, hstatus, hd, heq⟩ | ⟨e, d, rfl, hfails, hopen, hd, heq⟩ |
    ⟨e, rfl, hnot, heq⟩ | ⟨w, rfl, hstatus, heq⟩
  · rw [heq]
    exact ⟨inv.resume_value hplan hstatus h hd _, fun _ => .inl rfl⟩
  · rw [heq]
    rw [Harmless, if_pos ⟨hfails, hopen⟩] at h
    exact ⟨inv.resume_open hplan h hd _, fun _ => .inl rfl⟩
  · rw [Harmless, if_neg hnot] at h
    rw [heq]
    -- The view that a terminal session has is one of its receipt.
    have hended : x.session.state.terminal = true → x.session.state = .aborted ∧ x.receipts = [] ∧
        ∃ v, x.session.evidence e = .ofView v := by
      intro hterminal
      obtain ⟨hstate, hnil⟩ := h hterminal
      obtain ⟨r, -, hview⟩ := inv.ended hterminal
      refine ⟨hstate, hnil, ?_⟩
      unfold Session.evidence
      cases e.evidence with
      | none => exact ⟨_, hview.symm⟩
      | some v => exact ⟨some v, rfl⟩
    obtain ⟨hinv, hstate⟩ := inv.resume_throw hplan hsession htask (s := x.session) rfl hended (x.suspended.eraseIdx i)
    refine ⟨hinv, fun hterminal => .inl ?_⟩
    rcases hstate with hstate | hstate
    · exact hstate
    · exact hstate.trans (h hterminal).1.symm
  · rw [heq]
    have hended : x.session.state.terminal = true → x.session.state = .aborted ∧ x.receipts = [] ∧
        ∃ v, ({ x.session with view := w, prepared := true } : Session).evidence typeError = .ofView v := by
      intro hterminal
      cases w with
      | none =>
        obtain ⟨hstate, hnil⟩ := h hterminal
        exact ⟨hstate, hnil, none, rfl⟩
      | view v => cases hstatus
      | foreign y => exact absurd (h.symm.trans hterminal) nofun
    obtain ⟨hinv, hstate⟩ := inv.resume_throw hplan hsession htask rfl hended (x.suspended.eraseIdx i)
    refine ⟨hinv, fun hterminal => .inl ?_⟩
    rcases hstate with hstate | hstate
    · exact hstate
    · exact hstate.trans (hended hterminal).1.symm

theorem Inv.next {x : Interleaving} (inv : x.Inv) {e : Event} (hc : Cond (some x) e) : (x.next e).Inv ∧ x.Ends e := by
  cases e with
  | create task sessionId taskId failOpen => exact ⟨inv, fun _ => .inl rfl⟩
  | plan source mode freshness =>
    rcases x.session.planIntent_cases source mode freshness with ⟨err, heq⟩ | ⟨p, -, heq⟩ | ⟨p, hp, heq⟩
    · simp only [Ends, Interleaving.next, heq]
      exact ⟨inv, fun _ => .inl trivial⟩
    · simp only [Ends, Interleaving.next, heq]
      exact ⟨inv, fun _ => .inl trivial⟩
    · simp only [Ends, Interleaving.next, heq]
      refine ⟨⟨?_, fun _ => rfl, inv.degradations, fun _ => inv.unended hp.terminal, nofun, inv.receipts, inv.results,
        fun _ => inv.viewed hp.terminal⟩, fun hterminal => absurd (hterminal.symm.trans hp.terminal) nofun⟩
      intro q hq
      cases hq
      exact ⟨hp.sessionId, hp.taskId⟩
  | begin source mode freshness =>
    rcases x.session.begin_cases source mode freshness with ⟨err, heq⟩ | ⟨hopen, hprepared, heq⟩ | ⟨p, hopen, -, hp, heq⟩
    · simp only [Ends, Interleaving.next, heq]
      exact ⟨inv, fun _ => .inl trivial⟩
    · simp only [Ends, Interleaving.next, heq]
      exact ⟨inv.cached hopen, fun _ => .inl trivial⟩
    · simp only [Ends, Interleaving.next, heq]
      refine ⟨⟨?_, fun _ => rfl, inv.degradations, fun _ => inv.unended hopen, nofun, inv.receipts, inv.results,
        fun _ => inv.viewed hopen⟩, fun hterminal => absurd (hterminal.symm.trans hopen) nofun⟩
      intro q hq
      cases hq
      rcases hp with hp | hp
      · exact inv.ids p hp
      · exact ⟨hp.sessionId, hp.taskId⟩
  | resume i answer =>
    by_cases hi : i < x.suspended.length
    · exact inv.resume hi (hc hi)
    · simp only [Ends, Interleaving.next, if_neg hi]
      exact ⟨inv, fun _ => .inl trivial⟩
  | complete outcome usage =>
    rcases x.session.complete_cases outcome usage with hkeeps | ⟨o, r, hstate, hr, heq⟩
    · exact ⟨inv.keep hkeeps, fun _ => .inl (by rw [Interleaving.next, hkeeps.1])⟩
    · have hopen : x.session.state.terminal = false := by rw [hstate]; rfl
      simp only [Ends, Interleaving.next, heq]
      exact ⟨inv.record hopen (Session.makeReceipt_ok hr).1 rfl, fun hterminal => absurd (hterminal.symm.trans hopen) nofun⟩
  | abort typeName =>
    rcases x.session.abort_cases typeName with hkeeps | ⟨r, hopen, hr, heq⟩
    · exact ⟨inv.keep hkeeps, fun _ => .inl (by rw [Interleaving.next, hkeeps.1])⟩
    · simp only [Ends, Interleaving.next, heq]
      exact ⟨inv.record hopen (Session.makeReceipt_ok hr).1 rfl, fun hterminal => absurd (hterminal.symm.trans hopen) nofun⟩
  | recover view engine => exact ⟨inv, fun _ => .inl rfl⟩
  | close =>
    rcases x.session.close_cases with heq | ⟨hstate, heq⟩
    · simp only [Ends, Interleaving.next, heq]
      exact ⟨inv, fun _ => .inl trivial⟩
    · have hterminal : x.session.state.terminal = true := by
        rcases hstate with h | h <;> rw [h] <;> rfl
      simp only [Ends, Interleaving.next, heq]
      exact ⟨⟨inv.ids, inv.suspended, inv.degradations, nofun, fun _ => inv.ended hterminal, inv.receipts, inv.results, nofun⟩,
        fun _ => .inr ⟨hstate, trivial⟩⟩

theorem Inv.create {task sessionId taskId : Str} {failOpen : Bool} {x : Interleaving}
    (h : Step none (.create task sessionId taskId failOpen) x) : x.Inv := by
  obtain ⟨hcreate, hsuspended, hreceipts, hresults⟩ := h
  simp only [Session.create, bind_eq_ok, ensure_eq_ok, exists_const, pure_eq_ok] at hcreate
  obtain ⟨-, hsession⟩ := hcreate
  constructor <;> simp [← hsession, hsuspended, hreceipts, hresults, SessionState.terminal]

/-- In every interleaving whose resumed calls are harmless a receipt that has been returned stays the session's, with its view, the
    prepare calls return one view, and a terminal state is left only by closing. -/
theorem sound_of_harmless {x : Interleaving} (h : Machine.Reaches Step Cond x) : x.Sound ∧ ∀ e, Cond (some x) e → x.Ends e := by
  have inv : x.Inv := by
    refine h.invariant (fun e x _ hstep => ?_) (fun x e y inv hc hstep => ?_)
    · cases e with
      | create task sessionId taskId failOpen => exact Inv.create hstep
      | _ => cases hstep
    · cases hstep
      exact (inv.next hc).1
  exact ⟨inv.sound, fun e hc => (inv.next hc).2⟩

/-! ### A completion between the two parts of a prepare call -/

/-- A session can be completed while a prepare call is suspended. -/
theorem exists_completed : ∃ (x : Interleaving) (r : Receipt), Machine.Reaches Step Cond x ∧ x.suspended.length = 1 ∧ x.receipts = [r] ∧
    r.view = none ∧ x.session.state = .completed ∧ x.session.degradations = [] := by
  let s : Session := ⟨"task", "session", "task", false, .created, none, .none, none, false, []⟩
  have hcreate : Session.create "task" "session" "task" false = .ok s := rfl
  obtain ⟨p, -, hp⟩ := LeanCtx.Session.Sample.exists_asks false
  have hbegin : s.begin (some (LeanCtx.Session.Sample.source "/p")) "aggressive" "reuse" =
      ({ s with plan := some p, state := .executing }, .asks p) := by
    have hplan : s.planIntent (LeanCtx.Session.Sample.source "/p") "aggressive" "reuse" =
        ({ s with plan := some p, state := .planned }, .ok p) := by
      rw [Session.planIntent, if_neg nofun, show ContextPlan.make s.sessionId s.taskId s.task
        (LeanCtx.Session.Sample.source "/p") "aggressive" "reuse" = .ok p from hp]
    rw [Session.begin, if_neg nofun, if_neg nofun,
      show s.intend (some (LeanCtx.Session.Sample.source "/p")) "aggressive" "reuse" = _ from hplan]
  let t : Session := { s with plan := some p, state := .executing }
  have hnone : t.view = .ofView none := rfl
  have hsession : validId t.sessionId = true := show validId "session" = true by decide
  have htask : validId t.taskId = true := show validId "task" = true by decide
  obtain ⟨r, hr⟩ := Session.exists_makeReceipt hnone hsession htask (show ∀ d ∈ t.degradations, d ≠ [] from nofun) .unknown
  have hcomplete : t.complete "unknown" none = ({ t with receipt := some r, state := .completed }, .ok r) := by
    simp only [Session.complete, show t.state = .executing from rfl,
      show HostOutcome.explicit.find? (fun o => Str.lit o.name = Str.lit "unknown") = some .unknown by decide, hr]
  have hstep₀ : Step none (.create "task" "session" "task" false) ⟨s, [], [], []⟩ := ⟨hcreate, rfl, rfl, rfl⟩
  have hstep₁ : Step (some ⟨s, [], [], []⟩) (.begin (some (LeanCtx.Session.Sample.source "/p")) "aggressive" "reuse") ⟨t, [p], [], []⟩ := by
    simp only [Step, next, hbegin, List.nil_append, t]
  have hstep₂ : Step (some ⟨t, [p], [], []⟩) (.complete "unknown" none)
      ⟨{ t with receipt := some r, state := .completed }, [p], [r], []⟩ := by
    simp only [Step, next, hcomplete, withReceipt, List.nil_append]
  have hx : Machine.Reaches Step Cond ⟨{ t with receipt := some r, state := .completed }, [p], [r], []⟩ :=
    .next (.next (.start (by trivial) hstep₀) (by trivial) hstep₁) (by trivial) hstep₂
  exact ⟨_, r, hx, rfl, rfl, ClientValue.ofView_inj.mp ((Session.makeReceipt_ok hr).1.trans hnone), rfl, rfl⟩

theorem exists_interleaved : ∃ (x : Interleaving) (e : Event), x.receipts ≠ [] ∧ x.suspended.length = 1 ∧ x.Sound ∧ x.Ends e := by
  obtain ⟨x, r, hx, hlength, hreceipts, -⟩ := exists_completed
  obtain ⟨hsound, hends⟩ := sound_of_harmless hx
  exact ⟨x, .close, by rw [hreceipts]; nofun, hlength, hsound, hends .close trivial⟩

/-- A prepare call that is resumed after the completion changes the view of the session. -/
theorem not_interleaved : ¬∀ x : Interleaving, Machine.Reaches Step (fun _ _ => True) x → x.Sound ∧ ∀ e, x.Ends e := by
  intro hall
  obtain ⟨x, r, hx, hlength, hreceipts, hview, -, hnil⟩ := exists_completed
  obtain ⟨v, -⟩ := LeanCtx.Session.Sample.exists_view (LeanCtx.Session.Sample.source "/p")
  have hstep : Step (some x) (.resume 0 (.ok (.view v))) (x.next (.resume 0 (.ok (.view v)))) := rfl
  have hnext : Machine.Reaches Step (fun _ _ => True) (x.next (.resume 0 (.ok (.view v)))) :=
    .next (hx.mono fun _ _ _ => trivial) trivial hstep
  have hsame := (hall _ hnext).1.view r
  simp only [next, if_pos (show 0 < x.suspended.length by omega), hreceipts, hview] at hsame
  rcases x.session.resume_cases (.ok (.view v)) (by rw [hnil]; nofun) with ⟨w, d, hw, -, -, heq⟩ | ⟨e, d, he, -⟩ | ⟨e, he, -⟩ |
    ⟨w, hw, hstatus, -⟩
  · cases hw
    rw [heq] at hsame
    exact absurd (hsame (List.mem_singleton_self r)) nofun
  · cases he
  · cases he
  · cases hw
    cases hstatus

end Interleaving

end LeanCtx.TypeScript
