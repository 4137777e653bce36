import LeanCtx.Session.Calls

/-! The session of the Go package, which prepares a view in two ways: with a client, and with a subprocess client and a context that can
    be cancelled. Its sources, plans, views and receipts have the checks of the Python package, and are the same values here. -/

namespace LeanCtx.Go

/-! ### Errors -/

/-- The types of errors that a session tells apart. The last one is that of all other errors, wrappers among them. -/
inductive ErrorType
  | instanceUnavailable
  | instanceTimeout
  | instanceCrashed
  | agentPermission
  | unsupportedCapability
  | instanceProtocol
  | compatibility
  | unsupportedInstance
  | instanceRejected
  | policyAdmission
  | instanceExecution
  | sourceUnavailable
  | artifactIntegrity
  | other
deriving DecidableEq

/-- An error: its type, the code and the view that it carries, and the errors that it unwraps to. -/
inductive GoError
  | mk (type : ErrorType) (code : Str) (view : Option ContextView) (unwrap : List GoError)

namespace GoError

def type : GoError → ErrorType
  | .mk t _ _ _ => t

def code : GoError → Str
  | .mk _ c _ _ => c

def view : GoError → Option ContextView
  | .mk _ _ v _ => v

mutual

/-- `errors.As(err, &target)`, with the error that the target is set to. -/
def as (t : ErrorType) : GoError → Option GoError
  | .mk t' code view unwrap => if t' = t then some (.mk t' code view unwrap) else asAny t unwrap

/-- The first error of a list that has one of the type in its tree. -/
def asAny (t : ErrorType) : List GoError → Option GoError
  | [] => none
  | e :: l => (as t e).or (asAny t l)

end

/-- `errCode(err)`. -/
def errCode (e : GoError) : Str := if e.type = .other then Str.lit "engine_error" else e.code

/-- The code with which a session of `Prepare` fails open. -/
def openCode (e : GoError) : Str :=
  match e.as .instanceUnavailable, e.as .instanceTimeout with
  | some u, _ => u.code
  | none, some t => t.code
  | none, none => Str.lit "engine_error"

/-- `errors.As(err, &unavailable) || errors.As(err, &timeout)`. -/
def failsOpen (e : GoError) : Bool := (e.as .instanceUnavailable).isSome || (e.as .instanceTimeout).isSome

/-- The view with which a session is aborted. -/
def evidence (e : GoError) : Option ContextView :=
  match e.type with
  | .instanceRejected | .policyAdmission | .instanceExecution | .sourceUnavailable | .artifactIntegrity => e.view
  | _ => none

end GoError

/-- The errors of a session. -/
inductive Error
  | state (message : String)
  | validation (message : String)
  | client (e : GoError)

/-! ### Sessions -/

/-- `ContextPlanOptions`. -/
structure PlanOptions where
  mode : Str
  freshness : Str
deriving DecidableEq

/-- A `ContextSession`. -/
structure Session where
  task : Task maxTaskBytes
  sessionId : Text 512
  taskId : Text 512
  failOpen : Bool
  state : SessionState
  plan : Option ContextPlan
  view : Option ContextView
  receipt : Option ContextReceipt
  prepared : Bool
  degradations : List Str
deriving DecidableEq

/-- What the subprocess client gives for a plan. -/
abbrev Client := ContextPlan → Except GoError (Option ContextView)

namespace Session

/-- `NewContextPlan(s.sessionID, s.taskID, s.task, *source, options...)`. -/
def newPlan (s : Session) (source : ContextSource) (options : List PlanOptions) : Except Error ContextPlan :=
  let make := fun mode freshness =>
    catching (ContextPlan.make s.sessionId.1 s.taskId.1 s.task.1 source mode freshness) .validation
  match options with
  | [] => make "aggressive" "reuse"
  | [o] => make (if o.mode = [] then Str.lit "aggressive" else o.mode) (if o.freshness = [] then Str.lit "reuse" else o.freshness)
  | _ => .error (.validation "at most one ContextPlanOptions value is allowed")

/-- `s.planLocked(source, options...)`. -/
def planLocked (s : Session) (source : Option ContextSource) (options : List PlanOptions) : Session × Except Error ContextPlan :=
  match source with
  | none => (s, .error (.validation "source must be ContextSource"))
  | some source =>
    if s.state.terminal = true then (s, .error (.state "planning is not legal after terminal completion"))
    else match s.newPlan source options with
      | .error e => (s, .error e)
      | .ok candidate => match s.plan with
        | some plan =>
          if plan.planId ≠ candidate.planId then (s, .error (.state "a session cannot replace its Product intent"))
          else (s, .ok plan)
        | none => ({ s with plan := some candidate, state := .planned }, .ok candidate)

/-- `s.addDegradation(value)`. -/
def addDegradation (s : Session) (value : Str) : Session :=
  if value ∈ s.degradations then s else { s with degradations := s.degradations ++ [value] }

/-- `s.makeReceipt(outcome, nil, nil, "", nil)`. -/
def makeReceipt (s : Session) (outcome : HostOutcome) : Except Error ContextReceipt :=
  let integrity := match s.view with
    | some v => v.integrityStatus
    | none => .unsealed
  catching (ContextReceipt.make s.sessionId.1 s.taskId.1 (s.plan.map (·.planId)) (.ofView s.view) outcome integrity s.degradations
    none none) .validation

/-- `s.abortInstanceFailure(err)`. -/
def abortInstanceFailure (s : Session) (e : GoError) : Session :=
  let s := match e.evidence with
    | some v => { s with view := some v }
    | none => s
  let s := s.addDegradation (Str.lit "engine:" ++ e.errCode)
  let s := match s.makeReceipt .aborted with
    | .ok r => { s with receipt := some r }
    | .error _ => s
  { s with state := .aborted }

/-- The plan that a prepare call goes on with: the session's, or a new one. -/
def intend (s : Session) (source : Option ContextSource) (options : List PlanOptions) : Session × Except Error ContextPlan :=
  match s.plan, source with
  | none, none => (s, .error (.state "prepare requires a source before planning"))
  | some plan, none => (s, .ok plan)
  | _, some source => s.planLocked (some source) options

/-- What `s.Prepare` does with the outcome of the client. -/
def settle (s : Session) : Except GoError (Option ContextView) → Session × Except Error (Option ContextView)
  | .ok view =>
    let s := { s with view := view, prepared := true }
    (if view.any (·.status = .degraded) = true then s.addDegradation "engine:degraded" else s, .ok view)
  | .error e =>
    if s.failOpen = true ∧ e.failsOpen = true then
      ({ s.addDegradation (Str.lit "engine:" ++ e.openCode) with prepared := true }, .ok none)
    else (s.abortInstanceFailure e, .error (.client e))

/-- `s.Prepare(source, options...)`. -/
def prepare (s : Session) (source : Option ContextSource) (options : List PlanOptions) (client : Client) :
    Session × Except Error (Option ContextView) :=
  if s.state.terminal = true then (s, .error (.state "prepare is not legal after terminal completion"))
  else if s.prepared = true then (s, .ok s.view)
  else match s.intend source options with
    | (t, .error e) => (t, .error e)
    | (t, .ok plan) => { t with state := .executing }.settle (client plan)

/-- What `s.prepareWithContext` does with the outcome of the client. -/
def settleWithContext (s : Session) : Except GoError (Option ContextView) → Session × Except Error (Option ContextView)
  | .ok view => ({ s with view := view, prepared := true }, .ok view)
  | .error e =>
    if s.failOpen = true ∧ e.failsOpen = true then
      ({ s.addDegradation (Str.lit "engine:" ++ e.errCode) with prepared := true }, .ok none)
    else (s.abortInstanceFailure e, .error (.client e))

/-- `s.prepareWithContext(ctx, client, source, options...)`, the context being live. -/
def prepareWithContext (s : Session) (source : Option ContextSource) (options : List PlanOptions) (client : Client) :
    Session × Except Error (Option ContextView) :=
  if s.state.terminal = true then (s, .error (.state "prepare is not legal after terminal completion"))
  else if s.prepared = true then (s, .ok s.view)
  else match s.intend source options with
    | (t, .error e) => (t, .error e)
    | (t, .ok plan) => { t with state := .executing }.settleWithContext (client plan)

/-! ### The two ways beside each other -/

/-- A prepare call comes to ask the client for the view of a plan. -/
structure Asks (s : Session) (source : Option ContextSource) (options : List PlanOptions) (t : Session) (p : ContextPlan) : Prop where
  terminal : s.state.terminal = false
  prepared : s.prepared = false
  intend : s.intend source options = (t, .ok p)

/-- The two ways record the same of an outcome: a degraded view only where that is recorded already, and an error that fails open with
    one code, or with two that are both recorded already. -/
def RecordsAlike (s : Session) : Except GoError (Option ContextView) → Prop
  | .ok view => ∀ v ∈ view, v.status = .degraded → Str.lit "engine:degraded" ∈ s.degradations
  | .error e => s.failOpen = true → e.failsOpen = true → e.openCode = e.errCode ∨
      Str.lit "engine:" ++ e.openCode ∈ s.degradations ∧ Str.lit "engine:" ++ e.errCode ∈ s.degradations

theorem addDegradation_eq (s : Session) (d : Str) :
    s.addDegradation d = { s with degradations := (s.addDegradation d).degradations } := by
  unfold addDegradation
  split <;> rfl

theorem degradations_addDegradation_eq_self {s : Session} {d : Str} :
    (s.addDegradation d).degradations = s.degradations ↔ d ∈ s.degradations := by
  unfold addDegradation
  split
  · next h => exact ⟨fun _ => h, fun _ => rfl⟩
  · next h =>
    refine ⟨fun heq => ?_, fun hmem => absurd hmem h⟩
    have hlength := congrArg List.length heq
    simp at hlength

/-- Two degradations leave the same just in case they are one, or both are there. -/
theorem degradations_addDegradation_inj {s : Session} {d d' : Str} :
    (s.addDegradation d).degradations = (s.addDegradation d').degradations ↔ d = d' ∨ d ∈ s.degradations ∧ d' ∈ s.degradations := by
  constructor
  · intro heq
    by_cases hd : d ∈ s.degradations
    · rw [degradations_addDegradation_eq_self.mpr hd] at heq
      exact .inr ⟨hd, degradations_addDegradation_eq_self.mp heq.symm⟩
    · by_cases hd' : d' ∈ s.degradations
      · rw [degradations_addDegradation_eq_self.mpr hd'] at heq
        exact absurd (degradations_addDegradation_eq_self.mp heq) hd
      · simp only [addDegradation, if_neg hd, if_neg hd', List.append_cancel_left_eq, List.cons.injEq, and_true] at heq
        exact .inl heq
  · rintro (rfl | ⟨hd, hd'⟩)
    · rfl
    · rw [degradations_addDegradation_eq_self.mpr hd, degradations_addDegradation_eq_self.mpr hd']

/-- Taking a plan leaves what a session has recorded. -/
theorem intend_rest {s t : Session} {source : Option ContextSource} {options : List PlanOptions} {result : Except Error ContextPlan}
    (h : s.intend source options = (t, result)) : t.degradations = s.degradations ∧ t.failOpen = s.failOpen := by
  have hlocked : ∀ source, (s.planLocked source options).1.degradations = s.degradations ∧
      (s.planLocked source options).1.failOpen = s.failOpen := by
    intro source
    unfold planLocked
    split
    · exact ⟨rfl, rfl⟩
    · split
      · exact ⟨rfl, rfl⟩
      · split
        · exact ⟨rfl, rfl⟩
        · split
          · split <;> exact ⟨rfl, rfl⟩
          · exact ⟨rfl, rfl⟩
  have hintend : (s.intend source options).1.degradations = s.degradations ∧ (s.intend source options).1.failOpen = s.failOpen := by
    unfold intend
    split
    · exact ⟨rfl, rfl⟩
    · exact ⟨rfl, rfl⟩
    · exact hlocked _
  rwa [h] at hintend

/-- What the two ways make of an outcome is the same just in case they record the same of it. -/
theorem settle_eq_iff (s : Session) (o : Except GoError (Option ContextView)) :
    s.settleWithContext o = s.settle o ↔ s.RecordsAlike o := by
  cases o with
  | ok view =>
    cases view with
    | none => exact ⟨fun _ v hv => absurd hv (Option.not_mem_none v), fun _ => by simp [settle, settleWithContext]⟩
    | some v =>
      let t : Session := { s with view := some v, prepared := true }
      by_cases hdegraded : v.status = .degraded
      · have hset : s.settle (.ok (some v)) = (t.addDegradation "engine:degraded", .ok (some v)) := by
          simp only [settle, Option.any_some, hdegraded, decide_true, if_true, t]
        rw [hset]
        constructor
        · intro heq w hw _
          have ht : t = t.addDegradation "engine:degraded" := congrArg Prod.fst heq
          have hmem := (degradations_addDegradation_eq_self (s := t)).mp (congrArg degradations ht).symm
          exact hmem
        · intro hsame
          have hmem : Str.lit "engine:degraded" ∈ t.degradations := hsame v rfl hdegraded
          rw [addDegradation_eq, degradations_addDegradation_eq_self.mpr hmem]
          rfl
      · have hset : s.settle (.ok (some v)) = (t, .ok (some v)) := by
          simp only [settle, Option.any_some, hdegraded, decide_false, Bool.false_eq_true, if_false, t]
        rw [hset]
        refine ⟨fun _ w hw hstatus => ?_, fun _ => rfl⟩
        cases hw
        exact absurd hstatus hdegraded
  | error e =>
    by_cases hopen : s.failOpen = true ∧ e.failsOpen = true
    · have hsame : s.settleWithContext (.error e) = s.settle (.error e) ↔
          (s.addDegradation (Str.lit "engine:" ++ e.openCode)).degradations =
            (s.addDegradation (Str.lit "engine:" ++ e.errCode)).degradations := by
        simp only [settle, settleWithContext, if_pos hopen]
        constructor
        · intro heq
          exact (congrArg (fun x => x.1.degradations) heq).symm
        · intro heq
          rw [addDegradation_eq, addDegradation_eq s (Str.lit "engine:" ++ e.openCode), heq]
      rw [hsame, degradations_addDegradation_inj, List.append_cancel_left_eq]
      exact ⟨fun h _ _ => h, fun h => h hopen.1 hopen.2⟩
    · refine ⟨fun _ hfail hfails => absurd ⟨hfail, hfails⟩ hopen, fun _ => ?_⟩
      simp only [settle, settleWithContext, if_neg hopen]

/-- The two ways agree just in case they record the same of what the client gives, where it is asked. -/
theorem prepareWithContext_eq_iff (s : Session) (source : Option ContextSource) (options : List PlanOptions) (client : Client) :
    s.prepareWithContext source options client = s.prepare source options client ↔
      ∀ t p, s.Asks source options t p → s.RecordsAlike (client p) := by
  unfold prepareWithContext prepare
  split
  · next hterminal => exact ⟨fun _ t p h => absurd (hterminal.symm.trans h.terminal) nofun, fun _ => rfl⟩
  · next hterminal =>
    split
    · next hprepared => exact ⟨fun _ t p h => absurd (hprepared.symm.trans h.prepared) nofun, fun _ => rfl⟩
    · next hprepared =>
      split
      · next t e hintend =>
        refine ⟨fun _ u p h => ?_, fun _ => rfl⟩
        cases hintend.symm.trans h.intend
      · next t p hintend =>
        obtain ⟨hdegradations, hopen⟩ := intend_rest hintend
        rw [settle_eq_iff]
        -- The session that has the plan has recorded what the session before has.
        have hrecords : RecordsAlike { t with state := .executing } (client p) ↔ s.RecordsAlike (client p) := by
          cases client p <;> simp only [RecordsAlike, hdegradations, hopen]
        rw [hrecords]
        constructor
        · intro h u q hasks
          cases hintend.symm.trans hasks.intend
          exact h
        · intro h
          exact h t p ⟨by simpa using hterminal, by simpa using hprepared, hintend⟩

/-- The two ways differ in the degradations only. -/
theorem prepareWithContext_rest (s : Session) (source : Option ContextSource) (options : List PlanOptions) (client : Client) :
    ∃ d, s.prepareWithContext source options client =
      ({ (s.prepare source options client).1 with degradations := d }, (s.prepare source options client).2) := by
  have hsettle : ∀ (t : Session) o, ∃ d, t.settleWithContext o = ({ (t.settle o).1 with degradations := d }, (t.settle o).2) := by
    intro t o
    cases o with
    | ok view =>
      simp only [settle, settleWithContext]
      split
      · rw [addDegradation_eq]
        exact ⟨t.degradations, rfl⟩
      · exact ⟨t.degradations, rfl⟩
    | error e =>
      simp only [settle, settleWithContext]
      split
      · rw [addDegradation_eq, addDegradation_eq t (Str.lit "engine:" ++ e.openCode)]
        exact ⟨_, rfl⟩
      · exact ⟨_, rfl⟩
  unfold prepareWithContext prepare
  split
  · exact ⟨_, rfl⟩
  · split
    · exact ⟨_, rfl⟩
    · split
      · exact ⟨_, rfl⟩
      · exact hsettle _ _

/-- A session that has just been created. -/
def created : Session :=
  ⟨(LeanCtx.Session.Sample.created false).task, ⟨"session", by decide⟩, ⟨"task", by decide⟩, false, .created, none, none, none, false, []⟩

theorem exists_asks : ∃ t p, created.Asks (some (LeanCtx.Session.Sample.source "/p")) [] t p := by
  obtain ⟨p, -, hp⟩ := LeanCtx.Session.Sample.exists_asks false
  have hnew : created.newPlan (LeanCtx.Session.Sample.source "/p") [] = .ok p := by
    unfold newPlan
    exact catching_eq_ok.mpr hp
  refine ⟨{ created with plan := some p, state := .planned }, p, rfl, rfl, ?_⟩
  have hlocked : created.intend (some (LeanCtx.Session.Sample.source "/p")) [] =
      created.planLocked (some (LeanCtx.Session.Sample.source "/p")) [] := rfl
  rw [hlocked, planLocked, hnew]
  rfl

/-- A degraded view is recorded in one way only. -/
theorem not_prepareWithContext_eq : ¬∀ (s : Session) (source : Option ContextSource) (options : List PlanOptions) (client : Client),
    s.prepareWithContext source options client = s.prepare source options client := by
  intro hall
  obtain ⟨t, p, hasks⟩ := exists_asks
  obtain ⟨v, -, hv⟩ := LeanCtx.Session.Sample.exists_view_status (LeanCtx.Session.Sample.source "/p") .degraded
  have heq := hall created (some (LeanCtx.Session.Sample.source "/p")) [] fun _ => .ok (some v)
  simp only [prepareWithContext, prepare, hasks.terminal, hasks.prepared, hasks.intend, Bool.false_eq_true, if_false] at heq
  have hmem := (settle_eq_iff _ _).mp heq v rfl hv
  rw [(intend_rest hasks.intend).1] at hmem
  exact List.not_mem_nil hmem

end Session

end LeanCtx.Go
