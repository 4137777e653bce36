import LeanCtx.Session.Receipt

/-! The lifecycle of a session: `ContextSession`, whose calls change its state, plan, view and receipt. What the client does
    in a call is an argument of the call. -/

namespace LeanCtx

inductive SessionState
  | created
  | planned
  | executing
  | completed
  | aborted
  | closed
deriving DecidableEq

def SessionState.terminal : SessionState → Bool
  | .completed | .aborted | .closed => true
  | _ => false

/-! ### Exceptions -/

/-- The classes of exceptions that a session tells apart. The last one is that of the exceptions that are no `Exception`. -/
inductive ErrorKind
  | unavailable
  | timeout
  | protocol
  | rejected
  | execution
  | exception
  | base
deriving DecidableEq

/-- An exception that a client raises: its attribute `code` as text, and the view of an `InstanceExecutionError`. -/
structure Raised where
  kind : ErrorKind
  code : Option Str
  view : ClientValue
deriving DecidableEq

/-- What a client does when it is asked for a view. -/
abbrev Outcome := Except Raised ClientValue

/-- The exception of an attribute that is missing. -/
def attributeError : Raised := ⟨.exception, none, .none⟩

namespace Raised

/-- The degradation that records an exception: `engine:` and its code. -/
def degradation (x : Raised) : Str := Str.lit "engine:" ++ x.code.getD (Str.lit "engine_error")

theorem degradation_ne_nil (x : Raised) : x.degradation ≠ [] := by
  rw [degradation]
  simp [Str.lit]

/-- `except (InstanceUnavailable, InstanceTimeout)`. -/
def failsOpen (x : Raised) : Bool := decide (x.kind = .unavailable ∨ x.kind = .timeout)

/-- The view that an exception puts in the place of the session's. -/
def evidence (x : Raised) : ClientValue := if x.kind = .execution then x.view else .none

end Raised

/-- The exceptions of a session. -/
inductive SessionError
  | state (message : String)
  | validation (message : String)
  | recoveryUnavailable (message : String)
  | integrity (message : String)
  | raised (x : Raised)
deriving DecidableEq

/-- What a client gives for a recovery: a source with its bindings, if it is one. -/
structure RecoveredSource where
  text : Str
  sourceRef : Str
  sourceDigest : Str
  recoveryRef : Str
deriving DecidableEq

/-! ### Sessions -/

structure Session where
  task : Task maxTaskBytes
  sessionId : Str
  taskId : Str
  failOpen : Bool
  state : SessionState
  plan : Option ContextPlan
  view : ClientValue
  receipt : Option ContextReceipt
  prepared : Bool
  degradations : List Str
deriving DecidableEq

namespace Session

/-- `ContextSession(task, session_id=…, task_id=…, fail_open=…)`, the identifiers being those that are given or made up. -/
def create (task sessionId taskId : Str) (failOpen : Bool) : Except SessionError Session := do
  let task ← catching (protocolTask task "task" maxTaskBytes) .validation
  return ⟨task, sessionId, taskId, failOpen, .created, none, .none, none, false, []⟩

/-- `session.plan_intent(source, mode=…, freshness=…)`. -/
def planIntent (s : Session) (source : ContextSource) (mode freshness : Str) : Session × Except SessionError ContextPlan :=
  if s.state.terminal = true then (s, .error (.state "planning is not legal after terminal completion"))
  else match ContextPlan.make s.sessionId s.taskId s.task.1 source mode freshness with
    | .error e => (s, .error (.validation e))
    | .ok candidate => match s.plan with
      | some plan =>
        if plan.planId ≠ candidate.planId then (s, .error (.state "a session cannot replace its Product intent"))
        else (s, .ok plan)
      | none => ({ s with plan := some candidate, state := .planned }, .ok candidate)

/-- `session._add_degradation(value)`. -/
def addDegradation (s : Session) (value : Str) : Session :=
  if value ∈ s.degradations then s else { s with degradations := s.degradations ++ [value] }

/-- `session._make_receipt(…)`. -/
def makeReceipt (s : Session) (outcome : HostOutcome) (usage : Option Json) (hostExceptionType : Option Str) :
    Except SessionError ContextReceipt :=
  let receipt := fun integrity => catching (ContextReceipt.make s.sessionId s.taskId (s.plan.map (·.planId)) s.view outcome integrity
    s.degradations usage hostExceptionType) SessionError.validation
  match s.view with
  | .none => receipt .unsealed
  | .view v => receipt v.integrityStatus
  | .foreign x => match x.integrity with
    | none => .error (.raised attributeError)
    | some (.str i) => receipt (if i = Str.lit "sealed" then .sealed else .unsealed)
    | some _ => receipt .unsealed

/-- `session._abort_engine_failure(error)`, followed by `raise`. Where the receipt cannot be made, the error of that is raised
    instead, before the session is aborted. -/
def abortEngineFailure (s : Session) (x : Raised) : Session × Except SessionError ClientValue :=
  let s := if x.evidence ≠ .none then { s with view := x.evidence } else s
  let s := s.addDegradation x.degradation
  match s.makeReceipt .aborted none none with
  | .error e => (s, .error e)
  | .ok receipt => ({ s with receipt := some receipt, state := .aborted }, .error (.raised x))

/-- What `session.prepare` does with the outcome of the client. -/
def settle (s : Session) : Outcome → Session × Except SessionError ClientValue
  | .ok value =>
    let s := { s with view := value, prepared := true }
    match value.status with
    | none => s.abortEngineFailure attributeError
    | some status => (if status = .str "degraded" then s.addDegradation "engine:degraded" else s, .ok value)
  | .error x =>
    if x.kind = .base then (s, .error (.raised x))
    else if x.failsOpen = true ∧ s.failOpen = true then
      ({ s.addDegradation x.degradation with prepared := true, view := .none }, .ok .none)
    else s.abortEngineFailure x

/-- The part of `session.prepare` before the client is asked: the session with its plan. -/
def intend (s : Session) (source : Option ContextSource) (mode freshness : Str) : Session × Except SessionError ContextPlan :=
  match s.plan, source with
  | none, none => (s, .error (.state "prepare requires a source before planning"))
  | some plan, none => (s, .ok plan)
  | _, some source => s.planIntent source mode freshness

/-- `session.prepare(source, mode=…, freshness=…)`. -/
def prepare (s : Session) (source : Option ContextSource) (mode freshness : Str) (client : ContextPlan → Outcome) :
    Session × Except SessionError ClientValue :=
  if s.state.terminal = true then (s, .error (.state "prepare is not legal after terminal completion"))
  else if s.prepared = true then (s, .ok s.view)
  else match s.intend source mode freshness with
    | (t, .error e) => (t, .error e)
    | (t, .ok plan) => { t with state := .executing }.settle (client plan)

/-- `session._same_completion(receipt, outcome, usage)`. -/
def sameCompletion (r : ContextReceipt) (outcome : Str) (usage : Option Json) : Bool :=
  outcome = Str.lit r.outcome.name && match r.usage, usage with
    | none, none => true
    | some u, some v => match Json.canonicalBytes? u, Json.canonicalBytes? v with
      | some b, some c => b = c
      | _, _ => false
    | _, _ => false

/-- `session.complete(host_result, outcome=…, usage=…)`. -/
def complete (s : Session) (outcome : Str) (usage : Option Json) : Session × Except SessionError ContextReceipt :=
  match s.state with
  | .completed => match s.receipt with
    | some r => if sameCompletion r outcome usage = true then (s, .ok r) else (s, .error (.state "conflicting repeated complete"))
    | none => (s, .error (.state "conflicting repeated complete"))
  | .aborted | .closed => (s, .error (.state "complete is not legal after abort/close"))
  | .created | .planned => (s, .error (.state "complete requires an executing session"))
  | .executing => match HostOutcome.explicit.find? fun o => Str.lit o.name = outcome with
    | none => (s, .error (.validation "complete outcome must be an explicit non-aborted host outcome"))
    | some outcome => match s.makeReceipt outcome usage none with
      | .error e => (s, .error e)
      | .ok r => ({ s with receipt := some r, state := .completed }, .ok r)

/-- `session.abort(error)` with an exception of the host, whose type has a name. -/
def abort (s : Session) (typeName : Str) : Session × Except SessionError ContextReceipt :=
  match s.state with
  | .aborted => match s.receipt with
    | some r => (s, .ok r)
    | none => (s, .error (.state "aborted session has no receipt"))
  | .closed => match s.receipt with
    | some r => if r.outcome = .aborted then (s, .ok r) else (s, .error (.state "closed session has no abort receipt"))
    | none => (s, .error (.state "closed session has no abort receipt"))
  | .completed => (s, .error (.state "cannot abort a completed session"))
  | .created | .planned | .executing => match s.makeReceipt .aborted none (some typeName) with
    | .error e => (s, .error e)
    | .ok r => ({ s with receipt := some r, state := .aborted }, .ok r)

/-- `session.close()`. -/
def close (s : Session) : Session × Except SessionError Unit :=
  match s.state with
  | .closed => (s, .ok ())
  | .completed | .aborted => ({ s with state := .closed }, .ok ())
  | _ => (s, .error (.state "close requires a terminal receipt"))

/-! ### Recovery -/

/-- The view that a recovery is for: the session's own, which may be given, or another one. -/
def selected (s : Session) (view : Option ContextView) : Except SessionError ContextView :=
  match view, s.view with
  | none, .view v => .ok v
  | none, _ => .error (.recoveryUnavailable "no validated view is available for recovery")
  | some v, .view w =>
    if v = w then .ok v
    else match v.recoveryRef, w.recoveryRef with
      | some r, some r' =>
        if (r, v.sourceRef, v.sourceDigest) = (r', w.sourceRef, w.sourceDigest) then .ok v
        else .error (.recoveryUnavailable "recovery view is not bound to this session")
      | _, _ => .error (.validation "view has no recovery binding")
  | some _, _ => .error (.recoveryUnavailable "recovery view is not bound to this session")

/-- `session.recover(view)`, none being a value of the client that is no `RecoveredSource`. -/
def recover (s : Session) (view : Option ContextView)
    (client : Str → Str → Ref 512 → Ref 512 → Digest → Except Raised (Option RecoveredSource)) :
    Session × Except SessionError RecoveredSource :=
  (s, do
    ensure (s.state = .executing ∨ s.state = .completed ∨ s.state = .aborted)
      (.state "recover requires an executing or terminal session")
    match s.plan with
    | none => .error (.recoveryUnavailable "no validated view is available for recovery")
    | some plan => do
      let v ← s.selected view
      match v.recoveryRef, plan.source.relativePath with
      | none, _ => .error (.recoveryUnavailable "view has no recovery binding")
      | some _, none => .error (.validation plan.source.relativePathMessage)
      | some r, some path => do
        let result ← catching (client plan.source.projectRoot path r v.sourceRef v.sourceDigest) .raised
        match result with
        | none => .error (.integrity "Instance client returned an invalid recovery value")
        | some x => do
          ensure (x.recoveryRef = r.1 ∧ x.sourceRef = v.sourceRef.1 ∧ x.sourceDigest = v.sourceDigest.1)
            (.integrity "recovery binding differs from the validated view")
          return x)

end Session

end LeanCtx
