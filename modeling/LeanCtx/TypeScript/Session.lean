import LeanCtx.Session.Lifecycle

/-! The session of the TypeScript package. Its `prepare` is suspended while the engine is asked, so that it has two parts. Plans and
    views have the checks of the Python package, and are the same values here. -/

namespace LeanCtx.TypeScript

/-! ### Receipts -/

/-- What a host gives as usage: whether it is an object and no array, and its canonical bytes, if it has any. -/
structure Usage where
  mapping : Bool
  canonical : Option Bytes
deriving DecidableEq

/-- `text === "" || Buffer.byteLength(text) > 512`. -/
def validId (s : Str) : Bool := !s.isEmpty && decide (s.utf8Length ≤ 512)

/-- The fields of a receipt. The result and the exception of the host are kept by reference and never read. -/
structure ReceiptFields where
  sessionId : Str
  taskId : Str
  planId : Option Str
  view : Option ContextView
  outcome : HostOutcome
  integrity : Integrity
  degradations : List Str
  usage : Option Usage
  hostExceptionType : Option Str
deriving DecidableEq

/-- What the constructor of a receipt checks. -/
def ReceiptFields.check (x : ReceiptFields) : Except String Unit := do
  ensure (validId x.sessionId = true) "session_id is invalid"
  ensure (validId x.taskId = true) "task_id is invalid"
  ensure (∀ i ∈ x.planId, isPlanId i = true) "plan_id must be a deterministic plan reference"
  ensure (∀ name ∈ x.hostExceptionType, name ≠ [] ∧ name.contains 58 = false ∧ name.contains 10 = false ∧ name.utf8Length ≤ 512)
    "host_exception_type must be a safe type name"
  ensure (∀ d ∈ x.degradations, d ≠ []) "degradations must be non-empty strings"
  ensure (x.integrity = .sealed → ∃ v ∈ x.view, v.verify = true) "sealed receipt requires verified instance evidence"
  ensure (∀ u ∈ x.usage, u.mapping = true) "usage must be a mapping"
  ensure (∀ u ∈ x.usage, u.canonical.isSome = true) "usage must be deterministic JSON data"

/-- A `ContextReceipt`. -/
structure Receipt extends ReceiptFields where
  valid : toReceiptFields.check = .ok ()
deriving DecidableEq

/-! ### Sessions -/

inductive ErrorClass
  | unavailable
  | timeout
  | execution
  | instanceError
  | other
deriving DecidableEq

/-- What an engine throws: the code of an `InstanceError`, and the view of an `InstanceExecutionError`, if it is one. -/
structure Thrown where
  cls : ErrorClass
  code : Str
  view : Option ContextView
deriving DecidableEq

/-- What an engine answers. Of a value that is no view only its attribute `status` is of use, none where reading it throws. -/
abbrev Answer := Except Thrown ClientValue

/-- The error of an attribute that cannot be read. -/
def typeError : Thrown := ⟨.other, [], none⟩

namespace Thrown

/-- The degradation that records an error. -/
def degradation (x : Thrown) : Str := Str.lit "engine:" ++ if x.cls = .other then Str.lit "engine_error" else x.code

theorem degradation_ne_nil (x : Thrown) : x.degradation ≠ [] := by
  rw [degradation]
  simp [Str.lit]

/-- `error instanceof InstanceUnavailable || error instanceof InstanceTimeout`. -/
def failsOpen (x : Thrown) : Bool := decide (x.cls = .unavailable ∨ x.cls = .timeout)

/-- The view of an `InstanceExecutionError`. -/
def evidence (x : Thrown) : Option ContextView := if x.cls = .execution then x.view else none

end Thrown

inductive Error
  | state (message : String)
  | validation (message : String)
  | recoveryUnavailable (message : String)
  | integrity (message : String)
  | thrown (x : Thrown)
deriving DecidableEq

/-- A `ContextSession`. -/
structure Session where
  task : Str
  sessionId : Str
  taskId : Str
  failOpen : Bool
  state : SessionState
  plan : Option ContextPlan
  view : ClientValue
  receipt : Option Receipt
  prepared : Bool
  degradations : List Str
deriving DecidableEq

namespace Session

/-- `new ContextSession(task, { sessionId, taskId, failOpen })`, the identifiers being those that are given or made up. -/
def create (task sessionId taskId : Str) (failOpen : Bool) : Except Error Session := do
  ensure (task ≠ [] ∧ task.utf8Length ≤ maxTaskBytes ∧ task.contains 0 = false) (.validation "task must be a bounded string")
  return ⟨task, sessionId, taskId, failOpen, .created, none, .none, none, false, []⟩

/-- `session.plan(source, { mode, freshness })`. -/
def planIntent (s : Session) (source : ContextSource) (mode freshness : Str) : Session × Except Error ContextPlan :=
  if s.state.terminal = true then (s, .error (.state "planning is not legal after terminal completion"))
  else match ContextPlan.make s.sessionId s.taskId s.task source mode freshness with
    | .error e => (s, .error (.validation e))
    | .ok candidate => match s.plan with
      | some plan =>
        if plan.planId ≠ candidate.planId then (s, .error (.state "a session cannot replace its Product intent"))
        else (s, .ok plan)
      | none => ({ s with plan := some candidate, state := .planned }, .ok candidate)

/-- `session.addDegradation(value)`. -/
def addDegradation (s : Session) (value : Str) : Session :=
  if value ∈ s.degradations then s else { s with degradations := s.degradations ++ [value] }

/-- `session.makeReceipt(…)`. -/
def makeReceipt (s : Session) (outcome : HostOutcome) (usage : Option Usage) (hostExceptionType : Option Str) : Except Error Receipt :=
  let receipt := fun view integrity =>
    let x : ReceiptFields :=
      ⟨s.sessionId, s.taskId, s.plan.map (·.planId), view, outcome, integrity, s.degradations, usage, hostExceptionType⟩
    catching (certify x.check fun h => (⟨x, h⟩ : Receipt)) .validation
  match s.view with
  | .none => receipt none .unsealed
  | .view v => receipt (some v) v.integrityStatus
  | .foreign _ => .error (.validation "receipt view must be ContextView")

/-- `session.abortEngineFailure(error)`, followed by `throw error`. -/
def abortEngineFailure (s : Session) (x : Thrown) : Session × Except Error ClientValue :=
  let s := match x.evidence with
    | some v => { s with view := .view v }
    | none => s
  let s := s.addDegradation x.degradation
  match s.makeReceipt .aborted none none with
  | .error e => (s, .error e)
  | .ok r => ({ s with receipt := some r, state := .aborted }, .error (.thrown x))

/-- The session with its plan, which a prepare call establishes first. -/
def intend (s : Session) (source : Option ContextSource) (mode freshness : Str) : Session × Except Error ContextPlan :=
  match s.plan, source with
  | none, none => (s, .error (.state "prepare requires a source before planning"))
  | some plan, none => (s, .ok plan)
  | _, some source => s.planIntent source mode freshness

/-- What becomes of a prepare call before it is suspended. -/
inductive Begun
  | ends (result : Except Error ClientValue)
  | asks (plan : ContextPlan)

/-- The part of `session.prepare(source, { mode, freshness })` before the engine answers. -/
def begin (s : Session) (source : Option ContextSource) (mode freshness : Str) : Session × Begun :=
  if s.state.terminal = true then (s, .ends (.error (.state "prepare is not legal after terminal completion")))
  else if s.prepared = true then (s, .ends (.ok s.view))
  else match s.intend source mode freshness with
    | (t, .error e) => (t, .ends (.error e))
    | (t, .ok plan) => ({ t with state := .executing }, .asks plan)

/-- The part of `session.prepare` after the engine has answered. -/
def resume (s : Session) : Answer → Session × Except Error ClientValue
  | .ok value =>
    let s := { s with view := value, prepared := true }
    match value.status with
    | none => s.abortEngineFailure typeError
    | some status => (if status = .str "degraded" then s.addDegradation "engine:degraded" else s, .ok value)
  | .error x =>
    if x.failsOpen = true ∧ s.failOpen = true then
      ({ s.addDegradation x.degradation with prepared := true, view := .none }, .ok .none)
    else s.abortEngineFailure x

/-- `canonicalBytes(usage ?? null)`. -/
def canonicalUsage : Option Usage → Option Bytes
  | none => (Str.lit "null").utf8?
  | some u => u.canonical

/-- `session.sameCompletion(receipt, outcome, usage)`. -/
def sameCompletion (r : Receipt) (outcome : Str) (usage : Option Usage) : Bool :=
  outcome = Str.lit r.outcome.name && match canonicalUsage r.usage, canonicalUsage usage with
    | some b, some c => b = c
    | _, _ => false

/-- `session.complete(hostResult, { outcome, usage })`. -/
def complete (s : Session) (outcome : Str) (usage : Option Usage) : Session × Except Error Receipt :=
  match s.state with
  | .completed => match s.receipt with
    | some r => if sameCompletion r outcome usage = true then (s, .ok r) else (s, .error (.state "conflicting repeated complete"))
    | none => (s, .error (.state "conflicting repeated complete"))
  | .aborted | .closed => (s, .error (.state "complete is not legal after abort/close"))
  | .created | .planned => (s, .error (.state "complete requires an executing session"))
  | .executing => match HostOutcome.explicit.find? fun o => Str.lit o.name = outcome with
    | none => (s, .error (.validation "complete outcome must be an explicit non-aborted host outcome"))
    | some outcome => match s.makeReceipt outcome usage none with
      | .error e => (s, .error e)
      | .ok r => ({ s with receipt := some r, state := .completed }, .ok r)

/-- `session.abort(error)` with an error whose constructor has a name. -/
def abort (s : Session) (typeName : Str) : Session × Except Error Receipt :=
  match s.state with
  | .aborted => match s.receipt with
    | some r => (s, .ok r)
    | none => (s, .error (.state "aborted session has no receipt"))
  | .closed => match s.receipt with
    | some r => if r.outcome = .aborted then (s, .ok r) else (s, .error (.state "closed session has no abort receipt"))
    | none => (s, .error (.state "closed session has no abort receipt"))
  | .completed => (s, .error (.state "cannot abort a completed session"))
  | .created | .planned | .executing => match s.makeReceipt .aborted none (some typeName) with
    | .error e => (s, .error e)
    | .ok r => ({ s with receipt := some r, state := .aborted }, .ok r)

/-- `session.close()`. -/
def close (s : Session) : Session × Except Error Unit :=
  match s.state with
  | .closed => (s, .ok ())
  | .completed | .aborted => ({ s with state := .closed }, .ok ())
  | _ => (s, .error (.state "close requires a terminal receipt"))

/-- The view that a recovery is for: the session's own, which may be given, or another one. -/
def selected (s : Session) (view : Option ContextView) : Except Error ContextView :=
  match view, s.view with
  | none, .view v => .ok v
  | none, _ => .error (.recoveryUnavailable "no validated view is available for recovery")
  | some v, .view w =>
    if v = w then .ok v
    else match v.recoveryRef, w.recoveryRef with
      | some r, some r' =>
        if (r, v.sourceRef, v.sourceDigest) = (r', w.sourceRef, w.sourceDigest) then .ok v
        else .error (.recoveryUnavailable "recovery view is not bound to this session")
      | _, _ => .error (.validation "view has no recovery binding")
  | some _, _ => .error (.recoveryUnavailable "recovery view is not bound to this session")

/-- `session.recover(view)`, none being a value of the engine that is no `RecoveredSource`. What follows the answer of the engine
    does not read the session. -/
def recover (s : Session) (view : Option ContextView)
    (engine : Str → Str → Ref 512 → Ref 512 → Digest → Except Thrown (Option RecoveredSource)) :
    Session × Except Error RecoveredSource :=
  (s, do
    ensure (s.state = .executing ∨ s.state = .completed ∨ s.state = .aborted)
      (.state "recover requires an executing or terminal session")
    match s.plan with
    | none => .error (.recoveryUnavailable "no validated view is available for recovery")
    | some plan => do
      let v ← s.selected view
      match v.recoveryRef, plan.source.relativePath with
      | none, _ => .error (.recoveryUnavailable "view has no recovery binding")
      | some _, none => .error (.validation plan.source.relativePathMessage)
      | some r, some path => do
        let result ← catching (engine plan.source.projectRoot path r v.sourceRef v.sourceDigest) .thrown
        match result with
        | none => .error (.integrity "LeanCTX instance client returned an invalid recovery value")
        | some x => do
          ensure (x.recoveryRef = r.1 ∧ x.sourceRef = v.sourceRef.1 ∧ x.sourceDigest = v.sourceDigest.1)
            (.integrity "recovery binding differs from the validated view")
          return x)

end Session

end LeanCtx.TypeScript
