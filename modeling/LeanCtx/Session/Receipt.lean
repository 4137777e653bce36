import LeanCtx.Session.Protocol

/-! The receipt of a session: what the host learns of its outcome and, where the view verifies, the sealed evidence of it. -/

namespace LeanCtx

inductive HostOutcome
  | unknown
  | accepted
  | rejected
  | completed
  | failed
  | aborted
deriving DecidableEq

namespace HostOutcome

def name : HostOutcome → String
  | .unknown => "unknown"
  | .accepted => "accepted"
  | .rejected => "rejected"
  | .completed => "completed"
  | .failed => "failed"
  | .aborted => "aborted"

/-- The outcomes with which a host completes a session. -/
def explicit : List HostOutcome := [.unknown, .accepted, .rejected, .completed, .failed]

end HostOutcome

inductive Integrity
  | sealed
  | unsealed
deriving DecidableEq

/-- `view.integrity_status`. -/
def ContextView.integrityStatus (v : ContextView) : Integrity := if v.verify = true then .sealed else .unsealed

/-! ### What a client returns -/

/-- An object that is no view: its attribute `status`, and the value of its attribute `integrity_status`, if they can be read. -/
structure Foreign where
  status : Option Json
  integrity : Option Json
deriving DecidableEq

/-- A value that a client returns. -/
inductive ClientValue
  | none
  | view (v : ContextView)
  | foreign (x : Foreign)
deriving DecidableEq

namespace ClientValue

/-- A view or none, as a value. -/
def ofView : Option ContextView → ClientValue
  | Option.none => none
  | some v => view v

theorem ofView_inj {v w : Option ContextView} : ofView v = ofView w ↔ v = w := by
  cases v <;> cases w <;> simp [ofView]

theorem eq_ofView_or_foreign (w : ClientValue) : (∃ v, w = ofView v) ∨ ∃ x, w = foreign x := by
  cases w with
  | none => exact .inl ⟨Option.none, rfl⟩
  | view v => exact .inl ⟨some v, rfl⟩
  | foreign x => exact .inr ⟨x, rfl⟩

theorem ofView_ne_foreign {v : Option ContextView} {x : Foreign} : ofView v ≠ foreign x := by
  cases v <;> nofun

/-- The attribute `status`, if it can be read. -/
def status : ClientValue → Option Json
  | .none => Option.none
  | .view v => some (.str v.status.name)
  | .foreign x => x.status

end ClientValue

/-! ### Receipts -/

/-- The fields of a receipt. The result and the exception of the host are kept by reference and never read. -/
structure ReceiptFields where
  sessionId : Text 512
  taskId : Text 512
  planId : Option Str
  view : Option ContextView
  outcome : HostOutcome
  integrity : Integrity
  degradations : List Str
  usage : Option Json
  hostExceptionType : Option Str
deriving DecidableEq

/-- `plan_id` is a deterministic plan reference. -/
def isPlanId (s : Str) : Bool := isRef 512 s && decide (Str.lit "plan:sha256:" <+: s)

namespace ReceiptFields

/-- What the constructor checks of the type of an exception of the host. -/
def checkType (x : ReceiptFields) : Except String Unit :=
  match x.hostExceptionType with
  | none => .ok ()
  | some name => do
    let _ ← protocolText name "host_exception_type" 512
    ensure (x.outcome = .aborted → name.contains 58 = false) "host_exception_type must be a safe type name"

/-- `_safe_usage(usage)`. -/
def checkUsage (x : ReceiptFields) : Except String Unit :=
  match x.usage with
  | none => .ok ()
  | some usage => do
    ensure (usage.isObj = true) "usage must be a mapping"
    ensure ((Json.canonicalBytes? usage).isSome = true) "usage must be deterministic JSON data"

/-- What the constructor of a receipt checks. -/
def check (x : ReceiptFields) : Except String Unit := do
  ensure (∀ i ∈ x.planId, isPlanId i = true) "plan_id must be a deterministic plan reference"
  x.checkType
  ensure (∀ d ∈ x.degradations, d ≠ []) "degradations must be non-empty strings"
  x.checkUsage
  ensure (x.integrity = .sealed → ∃ v ∈ x.view, v.verify = true) "sealed receipt requires verified instance evidence"

end ReceiptFields

/-- A receipt: a `ContextReceipt`. -/
structure ContextReceipt extends ReceiptFields where
  valid : toReceiptFields.check = .ok ()
deriving DecidableEq

namespace ContextReceipt

/-- `ContextReceipt(…)`. The view may be any value of a client. -/
def make (sessionId taskId : Str) (planId : Option Str) (view : ClientValue) (outcome : HostOutcome) (integrity : Integrity)
    (degradations : List Str) (usage : Option Json) (hostExceptionType : Option Str) : Except String ContextReceipt := do
  let sessionId ← protocolText sessionId "session_id" 512
  let taskId ← protocolText taskId "task_id" 512
  match view with
  | .foreign _ => .error "receipt view must be ContextView"
  | .none =>
    let x : ReceiptFields := ⟨sessionId, taskId, planId, none, outcome, integrity, degradations, usage, hostExceptionType⟩
    certify x.check fun h => ⟨x, h⟩
  | .view v =>
    let x : ReceiptFields := ⟨sessionId, taskId, planId, some v, outcome, integrity, degradations, usage, hostExceptionType⟩
    certify x.check fun h => ⟨x, h⟩

theorem make_eq_ok {sessionId taskId : Str} {planId : Option Str} {view : ClientValue} {outcome : HostOutcome}
    {integrity : Integrity} {degradations : List Str} {usage : Option Json} {hostExceptionType : Option Str} {r : ContextReceipt} :
    make sessionId taskId planId view outcome integrity degradations usage hostExceptionType = .ok r ↔
      r.sessionId.1 = sessionId ∧ r.taskId.1 = taskId ∧ r.planId = planId ∧ ClientValue.ofView r.view = view ∧ r.outcome = outcome ∧
        r.integrity = integrity ∧ r.degradations = degradations ∧ r.usage = usage ∧ r.hostExceptionType = hostExceptionType := by
  simp only [make, bind_eq_ok, protocolText_eq_ok]
  constructor
  · rintro ⟨a, rfl, b, rfl, h⟩
    cases view with
    | foreign x => cases h
    | none =>
      obtain ⟨_, rfl⟩ := certify_eq_ok.mp h
      exact ⟨rfl, rfl, rfl, rfl, rfl, rfl, rfl, rfl, rfl⟩
    | view v =>
      obtain ⟨_, rfl⟩ := certify_eq_ok.mp h
      exact ⟨rfl, rfl, rfl, rfl, rfl, rfl, rfl, rfl, rfl⟩
  · rintro ⟨rfl, rfl, rfl, rfl, rfl, rfl, rfl, rfl, rfl⟩
    refine ⟨r.sessionId, rfl, r.taskId, rfl, ?_⟩
    obtain ⟨⟨sessionId, taskId, planId, view, _, _, _, _, _⟩, hvalid⟩ := r
    cases view with
    | none => exact certify_eq_ok.mpr ⟨hvalid, rfl⟩
    | some v => exact certify_eq_ok.mpr ⟨hvalid, rfl⟩

/-- A sealed receipt carries a view that verifies. -/
theorem verify_of_sealed {r : ContextReceipt} (h : r.integrity = .sealed) : ∃ v, r.view = some v ∧ v.verify = true := by
  have hvalid := r.valid
  simp only [ReceiptFields.check, bind_eq_ok, ensure_eq_ok, exists_const] at hvalid
  obtain ⟨-, _, -, -, _, -, hsealed⟩ := hvalid
  exact hsealed h

end ContextReceipt

/-- The identifier of a plan is one that a receipt accepts. -/
theorem ContextPlan.isPlanId_planId (p : ContextPlan) : isPlanId p.planId = true := by
  have h := p.identified
  unfold PlanFields.planId at h
  split at h
  · cases h
  · split at h
    · cases h
    · next data _ =>
      obtain heq := Except.ok.inj h
      rw [← heq, isPlanId, Bool.and_eq_true, decide_eq_true_eq]
      refine ⟨isRef_of_ascii (fun c hc => ?_) (by simp [Str.lit]) ?_, List.prefix_append _ _⟩
      · rcases List.mem_append.mp hc with hc | hc
        · have hlit : ∀ c ∈ Str.lit "plan:sha256:", 32 ≤ c ∧ c ≤ 126 := by decide
          exact hlit c hc
        · have hhex := List.all_eq_true.mp (Sha256.isHex_hexdigest data) c hc
          simp only [Sha256.isHex, Bool.or_eq_true, Bool.and_eq_true, decide_eq_true_eq] at hhex
          omega
      · rw [List.length_append, Sha256.length_hexdigest]
        decide

end LeanCtx
