import LeanCtx.Gateway.Egress
import LeanCtx.Workspace.Agreement
import LeanCtx.Python.Padded

/-! The report of what a host observed of a request that it sent: the request as the SDK checks it, and the observation that the
    instance is to answer with, read as `gateway.py` reads it. -/

namespace LeanCtx.Gateway
open Json Preview

/-! ### Requests -/

inductive Transport
  | http
  | websocket
deriving DecidableEq

def Transport.name : Transport → String
  | .http => "http"
  | .websocket => "websocket"

def Transport.all : List Transport := [.http, .websocket]

inductive HostResult
  | responseObserved
  | noResponseObserved
deriving DecidableEq

def HostResult.name : HostResult → String
  | .responseObserved => "response_observed"
  | .noResponseObserved => "no_response_observed"

def HostResult.all : List HostResult := [.responseObserved, .noResponseObserved]

inductive HostFailure
  | connect
  | timeout
  | cancelled
  | other
deriving DecidableEq

def HostFailure.name : HostFailure → String
  | .connect => "connect"
  | .timeout => "timeout"
  | .cancelled => "cancelled"
  | .other => "other"

def HostFailure.all : List HostFailure := [.connect, .timeout, .cancelled, .other]

def maxEgressAttempts : Nat := 32

/-- What a host observed of one attempt: a response without a failure, over HTTP with a status, or a failure without a status. -/
structure HostReportRequest where
  admissionReceiptDigest : Digest
  attempt : Nat
  transport : Transport
  result : HostResult
  httpStatus : Option Nat
  failure : Option HostFailure
  attempted : 0 < attempt ∧ attempt ≤ maxEgressAttempts
  statused : ∀ s ∈ httpStatus, 100 ≤ s ∧ s ≤ 599
  observed : result = .responseObserved → failure = none ∧ (transport = .http → httpStatus ≠ none)
  failed : result = .noResponseObserved → httpStatus = none ∧ failure ≠ none

namespace HostReportRequest

theorem attempted_one : 0 < 1 ∧ 1 ≤ maxEgressAttempts := by decide

theorem statused_none : ∀ s ∈ (none : Option Nat), 100 ≤ s ∧ s ≤ 599 := by simp

/-- The status of a request, which is left out where there is none. -/
def status (v : Json) : Except PreviewError {s : Option Nat // ∀ n ∈ s, 100 ≤ n ∧ n ≤ 599} :=
  match v with
  | .null => .ok ⟨none, nofun⟩
  | v => do
    let n ← int v (Str.lit "http_status") 599
    if h : 100 ≤ n ∧ n ≤ 599 then .ok ⟨some n, by simpa using h⟩
    else .error (.validation "http_status must be in 100..599")

/-- `_host_report_request(admission_receipt_digest, attempt, transport, result, http_status, failure)`. -/
def make (admissionReceiptDigest attempt transport result httpStatus failure : Json) : Except PreviewError HostReportRequest := do
  let digest ← Preview.digest admissionReceiptDigest (Str.lit "admission_receipt_digest")
  let attempt ← int attempt (Str.lit "attempt") maxEgressAttempts
  let transport ← enum Transport.all Transport.name transport (Str.lit "transport")
  let result ← enum HostResult.all HostResult.name result (Str.lit "result")
  if attempted : 0 < attempt ∧ attempt ≤ maxEgressAttempts then do
    let status ← status httpStatus
    let failure ← nullable (enum HostFailure.all HostFailure.name · (Str.lit "failure")) failure
    if observed : result = .responseObserved → failure = none ∧ (transport = .http → status.1 ≠ none) then
      if failed : result = .noResponseObserved → status.1 = none ∧ failure ≠ none then
        pure ⟨digest, attempt, transport, result, status.1, failure, attempted, status.2, observed, failed⟩
      else .error (.validation "no_response_observed requires a bounded failure and no HTTP status")
    else .error (.validation "response_observed requires no failure and an HTTP status for HTTP")
  else .error (.validation "attempt must be in 1..32")

def fields (r : HostReportRequest) : List (String × Json) :=
  [("schema_version", .int 1), ("admission_receipt_digest", r.admissionReceiptDigest.json), ("attempt", .int r.attempt),
    ("transport", .str r.transport.name), ("result", .str r.result.name)] ++
    (r.httpStatus.toList.map fun s => ("http_status", .int s)) ++ r.failure.toList.map fun f => ("failure", .str f.name)

/-- The observation that a host reports. -/
def observation (r : HostReportRequest) : Json := mkObj (r.fields ++ [("observer", .str "host_reported")])

end HostReportRequest

/-! ### Reports -/

/-- A persisted observation of a host. -/
structure EgressHostReportResponse where
  observationDigest : Digest
  observation : Json

/-- A field that both objects lack, or that is equal in both. -/
def agrees (v w : Json) (key : String) : Bool :=
  match v.get? key, w.get? key with
  | none, none => true
  | some a, some b => pyEq a b
  | _, _ => false

/-- The status of an observation, if it has one. -/
def checkStatus (v : Json) : Except PreviewError Unit :=
  match v.get "http_status" with
  | .null => .ok ()
  | w => do
    let status ← int w (Str.lit "observation.http_status") 599
    ensure (100 ≤ status) (.bad (Str.lit "observation.http_status must be in 100..599"))

/-- The failure of an observation, if it has one. -/
def checkFailure (v : Json) : Except PreviewError Unit :=
  match v.get? "failure" with
  | none => .ok ()
  | some w => do
    let _ ← enum HostFailure.all HostFailure.name w (Str.lit "observation.failure")
    pure ()

/-- The digest of a report is that of the observation that was to be reported. -/
def checkDigest (d : Digest) (r : HostReportRequest) : Except PreviewError Unit :=
  match r.observation.canonicalBytes? with
  | none => .error (.validation "value is not canonical JSON data")
  | some data => ensure (d = digestOf data) (.bad (Str.lit "observation_digest does not match the reported observation"))

/-- `parse_egress_host_report(value, request)`. -/
def parseEgressHostReport (v : Json) (request : HostReportRequest) : Except PreviewError EgressHostReportResponse := do
  object v (Str.lit "report")
  keys v ["schema_version", "observation_digest", "observation"] [] (Str.lit "report")
  let version ← int (v.get "schema_version") (Str.lit "schema_version") 1
  ensure (version = 1) (.bad (Str.lit "unsupported egress report schema_version"))
  let d ← Preview.digest (v.get "observation_digest") (Str.lit "observation_digest")
  let observation := v.get "observation"
  object observation (Str.lit "observation")
  keys observation ["schema_version", "admission_receipt_digest", "attempt", "transport", "observer", "result"]
    ["http_status", "failure"] (Str.lit "observation")
  let inner ← int (observation.get "schema_version") (Str.lit "observation.schema_version") 1
  ensure (inner = 1) (.bad (Str.lit "unsupported observation schema_version"))
  ensure (observation.get "observer" = .str "host_reported") (.bad (Str.lit "host report response must be HostReported"))
  ["admission_receipt_digest", "attempt", "transport", "result", "http_status", "failure"].forM fun key =>
    ensure (agrees observation (mkObj request.fields) key = true)
      (.bad (Str.lit "report observation does not match request field " ++ Str.lit key))
  checkDigest d request
  checkStatus observation
  checkFailure observation
  pure ⟨d, observation⟩

theorem writable_digest (d : Digest) : Writable d.json := (fits_str d.isBare.2).1

theorem writable_count {n : Nat} (h : n ≤ 599) : Writable (.int n) := by
  refine writable_int ?_
  rw [Int.natAbs_natCast]
  exact ((length_natText_le three_pos).mpr (by omega)).trans (by decide)

/-- Every request has its canonical bytes. -/
theorem HostReportRequest.writable_observation (r : HostReportRequest) : Writable r.observation := by
  have hlit : ∀ s : String, Writable (.str s) := fun s => writable_str (isScalar_lit s)
  refine writable_mkObj fun p hp => ?_
  simp only [fields, List.mem_append, List.mem_cons, List.not_mem_nil, or_false, List.mem_map, Option.mem_toList] at hp
  rcases hp with (((rfl | rfl | rfl | rfl | rfl) | ⟨s, hs, rfl⟩) | ⟨f, -, rfl⟩) | rfl
  · exact writable_int (by decide)
  · exact writable_digest _
  · exact writable_count (r.attempted.2.trans (by decide))
  · exact hlit _
  · exact hlit _
  · exact writable_count (r.statused s hs).2
  · exact hlit _
  · exact hlit _

end LeanCtx.Gateway
