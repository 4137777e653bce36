import LeanCtx.Python.Padded
import LeanCtx.Workspace.Step

/-! The journal of a workspace: one file for each event, its name the sequence and the digest of the event. A workspace
    is read by replaying its files in the order of their names, and changed by appending one file. -/

namespace LeanCtx

/-! ### Files -/

/-- A file of the journal. -/
structure EventFile where
  name : Str
  data : Bytes
deriving DecidableEq

def maxEventBytes : Nat := 16 * 1024 * 1024

/-- The digits that a sequence has in the name of a file. -/
def sequenceWidth : Nat := 16

/-- `_EVENT_FILE_RE.fullmatch(name)`: the sequence and the digits of the digest. -/
def matchEventName (name : Str) : Option (Nat × Str) :=
  let sequence := name.take sequenceWidth
  let hex := (name.drop (sequenceWidth + 1)).take 64
  if name.length = sequenceWidth + 70 ∧ sequence.all isDigit = true ∧ name[sequenceWidth]? = some 45 ∧
      hex.all Sha256.isHex = true ∧ name.drop (sequenceWidth + 65) = Str.lit ".json" then
    some (decimalValue sequence, hex)
  else none

/-- The name of the file of an event. -/
def eventFileName (e : Event) : Str :=
  paddedText sequenceWidth e.sequence.1 ++ 45 :: (e.eventDigest.hex ++ Str.lit ".json")

def eventKeys : List String :=
  ["schema_version", "workspace_id", "sequence", "event_id", "kind", "payload", "previous_digest", "event_digest"]

/-- The value of an event without its own digest. -/
def unsignedValue (v : Json) : Json :=
  Json.mkObj [("schema_version", v.get "schema_version"), ("workspace_id", v.get "workspace_id"),
    ("sequence", v.get "sequence"), ("event_id", v.get "event_id"), ("kind", v.get "kind"), ("payload", v.get "payload"),
    ("previous_digest", v.get "previous_digest")]

/-- What an event of some sequence may name as its predecessor. -/
def checkPrevious (v : Json) (expected : Positive) : Except Failure Unit :=
  if expected.1 = 1 then ensure (v = .str zeroDigest) .corrupt
  else projecting ((fun _ => ()) <$> digestValue v "previous_digest")

/-- The event that a value holds, where the value is the canonical one of some bytes. -/
def eventOfValue (workspaceId : Uuid) (v : Json) (data : Bytes) (hex : Str) (expected : Positive)
    (previous : Option Digest) : Except Failure Event := do
  ensure (v.hasExactly eventKeys = true) .incompatible
  ensure (v.get "schema_version" = .str Event.schema) .incompatible
  let bytes ← projecting (canonical v)
  ensure (bytes ++ [10] = data) .corrupt
  let workspace ← projecting (uuid (v.get "workspace_id") "workspace_id")
  ensure (workspace = workspaceId) .corrupt
  ensure (v.get "sequence" = expected.json) .incompatible
  let eventId ← projecting (uuid (v.get "event_id") "event_id")
  let kind ← projecting (memberOf EventKind.all EventKind.name .typeError (v.get "kind"))
  ensure ((v.get "payload").isObj = true) .incompatible
  projecting (rejectSensitive (v.get "payload") "payload")
  checkPrevious (v.get "previous_digest") expected
  let eventDigest ← projecting (digestValue (v.get "event_digest") "event_digest")
  ensure (v.get "previous_digest" = .str (previousText previous)) .corrupt
  let digest ← projecting (digest (unsignedValue v))
  ensure (eventDigest = digest ∧ digest.hex = hex) .corrupt
  return ⟨workspaceId, expected, eventId, kind, v.get "payload", previous, eventDigest⟩

/-- `_read_event(path, workspace_id, expected_sequence, previous_digest)`. -/
def readEvent (workspaceId : Uuid) (f : EventFile) (expected : Positive) (previous : Option Digest) :
    Except Failure Event :=
  match matchEventName f.name with
  | none => .error .corrupt
  | some (sequence, hex) => do
    ensure (sequence = expected.1) .corrupt
    ensure (f.data.length ≤ maxEventBytes) .corrupt
    ensure (f.data.getLast? = some 10 ∧ f.data.dropLast.getLast? ≠ some 10) .corrupt
    match Json.strictLoads? f.data.dropLast with
    | none => .error .corrupt
    | some v => eventOfValue workspaceId v f.data hex expected previous

/-! ### Replay -/

def Positive.succ (n : Positive) : Positive := ⟨n.1 + 1, n.1.succ_pos⟩

def Positive.one : Positive := ⟨1, Nat.one_pos⟩

/-- Read and apply the events of some files, the next of which has a given sequence and predecessor. -/
def replay (workspaceId : Uuid) : List EventFile → Positive → Option Digest → Option State → Except Failure (Option State)
  | [], _, _, s => .ok s
  | f :: l, n, previous, s => do
    let e ← readEvent workspaceId f n previous
    let s' ← applyEvent true s e
    replay workspaceId l n.succ (some e.eventDigest) (some s')

/-- Files in the order of their names. -/
def sortFiles (files : List EventFile) : List EventFile := files.insertionSort fun f g => f.name ≤ g.name

/-- `_project(workspace_path, workspace_id)` of a directory that holds the files of events and nothing else. -/
def project (workspaceId : Uuid) (files : List EventFile) : Except Failure State := do
  ensure (∀ f ∈ files, (matchEventName f.name).isSome = true) .corrupt
  let s ← replay workspaceId (sortFiles files) .one none none
  match s with
  | none => .error .corrupt
  | some s => do
    ensure (s.identity.workspaceId = workspaceId) .corrupt
    return s

/-- `_raise_projection(failure)`. -/
def raiseProjection : Failure → Err
  | .notFound => .notFound
  | .incompatible => .incompatible "workspace_incompatible"
  | .io => .io
  | .corrupt => .corrupt

/-- `_read_state()`. -/
def readState (workspaceId : Uuid) (files : List EventFile) : Except Err State :=
  catching (project workspaceId files) raiseProjection

/-! ### Appending -/

/-- An append that has passed the checks before the lock. -/
structure Request where
  kind : EventKind
  payload : Json
  eventId : Uuid
  verified : Bool
  prePublish : Except Err Unit

/-- What an append under the lock comes to: the event is there already, or it is to be published. -/
inductive Prepared
  | retried (s : State) (receipt : WorkspaceReceipt)
  | publish (event : Event) (candidate : State) (file : EventFile)

/-- The stored event is the one that is asked for. -/
def sameRequest (e : Event) (kind : EventKind) (payload : Json) : Except Err Bool :=
  if e.kind = kind then do
    let stored ← canonical e.payload
    let given ← canonical payload
    return stored = given
  else .ok false

/-- The receipt of an event that is there already, if it is the one that is asked for. -/
def retryReceipt (s : State) (receipt : WorkspaceReceipt) (eventId : Uuid) (kind : EventKind) (payload : Json) :
    Except Err WorkspaceReceipt :=
  match s.events.find? (·.eventId = eventId) with
  | none => .error .stopIteration
  | some e => do
    let same ← sameRequest e kind payload
    ensure (same = true) .conflict
    return receipt

/-- The error of an append whose event the state does not accept. -/
def rejection : Failure → Err
  | .incompatible => .policy
  | .corrupt => .conflict
  | _ => .io

/-- `_append(kind, payload, …)` under the lock, up to the point where the file is written. -/
def prepare (workspaceId : Uuid) (files : List EventFile) (r : Request) : Except Err Prepared := do
  let s ← readState workspaceId files
  match s.receipts.get? r.eventId with
  | some previous => do
    let receipt ← retryReceipt s previous r.eventId r.kind r.payload
    return .retried s receipt
  | none => do
    ensure (s.lifecycle = .active) .lifecycle
    ensure (s.events.length + 1 ≤ s.policy.maxEvents.1) .policy
    let event ← Event.record workspaceId ⟨s.events.length + 1, Nat.succ_pos _⟩ r.eventId r.kind r.payload s.lastEventDigest
    let candidate ← catching (applyEvent r.verified (some s) event) rejection
    r.prePublish
    let data ← canonical event.toDict
    ensure (eventFileName event ∉ files.map (·.name)) .conflict
    return .publish event candidate ⟨eventFileName event, data ++ [10]⟩

/-- A successful append: the journal after it, the state that was computed in memory and the receipt. -/
structure Appended where
  files : List EventFile
  state : State
  receipt : WorkspaceReceipt

/-- `_append` under the lock, where the file operations succeed. The receipt of a new event is computed after the event
    has been published. -/
def append (workspaceId : Uuid) (files : List EventFile) (r : Request) : List EventFile × Except Err Appended :=
  match prepare workspaceId files r with
  | .error e => (files, .error e)
  | .ok (.retried s receipt) => (files, .ok ⟨files, s, receipt⟩)
  | .ok (.publish event candidate file) =>
    (files ++ [file], (fun receipt => ⟨files ++ [file], candidate, receipt⟩) <$> receiptForEvent candidate event)

end LeanCtx
