import LeanCtx.Agent.Protocol
import LeanCtx.Machine.Run

/-! Concurrent calls on one agent session: the steps that they take between one another, with the reader thread, the timeouts, the
    end of the instance's process and `cancel()`. -/

namespace LeanCtx.Agent

open Machine

/-- What goes through `_exchange`: a tool call, or `close()`. -/
inductive Op
  | call (tool : Str)
  | close
deriving DecidableEq

/-- A request of a tool call and the position of the response line that it has taken. -/
structure Exchange where
  tool : Str
  id : Nat
  line : Nat
deriving DecidableEq

/-- Where a call stands. -/
inductive Phase
  | waiting (op : Op)
  | sent (op : Op) (id : Nat)
  | received (e : Exchange) (value : Json)
  | parsed (e : Exchange) (r : ToolResult)
  | reading (e : Exchange) (r : ToolResult) (m : AgentMetrics)
  | returned (e : Exchange) (r : ToolResult)
  | failed (line : Option Nat) (error : AgentError)
  | done (line : Option Nat)
deriving DecidableEq

namespace Phase

/-- The position of the response line that a call has taken. -/
def line? : Phase → Option Nat
  | waiting _ => none
  | sent _ _ => none
  | received e _ => some e.line
  | parsed e _ => some e.line
  | reading e _ _ => some e.line
  | returned e _ => some e.line
  | failed line _ => line
  | done line => line

/-- The identifier of a call's request, as long as its result may be returned. -/
def id? : Phase → Option Nat
  | waiting _ => none
  | sent _ id => some id
  | received e _ => some e.id
  | parsed e _ => some e.id
  | reading e _ _ => some e.id
  | returned e _ => some e.id
  | failed _ _ => none
  | done _ => none

/-- A call that has finished. -/
def finished : Phase → Bool
  | returned _ _ => true
  | failed _ _ => true
  | done _ => true
  | _ => false

/-- The result that a call has returned. -/
def result? : Phase → Option ToolResult
  | returned _ r => some r
  | _ => none

end Phase

/-- A session with its calls. `stream` holds every line that the reader thread has put into the queue, of which the first `taken`
    are taken out again; `holder` is the call that holds `_lock`. Where the contract was first broken, by a line, a timeout or the
    end of the stream, `broken` says how many lines were taken then. -/
structure Session where
  closed : Bool
  exited : Bool
  reading : Bool
  nextId : Nat
  holder : Option Nat
  stream : List Bytes
  taken : Nat
  metrics : AgentMetrics
  calls : List Phase
  broken : Option Nat
deriving DecidableEq

/-- A step of a session. -/
inductive Event
  | start (op : Op)
  | line (raw : Bytes)
  | exit
  | cancel
  | take (i : Nat) (encodes : Bool)
  | breakPipe (i : Nat)
  | expire (i : Nat) (ended : Bool)
  | receive (i : Nat) (deep : Bool)
  | validate (i : Nat)
  | read (i : Nat)
  | store (i : Nat)

namespace Session

/-- `str(self._next_id)`. -/
def requestId (id : Nat) : Str := natText id

/-- The session after its handshake: the first identifier is used, and nothing else has happened. -/
def opened : Session where
  closed := false
  exited := false
  reading := true
  nextId := 1
  holder := none
  stream := []
  taken := 0
  metrics := .empty
  calls := []
  broken := none

/-- The session in which a call stands elsewhere. -/
def put (s : Session) (i : Nat) (p : Phase) : Session := { s with calls := s.calls.set i p }

/-- The session after a break of the contract, of which the first one counts. -/
def breaks (s : Session) : Session := { s with broken := s.broken.or (some s.taken) }

/-- The phase of a call that ended with an error: `close()` swallows it. -/
def ends (op : Op) (line : Option Nat) (e : AgentError) : Phase :=
  match op with
  | .call _ => .failed line e
  | .close => .done line

/-- The exception of a call whose instance is gone: `cancel()` has closed the session, or the instance ended by itself. -/
def gone (closed : Bool) : AgentError :=
  ⟨.crashed, Str.lit (if closed then "AgentContext is closed" else "Agent Tools instance exited")⟩

/-- A step of the reader thread: the end of the stream and a line over its bound are the last that it puts. -/
def putLine (s : Session) (raw : Bytes) : Session :=
  if s.reading = true then
    { s with stream := s.stream ++ [raw], reading := !(raw.isEmpty || decide (raw.length > maxResponseBytes)) }
  else s

/-- A call takes the lock: it ends where the session is closed, the instance has exited or the request cannot be written, else the
    request is written. -/
def take (s : Session) (i : Nat) (encodes : Bool) : Session :=
  match s.calls[i]? with
  | some (.waiting op) =>
    if s.holder = none then
      if s.closed = true then s.put i (ends op none (gone true))
      else if s.exited = true then { s.put i (ends op none (gone false)) with closed := true }
      else if encodes = true then { s.put i (.sent op (s.nextId + 1)) with nextId := s.nextId + 1, holder := some i }
      else
        { s.put i (ends op none ⟨.protocol, Str.lit "Agent Tools request exceeds its bound"⟩) with
          nextId := s.nextId + 1
          closed := decide (op = .close) }
    else s
  | _ => s

/-- The write of a request fails on the pipe. -/
def breakPipe (s : Session) (i : Nat) : Session :=
  match s.calls[i]? with
  | some (.sent op _) => { s.put i (ends op none (gone s.closed)) with closed := true, holder := none }
  | _ => s

/-- The deadline of a request passes. The cleanup that follows may have ended the instance or not by the time the lock is free. -/
def expire (s : Session) (i : Nat) (ended : Bool) : Session :=
  match s.calls[i]? with
  | some (.sent op _) =>
    { (s.put i (ends op none ⟨.timeout, Str.lit "Agent Tools response exceeded its deadline"⟩)).breaks with
      closed := s.closed || decide (op = .close)
      exited := s.exited || ended
      holder := none }
  | _ => s

/-- Whether a line that answers a request breaks the contract: the end of the stream, a malformed frame or error envelope, the
    wrong identifier, or a tool result that is not valid. -/
def badLine (op : Op) (id : Nat) (raw : Bytes) : Bool :=
  raw.isEmpty || match op, readResponse (requestId id) raw with
    | _, .malformed _ => true
    | _, .refused _ => false
    | .call tool, .result v => (parseToolResult tool v).toOption.isNone
    | .close, .result _ => false

/-- The phase of a call that has taken a line, and whether the session is closed by it before the lock is free. -/
def answer (closed : Bool) (op : Op) (id line : Nat) (raw : Bytes) (deep : Bool) : Phase × Bool :=
  match op with
  | .close => (.done (some line), true)
  | .call tool =>
    if raw.isEmpty = true then (.failed (some line) (gone closed), true)
    -- the decoder's `RecursionError` is none of the exceptions that close the session
    else if deep = true then (.failed (some line) ⟨.recursion, Str.lit "maximum recursion depth exceeded"⟩, false)
    else match readResponse (requestId id) raw with
      | .malformed message => (.failed (some line) ⟨.protocol, Str.lit message⟩, true)
      | .refused e => (.failed (some line) e, false)
      | .result v => (.received ⟨tool, id, line⟩ v, false)

/-- A call takes the next line out of the queue and lets the lock go. -/
def receive (s : Session) (i : Nat) (deep : Bool) : Session :=
  match s.calls[i]?, s.stream[s.taken]? with
  | some (.sent op id), some raw =>
    let next : Session :=
      { s.put i (answer s.closed op id s.taken raw deep).1 with
        closed := s.closed || (answer s.closed op id s.taken raw deep).2
        holder := none
        taken := s.taken + 1 }
    if badLine op id raw = true then next.breaks else next
  | _, _ => s

/-- A call that no longer holds the lock validates its result, and closes the session where it is not valid. -/
def validate (s : Session) (i : Nat) : Session :=
  match s.calls[i]? with
  | some (.received e v) =>
    match parseToolResult e.tool v with
    | .ok r => s.put i (.parsed e r)
    | .error message => { s.put i (.failed (some e.line) ⟨.protocol, Str.lit message⟩) with closed := true }
  | _ => s

/-- A call reads the metrics. -/
def readMetrics (s : Session) (i : Nat) : Session :=
  match s.calls[i]? with
  | some (.parsed e r) => s.put i (.reading e r s.metrics)
  | _ => s

/-- A call stores the metrics that it has read with its own result, and returns. -/
def storeMetrics (s : Session) (i : Nat) : Session :=
  match s.calls[i]? with
  | some (.reading e r m) => { s.put i (.returned e r) with metrics := m.add r }
  | _ => s

/-- The session after a step. -/
def next (s : Session) : Event → Session
  | .start op => { s with calls := s.calls ++ [.waiting op] }
  | .line raw => s.putLine raw
  | .exit => { s with exited := true }
  | .cancel => { s with closed := true }
  | .take i encodes => s.take i encodes
  | .breakPipe i => s.breakPipe i
  | .expire i ended => s.expire i ended
  | .receive i deep => s.receive i deep
  | .validate i => s.validate i
  | .read i => s.readMetrics i
  | .store i => s.storeMetrics i

/-- A session starts open and takes its steps. -/
def Step : Option Session → Event → Session → Prop
  | none, _, s => s = opened
  | some s, e, t => s.next e = t

/-! ### What each step does -/

section
variable {s : Session} {i : Nat}

theorem getElem?_put {q : Phase} (h : s.calls[i]? = some q) (p : Phase) (j : Nat) :
    (s.put i p).calls[j]? = if i = j then some p else s.calls[j]? := by
  obtain ⟨hlt, -⟩ := List.getElem?_eq_some_iff.mp h
  rw [put, List.getElem?_set, if_pos hlt]

theorem take_cases (s : Session) (i : Nat) (encodes : Bool) :
    s.take i encodes = s ∨ ∃ op, s.calls[i]? = some (.waiting op) ∧ s.holder = none ∧
      ((∃ e c n, s.take i encodes = { s.put i (ends op none e) with closed := c, nextId := n } ∧
          (s.closed = true ∨ op = .close → c = true) ∧ s.nextId ≤ n) ∨
        s.closed = false ∧ s.exited = false ∧
          s.take i encodes = { s.put i (.sent op (s.nextId + 1)) with nextId := s.nextId + 1, holder := some i }) := by
  unfold take
  split
  · next op hi =>
    by_cases hholder : s.holder = none
    · rw [if_pos hholder]
      refine .inr ⟨op, hi, hholder, ?_⟩
      by_cases hclosed : s.closed = true
      · exact .inl ⟨_, s.closed, s.nextId, by rw [if_pos hclosed]; rfl, fun _ => hclosed, le_refl _⟩
      · rw [if_neg hclosed]
        by_cases hexited : s.exited = true
        · exact .inl ⟨_, true, s.nextId, by rw [if_pos hexited]; rfl, fun _ => rfl, le_refl _⟩
        · rw [if_neg hexited]
          cases encodes with
          | true => exact .inr ⟨eq_false_of_ne_true hclosed, eq_false_of_ne_true hexited, rfl⟩
          | false => exact .inl ⟨_, _, s.nextId + 1, rfl, fun h => decide_eq_true (h.resolve_left hclosed), by omega⟩
    · exact .inl (if_neg hholder)
  · exact .inl rfl

theorem breakPipe_cases (s : Session) (i : Nat) :
    s.breakPipe i = s ∨ ∃ op id, s.calls[i]? = some (.sent op id) ∧
      s.breakPipe i = { s.put i (ends op none (gone s.closed)) with closed := true, holder := none } := by
  unfold breakPipe
  split
  · next op id hi => exact .inr ⟨op, id, hi, rfl⟩
  · exact .inl rfl

theorem expire_cases (s : Session) (i : Nat) (ended : Bool) :
    s.expire i ended = s ∨ ∃ op id e, s.calls[i]? = some (.sent op id) ∧
      s.expire i ended = { (s.put i (ends op none e)).breaks with
        closed := s.closed || decide (op = .close), exited := s.exited || ended, holder := none } := by
  unfold expire
  split
  · next op id hi => exact .inr ⟨op, id, _, hi, rfl⟩
  · exact .inl rfl

theorem receive_cases (s : Session) (i : Nat) (deep : Bool) :
    s.receive i deep = s ∨ ∃ op id raw, s.calls[i]? = some (.sent op id) ∧ s.stream[s.taken]? = some raw ∧
      s.receive i deep = { s.put i (answer s.closed op id s.taken raw deep).1 with
        closed := s.closed || (answer s.closed op id s.taken raw deep).2
        holder := none
        taken := s.taken + 1
        broken := if badLine op id raw = true then s.broken.or (some (s.taken + 1)) else s.broken } := by
  unfold receive
  split
  · next op id raw hi hraw =>
    refine .inr ⟨op, id, raw, hi, hraw, ?_⟩
    by_cases hbad : badLine op id raw = true
    · simp only [if_pos hbad]
      rfl
    · simp only [if_neg hbad]
      rfl
  · exact .inl rfl

theorem validate_cases (s : Session) (i : Nat) :
    s.validate i = s ∨ ∃ e v, s.calls[i]? = some (.received e v) ∧
      ((∃ r, parseToolResult e.tool v = .ok r ∧ s.validate i = s.put i (.parsed e r)) ∨
        ∃ x, s.validate i = { s.put i (.failed (some e.line) x) with closed := true }) := by
  unfold validate
  split
  · next e v hi =>
    refine .inr ⟨e, v, hi, ?_⟩
    cases hparse : parseToolResult e.tool v with
    | ok r => exact .inl ⟨r, rfl, rfl⟩
    | error m => exact .inr ⟨_, rfl⟩
  · exact .inl rfl

theorem readMetrics_cases (s : Session) (i : Nat) :
    s.readMetrics i = s ∨ ∃ e r, s.calls[i]? = some (.parsed e r) ∧ s.readMetrics i = s.put i (.reading e r s.metrics) := by
  unfold readMetrics
  split
  · next e r hi => exact .inr ⟨e, r, hi, rfl⟩
  · exact .inl rfl

theorem storeMetrics_cases (s : Session) (i : Nat) :
    s.storeMetrics i = s ∨ ∃ e r m, s.calls[i]? = some (.reading e r m) ∧
      s.storeMetrics i = { s.put i (.returned e r) with metrics := m.add r } := by
  unfold storeMetrics
  split
  · next e r m hi => exact .inr ⟨e, r, m, hi, rfl⟩
  · exact .inl rfl

/-- The answer to a tool call is its result, not yet validated, or an error. -/
theorem answer_call (closed : Bool) (tool : Str) (id line : Nat) (raw : Bytes) (deep : Bool) :
    (∃ e, (answer closed (.call tool) id line raw deep).1 = .failed (some line) e) ∨
      ∃ v, readResponse (requestId id) raw = .result v ∧ raw.isEmpty = false ∧
        answer closed (.call tool) id line raw deep = (.received ⟨tool, id, line⟩ v, false) := by
  unfold answer
  dsimp only
  by_cases hempty : raw.isEmpty = true
  · rw [if_pos hempty]
    exact .inl ⟨_, rfl⟩
  · rw [if_neg hempty]
    by_cases hdeep : deep = true
    · rw [if_pos hdeep]
      exact .inl ⟨_, rfl⟩
    · rw [if_neg hdeep]
      cases readResponse (requestId id) raw with
      | malformed m => exact .inl ⟨_, rfl⟩
      | refused e => exact .inl ⟨_, rfl⟩
      | result v => exact .inr ⟨v, rfl, eq_false_of_ne_true hempty, rfl⟩

end

/-- What is reached by the steps of a list that all satisfy a condition. -/
theorem reaches_after {cond : Option Session → Event → Prop} {s : Session} (hs : Reaches Step cond s) {l : List Event}
    (hl : Allowed next cond s l) : Reaches Step cond (after next s l) :=
  hs.after (fun _ _ => rfl) hl

end Session

namespace Sample

open Json

/-- A result of three tokens, one of them saved. -/
def result : Json :=
  mkObj [("text", .str "x"), ("content_blocks", .arr []), ("original_tokens", .int 3), ("output_tokens", .int 2),
    ("saved_tokens", .int 1), ("mode", .null), ("changed", .bool false), ("shell", .null)]

/-- The line that answers a request with a result. -/
def frame (id : Nat) (result : Json) : Bytes :=
  ((canonicalBytes? (mkObj [("id", .str (Session.requestId id)), ("ok", .bool true), ("result", result)])).getD []) ++ [10]

def tool : Str := Str.lit "ctx_read"

/-- A call that takes the lock, receives a result and validates it. -/
def exchange (i : Nat) : List Event :=
  [.start (.call tool), .take i true, .line (frame (i + 2) result), .receive i false, .validate i]

end Sample

end LeanCtx.Agent
