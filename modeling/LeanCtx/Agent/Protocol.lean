import LeanCtx.Json.Codec
import LeanCtx.Workspace.Error

/-! The lines of an agent tools instance: what `_exchange` makes of a response line, and the tool result that
    `_parse_tool_result` makes of its result. -/

namespace LeanCtx.Agent

open Json

/-- `MAX_RESPONSE_BYTES`. -/
def maxResponseBytes : Nat := 16 * 1024 * 1024

/-- The exceptions of an agent session, with the one of Python's own that its decoder raises on a line that is nested too deep. -/
inductive ErrorClass
  | crashed
  | timeout
  | protocol
  | permission
  | unsupportedCapability
  | execution
  | recursion
deriving DecidableEq

structure AgentError where
  cls : ErrorClass
  message : Str
deriving DecidableEq

/-! ### Response lines -/

/-- What a response line is taken for: a result, an error of the instance, or a malformed frame. -/
inductive Response
  | result (value : Json)
  | refused (error : AgentError)
  | malformed (message : String)
deriving DecidableEq

/-- `_raise_engine_error(value)`. -/
def raiseEngineError (value : Json) : Response :=
  if value.hasExactly ["code", "message"] = true then
    match value.get "code", value.get "message" with
    | .str code, .str message =>
      if code = Str.lit "permission_denied" then .refused ⟨.permission, message⟩
      else if code = Str.lit "unsupported_capability" then .refused ⟨.unsupportedCapability, message⟩
      else if code ∈ ["invalid_request", "invalid_state", "unsupported_interface"].map Str.lit then .refused ⟨.protocol, message⟩
      else .refused ⟨.execution, message⟩
    | _, _ => .malformed "Agent Tools error envelope is invalid"
  else .malformed "Agent Tools error envelope is invalid"

/-- What `_exchange` makes of a decoded response. -/
def readEnvelope (requestId : Str) (response : Json) : Response :=
  if response.get "id" = .str requestId then
    match response.get "ok" with
    | .bool ok =>
      if response.hasExactly (if ok then ["id", "ok", "result"] else ["id", "ok", "error"]) = true then
        if ok then
          if (response.get "result").isObj = true then .result (response.get "result")
          else .malformed "Agent Tools response omitted result"
        else raiseEngineError (response.get "error")
      else .malformed "Agent Tools response envelope fields are invalid"
    | _ => .malformed "Agent Tools response envelope is invalid"
  else .malformed "Agent Tools response envelope is invalid"

/-- What `_exchange` makes of a line that is not the end of the stream. -/
def readResponse (requestId : Str) (raw : Bytes) : Response :=
  if raw.length > maxResponseBytes ∨ raw.getLast? ≠ some 10 then .malformed "Agent Tools response exceeds its bound"
  else match strictLoads? raw with
    | none => .malformed "Agent Tools response is invalid JSON"
    | some response => readEnvelope requestId response

theorem raiseEngineError_ne_result (value v : Json) : raiseEngineError value ≠ .result v := by
  unfold raiseEngineError
  split_ifs
  · split
    · split_ifs <;> nofun
    · nofun
  · nofun

/-- A result comes out of an envelope only with the request's own identifier. -/
theorem readEnvelope_result {requestId : Str} {response v : Json} (h : readEnvelope requestId response = .result v) :
    response.get "id" = .str requestId ∧ response.get "ok" = .bool true ∧ response.get "result" = v := by
  unfold readEnvelope at h
  split at h
  · next hid =>
    split at h
    · next ok hok =>
      cases ok with
      | true =>
        simp only [if_true] at h
        split_ifs at h with hkeys hobj
        cases h
        exact ⟨hid, hok, rfl⟩
      | false =>
        simp only [Bool.false_eq_true, if_false] at h
        split_ifs at h
        exact absurd h (raiseEngineError_ne_result _ _)
    · cases h
  · cases h

theorem readResponse_result {requestId : Str} {raw : Bytes} {v : Json} (h : readResponse requestId raw = .result v) :
    ∃ response, strictLoads? raw = some response ∧ response.get "id" = .str requestId ∧ response.get "result" = v := by
  unfold readResponse at h
  split_ifs at h
  split at h
  · cases h
  · next response hload =>
    have hresult := readEnvelope_result h
    exact ⟨response, hload, hresult.1, hresult.2.2⟩

/-! ### Tool results -/

/-- `ToolResult`. -/
structure ToolResult where
  tool : Str
  text : Str
  contentBlocks : List Json
  originalTokens : Nat
  outputTokens : Nat
  savedTokens : Nat
  mode : Option Str
  changed : Bool
  shell : Option Json
  adds_up : outputTokens + savedTokens = originalTokens
deriving DecidableEq

/-- A count of tokens: an integer that is not negative, and no boolean. -/
def tokens (v : Json) : Except String Nat :=
  match v with
  | .int n => if 0 ≤ n then .ok n.toNat else .error "Agent Tools token metrics are invalid"
  | _ => .error "Agent Tools token metrics are invalid"

/-- A text or null. -/
def optionalText (v : Json) : Except String (Option Str) :=
  match v with
  | .null => .ok none
  | .str s => .ok (some s)
  | _ => .error "Agent Tools text or mode is invalid"

/-- An object or null. -/
def optionalObject (v : Json) : Except String (Option Json) :=
  match v with
  | .null => .ok none
  | .obj f => .ok (some (.obj f))
  | _ => .error "Agent Tools status metadata is invalid"

/-- `_parse_tool_result(tool, value)`. -/
def parseToolResult (tool : Str) (value : Json) : Except String ToolResult := do
  ensure (value.hasExactly ["text", "content_blocks", "original_tokens", "output_tokens", "saved_tokens", "mode", "changed", "shell"]
    = true) "Agent Tools result fields are invalid"
  let text ← match value.get "text" with
    | .str s => .ok s
    | _ => .error "Agent Tools text or mode is invalid"
  let mode ← optionalText (value.get "mode")
  let originalTokens ← tokens (value.get "original_tokens")
  let outputTokens ← tokens (value.get "output_tokens")
  let savedTokens ← tokens (value.get "saved_tokens")
  if adds_up : outputTokens + savedTokens = originalTokens then do
    let changed ← match value.get "changed" with
      | .bool b => .ok b
      | _ => .error "Agent Tools status metadata is invalid"
    let shell ← optionalObject (value.get "shell")
    let contentBlocks ← match value.get "content_blocks" with
      | .arr l => if l.all isObj then .ok l else .error "Agent Tools content blocks are invalid"
      | _ => .error "Agent Tools content blocks are invalid"
    .ok ⟨tool, text, contentBlocks, originalTokens, outputTokens, savedTokens, mode, changed, shell, adds_up⟩
  else .error "Agent Tools token metrics are inconsistent"

/-! ### Metrics -/

/-- `AgentMetrics`. -/
structure AgentMetrics where
  toolCalls : Nat
  originalTokens : Nat
  outputTokens : Nat
  savedTokens : Nat
deriving DecidableEq

namespace AgentMetrics

/-- `AgentMetrics()`. -/
def empty : AgentMetrics := ⟨0, 0, 0, 0⟩

/-- The metrics after a call that returned a result. -/
def add (m : AgentMetrics) (r : ToolResult) : AgentMetrics where
  toolCalls := m.toolCalls + 1
  originalTokens := m.originalTokens + r.originalTokens
  outputTokens := m.outputTokens + r.outputTokens
  savedTokens := m.savedTokens + r.savedTokens

/-- The metrics of a session that returned the given results, one after another. -/
def total (l : List ToolResult) : AgentMetrics where
  toolCalls := l.length
  originalTokens := (l.map (·.originalTokens)).sum
  outputTokens := (l.map (·.outputTokens)).sum
  savedTokens := (l.map (·.savedTokens)).sum

theorem total_append (l : List ToolResult) (r : ToolResult) : total (l ++ [r]) = (total l).add r := by
  simp [total, add]

theorem total_perm {l k : List ToolResult} (h : l.Perm k) : total l = total k := by
  simp only [total, h.length_eq, (h.map _).sum_eq]

/-- The tokens of results add up, since those of each result do. -/
theorem total_adds_up (l : List ToolResult) : (total l).outputTokens + (total l).savedTokens = (total l).originalTokens := by
  induction l with
  | nil => rfl
  | cons r l ih =>
    have hr := r.adds_up
    simp only [total, List.map_cons, List.sum_cons] at ih ⊢
    omega

end AgentMetrics
end LeanCtx.Agent
