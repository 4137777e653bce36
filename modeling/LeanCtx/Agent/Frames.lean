import LeanCtx.Agent.Calls
import LeanCtx.Json.Dumps

/-! The request lines of an agent session: what `call` writes to the instance for a tool and its arguments, and when that line says what
    the caller passed. -/

namespace LeanCtx.Agent

open Json

def maxRequestBytes : Nat := 1024 * 1024

def readTools : List Str := ["ctx_compose", "ctx_glob", "ctx_read", "ctx_search", "ctx_symbol", "ctx_tree"].map Str.lit

def writeTools : List Str := ["ctx_edit", "ctx_fill", "ctx_patch"].map Str.lit

def execTools : List Str := ["ctx_shell"].map Str.lit

/-- Every tool that a handshake can negotiate. -/
def tools : List Str := readTools ++ writeTools ++ execTools ++ ["ctx_provider"].map Str.lit

/-- What a call reads of its session: whether it is over, what was negotiated, and the last identifier. -/
structure Sender where
  closed : Bool
  exited : Bool
  write : Bool
  capabilities : List Str
  nextId : Nat
  negotiated : ∀ t ∈ capabilities, t ∈ tools

/-- An exception that a call raises before it writes: one of the SDK, or one of Python's own. -/
inductive CallError
  | validation (message : String)
  | session (e : AgentError)
  | python (e : PyError)
deriving DecidableEq

def CallError.isSdk : CallError → Bool
  | python _ => false
  | _ => true

/-- The items of a request. -/
def request (tool : Str) (arguments : List (PyKey × PyValue)) : List (PyKey × PyValue) :=
  [(.str "op", .str "call"), (.str "tool", .str tool), (.str "arguments", .dict arguments)]

/-- `envelope["id"] = request_id`. -/
def identified (r : List (PyKey × PyValue)) (id : Nat) : PyValue := .dict (r ++ [(.str "id", .str (natText id))])

/-- The JSON value of a request line. -/
def envelope (tool : Str) (arguments : Json) (id : Nat) : Json :=
  .obj [("op", .str "call"), ("tool", .str tool), ("arguments", arguments), ("id", .str (natText id))]

namespace Sender

/-- The part of `_exchange(request)` that ends with the write: the bytes that are written. -/
def exchange (s : Sender) (order : NumericOrder) (deep : Bool) (r : List (PyKey × PyValue)) : Except CallError Bytes := do
  ensure (s.closed = false) (.session (Session.gone true))
  ensure (s.exited = false) (.session (Session.gone false))
  let encoded ← catching ((identified r (s.nextId + 1)).encode order deep) .python
  ensure (encoded.length ≤ maxRequestBytes) (.session ⟨.protocol, "Agent Tools request exceeds its bound"⟩)
  return encoded ++ [10]

/-- The part of `call(tool, arguments)` that ends with the write. -/
def call (s : Sender) (order : NumericOrder) (deep : Bool) (tool : Str) (arguments : List (PyKey × PyValue)) : Except CallError Bytes := do
  ensure (tool ≠ []) (.validation "tool must be a non-empty string")
  ensure (tool ∉ execTools) (.session ⟨.permission, "execution tools must use run()"⟩)
  ensure (tool ∈ writeTools → s.write = true) (.session ⟨.permission, "write permission is disabled"⟩)
  ensure (tool ∈ s.capabilities) (.session ⟨.unsupportedCapability, Str.lit "Instance did not negotiate capability: " ++ tool⟩)
  ensure (∀ p ∈ arguments, p.1.str?.isSome = true) (.validation "arguments must be a string-keyed mapping")
  s.exchange order deep (request tool arguments)

/-- A line says what was passed: it is one line of UTF-8 and of strict JSON, which decodes to the request. -/
def Says (frame : Bytes) (tool : Str) (arguments : List (PyKey × PyValue)) (id : Nat) : Prop :=
  ∃ line j, frame = line ++ [10] ∧ 10 ∉ line ∧ (∃ t, Str.utf8? t = some line) ∧ (PyValue.dict arguments).json? = some j ∧
    strictLoads? line = some (envelope tool j id).plain

/-- A call fails with an exception of the SDK before it writes, or what it writes says what was passed. -/
def Faithful (s : Sender) (order : NumericOrder) (deep : Bool) (tool : Str) (arguments : List (PyKey × PyValue)) : Prop :=
  match s.call order deep tool arguments with
  | .error e => e.isSdk = true
  | .ok frame => Says frame tool arguments (s.nextId + 1)

/-- What refuses a call before its request is encoded. -/
def Refused (s : Sender) (tool : Str) (arguments : List (PyKey × PyValue)) : Prop :=
  tool = [] ∨ tool ∈ execTools ∨ (tool ∈ writeTools ∧ s.write = false) ∨ tool ∉ s.capabilities ∨ (∃ p ∈ arguments, p.1.str? = none) ∨
    s.closed = true ∨ s.exited = true

/-- The request has a text that is over the bound. -/
def Oversized (s : Sender) (order : NumericOrder) (tool : Str) (arguments : List (PyKey × PyValue)) : Prop :=
  ∃ b, (identified (request tool arguments) (s.nextId + 1)).encode order false = .ok b ∧ maxRequestBytes < b.length

/-! ### Lines -/

theorem encodePoint_ne_newline {c : Nat} (h : 32 ≤ c) (hc : c < 0x110000) : ∀ b ∈ Str.encodePoint c, b ≠ 10 := by
  intro b hb
  rw [ne_eq, ← UInt8.toNat_inj]
  unfold Str.encodePoint at hb
  split_ifs at hb
  all_goals
    simp only [List.mem_cons, List.not_mem_nil, or_false] at hb
    rcases hb with rfl | rfl | rfl | rfl <;>
      first
      | (rw [Str.toNat_ofNat_lt (by omega)]; change _ ≠ 10; omega)

/-- Canonical bytes are one line. -/
theorem newline_not_mem {v : Json} {b : Bytes} (h : canonicalBytes? v = some b) : 10 ∉ b := by
  obtain ⟨t, ht, hb⟩ := Option.bind_eq_some_iff.mp h
  have hprintable := printable_text _ ht
  unfold Str.utf8? at hb
  split_ifs at hb with hscalar
  cases hb
  intro hmem
  obtain ⟨c, hc, hb⟩ := List.mem_flatMap.mp hmem
  have hlt := List.all_eq_true.mp hscalar c hc
  simp only [Str.isScalar, Bool.or_eq_true, Bool.and_eq_true, decide_eq_true_eq] at hlt
  exact encodePoint_ne_newline (hprintable c hc) (by omega) 10 hb rfl

theorem encode_of_json {order : NumericOrder} {v : PyValue} {j : Json} {b : Bytes} (h : v.json? = some j) :
    v.encode order false = .ok b ↔ canonicalBytes? j = some b := by
  rw [PyValue.encode, if_neg Bool.false_ne_true, PyValue.dumps_of_json v j h, canonicalBytes?]
  cases j.plain.text? with
  | none => exact iff_of_false (by simp [PyValue.given]) (by simp)
  | some t =>
    simp only [PyValue.given, Option.bind_some]
    cases ht : Str.utf8? t with
    | none => simp [ht]
    | some b' => simp [ht]

variable {s : Sender} {order : NumericOrder} {deep : Bool} {tool : Str} {arguments : List (PyKey × PyValue)}

/-- A request is a JSON value as its arguments are. -/
theorem json?_identified {id : Nat} {v : Json} :
    (identified (request tool arguments) id).json? = some v ↔ ∃ j, (PyValue.dict arguments).json? = some j ∧ v = envelope tool j id := by
  have hkeys : ((request tool arguments ++ [(PyKey.str "id", PyValue.str (natText id))]).map Prod.fst).Nodup := by
    change [PyKey.str "op", .str "tool", .str "arguments", .str "id"].Nodup
    decide
  rw [identified, PyValue.json?, if_pos hkeys, request]
  generalize PyValue.dict arguments = a
  cases ha : a.json? with
  | none => simp [PyValue.jsonFields?, PyValue.json?, PyKey.str?, ha]
  | some j => simp [PyValue.jsonFields?, PyValue.json?, PyKey.str?, ha, envelope, eq_comm]

/-- A request of a tool that can be negotiated is JSON exactly if its arguments are. -/
theorem isJson_identified {id : Nat} (htool : tool.all Str.isScalar = true) :
    (identified (request tool arguments) id).IsJson ↔ (PyValue.dict arguments).IsJson := by
  constructor
  · intro h
    cases h with
    | dict _ _ values =>
      refine values (.str "arguments", .dict arguments) ?_
      simp [request]
  · intro h
    refine .dict ?_ ?_ ?_
    · change [PyKey.str "op", .str "tool", .str "arguments", .str "id"].Nodup
      decide
    · simp only [request, List.cons_append, List.nil_append, List.forall_mem_cons, List.not_mem_nil, false_implies, implies_true, and_true]
      exact ⟨⟨_, rfl, by decide⟩, ⟨_, rfl, by decide⟩, ⟨_, rfl, by decide⟩, ⟨_, rfl, by decide⟩⟩
    · simp only [request, List.cons_append, List.nil_append, List.forall_mem_cons, List.not_mem_nil, false_implies, implies_true, and_true]
      exact ⟨.str (by decide), .str htool, h, .str (all_natText id)⟩

theorem isScalar_tool (h : tool ∈ s.capabilities) : tool.all Str.isScalar = true := by
  have hall : ∀ t ∈ tools, t.all Str.isScalar = true := by decide
  exact hall tool (s.negotiated tool h)

/-- The request of arguments that are JSON has a text. -/
theorem exists_encode (order : NumericOrder) (htool : tool.all Str.isScalar = true) (h : (PyValue.dict arguments).IsJson) (id : Nat) :
    ∃ b, (∃ j, (PyValue.dict arguments).json? = some j ∧ canonicalBytes? (envelope tool j id) = some b) ∧
      (identified (request tool arguments) id).encode order false = .ok b := by
  obtain ⟨v, hv, htext⟩ := (PyValue.isJson_iff _).mp ((isJson_identified htool).mpr h)
  obtain ⟨j, hj, rfl⟩ := json?_identified.mp hv
  obtain ⟨b, hb⟩ := writable_iff.mpr htext
  exact ⟨b, ⟨j, hj, hb⟩, (encode_of_json hv).mpr hb⟩

/-- What is written says what was passed exactly if the arguments are JSON. -/
theorem says_iff {b : Bytes} {id : Nat} (htool : tool.all Str.isScalar = true)
    (h : (identified (request tool arguments) id).encode order false = .ok b) :
    Says (b ++ [10]) tool arguments id ↔ (PyValue.dict arguments).IsJson := by
  constructor
  · rintro ⟨line, j, hline, -, -, hj, -⟩
    have hv : (identified (request tool arguments) id).json? = some (envelope tool j id) := json?_identified.mpr ⟨j, hj, rfl⟩
    have hbytes := (encode_of_json hv).mp h
    exact (isJson_identified htool).mp ((PyValue.isJson_iff _).mpr ⟨_, hv, writable_iff.mp ⟨b, hbytes⟩⟩)
  · intro hjson
    obtain ⟨b', ⟨j, hj, hb⟩, hencode⟩ := exists_encode order htool hjson id
    rw [h] at hencode
    cases hencode
    refine ⟨b, j, rfl, newline_not_mem hb, ?_, hj, strictLoads?_canonical hb⟩
    obtain ⟨t, -, ht⟩ := Option.bind_eq_some_iff.mp hb
    exact ⟨t, ht⟩

/-! ### Calls -/

theorem ensure_bind {c : Prop} [Decidable c] {e : CallError} {f : Unit → Except CallError Bytes} :
    (ensure c e >>= f) = if c then f () else .error e := by
  unfold ensure
  split_ifs <;> rfl

/-- A call that is refused raises an exception of the SDK. -/
theorem call_of_refused (h : s.Refused tool arguments) : ∃ e, e.isSdk = true ∧ s.call order deep tool arguments = .error e := by
  simp only [call, exchange, ensure_bind]
  split_ifs with hempty hexec hwrite hnegotiated hstrings hclosed hexited
  all_goals try exact ⟨_, rfl, rfl⟩
  -- where nothing refuses the call, it is not refused
  exfalso
  rcases h with h | h | ⟨h, hno⟩ | h | ⟨p, hp, h⟩ | h | h
  · exact hempty h
  · exact hexec h
  · rw [hwrite h] at hno
    cases hno
  · exact h hnegotiated
  · have hsome := hstrings p hp
    rw [h] at hsome
    cases hsome
  · rw [hclosed] at h
    cases h
  · rw [hexited] at h
    cases h

/-- A call that is not refused writes its request where it has a text within the bound. -/
theorem call_of_not_refused (h : ¬s.Refused tool arguments) :
    s.call order deep tool arguments = (do
      let encoded ← catching ((identified (request tool arguments) (s.nextId + 1)).encode order deep) .python
      ensure (encoded.length ≤ maxRequestBytes) (.session ⟨.protocol, "Agent Tools request exceeds its bound"⟩)
      return encoded ++ [10]) := by
  simp only [Refused, not_or, not_and, Decidable.not_not, not_exists, Bool.not_eq_false, Bool.not_eq_true] at h
  obtain ⟨hempty, hexec, hwrite, hnegotiated, hkeys, hclosed, hexited⟩ := h
  have hstrings : ∀ p ∈ arguments, p.1.str?.isSome = true := fun p hp => Option.isSome_iff_ne_none.mpr (hkeys p hp)
  rw [call, ensure_true hempty, ensure_true hexec, ensure_true hwrite, ensure_true hnegotiated, ensure_true hstrings, exchange,
    ensure_true hclosed, ensure_true hexited]
  rfl

/-- A call does what it should exactly if it is refused, or its arguments are JSON that is not nested too deep for the encoder. The one
    other way is a request that is refused for the length of its text. -/
theorem faithful_iff : s.Faithful order deep tool arguments ↔
    s.Refused tool arguments ∨ deep = false ∧ ((PyValue.dict arguments).IsJson ∨ s.Oversized order tool arguments) := by
  by_cases href : s.Refused tool arguments
  · obtain ⟨e, hsdk, hcall⟩ : ∃ e, e.isSdk = true ∧ s.call order deep tool arguments = .error e := call_of_refused href
    refine iff_of_true ?_ (.inl href)
    rw [Faithful, hcall]
    exact hsdk
  · have htool : tool.all Str.isScalar = true := by
      refine isScalar_tool (s := s) ?_
      by_contra hno
      exact href (.inr (.inr (.inr (.inl hno))))
    rw [or_iff_right href, Faithful, call_of_not_refused href]
    cases deep with
    | true => exact iff_of_false nofun nofun
    | false =>
      cases hencode : (identified (request tool arguments) (s.nextId + 1)).encode order false with
      | error e =>
        -- the request has no text, while the one of arguments that are JSON would have one
        refine iff_of_false nofun ?_
        rintro ⟨-, hjson | ⟨b, hb, -⟩⟩
        · obtain ⟨b, -, hb⟩ := exists_encode order htool hjson (s.nextId + 1)
          rw [hencode] at hb
          cases hb
        · rw [hencode] at hb
          cases hb
      | ok b =>
        by_cases hlength : b.length ≤ maxRequestBytes
        · rw [catching_ok, ok_bind, ensure_true hlength]
          have hnot : ¬s.Oversized order tool arguments := by
            rintro ⟨b', hb', hover⟩
            rw [hencode] at hb'
            cases hb'
            exact absurd hlength (by omega)
          rw [or_iff_left hnot, and_iff_right rfl]
          exact says_iff htool hencode
        · rw [catching_ok, ok_bind, ensure, if_neg hlength]
          exact iff_of_true rfl ⟨rfl, .inr ⟨b, hencode, by omega⟩⟩

/-- A session that has negotiated the tools that read. -/
def reader : Sender := ⟨false, false, false, readTools, 1, fun _ h => List.mem_append_left _ (List.mem_append_left _ (List.mem_append_left _ h))⟩

/-- A number that is not finite is written as a literal that JSON does not have. -/
theorem not_faithful_nan :
    ∃ frame, reader.call ⟨id, List.Perm.refl⟩ false "ctx_read" [(.str "path", .nan)] = .ok frame ∧
      Str.utf8? "\x7b\"arguments\":\x7b\"path\":NaN\x7d,\"id\":\"2\",\"op\":\"call\",\"tool\":\"ctx_read\"\x7d\n" = some frame ∧
      ¬reader.Faithful ⟨id, List.Perm.refl⟩ false "ctx_read" [(.str "path", .nan)] := by
  have hcall : reader.call ⟨id, List.Perm.refl⟩ false "ctx_read" [(.str "path", .nan)] =
      .ok ((Str.utf8? "\x7b\"arguments\":\x7b\"path\":NaN\x7d,\"id\":\"2\",\"op\":\"call\",\"tool\":\"ctx_read\"\x7d\n").getD []) := by
    decide +kernel
  refine ⟨_, hcall, by decide +kernel, ?_⟩
  rw [Faithful, hcall]
  rintro ⟨line, j, -, -, -, hj, -⟩
  cases hj

end Sender

end LeanCtx.Agent
