import LeanCtx.Agent.Policy
import LeanCtx.Machine.Run

/-! The public calls of an agent context, and what they can make it write: whatever is called, in whatever order, a request names a
    tool that was negotiated, and one that executes comes from `run` within the execution policy. -/

namespace LeanCtx.Agent
open Json

/-- The file system as a call finds it: what `os.path.realpath` makes of a path, none for an `OSError` or a `ValueError`, and
    `os.path.isdir`. A real path goes from the root by names. -/
structure Files where
  realpath : Str → Option Str
  isDir : Str → Bool
  resolved : ∀ p q, realpath p = some q → ∃ l, (∀ c ∈ l, Path.IsName c) ∧ q = Path.absolute l

/-- What stands outside of a context when it is called: the order of keys that are numbers, whether the encoder gives up, whether the
    instance has exited and whether the exchange ends the session, and the files. A value of another kind is what it counts as, the
    items of a mapping, the items of a sequence and the path that it is, where it is one. -/
structure World where
  order : NumericOrder
  deep : Bool
  exited : Bool
  closes : Bool
  truthy : Bool
  mapping : Option (List (PyKey × PyValue))
  sequence : Except Refusal (List PyValue)
  path : Option Str
  files : Files

/-- A public call. The parameters that are left out have their defaults. -/
inductive Call
  | call (tool arguments : PyValue)
  | read (path mode fresh : PyValue)
  | search (pattern path maxResults included : PyValue)
  | glob (pattern path maxResults : PyValue)
  | tree (path depth showHidden : PyValue)
  | compose (task path : PyValue)
  | symbol (name : PyValue)
  | patch (path op : PyValue) (arguments : List (Str × PyValue))
  | createFile (path text : PyValue)
  | replaceUnique (path oldText newText : PyValue)
  | run (argv cwd env timeout : PyValue)

/-- A request that is written: its tool, its arguments, its identifier and its line. -/
structure Frame where
  tool : Str
  arguments : List (PyKey × PyValue)
  id : Nat
  line : Bytes

/-- What became of a call: the line that it wrote, or what it raised before it wrote. -/
structure Entry where
  world : World
  call : Call
  outcome : Except Refusal Frame

def Entry.bytes (e : Entry) : Bytes :=
  match e.outcome with
  | .ok f => f.line
  | .error _ => []

/-- An agent context. Beside its state it keeps what was written to the instance, and what became of the calls so far. -/
structure Context where
  projectRoot : Str
  task : Str
  permissions : AgentPermissions
  policy : ExecutionPolicy
  gitlab : Bool
  capabilities : List Str
  closed : Bool
  nextId : Nat
  hello : Bytes
  stream : Bytes
  log : List Entry
  negotiated : ∀ t, t ∈ capabilities ↔ t ∈ expected permissions gitlab
  executable : permissions.execute = true → policy.allowedExecutables ≠ []

/-! ### Python values -/

/-- `bool(value)`. -/
def World.isTrue (w : World) : PyValue → Bool
  | .null => false
  | .bool b => b
  | .int n => n != 0
  | .float (.finite _ m _ _) => m != 0
  | .float (.inf _) => true
  | .nan => true
  | .str s => s != []
  | .list l => !l.isEmpty
  | .tuple l => !l.isEmpty
  | .dict e => !e.isEmpty
  | .other => w.truthy

/-- `d[key] = value`. -/
def setItem (d : List (PyKey × PyValue)) (key : PyKey) (value : PyValue) : List (PyKey × PyValue) :=
  if d.any (·.1 = key) then d.map fun p => if p.1 = key then (key, value) else p else d ++ [(key, value)]

/-- `d.update(e)`. -/
def update (d e : List (PyKey × PyValue)) : List (PyKey × PyValue) := e.foldl (fun d p => setItem d p.1 p.2) d

/-- The object that a key is. -/
def keyValue : PyKey → PyValue
  | .str s => .str s
  | .null => .null
  | .bool b => .bool b
  | .int n => .int n
  | .float x => .float x
  | .nan => .nan
  | .other => .other

/-- A value as a key: a list and a dictionary are not hashable. -/
def asKey : PyValue → Except Refusal PyKey
  | .str s => .ok (.str s)
  | .null => .ok .null
  | .bool b => .ok (.bool b)
  | .int n => .ok (.int n)
  | .float x => .ok (.float x)
  | .nan => .ok .nan
  | .tuple _ => .ok .other
  | .other => .ok .other
  | .list _ => .error .typeError
  | .dict _ => .error .typeError

/-- An element of a sequence that `dict` reads as an item. -/
def asItem : PyValue → Except Refusal (PyKey × PyValue)
  | .list [k, v] => do return (← asKey k, v)
  | .tuple [k, v] => do return (← asKey k, v)
  | .str [c, d] => .ok (.str [c], .str [d])
  | .dict [(k, _), (v, _)] => .ok (k, keyValue v)
  | .list _ | .tuple _ | .str _ | .dict _ => .error (.guard (.python .valueError))
  | _ => .error .typeError

/-- `dict(value)`. -/
def World.asDict (w : World) : PyValue → Except Refusal (List (PyKey × PyValue))
  | .dict e => .ok e
  | .other => match w.mapping with
    | some e => .ok e
    | none => .error .typeError
  | .list l => do return update [] (← l.mapM asItem)
  | .tuple l => do return update [] (← l.mapM asItem)
  | .str [] => .ok []
  | .str _ => .error (.guard (.python .valueError))
  | _ => .error .typeError

/-- The path that a value is. -/
def World.path? (w : World) : PyValue → Option Str
  | .str s => some s
  | .other => w.path
  | _ => none

/-- The items of a mapping. -/
def World.items? (w : World) : PyValue → Option (List (PyKey × PyValue))
  | .dict e => some e
  | .other => w.mapping
  | _ => none

namespace Context
variable (c : Context) (w : World)

/-! ### Requests -/

/-- What an exchange reads of the context. -/
def sender : Sender where
  closed := c.closed
  exited := w.exited
  write := c.permissions.write
  capabilities := c.capabilities
  nextId := c.nextId
  negotiated t ht := expected_subset _ _ ((c.negotiated t).mp ht)

/-- The part of `_call_tool(tool, arguments)` that ends with the write. -/
def callTool (tool : Str) (arguments : PyValue) : Except Refusal Frame := do
  ensure (tool ∈ c.capabilities) (.guard (.session ⟨.unsupportedCapability, Str.lit "Instance did not negotiate capability: " ++ tool⟩))
  match w.items? arguments with
  | none => throw (.validation "arguments must be a string-keyed mapping")
  | some e =>
    ensure (∀ p ∈ e, p.1.str?.isSome = true) (.validation "arguments must be a string-keyed mapping")
    let line ← catching ((c.sender w).exchange w.order w.deep (request tool e)) .exchange
    return ⟨tool, e, c.nextId + 1, line⟩

/-- `call(tool, arguments)`. -/
def call (tool arguments : PyValue) : Except Refusal Frame :=
  match tool with
  | .str tool => do
    ensure (tool ≠ []) (.validation "tool must be a non-empty string")
    ensure (tool ∉ execTools) (.permission "execution tools must use run()")
    ensure (tool ∈ writeTools → c.permissions.write = true) (.permission "write permission is disabled")
    c.callTool w tool (if w.isTrue arguments then arguments else .dict [])
  | _ => throw (.validation "tool must be a non-empty string")

/-- `patch(path, op, **arguments)`. -/
def patch (path op : PyValue) (arguments : List (Str × PyValue)) : Except Refusal Frame := do
  ensure (c.permissions.write = true) (.permission "write permission is disabled")
  c.callTool w "ctx_patch" (.dict (update (arguments.map fun p => (.str p.1, p.2)) [(.str "path", path), (.str "op", op)]))

/-! ### Execution -/

/-- The strings that `argv` consists of. -/
def checkItems (items : List PyValue) : Except Refusal (List Str) :=
  match texts? items with
  | some items =>
    if items ≠ [] ∧ ∀ s ∈ items, s ≠ [] then .ok items else .error (.validation "argv must be a non-empty sequence of strings")
  | none => .error (.validation "argv must be a non-empty sequence of strings")

/-- The check of `argv`, and the list that it makes. -/
def checkArgv (w : World) (argv : PyValue) : Except Refusal (List Str) :=
  match argv with
  | .list l => checkItems l
  | .tuple l => checkItems l
  -- a dictionary of strings has no key 0
  | .dict e => do
    let _ ← checkItems (e.map fun p => keyValue p.1)
    throw .keyError
  | .str _ => .error (.validation "argv must be a non-empty sequence of strings")
  | .other => do
    ensure (w.truthy = true) (.validation "argv must be a non-empty sequence of strings")
    checkItems (← w.sequence)
  | v => if w.isTrue v then .error .typeError else .error (.validation "argv must be a non-empty sequence of strings")

/-- `argv[0]`, which must be allowed. An empty list of executables allows every one. -/
def checkExecutable (items : List Str) : Except Refusal Str := do
  let executable := items.headD []
  ensure (47 ∉ executable ∧ 92 ∉ executable ∧ basename executable = executable) (.permission "executable must be a bare allowlisted name")
  ensure (c.policy.allowedExecutables ≠ [] → executable ∈ c.policy.allowedExecutables)
    (.permission (Str.lit "executable is not allowed: " ++ executable))
  return executable

/-- `selected_timeout`. -/
def checkTimeout (timeout : PyValue) : Except Refusal Seconds :=
  let exceeds := Refusal.validation "timeout exceeds ExecutionPolicy"
  let within (x : PyFloat) : Except Refusal Seconds :=
    if Seconds.tenth.le x && x.le c.policy.maxTimeout.toFloat then .ok (.float x) else .error exceeds
  match timeout with
  | .null => .ok c.policy.maxTimeout
  | .int n =>
    match floatOf? n with
    | some x => within x
    | none => .error .overflow
  | .float x => within x
  | .nan => .error exceeds
  | _ => .error (.validation "timeout must be numeric")

/-- The strings of an item. -/
def stringItem? : PyKey × PyValue → Option (Str × Str)
  | (.str k, .str v) => some (k, v)
  | _ => none

/-- The environment that is passed on. -/
def checkEnv (env : PyValue) : Except Refusal (List (PyKey × PyValue)) := do
  let environment ← (if w.isTrue env then w.asDict env else .ok [])
  match environment.mapM stringItem? with
  | none => throw (.validation "env must be a string mapping")
  | some items =>
    match sortedSet ((items.map (·.1)).filter fun k => !c.policy.allowedEnv.contains k) with
    | [] => return items.map fun p => (.str p.1, .str p.2)
    | k :: _ => throw (.permission (Str.lit "environment variable is not allowed: " ++ k))

/-- The working directory, relative to the real project root. -/
def checkCwd (cwd : PyValue) : Except Refusal Str :=
  let escapes := Refusal.permission "cwd escapes project root"
  match w.path? cwd with
  | none => .error .typeError
  | some cwd =>
    match w.files.realpath c.projectRoot with
    | none => .error escapes
    | some root =>
      match w.files.realpath (if Path.isAbs cwd then cwd else Path.join root cwd) with
      | none => .error escapes
      | some real => if Path.commonpath real root = root ∧ w.files.isDir real = true then .ok (Path.relpath real root) else .error escapes

/-- `run(argv, cwd, env, timeout)`. -/
def run (argv cwd env timeout : PyValue) : Except Refusal Frame := do
  ensure (c.permissions.execute = true) (.permission "execute permission is disabled")
  let items ← checkArgv w argv
  let _ ← c.checkExecutable items
  let seconds ← c.checkTimeout timeout
  let environment ← c.checkEnv w env
  let checked ← c.checkCwd w cwd
  c.callTool w "ctx_shell" (.dict [(.str "argv", .list (items.map .str)), (.str "cwd", .str checked), (.str "env", .dict environment),
    (.str "timeout_ms", .int seconds.milliseconds)])

/-- What becomes of a call up to its write. -/
def outcome : Call → Except Refusal Frame
  | .call tool arguments => c.call w tool arguments
  | .read path mode fresh => c.callTool w "ctx_read" (.dict [(.str "path", path), (.str "mode", mode), (.str "fresh", fresh)])
  | .search pattern path maxResults included =>
    let arguments := [(.str "path", path), (.str "pattern", pattern), (.str "max_results", maxResults)]
    c.callTool w "ctx_search" (.dict (match included with
      | .null => arguments
      | v => arguments ++ [(.str "include", v)]))
  | .glob pattern path maxResults =>
    c.callTool w "ctx_glob" (.dict [(.str "path", path), (.str "pattern", pattern), (.str "max_results", maxResults)])
  | .tree path depth showHidden =>
    c.callTool w "ctx_tree" (.dict [(.str "path", path), (.str "depth", depth), (.str "show_hidden", showHidden)])
  | .compose task path =>
    c.callTool w "ctx_compose" (.dict [(.str "path", path), (.str "task", match task with
      | .null => .str c.task
      | v => v)])
  | .symbol name => c.callTool w "ctx_symbol" (.dict [(.str "name", name)])
  | .patch path op arguments => c.patch w path op arguments
  | .createFile path text => c.patch w path (.str "create") [("new_text", text)]
  | .replaceUnique path oldText newText => c.patch w path (.str "replace_unique") [("old_text", oldText), ("new_text", newText)]
  | .run argv cwd env timeout => c.run w argv cwd env timeout

/-! ### Contexts -/

/-- The items of the first request. -/
def helloRequest : List (PyKey × PyValue) :=
  [(.str "op", .str "hello"), (.str "schema_version", .int 1), (.str "transport_version", .int 1),
    (.str "agent_tools_interface_version", .str "1.0.0"), (.str "sdk_version", .str "1.3.0")]

/-- The task, of which at most 16 KiB are kept. -/
def checkTask : PyValue → Except Refusal Str
  | .str s => match Str.utf8? s with
    | some b => if 16 * 1024 < b.length then .error (.validation "task must be a bounded string") else .ok s
    | none => .error (.guard (.python .unicodeError))
  | _ => .error (.validation "task must be a bounded string")

/-- `AgentContext(project_root, task, permissions, execution_policy, gitlab_source)` with an instance that answers the first request. -/
def make (w : World) (root : Str) (task : PyValue) (permissions : AgentPermissions) (policy : ExecutionPolicy) (gitlab : Bool)
    (result : Json) : Except Refusal Context := do
  let task ← checkTask task
  if hexecute : permissions.execute = true → policy.allowedExecutables ≠ [] then
    let hello ← catching (Sender.exchange ⟨false, w.exited, permissions.write, [], 0, by simp⟩ w.order w.deep helloRequest) .exchange
    match hresult : acceptHello permissions gitlab result with
    | .ok capabilities =>
      return ⟨root, task, permissions, policy, gitlab, capabilities, false, 1, hello, hello, [], mem_of_acceptHello hresult, hexecute⟩
    | .error e => throw (.exchange (.session e))
  else throw (.configuration "execute permission requires at least one allowed executable")

/-- Whether a call ends the session. -/
def ends : Except Refusal Frame → Bool
  | .ok _ => w.closes
  | .error (.exchange _) => w.exited
  | .error _ => false

/-- The last identifier after a call: a request takes one before it is encoded. -/
def lastId : Except Refusal Frame → Nat
  | .ok f => f.id
  | .error (.exchange (.python _)) => c.nextId + 1
  | .error (.exchange (.session ⟨.protocol, _⟩)) => c.nextId + 1
  | .error _ => c.nextId

/-- The context after a call. -/
def next (call : Call) : Context :=
  let e : Entry := ⟨w, call, c.outcome w call⟩
  { c with closed := c.closed || ends w e.outcome, nextId := c.lastId e.outcome, stream := c.stream ++ e.bytes, log := c.log ++ [e] }

end Context

/-- What happens to a context: it is made, and then it is called. -/
inductive Input
  | make (w : World) (root : Str) (task : PyValue) (permissions : AgentPermissions) (policy : ExecutionPolicy) (gitlab : Bool) (result : Json)
  | call (w : World) (call : Call)

def Steps : Option Context → Input → Context → Prop
  | none, .make w root task permissions policy gitlab result, c => Context.make w root task permissions policy gitlab result = .ok c
  | some c, .call w call, c' => c.next w call = c'
  | _, _, _ => False

/-! ### Confinement -/

/-- The name of an executable without a directory. -/
structure IsBare (s : Str) : Prop where
  nonempty : s ≠ []
  slash : 47 ∉ s
  backslash : 92 ∉ s

/-- A directory inside the real path of a root, by its path from there. -/
def Files.Inside (files : Files) (root directory : Str) : Prop :=
  ∃ r t, files.realpath root = some (Path.absolute r) ∧ (∀ n ∈ r ++ t, Path.IsName n) ∧
    directory = (if t = [] then [46] else Path.joinParts t) ∧ files.isDir (Path.absolute (r ++ t)) = true

/-- The arguments of a request that executes are within the execution policy. -/
def Context.Executes (c : Context) (w : World) (arguments : List (PyKey × PyValue)) : Prop :=
  ∃ (executable : Str) (rest : List Str) (directory : Str) (env : List (Str × Str)) (ms : Int),
    arguments = [(.str "argv", .list ((executable :: rest).map .str)), (.str "cwd", .str directory),
      (.str "env", .dict (env.map fun p => (.str p.1, .str p.2))), (.str "timeout_ms", .int ms)] ∧
    IsBare executable ∧ executable ∈ c.policy.allowedExecutables ∧ (∀ p ∈ env, p.1 ∈ c.policy.allowedEnv) ∧
    100 ≤ ms ∧ ms ≤ c.policy.maxTimeoutMs ∧ w.files.Inside c.projectRoot directory

/-- A request that a context may write: it is the encoded request of a tool that was negotiated, one that writes has the permission to,
    and one that executes comes from `run` with the permission to, within the execution policy. -/
structure Entry.Confined (e : Entry) (c : Context) (f : Frame) : Prop where
  line : ∃ b, (identified (request f.tool f.arguments) f.id).encode e.world.order e.world.deep = .ok b ∧ f.line = b ++ [10]
  negotiated : f.tool ∈ c.capabilities
  write : f.tool ∈ writeTools → c.permissions.write = true
  execute : f.tool ∈ execTools →
    (∃ argv cwd env timeout, e.call = .run argv cwd env timeout) ∧ c.permissions.execute = true ∧ c.Executes e.world f.arguments

theorem Sender.exchange_eq_ok {s : Sender} {order : NumericOrder} {deep : Bool} {r : List (PyKey × PyValue)} {line : Bytes}
    (h : s.exchange order deep r = .ok line) : ∃ b, (identified r (s.nextId + 1)).encode order deep = .ok b ∧ line = b ++ [10] := by
  simp only [exchange, bind_eq_ok, ensure_eq_ok, exists_const, catching_eq_ok, pure_eq_ok] at h
  obtain ⟨-, -, b, hb, -, rfl⟩ := h
  exact ⟨b, hb, rfl⟩

namespace Context
variable {c : Context} {w : World} {call : Call} {f : Frame}

/-- What a call of a tool writes is the request of it. -/
theorem callTool_eq_ok {tool : Str} {arguments : PyValue} (h : c.callTool w tool arguments = .ok f) :
    f.tool = tool ∧ tool ∈ c.capabilities ∧ w.items? arguments = some f.arguments ∧
      ∃ b, (identified (request f.tool f.arguments) f.id).encode w.order w.deep = .ok b ∧ f.line = b ++ [10] := by
  simp only [callTool, bind_eq_ok, ensure_eq_ok, exists_const] at h
  obtain ⟨hnegotiated, h⟩ := h
  split at h
  · cases h
  · next e he =>
    simp only [bind_eq_ok, ensure_eq_ok, exists_const, catching_eq_ok, pure_eq_ok] at h
    obtain ⟨-, line, hline, rfl⟩ := h
    exact ⟨rfl, hnegotiated, he, Sender.exchange_eq_ok hline⟩

/-- A call of a tool is confined where one that executes is within the policy. -/
theorem confined_callTool {tool : Str} {arguments : PyValue} (h : c.callTool w tool arguments = .ok f)
    (hexecute : tool ∈ execTools → (∃ argv cwd env timeout, call = .run argv cwd env timeout) ∧ c.Executes w f.arguments) :
    Entry.Confined ⟨w, call, .ok f⟩ c f := by
  obtain ⟨rfl, hnegotiated, -, hline⟩ := callTool_eq_ok h
  have hexpected := (c.negotiated f.tool).mp hnegotiated
  refine ⟨hline, hnegotiated, write_of_expected hexpected, fun ht => ?_⟩
  obtain ⟨hrun, hpolicy⟩ := hexecute ht
  exact ⟨hrun, execute_of_expected hexpected ht, hpolicy⟩

/-! ### The checks of a run -/

theorem checkItems_eq_ok {l : List PyValue} {items : List Str} (h : checkItems l = .ok items) : items ≠ [] ∧ ∀ s ∈ items, s ≠ [] := by
  unfold checkItems at h
  split at h
  · split_ifs at h with hitems
    cases h
    exact hitems
  · cases h

theorem checkArgv_eq_ok {argv : PyValue} {items : List Str} (h : checkArgv w argv = .ok items) : items ≠ [] ∧ ∀ s ∈ items, s ≠ [] := by
  unfold checkArgv at h
  split at h
  · exact checkItems_eq_ok h
  · exact checkItems_eq_ok h
  · obtain ⟨_, -, h⟩ := bind_eq_ok.mp h
    cases h
  · cases h
  · obtain ⟨_, -, h⟩ := bind_eq_ok.mp h
    obtain ⟨l, -, h⟩ := bind_eq_ok.mp h
    exact checkItems_eq_ok h
  · split_ifs at h

/-- The executable is a bare name that the policy allows. -/
theorem checkExecutable_eq_ok {items : List Str} {s : Str} (hpermission : c.permissions.execute = true) (hne : items ≠ [])
    (hitems : ∀ s ∈ items, s ≠ []) (h : c.checkExecutable items = .ok s) :
    ∃ executable rest, items = executable :: rest ∧ IsBare executable ∧ executable ∈ c.policy.allowedExecutables := by
  obtain ⟨executable, rest, rfl⟩ := List.exists_cons_of_ne_nil hne
  unfold checkExecutable at h
  obtain ⟨_, hbare, h⟩ := bind_eq_ok.mp h
  obtain ⟨_, hallowed, -⟩ := bind_eq_ok.mp h
  obtain ⟨hslash, hbackslash, -⟩ := ensure_eq_ok.mp hbare
  rw [ensure_eq_ok] at hallowed
  exact ⟨executable, rest, rfl, ⟨hitems executable List.mem_cons_self, hslash, hbackslash⟩, hallowed (c.executable hpermission)⟩

/-- The timeout is bounded, by the one of the policy too. -/
theorem checkTimeout_eq_ok {timeout : PyValue} {s : Seconds} (h : c.checkTimeout timeout = .ok s) :
    100 ≤ s.milliseconds ∧ s.milliseconds ≤ c.policy.maxTimeoutMs := by
  obtain ⟨hlow, hhigh, -⟩ := Seconds.spec_of_isBounded c.policy.bounded
  have hwithin {x : PyFloat} (hx : Seconds.tenth.le x && x.le c.policy.maxTimeout.toFloat) :
      100 ≤ (Seconds.float x).milliseconds ∧ (Seconds.float x).milliseconds ≤ c.policy.maxTimeoutMs := by
    obtain ⟨hleft, hright⟩ := Bool.and_eq_true_iff.mp hx
    refine Seconds.milliseconds_mono ?_ c.policy.bounded hright
    rw [Seconds.isBounded, Bool.and_eq_true]
    exact ⟨hleft, PyFloat.le_trans hright hhigh⟩
  unfold checkTimeout at h
  simp only at h
  split at h
  · cases h
    exact Seconds.milliseconds_mono c.policy.bounded c.policy.bounded (PyFloat.le_refl _)
  · split at h
    · split_ifs at h with hx
      cases h
      exact hwithin hx
    · cases h
  · split_ifs at h with hx
    cases h
    exact hwithin hx
  · cases h
  · cases h

/-- The names of the environment are allowed. -/
theorem checkEnv_eq_ok {env : PyValue} {items : List (PyKey × PyValue)} (h : c.checkEnv w env = .ok items) :
    ∃ l : List (Str × Str), items = l.map (fun p => (.str p.1, .str p.2)) ∧ ∀ p ∈ l, p.1 ∈ c.policy.allowedEnv := by
  unfold checkEnv at h
  obtain ⟨environment, -, h⟩ := bind_eq_ok.mp h
  split at h
  · cases h
  · next l hl =>
    split at h
    · next hnone =>
      cases h
      refine ⟨l, rfl, fun p hp => ?_⟩
      by_contra hforeign
      have hmem : p.1 ∈ sortedSet ((l.map (·.1)).filter fun k => !c.policy.allowedEnv.contains k) := by
        rw [mem_sortedSet, List.mem_filter]
        exact ⟨List.mem_map_of_mem hp, by simpa using hforeign⟩
      rw [hnone] at hmem
      cases hmem
    · cases h

/-- The working directory is inside the project root. -/
theorem checkCwd_eq_ok {cwd : PyValue} {directory : Str} (h : c.checkCwd w cwd = .ok directory) :
    w.files.Inside c.projectRoot directory := by
  unfold checkCwd at h
  simp only at h
  split at h
  · cases h
  · split at h
    · cases h
    · next root hroot =>
      split at h
      · cases h
      · next real hreal =>
        split_ifs at h with hinside
        cases h
        obtain ⟨l, hl, rfl⟩ := w.files.resolved _ _ hreal
        obtain ⟨r, t, rfl, rfl⟩ := (Path.Normal.root (l := l)).exists_of_commonpath hl hinside.1
        obtain ⟨hr, ht⟩ := List.forall_mem_append.mp hl
        exact ⟨r, t, hroot, hl, (Path.Normal.root (l := r ++ t)).relpath_eq hr ht, hinside.2⟩

theorem executes_run {argv cwd env timeout : PyValue} (h : c.run w argv cwd env timeout = .ok f) : c.Executes w f.arguments := by
  simp only [run, bind_eq_ok, ensure_eq_ok, exists_const] at h
  obtain ⟨hpermission, items, hargv, s, hexecutable, seconds, htimeout, environment, henv, directory, hcwd, h⟩ := h
  obtain ⟨hne, hitems⟩ := checkArgv_eq_ok hargv
  obtain ⟨executable, rest, rfl, hbare, hallowed⟩ := checkExecutable_eq_ok hpermission hne hitems hexecutable
  obtain ⟨hlow, hhigh⟩ := checkTimeout_eq_ok htimeout
  obtain ⟨l, rfl, hnames⟩ := checkEnv_eq_ok henv
  obtain ⟨-, -, harguments, -⟩ := callTool_eq_ok h
  exact ⟨executable, rest, directory, l, seconds.milliseconds, (Option.some.inj harguments).symm, hbare, hallowed, hnames, hlow, hhigh,
    checkCwd_eq_ok hcwd⟩

/-! ### Runs -/

/-- Whatever a context is called with, what it writes is confined. -/
theorem confined_outcome (h : c.outcome w call = .ok f) : Entry.Confined ⟨w, call, .ok f⟩ c f := by
  have hpatch {path op : PyValue} {arguments : List (Str × PyValue)} (h : c.patch w path op arguments = .ok f) :
      Entry.Confined ⟨w, call, .ok f⟩ c f := by
    simp only [patch, bind_eq_ok, ensure_eq_ok, exists_const] at h
    exact confined_callTool h.2 fun ht => absurd ht (by decide)
  cases call with
  | call tool arguments =>
    simp only [outcome, Context.call] at h
    split at h
    · simp only [bind_eq_ok, ensure_eq_ok, exists_const] at h
      obtain ⟨-, hnotExec, -, h⟩ := h
      exact confined_callTool h fun ht => absurd ht hnotExec
    · cases h
  | read path mode fresh =>
    unfold outcome at h
    exact confined_callTool h fun ht => absurd ht (by decide)
  | search pattern path maxResults included =>
    unfold outcome at h
    exact confined_callTool h fun ht => absurd ht (by decide)
  | glob pattern path maxResults =>
    unfold outcome at h
    exact confined_callTool h fun ht => absurd ht (by decide)
  | tree path depth showHidden =>
    unfold outcome at h
    exact confined_callTool h fun ht => absurd ht (by decide)
  | compose task path =>
    unfold outcome at h
    exact confined_callTool h fun ht => absurd ht (by decide)
  | symbol name =>
    unfold outcome at h
    exact confined_callTool h fun ht => absurd ht (by decide)
  | patch path op arguments => exact hpatch h
  | createFile path text => exact hpatch h
  | replaceUnique path oldText newText => exact hpatch h
  | run argv cwd env timeout =>
    have hexecutes := executes_run h
    simp only [outcome, run, bind_eq_ok] at h
    obtain ⟨_, -, _, -, _, -, _, -, _, -, _, -, hcall⟩ := h
    exact confined_callTool hcall fun _ => ⟨⟨argv, cwd, env, timeout, rfl⟩, hexecutes⟩

/-- What a context has written: the first request, and the requests of its calls, each of which is confined. -/
structure Inv (c : Context) : Prop where
  stream : c.stream = c.hello ++ (c.log.map Entry.bytes).flatten
  confined : ∀ e ∈ c.log, ∀ f, e.outcome = .ok f → e.Confined c f

theorem inv_make {root : Str} {task : PyValue} {permissions : AgentPermissions} {policy : ExecutionPolicy} {gitlab : Bool} {result : Json}
    (h : make w root task permissions policy gitlab result = .ok c) : Inv c := by
  obtain ⟨_, -, h⟩ := bind_eq_ok.mp h
  split_ifs at h
  obtain ⟨hello, -, h⟩ := bind_eq_ok.mp h
  split at h
  · cases h
    exact ⟨(List.append_nil _).symm, by simp⟩
  · cases h

/-- A request that is confined stays so: no call changes what the context may do. -/
theorem Inv.next (h : Inv c) (w : World) (call : Call) : Inv (c.next w call) := by
  constructor
  · rw [Context.next, h.stream, List.map_append, List.flatten_append, List.append_assoc, List.map_singleton, List.flatten_singleton]
  · intro e he f hf
    have hconfined : e.Confined c f := by
      rcases List.mem_append.mp he with he | he
      · exact h.confined e he f hf
      · obtain rfl := List.mem_singleton.mp he
        have hwritten := confined_outcome hf
        exact ⟨hwritten.line, hwritten.negotiated, hwritten.write, hwritten.execute⟩
    exact ⟨hconfined.line, hconfined.negotiated, hconfined.write, hconfined.execute⟩

end Context

/-- Whatever calls a context gets, in whatever order, the instance is sent the first request and then the requests of the calls that are
    not refused. Each one names a tool that was negotiated, a tool that writes only with the permission to, and `ctx_shell` only in a
    `run`, with the permission to execute and within the execution policy. -/
theorem confined_of_reaches {c : Context} (h : Machine.Reaches Steps (fun _ _ => True) c) :
    c.stream = c.hello ++ (c.log.map Entry.bytes).flatten ∧
      ∀ e ∈ c.log, (∀ x, e.outcome = .error x → e.bytes = []) ∧ ∀ f, e.outcome = .ok f → e.bytes = f.line ∧ e.Confined c f := by
  have hinv : c.Inv := by
    refine h.invariant (fun i s _ hs => ?_) fun s i s' hinv _ hs => ?_
    · cases i with
      | make w root task permissions policy gitlab result => exact Context.inv_make hs
      | call w call => exact hs.elim
    · cases i with
      | make w root task permissions policy gitlab result => exact hs.elim
      | call w call =>
        rw [← show s.next w call = s' from hs]
        exact hinv.next w call
  refine ⟨hinv.stream, fun e he => ⟨fun x hx => ?_, fun f hf => ⟨?_, hinv.confined e he f hf⟩⟩⟩
  · rw [Entry.bytes, hx]
  · rw [Entry.bytes, hf]

/-! ### A run of one executable -/

namespace RunSample

/-- A file system without links, in which the project root is the one directory. -/
def files : Files where
  realpath p := some (Path.absolute (Path.normParts true [] (Path.split p)).reverse)
  isDir p := p = Str.lit "/p"
  resolved := by
    rintro p q ⟨⟩
    refine ⟨_, fun c hc => ?_, rfl⟩
    exact Path.isName_normParts (by simp) (fun c hc => (Path.mem_split hc).1) c (List.mem_reverse.mp hc)

def world : World := ⟨⟨id, List.Perm.refl⟩, false, false, false, false, none, .error .typeError, none, files⟩

def policy : ExecutionPolicy := ⟨.int 30, ["ls"], ["LANG"], by decide⟩

/-- The answer of an instance that may execute. -/
def answer : Json :=
  mkObj [("agent_tools_interface_version", .str "1.0.0"), ("allow_exec", .bool true), ("allow_write", .bool false),
    ("capabilities", .arr ((readTools.insertIdx 4 "ctx_shell").map .str)), ("engine_version", .str "3.12.2"), ("schema_version", .int 1),
    ("transport_version", .int 1)]

def made : Except Refusal Context := Context.make world "/p" (.str []) ⟨false, true⟩ policy false answer

def call : Call := .run (.list [.str "ls", .str "-l"]) (.str ".") (.dict [(.str "LANG", .str "C")]) .null

theorem exists_ran : ∃ c f, made = .ok c ∧ c.outcome world call = .ok f ∧ f.tool = "ctx_shell" := by
  have hran : (made.toOption.bind fun c => (c.outcome world call).toOption.map Frame.tool) = some (Str.lit "ctx_shell") := by decide +kernel
  cases hmade : made with
  | error e =>
    rw [hmade] at hran
    cases hran
  | ok c =>
    rw [hmade] at hran
    obtain ⟨f, hf, htool⟩ := Option.map_eq_some_iff.mp hran
    refine ⟨c, f, rfl, ?_, htool⟩
    cases hrun : c.outcome world call with
    | error e =>
      rw [hrun] at hf
      cases hf
    | ok f' =>
      rw [hrun] at hf
      exact congrArg Except.ok (Option.some.inj hf)

end RunSample

open RunSample in
theorem confined_ran : ∃ (c : Context) (e : Entry) (f : Frame), Machine.Reaches Steps (fun _ _ => True) c ∧ e ∈ c.log ∧ e.outcome = .ok f ∧
    f.tool ∈ execTools ∧ e.Confined c f := by
  obtain ⟨c, f, hmade, hrun, htool⟩ := exists_ran
  have hstart : Steps none (.make world "/p" (.str []) ⟨false, true⟩ policy false answer) c := hmade
  have hnext : Steps (some c) (.call world call) (c.next world call) := rfl
  have hreach : Machine.Reaches Steps (fun _ _ => True) (c.next world call) := .next (.start trivial hstart) trivial hnext
  obtain ⟨-, hlog⟩ := confined_of_reaches hreach
  have hmem : (⟨world, call, c.outcome world call⟩ : Entry) ∈ (c.next world call).log := List.mem_append_right _ (List.mem_singleton_self _)
  refine ⟨c.next world call, _, f, hreach, hmem, hrun, ?_, ((hlog _ hmem).2 f hrun).2⟩
  rw [htool]
  decide

end LeanCtx.Agent
