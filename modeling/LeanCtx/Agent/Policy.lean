import LeanCtx.Agent.Frames
import LeanCtx.Python.Inside
import LeanCtx.Python.Product
import LeanCtx.Python.Unicode

/-! What an agent context is allowed to do: its permissions, its execution policy, and the capabilities that the handshake gives it. -/

namespace LeanCtx.Agent
open Json

structure AgentPermissions where
  write : Bool
  execute : Bool
deriving DecidableEq

/-- What a context raises before it writes: an exception of a guard, one of the exchange, or one of Python's own that no guard is about. -/
inductive Refusal
  | configuration (message : String)
  | guard (e : CallError)
  | exchange (e : CallError)
  | keyError
  | overflow
deriving DecidableEq

abbrev Refusal.validation (message : String) : Refusal := .guard (.validation message)

abbrev Refusal.permission (message : Str) : Refusal := .guard (.session ⟨.permission, message⟩)

abbrev Refusal.typeError : Refusal := .guard (.python .typeError)

/-! ### Seconds -/

/-- A number of seconds. -/
inductive Seconds
  | int (n : Int)
  | float (x : PyFloat)

/-- `float(n)`, none for an `OverflowError`. -/
def floatOf? (n : Int) : Option PyFloat :=
  match PyFloat.ofFraction (decide (n < 0)) n.natAbs 1 with
  | .inf _ => none
  | x => some x

namespace Seconds

/-- `float(seconds)`. -/
def toFloat : Seconds → PyFloat
  | int n => PyFloat.ofFraction (decide (n < 0)) n.natAbs 1
  | float x => x

/-- `0.1`. -/
def tenth : PyFloat := PyFloat.ofDecimal false 1 (-1)

/-- `120.0`. -/
def limit : PyFloat := PyFloat.ofFraction false 120 1

/-- `0.1 <= float(seconds) <= 120.0`. An integer is so exactly if it lies between 1 and 120. -/
def isBounded : Seconds → Bool
  | int n => 1 ≤ n && n ≤ 120
  | float x => tenth.le x && x.le limit

/-- `int(seconds * 1000)`. -/
def milliseconds : Seconds → Int
  | int n => n * 1000
  | float x => ((x.times 1000).truncate?).getD 0

theorem tenth_eq : tenth = .finite false 7205759403792794 (-56) (by decide) := by decide +kernel

theorem limit_eq : limit = .finite false 8444249301319680 (-46) (by decide) := by decide +kernel

theorem toRat_tenth : tenth.toRat * (1000 : Nat) = 7205759403792794 * 1000 / 2 ^ 56 := by
  rw [tenth_eq, PyFloat.toRat]
  norm_num

theorem toRat_limit : limit.toRat = 120 := by
  rw [limit_eq, PyFloat.toRat]
  norm_num

/-- A bounded float in milliseconds has an integer part from 100 on, and those of two of them are in order. -/
theorem truncate?_times {x y : PyFloat} (hx : tenth.le x = true) (hxy : x.le y = true) (hy : y.le limit = true) :
    ∃ a b, (x.times 1000).truncate? = some a ∧ (y.times 1000).truncate? = some b ∧ 100 ≤ a ∧ a ≤ b := by
  have hxl := PyFloat.le_trans hxy hy
  obtain ⟨m, e, h, hxe⟩ := PyFloat.eq_finite_of_le (by decide) (tenth_eq ▸ hx) (limit_eq ▸ hxl)
  obtain ⟨m', e', h', hye⟩ := PyFloat.eq_finite_of_le (by decide) (tenth_eq ▸ PyFloat.le_trans hx hxy) (limit_eq ▸ hy)
  have hlow : tenth.toRat ≤ x.toRat := by
    rw [tenth_eq, hxe] at hx ⊢
    exact PyFloat.le_finite.mp hx
  have horder : x.toRat ≤ y.toRat := by
    rw [hxe, hye] at hxy ⊢
    exact PyFloat.le_finite.mp hxy
  have hhigh : y.toRat ≤ 120 := by
    rw [← toRat_limit]
    rw [limit_eq, hye] at hy ⊢
    exact PyFloat.le_finite.mp hy
  have hone : 1 ≤ tenth.toRat * (1000 : Nat) := by
    rw [toRat_tenth]
    norm_num
  have hmax : y.toRat * (1000 : Nat) ≤ 10 ^ 6 := by
    push_cast
    linarith
  have hxone : 1 ≤ x.toRat * (1000 : Nat) := hone.trans (mul_le_mul_of_nonneg_right hlow (by positivity))
  have hxmax : x.toRat * (1000 : Nat) ≤ 10 ^ 6 := (mul_le_mul_of_nonneg_right horder (by positivity)).trans hmax
  obtain ⟨c, a, hc, ha, hca⟩ := PyFloat.truncate?_times_mono (n := 1000) tenth_eq hxe hone hxmax hlow
  obtain ⟨a', b, ha', hb, hab⟩ := PyFloat.truncate?_times_mono (n := 1000) hxe hye hxone hmax horder
  have hhundred : (tenth.times 1000).truncate? = some 100 := by decide +kernel
  rw [hc, Option.some.injEq] at hhundred
  rw [ha, Option.some.injEq] at ha'
  exact ⟨a, b, ha, hb, hhundred ▸ hca, ha' ▸ hab⟩

theorem isBounded_int : ∀ n : Nat, n < 121 → 0 < n → tenth.le (PyFloat.ofFraction false n 1) = true ∧ (PyFloat.ofFraction false n 1).le limit = true ∧
    ((PyFloat.ofFraction false n 1).times 1000).truncate? = some ((n : Int) * 1000) := by decide +kernel

/-- Bounded seconds are bounded as a float, of which the milliseconds are the integer part. -/
theorem spec_of_isBounded {s : Seconds} (h : s.isBounded = true) :
    tenth.le s.toFloat = true ∧ s.toFloat.le limit = true ∧ (s.toFloat.times 1000).truncate? = some s.milliseconds := by
  cases s with
  | int n =>
    simp only [isBounded, Bool.and_eq_true, decide_eq_true_eq] at h
    obtain ⟨k, rfl⟩ := Int.eq_ofNat_of_zero_le (show 0 ≤ n by omega)
    have hsign : decide ((k : Int) < 0) = false := decide_eq_false (by omega)
    have hspec := isBounded_int k (by omega) (by omega)
    rwa [toFloat, hsign, Int.natAbs_natCast, milliseconds]
  | float x =>
    rw [isBounded, Bool.and_eq_true] at h
    obtain ⟨hlow, hhigh⟩ := h
    obtain ⟨a, -, ha, -⟩ := truncate?_times hlow (PyFloat.le_refl x) hhigh
    refine ⟨hlow, hhigh, ?_⟩
    rw [toFloat, milliseconds, ha]
    rfl

/-- Milliseconds keep the order of bounded seconds, the least of which are a hundred. -/
theorem milliseconds_mono {s t : Seconds} (hs : s.isBounded = true) (ht : t.isBounded = true) (hle : s.toFloat.le t.toFloat = true) :
    100 ≤ s.milliseconds ∧ s.milliseconds ≤ t.milliseconds := by
  obtain ⟨hlow, -, hsm⟩ := spec_of_isBounded hs
  obtain ⟨-, hhigh, htm⟩ := spec_of_isBounded ht
  obtain ⟨a, b, ha, hb, hhundred, hab⟩ := truncate?_times hlow hle hhigh
  rw [hsm, Option.some.injEq] at ha
  rw [htm, Option.some.injEq] at hb
  exact ⟨ha ▸ hhundred, ha ▸ hb ▸ hab⟩

end Seconds

/-! ### Policies -/

/-- `os.path.basename(path)`. -/
def basename (p : Str) : Str := (Path.split p).getLast?.getD []

/-- An executable that a policy may name. -/
def isExecutable (s : Str) : Bool :=
  s != [] && basename s == s && s.all fun c => (Unicode.isWord c && c != 95) || (Str.lit "._+-").contains c

/-- `str.isalpha` of a character and `str.upper` of a text. -/
structure Letters where
  isAlpha : Nat → Bool
  upper : Str → Str

def forbiddenEnv : List Str :=
  ["COMSPEC", "DYLD_INSERT_LIBRARIES", "DYLD_LIBRARY_PATH", "HOME", "LD_LIBRARY_PATH", "LD_PRELOAD", "PATH", "PATHEXT", "PYTHONPATH",
    "RUSTC_WRAPPER", "SHELL"].map Str.lit

/-- An environment variable that a policy may name. -/
def isEnvName (letters : Letters) (s : Str) : Bool :=
  s.head?.any (fun c => letters.isAlpha c || c == 95) && s.all Unicode.isWord && !forbiddenEnv.contains (letters.upper s)

/-- `sorted(set(items))`. -/
def sortedSet (l : List Str) : List Str := l.dedup.insertionSort (· ≤ ·)

theorem mem_sortedSet {l : List Str} {s : Str} : s ∈ sortedSet l ↔ s ∈ l := by
  rw [sortedSet, List.mem_insertionSort, List.mem_dedup]

/-- The texts of values, none where one is no text. -/
def texts? (l : List PyValue) : Option (List Str) :=
  l.mapM fun v => match v with
    | .str s => some s
    | _ => none

structure ExecutionPolicy where
  maxTimeout : Seconds
  allowedExecutables : List Str
  allowedEnv : List Str
  bounded : maxTimeout.isBounded = true

namespace ExecutionPolicy

/-- `max_timeout`, which is a number within its range. -/
def checkSeconds (maxTimeout : PyValue) : Except Refusal {s : Seconds // s.isBounded = true} :=
  let range := Refusal.validation "max_timeout must be between 0.1 and 120 seconds"
  let within (s : Seconds) : Except Refusal {s : Seconds // s.isBounded = true} :=
    if h : s.isBounded = true then .ok ⟨s, h⟩ else .error range
  match maxTimeout with
  | .int n => if (floatOf? n).isNone then .error .overflow else within (.int n)
  | .float x => within (.float x)
  | _ => .error range

/-- `ExecutionPolicy(max_timeout, allowed_executables, allowed_env)`. -/
def make (letters : Letters) (maxTimeout : PyValue) (executables env : List PyValue) : Except Refusal ExecutionPolicy := do
  let seconds ← checkSeconds maxTimeout
  match texts? executables with
  | none => throw (.validation "allowed_executables must contain executable basenames")
  | some executables =>
    ensure (∀ s ∈ executables, isExecutable s = true) (.validation "allowed_executables must contain executable basenames")
    match texts? env with
    | none => throw (.validation "allowed_env must contain environment variable names")
    | some env =>
      ensure (∀ s ∈ env, isEnvName letters s = true) (.validation "allowed_env must contain environment variable names")
      return ⟨seconds.1, sortedSet executables, sortedSet env, seconds.2⟩

/-- `max_timeout_ms` of the policy file. -/
def maxTimeoutMs (p : ExecutionPolicy) : Int := p.maxTimeout.milliseconds

end ExecutionPolicy

/-! ### The handshake -/

/-- The capabilities that permissions and a source give. -/
def expected (p : AgentPermissions) (gitlab : Bool) : List Str :=
  readTools ++ (if p.write then writeTools else []) ++ (if p.execute then execTools else []) ++
    (if gitlab then [Str.lit "ctx_provider"] else [])

def admittedEngines : List Str := ["3.11.0", "3.11.3", "3.11.4", "3.11.5", "3.12.0", "3.12.1", "3.12.2"].map Str.lit

/-- The strings of an array, none where an item is no string. -/
def strings? : Json → Option (List Str)
  | .arr l => l.mapM fun v => match v with
    | .str s => some s
    | _ => none
  | _ => none

/-- `_accept_hello(result)`: the capabilities that are negotiated. -/
def acceptHello (p : AgentPermissions) (gitlab : Bool) (result : Json) : Except AgentError (List Str) := do
  ensure (result.hasExactly ["agent_tools_interface_version", "allow_exec", "allow_write", "capabilities", "engine_version",
      "schema_version", "transport_version"] = true ∧ result.get "schema_version" = .int 1 ∧ result.get "transport_version" = .int 1 ∧
      result.get "agent_tools_interface_version" = .str "1.0.0" ∧ result.get "allow_write" = .bool p.write ∧
      result.get "allow_exec" = .bool p.execute)
    ⟨.protocol, "Agent Tools hello is incompatible"⟩
  ensure (∃ v ∈ admittedEngines, result.get "engine_version" = .str v) ⟨.protocol, "Agent Tools instance pair is unsupported"⟩
  match strings? (result.get "capabilities") with
  | none => throw ⟨.protocol, "Agent Tools capabilities are invalid"⟩
  | some capabilities =>
    ensure (capabilities = sortedSet capabilities) ⟨.protocol, "Agent Tools capabilities are not canonical"⟩
    ensure ((∀ t ∈ capabilities, t ∈ expected p gitlab) ∧ ∀ t ∈ expected p gitlab, t ∈ capabilities)
      ⟨.protocol, "Agent Tools capabilities do not match policy"⟩
    return capabilities

theorem mem_of_acceptHello {p : AgentPermissions} {gitlab : Bool} {result : Json} {capabilities : List Str}
    (h : acceptHello p gitlab result = .ok capabilities) (t : Str) : t ∈ capabilities ↔ t ∈ expected p gitlab := by
  simp only [acceptHello, bind_eq_ok, ensure_eq_ok, exists_const] at h
  obtain ⟨-, -, h⟩ := h
  split at h
  · cases h
  · simp only [bind_eq_ok, ensure_eq_ok, exists_const, pure_eq_ok] at h
    obtain ⟨-, ⟨hmem, hall⟩, rfl⟩ := h
    exact ⟨hmem t, hall t⟩

theorem expected_subset (p : AgentPermissions) (gitlab : Bool) : expected p gitlab ⊆ tools := by
  obtain ⟨write, execute⟩ := p
  revert write execute gitlab
  decide

/-- A tool that writes is given with the permission to write alone. -/
theorem write_of_expected {p : AgentPermissions} {gitlab : Bool} {t : Str} (h : t ∈ expected p gitlab) (ht : t ∈ writeTools) : p.write = true := by
  have hall : ∀ write execute gitlab, ∀ t ∈ writeTools, t ∈ expected ⟨write, execute⟩ gitlab → write = true := by decide
  exact hall p.write p.execute gitlab t ht h

theorem execute_of_expected {p : AgentPermissions} {gitlab : Bool} {t : Str} (h : t ∈ expected p gitlab) (ht : t ∈ execTools) :
    p.execute = true := by
  have hall : ∀ write execute gitlab, ∀ t ∈ execTools, t ∈ expected ⟨write, execute⟩ gitlab → execute = true := by decide
  exact hall p.write p.execute gitlab t ht h

end LeanCtx.Agent
