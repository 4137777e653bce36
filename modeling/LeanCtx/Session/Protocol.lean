import LeanCtx.Workspace.Source

/-! The values of a session: the plan, which is the intent that the host fixes, and the view that an instance gives for it. -/

namespace LeanCtx

/-! ### Texts -/

/-- The message of `_text` for a text that it refuses. -/
def protocolTextMessage (field : String) (max : Nat) (s : Str) : String :=
  if !s.all Str.isScalar then field ++ " is not valid UTF-8"
  else if s.isEmpty then field ++ " must not be empty"
  else if max < s.utf8Length then field ++ " exceeds " ++ toString max ++ " UTF-8 bytes"
  else if s.contains 0 then field ++ " contains NUL"
  else field ++ " contains a control character"

/-- `_text(value, field_name, maximum)`, the error being the message of its `ValidationError`. -/
def protocolText (s : Str) (field : String) (max : Nat) : Except String (Text max) :=
  if h : isText max s = true then .ok ⟨s, h⟩ else .error (protocolTextMessage field max s)

/-- `_text(value, field_name, maximum, controls=False)`. -/
def protocolTask (s : Str) (field : String) (max : Nat) : Except String (Task max) :=
  if h : isTask max s = true then .ok ⟨s, h⟩ else .error (protocolTextMessage field max s)

theorem protocolText_eq_ok {s : Str} {field : String} {max : Nat} {t : Text max} :
    protocolText s field max = .ok t ↔ t.1 = s := by
  unfold protocolText
  split
  · simp only [Except.ok.injEq]
    exact ⟨fun h => h ▸ rfl, fun h => Subtype.ext h.symm⟩
  · next h => exact ⟨nofun, fun heq => absurd (heq ▸ t.2) h⟩

theorem protocolTask_eq_ok {s : Str} {field : String} {max : Nat} {t : Task max} :
    protocolTask s field max = .ok t ↔ t.1 = s := by
  unfold protocolTask
  split
  · simp only [Except.ok.injEq]
    exact ⟨fun h => h ▸ rfl, fun h => Subtype.ext h.symm⟩
  · next h => exact ⟨nofun, fun heq => absurd (heq ▸ t.2) h⟩

/-! ### Sources -/

namespace ContextSource

/-- The message of `source.relative_path` where it raises. -/
def relativePathMessage (s : ContextSource) : String :=
  let absolute := absolutePath s.path s.projectRoot
  let relative := Path.relpath absolute s.projectRoot
  if Path.commonpath absolute s.projectRoot != s.projectRoot then "source containment cannot be proven"
  else if relative == [] || relative == [46] || relative == [46, 46] || decide ([46, 46, 47] <+: relative) then
    "source path must be a rooted relative file path"
  else "relative source path contains a control character"

/-- `source.descriptor()`, none where it raises: the source without its root. -/
def descriptor (s : ContextSource) : Option Json :=
  s.relativePath.map fun path => Json.mkObj <|
    [("path", .str path), ("media_type", .str s.mediaType)] ++
      (s.sourceRef.map fun r => ("source_ref", Json.str r)).toList ++
      (s.sourceDigest.map fun d => ("source_digest", Json.str d)).toList

end ContextSource

/-! ### Plans -/

/-- The modes of Engine Interface v1. -/
inductive Mode
  | aggressive
deriving DecidableEq

def Mode.name : Mode → String
  | .aggressive => "aggressive"

inductive Freshness
  | reuse
  | refresh
deriving DecidableEq

def Freshness.name : Freshness → String
  | .reuse => "reuse"
  | .refresh => "refresh"

/-- The freshness that a plan is asked for. -/
def freshnessOf (s : Str) : Except String Freshness :=
  if s = Str.lit Freshness.reuse.name then .ok .reuse
  else if s = Str.lit Freshness.refresh.name then .ok .refresh
  else .error "freshness must be reuse or refresh"

theorem freshnessOf_eq_ok {s : Str} {f : Freshness} : freshnessOf s = .ok f ↔ Str.lit f.name = s := by
  constructor
  · intro h
    unfold freshnessOf at h
    split_ifs at h with hreuse hrefresh
    · cases h
      exact hreuse.symm
    · cases h
      exact hrefresh.symm
  · rintro rfl
    cases f <;> rfl

def maxTaskBytes : Nat := 16384

/-- The fields of a plan. -/
structure PlanFields where
  sessionId : Text 512
  taskId : Text 512
  task : Task maxTaskBytes
  source : ContextSource
  mode : Mode
  freshness : Freshness
deriving DecidableEq

namespace PlanFields

/-- What the identifier of a plan is computed from, given the descriptor of its source. -/
def intent (x : PlanFields) (descriptor : Json) : Json :=
  Json.mkObj [("intent_version", .int 1), ("session_id", x.sessionId.json), ("task_id", x.taskId.json), ("task", x.task.json),
    ("source", descriptor), ("mode", .str x.mode.name), ("freshness", .str x.freshness.name)]

/-- The identifier of a plan: `plan:sha256:` and the digest of the intent. -/
def planId (x : PlanFields) : Except String Str :=
  match x.source.descriptor with
  | none => .error x.source.relativePathMessage
  | some descriptor =>
    match Json.canonicalBytes? (x.intent descriptor) with
    | none => .error "value is not canonical JSON data"
    | some data => .ok (Str.lit "plan:sha256:" ++ Sha256.hexdigest data)

end PlanFields

/-- The intent of a session: a `ContextPlan`. -/
structure ContextPlan extends PlanFields where
  planId : Str
  identified : toPlanFields.planId = .ok planId
deriving DecidableEq

namespace ContextPlan

/-- The plan of some fields, with its identifier. -/
def ofFields (x : PlanFields) : Except String ContextPlan :=
  match h : x.planId with
  | .error e => .error e
  | .ok planId => .ok ⟨x, planId, h⟩

theorem ofFields_eq_ok {x : PlanFields} {p : ContextPlan} : ofFields x = .ok p ↔ p.toPlanFields = x := by
  unfold ofFields
  split
  · next e he =>
    refine ⟨nofun, ?_⟩
    rintro rfl
    exact absurd (he.symm.trans p.identified) nofun
  · next i hi =>
    simp only [Except.ok.injEq]
    refine ⟨fun h => h ▸ rfl, ?_⟩
    rintro rfl
    have heq : i = p.planId := Except.ok.inj (hi.symm.trans p.identified)
    cases heq
    rfl

/-- `ContextPlan(session_id, task_id, task, source, mode=…, freshness=…)`. -/
def make (sessionId taskId task : Str) (source : ContextSource) (mode freshness : Str) : Except String ContextPlan := do
  let sessionId ← protocolText sessionId "session_id" 512
  let taskId ← protocolText taskId "task_id" 512
  let task ← protocolTask task "task" maxTaskBytes
  ensure (mode = Str.lit Mode.aggressive.name) "mode must be aggressive in Engine Interface v1"
  let freshness ← freshnessOf freshness
  ofFields ⟨sessionId, taskId, task, source, .aggressive, freshness⟩

/-- A plan is made of the arguments that it is asked for. -/
structure Of (p : ContextPlan) (source : ContextSource) (mode freshness : Str) : Prop where
  source : p.source = source
  mode : Str.lit p.mode.name = mode
  freshness : Str.lit p.freshness.name = freshness

instance (p : ContextPlan) (source : ContextSource) (mode freshness : Str) : Decidable (p.Of source mode freshness) :=
  decidable_of_iff (p.source = source ∧ Str.lit p.mode.name = mode ∧ Str.lit p.freshness.name = freshness)
    ⟨fun ⟨h, h', h''⟩ => ⟨h, h', h''⟩, fun ⟨h, h', h''⟩ => ⟨h, h', h''⟩⟩

theorem make_eq_ok {sessionId taskId task : Str} {source : ContextSource} {mode freshness : Str} {p : ContextPlan} :
    make sessionId taskId task source mode freshness = .ok p ↔
      p.sessionId.1 = sessionId ∧ p.taskId.1 = taskId ∧ p.task.1 = task ∧ p.Of source mode freshness := by
  simp only [make, bind_eq_ok, protocolText_eq_ok, protocolTask_eq_ok, ensure_eq_ok, exists_const, freshnessOf_eq_ok, ofFields_eq_ok]
  constructor
  · rintro ⟨a, rfl, b, rfl, c, rfl, rfl, f, rfl, heq⟩
    obtain ⟨hsession, htaskId, htask, hsource, hmode, hfreshness⟩ : p.sessionId = a ∧ p.taskId = b ∧ p.task = c ∧
        p.source = source ∧ p.mode = .aggressive ∧ p.freshness = f := by
      rw [heq]
      exact ⟨rfl, rfl, rfl, rfl, rfl, rfl⟩
    exact ⟨congrArg _ hsession, congrArg _ htaskId, congrArg _ htask, hsource, by rw [hmode], by rw [hfreshness]⟩
  · rintro ⟨rfl, rfl, rfl, rfl, rfl, rfl⟩
    have hmode : p.mode = .aggressive := by cases p.mode; rfl
    exact ⟨p.sessionId, rfl, p.taskId, rfl, p.task, rfl, by rw [hmode], p.freshness, rfl, by rw [← hmode]⟩

/-- A session can plan for a source that has a descriptor. -/
theorem exists_make {sessionId taskId task : Str} {source : ContextSource} {d : Json} (hsession : isText 512 sessionId = true)
    (htaskId : isText 512 taskId = true) (htask : isTask maxTaskBytes task = true) (hd : source.descriptor = some d)
    (hwritable : d.Writable) : ∃ p, make sessionId taskId task source "aggressive" "reuse" = .ok p := by
  let x : PlanFields := ⟨⟨sessionId, hsession⟩, ⟨taskId, htaskId⟩, ⟨task, htask⟩, source, .aggressive, .reuse⟩
  have hintent : (x.intent d).Writable := by
    refine Json.writable_mkObj ?_
    simp only [List.mem_cons, List.not_mem_nil, or_false, forall_eq_or_imp, forall_eq]
    exact ⟨Json.writable_int (by decide), writable_text _, writable_text _, writable_task _, hwritable, writable_lit _, writable_lit _⟩
  obtain ⟨b, hb⟩ := hintent
  have hplan : x.planId = .ok (Str.lit "plan:sha256:" ++ Sha256.hexdigest b) := by
    simp only [PlanFields.planId, hd, hb, show x.source = source from rfl]
  exact ⟨⟨x, _, hplan⟩, make_eq_ok.mpr ⟨rfl, rfl, rfl, rfl, rfl, rfl⟩⟩

/-- Plans of one session whose sources differ only in their root have one identifier. -/
theorem planId_eq_of_descriptor {p q : ContextPlan} (hsession : p.sessionId = q.sessionId) (htaskId : p.taskId = q.taskId)
    (htask : p.task = q.task) (hsource : p.source.descriptor = q.source.descriptor) (hfreshness : p.freshness = q.freshness) :
    p.planId = q.planId := by
  have hmode : p.mode = q.mode := by cases p.mode; cases q.mode; rfl
  have hp := p.identified
  have hq := q.identified
  have hintent : p.toPlanFields.intent = q.toPlanFields.intent := by
    funext d
    rw [PlanFields.intent, PlanFields.intent, hsession, htaskId, htask, hmode, hfreshness]
  rw [PlanFields.planId, hsource, hintent] at hp
  rw [PlanFields.planId] at hq
  split at hp
  · cases hp
  · next d hd =>
    simp only [hd] at hq
    exact Except.ok.inj (hp.symm.trans hq)

end ContextPlan

/-! ### Views -/

inductive InstanceStatus
  | succeeded
  | degraded
  | rejected
  | failed
deriving DecidableEq

def InstanceStatus.name : InstanceStatus → String
  | .succeeded => "succeeded"
  | .degraded => "degraded"
  | .rejected => "rejected"
  | .failed => "failed"

inductive Classification
  | measured
  | estimated
  | unavailable
deriving DecidableEq

def Classification.name : Classification → String
  | .measured => "measured"
  | .estimated => "estimated"
  | .unavailable => "unavailable"

/-- `_ASCII_NAME_RE.fullmatch(value)`. -/
def isAsciiName (s : Str) : Bool := !s.isEmpty && s.all fun c => (97 ≤ c && c ≤ 122) || (48 ≤ c && c ≤ 57) || c == 95

abbrev AsciiName := {s : Str // isAsciiName s = true}

/-- A measurement of an instance. An unavailable one has no value. -/
structure ContextMeasurement where
  name : AsciiName
  unit : AsciiName
  classification : Classification
  value : Option Nat
  available : value = none ↔ classification = .unavailable
deriving DecidableEq

inductive FailureCode
  | policyRejected
  | sourceUnavailable
  | sourceIntegrityMismatch
  | resourceLimit
  | unsupportedOperation
  | internal
deriving DecidableEq

def FailureCode.name : FailureCode → String
  | .policyRejected => "policy_rejected"
  | .sourceUnavailable => "source_unavailable"
  | .sourceIntegrityMismatch => "source_integrity_mismatch"
  | .resourceLimit => "resource_limit"
  | .unsupportedOperation => "unsupported_operation"
  | .internal => "internal"

structure ContextFailure where
  code : FailureCode
  retryableByHost : Bool
  recoveryRef : Option (Ref 512)
deriving DecidableEq

/-- The link to the receipt of an invocation. -/
structure ContextReceiptLink where
  receiptId : Ref 512
  receiptRef : Ref 512
  receiptDigest : Digest
  invocationId : Text 512
deriving DecidableEq

/-- `_OUTPUT_REF_RE.fullmatch(value)`. -/
def isOutputRef (s : Str) : Bool := decide (Str.lit "output:" <+: s) && s.length == 71 && (s.drop 7).all Sha256.isHex

abbrev OutputRef := {s : Str // isOutputRef s = true}

def maxTextBytes : Nat := 8388608

def maxMeasurements : Nat := 32

/-- The fields of a view. The records of its invocation and of its observation are in the form of `to_dict`. -/
structure ViewFields where
  source : ContextSource
  text : Option Str
  outputRef : Option OutputRef
  outputDigest : Option Digest
  sourceRef : Ref 512
  sourceDigest : Digest
  recoveryRef : Option (Ref 512)
  status : InstanceStatus
  measurements : List ContextMeasurement
  failure : Option ContextFailure
  receiptLink : Option ContextReceiptLink
  invocation : Json
  observation : Json
deriving DecidableEq

namespace ViewFields

/-- The text of a view is the one that its digest and its reference name. -/
def checkOutput (x : ViewFields) : Except String Unit :=
  match x.text, x.outputDigest, x.outputRef with
  | some text, some d, some r => do
    ensure (text.utf8?.map digestOf = some d) "view output digest mismatch"
    ensure (r.1 = Str.lit "output:" ++ d.hex) "view output reference mismatch"
  | _, _, _ => .ok ()

/-- What the constructor of a view checks. -/
def check (x : ViewFields) : Except String Unit := do
  ensure (∀ t ∈ x.text, t.all Str.isScalar = true) "view text is not valid UTF-8"
  ensure (∀ t ∈ x.text, t.utf8Length ≤ maxTextBytes) "view text exceeds the bound"
  ensure (x.outputRef.isSome = x.outputDigest.isSome) "output_ref and output_digest must be paired"
  x.checkOutput
  ensure (x.measurements.length ≤ maxMeasurements) "too many measurements"
  ensure (x.invocation.isObj = true ∧ x.observation.isObj = true) "invocation and observation must be mappings"

end ViewFields

/-- What an instance gives for a plan: a `ContextView`. -/
structure ContextView extends ViewFields where
  valid : toViewFields.check = .ok ()
deriving DecidableEq

namespace ContextView

/-- `ContextView(…)`. -/
def make (x : ViewFields) : Except String ContextView := certify x.check fun h => ⟨x, h⟩

theorem make_eq_ok {x : ViewFields} {v : ContextView} : make x = .ok v ↔ v.toViewFields = x :=
  certify_eq_ok.trans ⟨fun ⟨_, e⟩ => e ▸ rfl, fun e => e ▸ ⟨v.valid, rfl⟩⟩

/-- `view.invocation_id`, null where the invocation names none. -/
def invocationId (v : ContextView) : Json :=
  match v.invocation.get "invocation_id" with
  | .str s => .str s
  | _ => .null

/-- `self.source_ref in self.invocation.get("source_refs")`, where that is a list. -/
def admitsSource (v : ContextView) : Bool :=
  match v.invocation.get "source_refs" with
  | .arr l => decide (v.sourceRef.json ∈ l)
  | _ => false

/-- `view.verify()`. -/
def verify (v : ContextView) : Bool :=
  decide (v.status = .succeeded ∨ v.status = .degraded) && v.recoveryRef.isSome && v.admitsSource &&
    v.outputDigest.isSome && v.outputRef.isSome && v.text.isSome &&
    v.observation.get "invocation_id" = v.invocationId &&
    v.observation.get "output_digest" = optional Digest.json v.outputDigest &&
    v.observation.get "output_ref" = optional (fun r => .str r.1) v.outputRef &&
    v.receiptLink.any fun l => l.invocationId.json = v.invocationId

end ContextView

end LeanCtx
