import LeanCtx.Store.Lineage

/-! The evidence about read strategies in the context store of an instance: what was accepted and rejected, and what was measured, for
    each workload, strategy and day, read as `context_store.py` reads it. -/

namespace LeanCtx
open Preview

namespace Store
open Json

def maxEvidenceRecords : Nat := 4096

/-! ### The kinds of a record -/

inductive TaskClass
  | bugFix
  | refactor
  | testAddition
  | documentation
  | investigation
deriving DecidableEq

def TaskClass.name : TaskClass → String
  | .bugFix => "bug_fix"
  | .refactor => "refactor"
  | .testAddition => "test_addition"
  | .documentation => "documentation"
  | .investigation => "investigation"

def TaskClass.all : List TaskClass := [.bugFix, .refactor, .testAddition, .documentation, .investigation]

inductive Language
  | rust
  | python
  | typeScript
  | javaScript
  | go
  | java
  | c
  | cpp
  | cSharp
  | swift
  | kotlin
  | ruby
  | php
  | shell
  | other
  | none
deriving DecidableEq

def Language.name : Language → String
  | .rust => "rust"
  | .python => "python"
  | .typeScript => "type_script"
  | .javaScript => "java_script"
  | .go => "go"
  | .java => "java"
  | .c => "c"
  | .cpp => "cpp"
  | .cSharp => "c_sharp"
  | .swift => "swift"
  | .kotlin => "kotlin"
  | .ruby => "ruby"
  | .php => "php"
  | .shell => "shell"
  | .other => "other"
  | .none => "none"

def Language.all : List Language :=
  [.rust, .python, .typeScript, .javaScript, .go, .java, .c, .cpp, .cSharp, .swift, .kotlin, .ruby, .php, .shell, .other, .none]

inductive Size
  | tiny
  | small
  | medium
  | large
  | veryLarge
deriving DecidableEq

def Size.name : Size → String
  | .tiny => "tiny"
  | .small => "small"
  | .medium => "medium"
  | .large => "large"
  | .veryLarge => "very_large"

def Size.all : List Size := [.tiny, .small, .medium, .large, .veryLarge]

/-- How a source was read. -/
inductive Strategy
  | full
  | map
  | signatures
  | aggressive
  | entropy
  | task
  | reference
  | diff
  | lines
  | auto
  | other
deriving DecidableEq

def Strategy.name : Strategy → String
  | .full => "full"
  | .map => "map"
  | .signatures => "signatures"
  | .aggressive => "aggressive"
  | .entropy => "entropy"
  | .task => "task"
  | .reference => "reference"
  | .diff => "diff"
  | .lines => "lines"
  | .auto => "auto"
  | .other => "other"

def Strategy.all : List Strategy :=
  [.full, .map, .signatures, .aggressive, .entropy, .task, .reference, .diff, .lines, .auto, .other]

inductive EvidenceTier
  | mechanism
  | deterministicQuality
  | recordedRegression
  | liveTaskEvaluation
  | productionOutcome
deriving DecidableEq

def EvidenceTier.name : EvidenceTier → String
  | .mechanism => "mechanism"
  | .deterministicQuality => "deterministic_quality"
  | .recordedRegression => "recorded_regression"
  | .liveTaskEvaluation => "live_task_evaluation"
  | .productionOutcome => "production_outcome"

def EvidenceTier.all : List EvidenceTier :=
  [.mechanism, .deterministicQuality, .recordedRegression, .liveTaskEvaluation, .productionOutcome]

inductive Verdict
  | improved
  | nonInferior
  | regressed
  | underpowered
deriving DecidableEq

def Verdict.name : Verdict → String
  | .improved => "improved"
  | .nonInferior => "non_inferior"
  | .regressed => "regressed"
  | .underpowered => "underpowered"

def Verdict.all : List Verdict := [.improved, .nonInferior, .regressed, .underpowered]

/-! ### Records -/

/-- Task class, dominant language and budget bucket of a plan. -/
structure Workload where
  taskClass : TaskClass
  language : Language
  size : Size
deriving DecidableEq

/-- What was retained and recovered of a task's deliveries. -/
structure QualityCounts where
  retained : Nat
  recoverable : Nat
  lost : Nat
  handlesEmitted : Nat
  handlesVerified : Nat
  failures : Nat
  criticalFailures : Nat
  possible : handlesVerified ≤ handlesEmitted ∧ failures ≤ handlesEmitted ∧ criticalFailures ≤ failures

/-- The counts of a record. -/
structure OutcomeCounts where
  observedDay : Nat
  samples : Nat
  accepted : Nat
  rejected : Nat
  explicitOverrides : Nat
  tokenSamples : Nat
  tokensOriginal : Nat
  tokensDelivered : Nat
  signalSamples : Nat
  bounceTasks : Nat
  expandTasks : Nat
  editFailureTasks : Nat

/-- The counts of a record agree with each other. -/
structure OutcomeCounts.Consistent (c : OutcomeCounts) : Prop where
  sampled : c.samples ≠ 0
  decided : c.accepted + c.rejected = c.samples
  counted : c.explicitOverrides ≤ c.samples ∧ c.tokenSamples ≤ c.samples
  attributed : c.signalSamples ≤ c.samples ∧ c.bounceTasks ≤ c.signalSamples ∧ c.expandTasks ≤ c.signalSamples ∧
    c.editFailureTasks ≤ c.signalSamples
  tokens : c.tokenSamples = 0 → c.tokensOriginal = 0 ∧ c.tokensDelivered = 0
  saved : c.tokensDelivered ≤ c.tokensOriginal

/-- Outcomes of one read strategy on one workload, on one day. What was not measured is absent, never zero. -/
structure StrategyOutcomeRecord where
  workload : Workload
  strategy : Strategy
  counts : OutcomeCounts
  quality : Option QualityCounts
  regressions : Option Nat
  consistent : counts.Consistent

/-- A paired task evaluation of one strategy. -/
structure StrategyEvaluation where
  strategy : Strategy
  tier : EvidenceTier
  verdict : Verdict
  pairs : Nat
  powered : Bool
  deltaMilli : Int
  ciLowMilli : Int
  ciHighMilli : Int
  marginMilli : Int
  known : strategy ≠ .other
  interval : ciLowMilli ≤ ciHighMilli ∧ 0 ≤ marginMilli
  paired : powered = true → pairs ≠ 0

/-- `_record_key(record)`. -/
def StrategyOutcomeRecord.key (r : StrategyOutcomeRecord) : List Nat :=
  [TaskClass.all.idxOf r.workload.taskClass, Language.all.idxOf r.workload.language, Size.all.idxOf r.workload.size,
    Strategy.all.idxOf r.strategy, r.counts.observedDay]

/-- One scope's evidence, sorted. -/
structure ContextPolicyEvidence where
  records : List StrategyOutcomeRecord
  evaluations : List StrategyEvaluation
  sorted : records.IsChain fun a b => a.key < b.key
  distinct : evaluations.IsChain fun a b => Strategy.all.idxOf a.strategy < Strategy.all.idxOf b.strategy

/-! ### Readers -/

/-- `_signed(value, label)`. -/
def signed (v : Json) (label : Str) : Except PreviewError Int :=
  let message := label ++ Str.lit " must be an integer in -" ++ natText maxSafe ++ Str.lit ".." ++ natText maxSafe
  match v with
  | .int n => if -maxSafe ≤ n ∧ n ≤ maxSafe then .ok n else .error (.bad message)
  | _ => .error (.bad message)

/-- `_workload(value, label)`. -/
def workload (v : Json) (label : Str) : Except PreviewError Workload := do
  object v label
  keys v ["task_class", "language", "size"] [] label
  let taskClass ← enum TaskClass.all TaskClass.name (v.get "task_class") (label ++ Str.lit ".task_class")
  let language ← enum Language.all Language.name (v.get "language") (label ++ Str.lit ".language")
  let size ← enum Size.all Size.name (v.get "size") (label ++ Str.lit ".size")
  pure ⟨taskClass, language, size⟩

/-- A part of a record that says whether it was measured: `f` reads the one that was. -/
def measured {α : Type} (v : Json) (label : Str) (f : Except PreviewError α) : Except PreviewError (Option α) := do
  object v label
  if v.get "state" = .str "unmeasured" then do
    keys v ["state"] [] label
    pure none
  else do
    ensure (v.get "state" = .str "measured") (.unknownValue (label ++ Str.lit ".state") (v.get "state"))
    some <$> f

/-- `_quality(value, label)`. -/
def quality (v : Json) (label : Str) : Except PreviewError (Option QualityCounts) := measured v label do
  keys v ["state", "retention", "recovery"] [] label
  let retention := v.get "retention"
  object retention (label ++ Str.lit ".retention")
  keys retention ["retained", "recoverable", "lost"] [] (label ++ Str.lit ".retention")
  let recovery := v.get "recovery"
  object recovery (label ++ Str.lit ".recovery")
  keys recovery ["handles_emitted", "handles_verified", "failures", "critical_failures"] [] (label ++ Str.lit ".recovery")
  let retained ← int (retention.get "retained") (label ++ Str.lit ".retained") maxSafe
  let recoverable ← int (retention.get "recoverable") (label ++ Str.lit ".recoverable") maxSafe
  let lost ← int (retention.get "lost") (label ++ Str.lit ".lost") maxSafe
  let emitted ← int (recovery.get "handles_emitted") (label ++ Str.lit ".handles_emitted") maxSafe
  let verified ← int (recovery.get "handles_verified") (label ++ Str.lit ".handles_verified") maxSafe
  let failures ← int (recovery.get "failures") (label ++ Str.lit ".failures") maxSafe
  let critical ← int (recovery.get "critical_failures") (label ++ Str.lit ".critical_failures") maxSafe
  if h : verified ≤ emitted ∧ failures ≤ emitted ∧ critical ≤ failures then
    pure ⟨retained, recoverable, lost, emitted, verified, failures, critical, h⟩
  else .error (.bad (label ++ Str.lit " has impossible recovery counts"))

/-- `_security(value, label)`. -/
def security (v : Json) (label : Str) : Except PreviewError (Option Nat) := measured v label do
  keys v ["state", "regressions"] [] label
  int (v.get "regressions") label maxSafe

def countKeys : List String :=
  ["observed_day", "samples", "accepted", "rejected", "explicit_overrides", "token_samples", "tokens_original", "tokens_delivered"]

def signalKeys : List String := ["signal_samples", "bounce_tasks", "expand_tasks", "edit_failure_tasks"]

/-- The counts of a record. Those of signals are zero where the record lacks them. -/
def counts (v : Json) (label : Str) : Except PreviewError OutcomeCounts := do
  let count := fun key : String => int (v.get key) (label ++ Str.lit "." ++ Str.lit key) maxSafe
  let signals := fun key : String => int ((v.get? key).getD (.int 0)) (label ++ Str.lit "." ++ Str.lit key) maxSafe
  let day ← count "observed_day"
  let samples ← count "samples"
  let accepted ← count "accepted"
  let rejected ← count "rejected"
  let overrides ← count "explicit_overrides"
  let tokenSamples ← count "token_samples"
  let original ← count "tokens_original"
  let delivered ← count "tokens_delivered"
  let signalSamples ← signals "signal_samples"
  let bounce ← signals "bounce_tasks"
  let expand ← signals "expand_tasks"
  let editFailure ← signals "edit_failure_tasks"
  pure ⟨day, samples, accepted, rejected, overrides, tokenSamples, original, delivered, signalSamples, bounce, expand, editFailure⟩

/-- The checks of a record's counts, in their order. -/
def checkCounts (c : OutcomeCounts) (label : Str) : Except PreviewError (PLift c.Consistent) :=
  if sampled : c.samples ≠ 0 then
    if decided : c.accepted + c.rejected = c.samples then
      if counted : c.explicitOverrides ≤ c.samples ∧ c.tokenSamples ≤ c.samples then
        if attributed : c.signalSamples ≤ c.samples ∧ c.bounceTasks ≤ c.signalSamples ∧ c.expandTasks ≤ c.signalSamples ∧
            c.editFailureTasks ≤ c.signalSamples then
          if tokens : c.tokenSamples = 0 → c.tokensOriginal = 0 ∧ c.tokensDelivered = 0 then
            if saved : c.tokensDelivered ≤ c.tokensOriginal then .ok ⟨sampled, decided, counted, attributed, tokens, saved⟩
            else .error (.bad (label ++ Str.lit " delivered more tokens than original"))
          else .error (.bad (label ++ Str.lit " has tokens without token samples"))
        else .error (.bad (label ++ Str.lit " signal counts exceed their attributed tasks"))
      else .error (.bad (label ++ Str.lit " counts more tasks than samples"))
    else .error (.bad (label ++ Str.lit ": accepted + rejected must equal samples"))
  else .error (.bad (label ++ Str.lit " has no samples"))

/-- `_record(value, label)`. -/
def record (v : Json) (label : Str) : Except PreviewError StrategyOutcomeRecord := do
  object v label
  keys v (["workload", "strategy", "quality", "security"] ++ countKeys) signalKeys label
  let counted ← counts v label
  let load ← workload (v.get "workload") (label ++ Str.lit ".workload")
  let strategy ← enum Strategy.all Strategy.name (v.get "strategy") (label ++ Str.lit ".strategy")
  let retention ← quality (v.get "quality") (label ++ Str.lit ".quality")
  let regressions ← security (v.get "security") (label ++ Str.lit ".security")
  let consistent ← checkCounts counted label
  pure ⟨load, strategy, counted, retention, regressions, consistent.down⟩

/-- `_evaluation(value, label)`. -/
def evaluation (v : Json) (label : Str) : Except PreviewError StrategyEvaluation := do
  object v label
  keys v ["strategy", "evidence_tier", "verdict", "pairs", "powered", "delta_milli", "ci_low_milli", "ci_high_milli", "margin_milli"]
    [] label
  let strategy ← enum Strategy.all Strategy.name (v.get "strategy") (label ++ Str.lit ".strategy")
  let tier ← enum EvidenceTier.all EvidenceTier.name (v.get "evidence_tier") (label ++ Str.lit ".evidence_tier")
  let verdict ← enum Verdict.all Verdict.name (v.get "verdict") (label ++ Str.lit ".verdict")
  let pairs ← int (v.get "pairs") (label ++ Str.lit ".pairs") maxSafe
  let powered ← Preview.bool (v.get "powered") (label ++ Str.lit ".powered")
  let delta ← signed (v.get "delta_milli") (label ++ Str.lit ".delta_milli")
  let low ← signed (v.get "ci_low_milli") (label ++ Str.lit ".ci_low_milli")
  let high ← signed (v.get "ci_high_milli") (label ++ Str.lit ".ci_high_milli")
  let margin ← signed (v.get "margin_milli") (label ++ Str.lit ".margin_milli")
  if known : strategy ≠ .other then
    if interval : low ≤ high ∧ 0 ≤ margin then
      if paired : powered = true → pairs ≠ 0 then
        pure ⟨strategy, tier, verdict, pairs, powered, delta, low, high, margin, known, interval, paired⟩
      else .error (.bad (label ++ Str.lit " is powered without pairs"))
    else .error (.bad (label ++ Str.lit " has an impossible interval"))
  else .error (.bad (label ++ Str.lit " must name a known strategy"))

/-- `parse_policy_evidence(value)`. -/
def parsePolicyEvidence (v : Json) : Except PreviewError ContextPolicyEvidence := do
  object v (Str.lit "evidence")
  keys v ["schema_version", "records"] ["evaluations"] (Str.lit "evidence")
  ensure (v.get "schema_version" = .int 1) (.bad (Str.lit "unsupported evidence schema_version"))
  let recordList ← list (v.get "records") (Str.lit "records") maxEvidenceRecords
  let records ← items record "records" recordList
  if sorted : records.IsChain fun a b => a.key < b.key then do
    let evaluationList ← list ((v.get? "evaluations").getD (.arr [])) (Str.lit "evaluations") Strategy.all.length
    let evaluations ← items evaluation "evaluations" evaluationList
    if distinct : evaluations.IsChain fun a b => Strategy.all.idxOf a.strategy < Strategy.all.idxOf b.strategy then
      pure ⟨records, evaluations, sorted, distinct⟩
    else .error (.bad (Str.lit "evaluations must be one per strategy, sorted"))
  else .error (.bad (Str.lit "records must be strictly sorted by workload, strategy and day"))

end Store
end LeanCtx
