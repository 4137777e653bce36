import LeanCtx.Session.Response
import LeanCtx.Session.Calls
import LeanCtx.Workspace.Agreement

/-! The view that the subprocess client makes of a response, and what a sealed one is evidence of: everything that the response
    says of it agrees, but for the decision of the policy, which no step reads. -/

namespace LeanCtx

open Instance

namespace InstanceResponse

/-- `_build_view(source, view_data, records, recovery)`. -/
def buildView (source : ContextSource) (x : InstanceView) (i : EngineInvocation) (o : EngineObservation) (y : InstanceRecovery) :
    Except InstanceError ContextView := do
  ensure (y.sourceRef ∈ i.sourceRefs.1) (.protocol "recovery source_ref is not in invocation lineage")
  ensure (o.sourceLineage = i.sourceRefs) (.protocol "observation lineage mismatch")
  let result ← catching (ContextView.make ⟨source, some x.text.1, x.outputRef, x.outputDigest, y.sourceRef, y.sourceDigest,
    some y.recoveryRef, o.status, o.measurements, o.failure, o.receiptLink, i.toDict, o.toDict⟩) .protocol
  ensure (result.status = .succeeded → result.verify = true) (.integrity "succeeded instance evidence is not sealed")
  .ok result

/-- The exception for a view whose status is rejected. -/
def rejection (failure : Option ContextFailure) : InstanceError :=
  let message := "Instance rejected request: " ++ ((failure.map fun f => f.code.name).getD "rejected")
  match failure.map ContextFailure.code with
  | some .policyRejected => .policyAdmission message
  | some .sourceUnavailable => .sourceUnavailable message
  | _ => .rejected message

/-- The exception for a view whose status is failed. -/
def executionFailure (failure : Option ContextFailure) : InstanceError :=
  let message := "Instance execution failed: " ++ ((failure.map fun f => f.code.name).getD "failed")
  match failure.map ContextFailure.code with
  | some .sourceUnavailable => .sourceUnavailable message
  | some .sourceIntegrityMismatch => .integrity message
  | some .unsupportedOperation => .unsupported message
  | _ => .execution message

/-- What `context_view` makes of a response for the source of a plan. -/
def toView (source : ContextSource) (x : InstanceResponse) : Except InstanceError ContextView :=
  match x.records with
  | none => .error (.protocol "context-view response omitted invocation/observation")
  | some (i, o) => do
    ensure (x.recovery.sourceRef ∈ i.sourceRefs.1) (.protocol "recovery source_ref is not admitted by invocation")
    ensure (∀ r ∈ source.sourceRef, r = x.recovery.sourceRef.1) (.protocol "Instance source_ref differs from requested binding")
    ensure (∀ d ∈ source.sourceDigest, d = x.recovery.sourceDigest.1)
      (.protocol "Instance source_digest differs from requested binding")
    let result ← buildView source x.view i o x.recovery
    ensure (result.status ≠ .rejected) (rejection result.failure)
    ensure (result.status ≠ .failed) (executionFailure result.failure)
    .ok result

end InstanceResponse

/-- `_run(…)` as far as it reads what the instance wrote. -/
def checkStdout (raw : Bytes) : Except InstanceError Unit := do
  ensure (raw ≠ []) (.protocol "Instance returned empty stdout")
  ensure ((Str.decodeUtf8? raw).any (·.all Str.isScalar) = true) (.protocol "Instance returned invalid UTF-8")

/-- `client.context_view(plan)`, where the instance writes `raw`. -/
def contextView (plan : ContextPlan) (raw : Bytes) : Except InstanceError ContextView := do
  checkStdout raw
  let response ← InstanceResponse.parse raw
  response.toView plan.source

namespace InstanceResponse

/-- The view of a response. -/
def viewFields (source : ContextSource) (x : InstanceView) (i : EngineInvocation) (o : EngineObservation) (y : InstanceRecovery) :
    ViewFields :=
  ⟨source, some x.text.1, x.outputRef, x.outputDigest, y.sourceRef, y.sourceDigest, some y.recoveryRef, o.status, o.measurements,
    o.failure, o.receiptLink, i.toDict, o.toDict⟩

theorem buildView_eq_ok {source : ContextSource} {x : InstanceView} {i : EngineInvocation} {o : EngineObservation}
    {y : InstanceRecovery} {v : ContextView} : buildView source x i o y = .ok v ↔
      y.sourceRef ∈ i.sourceRefs.1 ∧ o.sourceLineage = i.sourceRefs ∧ v.toViewFields = viewFields source x i o y ∧
        (v.status = .succeeded → v.verify = true) := by
  simp only [buildView, bind_eq_ok, ensure_eq_ok, exists_const, catching_eq_ok, ContextView.make_eq_ok, Except.ok.injEq]
  constructor
  · rintro ⟨hsource, hlineage, v', hfields, hsealed, rfl⟩
    exact ⟨hsource, hlineage, hfields, hsealed⟩
  · rintro ⟨hsource, hlineage, hfields, hsealed⟩
    exact ⟨hsource, hlineage, v, hfields, hsealed, rfl⟩

theorem toView_eq_ok {source : ContextSource} {x : InstanceResponse} {v : ContextView} : x.toView source = .ok v ↔
    ∃ i o, x.records = some (i, o) ∧ (∀ r ∈ source.sourceRef, r = x.recovery.sourceRef.1) ∧
      (∀ d ∈ source.sourceDigest, d = x.recovery.sourceDigest.1) ∧ buildView source x.view i o x.recovery = .ok v ∧
      v.status ≠ .rejected ∧ v.status ≠ .failed := by
  obtain ⟨w, records, y⟩ := x
  cases records with
  | none => simp [toView]
  | some r =>
    obtain ⟨i, o⟩ := r
    simp only [toView, bind_eq_ok, ensure_eq_ok, exists_const, Except.ok.injEq]
    constructor
    · rintro ⟨-, href, hdigest, v', hbuild, hrejected, hfailed, rfl⟩
      exact ⟨i, o, rfl, href, hdigest, hbuild, hrejected, hfailed⟩
    · rintro ⟨i', o', hrecords, href, hdigest, hbuild, hrejected, hfailed⟩
      cases hrecords
      exact ⟨(buildView_eq_ok.mp hbuild).1, href, hdigest, v, hbuild, hrejected, hfailed, rfl⟩

theorem Ref.json_injective {max : Nat} : Function.Injective (@Ref.json max) := fun _ _ h =>
  Subtype.ext (Json.str.inj h)

/-- When the view of a response whose records agree is sealed. -/
theorem verify_iff {source : ContextSource} {x : InstanceView} {i : EngineInvocation} {o : EngineObservation}
    {y : InstanceRecovery} {v : ContextView} (hfields : v.toViewFields = viewFields source x i o y) (hjoined : Joined i o x) :
    v.verify = true ↔ (o.status = .succeeded ∨ o.status = .degraded) ∧ y.sourceRef ∈ i.sourceRefs.1 ∧
      x.outputDigest.isSome = true ∧ x.outputRef.isSome = true ∧ o.receiptLink.isSome = true := by
  have hviewInvocation : v.invocation = i.toDict := congrArg ViewFields.invocation hfields
  have hviewObservation : v.observation = o.toDict := congrArg ViewFields.observation hfields
  have hviewStatus : v.status = o.status := congrArg ViewFields.status hfields
  have hviewRecovery : v.recoveryRef = some y.recoveryRef := congrArg ViewFields.recoveryRef hfields
  have hviewRef : v.sourceRef = y.sourceRef := congrArg ViewFields.sourceRef hfields
  have hviewDigest : v.outputDigest = x.outputDigest := congrArg ViewFields.outputDigest hfields
  have hviewOutput : v.outputRef = x.outputRef := congrArg ViewFields.outputRef hfields
  have hviewText : v.text = some x.text.1 := congrArg ViewFields.text hfields
  have hviewLink : v.receiptLink = o.receiptLink := congrArg ViewFields.receiptLink hfields
  have hinvocation : v.invocationId = .str i.invocationId.1 := by
    rw [ContextView.invocationId, hviewInvocation, i.reads_toDict.invocationId]
  have hsource : v.admitsSource = decide (y.sourceRef ∈ i.sourceRefs.1) := by
    rw [ContextView.admitsSource, hviewInvocation, i.reads_toDict.sourceRefs, hviewRef]
    exact decide_eq_decide.mpr (List.mem_map_of_injective Ref.json_injective)
  have hobserved : v.observation.get "invocation_id" = .str i.invocationId.1 := by
    rw [hviewObservation, o.reads_toDict.invocationId, hjoined.observed.invocation]
  have hdigest : v.observation.get "output_digest" = optional Digest.json v.outputDigest := by
    rw [hviewObservation, o.reads_toDict.outputDigest, hjoined.outputDigest, hviewDigest]
  have href : v.observation.get "output_ref" = optional (fun r => .str r.1) v.outputRef := by
    rw [hviewObservation, o.reads_toDict.outputRef, hjoined.outputRef, hviewOutput]
    rfl
  have hlink : (v.receiptLink.any fun l => l.invocationId.json = .str i.invocationId.1) = o.receiptLink.isSome := by
    rw [hviewLink]
    cases hl : o.receiptLink with
    | none => rfl
    | some l =>
      have hlinks : l.invocationId.1 = i.invocationId.1 := (hjoined.observed.linked l hl).invocation
      simp [Text.json, hlinks]
  rw [ContextView.verify, hinvocation, hlink, hsource, hobserved, hdigest, href, hviewStatus, hviewRecovery, hviewDigest,
    hviewOutput, hviewText]
  simp only [Bool.and_eq_true, decide_eq_true_eq, Option.isSome_some]
  tauto

/-- A response whose records agree, and that names its output and a receipt, has a sealed view for every source that it fits. -/
theorem exists_view {source : ContextSource} {x : InstanceView} {i : EngineInvocation} {o : EngineObservation}
    {y : InstanceRecovery} (hjoined : Joined i o x) (hbound : x.Bound) (hstatus : o.status = .succeeded ∨ o.status = .degraded)
    (hsource : y.sourceRef ∈ i.sourceRefs.1) {d : Digest} (hdigest : x.outputDigest = some d) {r : OutputRef}
    (href : x.outputRef = some r) (hlink : o.receiptLink.isSome = true) (hsourceRef : ∀ r ∈ source.sourceRef, r = y.sourceRef.1)
    (hsourceDigest : ∀ d ∈ source.sourceDigest, d = y.sourceDigest.1) :
    ∃ v, toView source ⟨x, some (i, o), y⟩ = .ok v ∧ v.verify = true := by
  have htext : x.text.1.utf8?.map digestOf = some d := hbound.digest d hdigest
  obtain ⟨d', hd', hpair⟩ := hbound.paired r href
  cases hdigest.symm.trans hd'
  have hstring := x.text.2
  simp only [isString, Bool.and_eq_true, decide_eq_true_eq] at hstring
  have hcheck : (viewFields source x i o y).check = .ok () := by
    have houtput : (viewFields source x i o y).checkOutput = .ok () := by
      simp only [ViewFields.checkOutput, viewFields, hdigest, href]
      rw [ensure_true htext, ok_bind, ensure_true hpair]
    simp only [ViewFields.check, houtput, ok_bind]
    simp only [viewFields, hdigest, href]
    rw [ensure_true (by simpa using hstring.1.1), ok_bind, ensure_true (by simpa using hstring.1.2), ok_bind, ensure_true (by simp),
      ok_bind, ensure_true hjoined.observed.measured, ok_bind]
    exact ensure_true ⟨rfl, rfl⟩ _
  let v : ContextView := ⟨viewFields source x i o y, hcheck⟩
  have hverify : v.verify = true := (verify_iff rfl hjoined).mpr ⟨hstatus, hsource, by simp [hdigest], by simp [href], hlink⟩
  have hrejected : v.status ≠ .rejected ∧ v.status ≠ .failed := by
    change o.status ≠ .rejected ∧ o.status ≠ .failed
    rcases hstatus with h | h <;> simp [h]
  refine ⟨v, toView_eq_ok.mpr ⟨i, o, rfl, hsourceRef, hsourceDigest, ?_, hrejected⟩, hverify⟩
  exact buildView_eq_ok.mpr ⟨hsource, hjoined.sources, rfl, fun _ => hverify⟩

end InstanceResponse

/-! ### Evidence -/

/-- What a response and the view of it agree on, for the source of a plan. -/
structure Evidence (plan : ContextPlan) (response : Json) (v : ContextView) : Prop where
  status : v.status = .succeeded ∨ v.status = .degraded
  observed : (response.get "observation").get "status" = .str v.status.name
  invocation : (response.get "observation").get "invocation_id" = (response.get "invocation").get "invocation_id"
  output : ∃ t d, v.text = some t ∧ v.outputDigest = some d ∧ t.utf8?.map digestOf = some d ∧
    (response.get "view").get "text" = .str t ∧ (response.get "view").get "output_digest" = d.json ∧
    (response.get "observation").get "output_digest" = d.json
  receipt : ∃ l, v.receiptLink = some l ∧ l.Reads ((response.get "observation").get "receipt_link") ∧
    (response.get "invocation").get "invocation_id" = l.invocationId.json ∧
    l.receiptRef.1 = Str.lit "receipt:" ++ l.receiptDigest.1
  sources : ∃ refs, (response.get "invocation").get "source_refs" = .arr refs ∧
    (response.get "observation").get "source_lineage" = .arr refs ∧ v.sourceRef.json ∈ refs
  sourceRef : ∀ r ∈ plan.source.sourceRef, v.sourceRef.1 = r
  sourceDigest : ∀ d ∈ plan.source.sourceDigest, v.sourceDigest.1 = d

/-- The policy admitted the invocation of a response. -/
def Admitted (response : Json) : Prop :=
  ((response.get "invocation").get "policy_admission").get "decision" = .str PolicyDecision.admitted.name

instance (response : Json) : Decidable (Admitted response) := inferInstanceAs (Decidable (_ = _))

/-- Evidence of a use that the policy admitted. -/
structure Sound (plan : ContextPlan) (response : Json) (v : ContextView) : Prop where
  admitted : Admitted response
  evidence : Evidence plan response v

section
variable {plan : ContextPlan} {raw : Bytes} {v : ContextView} {response : Json}

/-- The view of a context is that of its response. -/
theorem contextView_eq_ok : contextView plan raw = .ok v ↔
    checkStdout raw = .ok () ∧ ∃ x, InstanceResponse.parse raw = .ok x ∧ x.toView plan.source = .ok v := by
  simp only [contextView, bind_eq_ok]
  exact ⟨fun ⟨_, h, x, hx, hv⟩ => ⟨h, x, hx, hv⟩, fun ⟨h, x, hx, hv⟩ => ⟨(), h, x, hx, hv⟩⟩

/-- A sealed view agrees with its response. -/
theorem contextView_evidence (hview : contextView plan raw = .ok v) (hverify : v.verify = true)
    (hload : Json.strictLoads? raw = some response) : Evidence plan response v := by
  obtain ⟨-, ⟨x, records, y⟩, hparse, htoView⟩ := contextView_eq_ok.mp hview
  obtain ⟨i, o, hrecords, href, hdigest, hbuild, -, -⟩ := InstanceResponse.toView_eq_ok.mp htoView
  cases hrecords
  obtain ⟨hsource, hlineage, hfields, -⟩ := InstanceResponse.buildView_eq_ok.mp hbuild
  obtain ⟨-, response', hload', hdocument⟩ := InstanceResponse.parse_eq_ok.mp hparse
  cases hload.symm.trans hload'
  obtain ⟨hreads, hbound, hjoined⟩ := InstanceResponse.parseDocument_eq_ok.mp hdocument
  obtain ⟨hstatus, -, hdigestSome, -, hlinkSome⟩ := (InstanceResponse.verify_iff hfields hjoined).mp hverify
  have hviewStatus : v.status = o.status := congrArg ViewFields.status hfields
  have hviewText : v.text = some x.text.1 := congrArg ViewFields.text hfields
  have hviewDigest : v.outputDigest = x.outputDigest := congrArg ViewFields.outputDigest hfields
  have hviewLink : v.receiptLink = o.receiptLink := congrArg ViewFields.receiptLink hfields
  have hviewRef : v.sourceRef = y.sourceRef := congrArg ViewFields.sourceRef hfields
  have hviewSource : v.sourceDigest = y.sourceDigest := congrArg ViewFields.sourceDigest hfields
  have hinvocation : o.invocationId.1 = i.invocationId.1 := hjoined.observed.invocation
  obtain ⟨d, hd⟩ := Option.isSome_iff_exists.mp hdigestSome
  obtain ⟨l, hl⟩ := Option.isSome_iff_exists.mp hlinkSome
  have hlinks : l.Links i.invocationId.1 := hjoined.observed.linked l hl
  have hlinkReads : l.Reads ((response.get "observation").get "receipt_link") := by
    have h := hreads.observation.receiptLink
    rw [hl] at h
    exact h
  constructor
  case status => rwa [hviewStatus]
  case observed => rw [hreads.observation.status, hviewStatus]
  case invocation => rw [hreads.observation.invocationId, hreads.invocation.invocationId, hinvocation]
  case output =>
    refine ⟨x.text.1, d, hviewText, hviewDigest.trans hd, hbound.digest d hd, hreads.view.text, ?_, ?_⟩
    · rw [hreads.view.outputDigest, hd, optional]
    · rw [hreads.observation.outputDigest, hjoined.outputDigest, hd, optional]
  case receipt =>
    refine ⟨l, hviewLink.trans hl, hlinkReads, ?_, hlinks.digest⟩
    rw [hreads.invocation.invocationId, Text.json, hlinks.invocation]
  case sources =>
    refine ⟨i.sourceRefs.1.map Ref.json, hreads.invocation.sourceRefs, ?_, ?_⟩
    · rw [hreads.observation.sourceLineage, hlineage, Lineage.json]
    · rw [hviewRef]
      exact List.mem_map_of_mem hsource
  case sourceRef =>
    intro r hr
    rw [hviewRef]
    exact (href r hr).symm
  case sourceDigest =>
    intro s hs
    rw [hviewSource]
    exact (hdigest s hs).symm

/-- A sealed view is sound evidence where the policy admitted the invocation, and only there. -/
theorem sound_iff_admitted (hview : contextView plan raw = .ok v) (hverify : v.verify = true)
    (hload : Json.strictLoads? raw = some response) : Sound plan response v ↔ Admitted response :=
  ⟨Sound.admitted, fun h => ⟨h, contextView_evidence hview hverify hload⟩⟩

end

/-! ### A response of either decision -/

theorem isOutputRef_hex (d : Digest) : isOutputRef (Str.lit "output:" ++ d.hex) = true := by
  have hd := d.2
  simp only [isDigest, Bool.and_eq_true, beq_iff_eq] at hd
  have hlit : Str.lit "output:" = [111, 117, 116, 112, 117, 116, 58] := by decide
  simp only [isOutputRef, Digest.hex, Bool.and_eq_true, decide_eq_true_eq, beq_iff_eq, List.length_append, List.length_drop, hlit]
  refine ⟨⟨List.prefix_append _ _, ?_⟩, hd.2⟩
  rw [hd.1.2]
  rfl

theorem Digest.isBare_hex (d : Digest) : ∀ c ∈ d.hex, Json.IsBare c := fun c hc => d.isBare.2 c (List.mem_of_mem_drop hc)

theorem isRef_receipt (d : Digest) : isRef 512 (Str.lit "receipt:" ++ d.1) = true := by
  have hlit : ∀ c ∈ Str.lit "receipt:", Json.IsBare c := by decide
  have hbare : ∀ c ∈ Str.lit "receipt:" ++ d.1, Json.IsBare c := fun c hc =>
    (List.mem_append.mp hc).elim (hlit c) (d.isBare.2 c)
  refine isRef_of_ascii (fun c hc => ?_) (List.append_ne_nil_of_left_ne_nil (by decide) _) ?_
  · have := hbare c hc
    unfold Json.IsBare at this
    omega
  · rw [List.length_append, d.isBare.1]
    decide

namespace InstanceResponse.Sample

/-- The digest of the text of the view. -/
def digest : Digest := digestOf [97]

def sourceRef : Ref 512 := ⟨"source:a", by decide⟩

def sources : Lineage := ⟨[sourceRef], by decide⟩

def view : InstanceView := ⟨⟨"a", by decide⟩, some ⟨Str.lit "output:" ++ digest.hex, isOutputRef_hex _⟩, some digest⟩

def invocation (decision : PolicyDecision) : EngineInvocation :=
  ⟨⟨"i", by decide⟩, ⟨"3.0.0", by decide⟩, sourceRef, digest, sources, ⟨"policy", by decide⟩, decision⟩

def link : ContextReceiptLink :=
  ⟨⟨"receipt", by decide⟩, ⟨Str.lit "receipt:" ++ digest.1, isRef_receipt _⟩, digest, ⟨"i", by decide⟩⟩

def observation : EngineObservation :=
  ⟨⟨"i", by decide⟩, .succeeded, view.outputRef, view.outputDigest, sources, [], none, some link⟩

def recovery : InstanceRecovery := ⟨⟨"recovery", by decide⟩, sourceRef, digest⟩

/-- A response that succeeds, whatever the policy decided. -/
def response (decision : PolicyDecision) : InstanceResponse := ⟨view, some (invocation decision, observation), recovery⟩

theorem bound_view : view.Bound where
  paired := by
    intro r hr
    cases hr
    exact ⟨digest, rfl, rfl⟩
  digest := by
    intro d hd
    cases hd
    rfl

theorem supported (decision : PolicyDecision) : (invocation decision).Supported := by
  have hsemver : isSemver (Str.lit "3.0.0") = true := by decide
  have hmajor : semverMajor (Str.lit "3.0.0") = 3 := by decide
  exact ⟨hsemver, hmajor, List.mem_singleton_self _⟩

theorem of_observation : observation.Of (Str.lit "i") := by
  constructor
  case paired => exact bound_view.paired
  case linked =>
    intro l hl
    cases hl
    exact ⟨rfl, rfl⟩
  all_goals simp [observation, maxMeasurements]

theorem joined (decision : PolicyDecision) : Joined (invocation decision) observation view :=
  ⟨supported decision, of_observation, rfl, rfl, rfl⟩

section
open Json

theorem fits_bare {s : Str} (h : ∀ c ∈ s, IsBare c) (hlength : s.length ≤ 90) : Json.Fits 100 (.str s) :=
  (fits_str h).mono (by omega)

theorem fits_one : Json.Fits 100 (.int 1) := ⟨writable_int (by decide), by decide⟩

theorem fits_digest (d : Digest) : Json.Fits 100 d.json := fits_bare d.isBare.2 (by rw [d.isBare.1]; decide)

theorem fits_null : Json.Fits 100 .null := ⟨writable_null, by decide⟩

theorem isBare_append {s : String} (h : ∀ c ∈ Str.lit s, IsBare c) {t : Str} (ht : ∀ c ∈ t, IsBare c) :
    ∀ c ∈ Str.lit s ++ t, IsBare c := fun c hc => (List.mem_append.mp hc).elim (h c) (ht c)

theorem fits_outputRef : Json.Fits 100 (.str (Str.lit "output:" ++ digest.hex)) :=
  fits_bare (isBare_append (by decide) digest.isBare_hex) (by
    rw [List.length_append, Digest.hex, List.length_drop, digest.isBare.1]
    decide)

theorem fits_receiptRef : Json.Fits 100 (.str (Str.lit "receipt:" ++ digest.1)) :=
  fits_bare (isBare_append (by decide) digest.isBare.2) (by
    rw [List.length_append, digest.isBare.1]
    decide)

theorem fits_sources : Json.Fits 200 (Lineage.json sources) := by
  have hitem : ∀ v ∈ sources.1.map Ref.json, Json.Fits 100 v := by
    intro v hv
    rw [List.mem_singleton.mp hv]
    exact fits_bare (by decide) (by decide)
  exact (fits_arr hitem (by decide)).mono (by decide)

/-- An object of at most nine fields, the keys of which are short. -/
theorem fits_object {f : List (String × Json)} {keys : List String} {m n : Nat} (hf : f.map (·.1) = keys)
    (hkeys : BareKeys 30 keys ∧ keys.length ≤ 9) (hmn : 310 + 9 * n ≤ m) (h : ∀ p ∈ f, Json.Fits n p.2) :
    Json.Fits m (mkObj f) := by
  refine (fits_mkObj hf hkeys.1 h).mono ?_
  have hle := Nat.mul_le_mul_right (30 + n + 4) hkeys.2
  omega

theorem fits_view : Json.Fits 1300 view.toDict := by
  refine fits_object (n := 100) rfl (by decide) (by decide) ?_
  simp only [List.mem_cons, List.not_mem_nil, or_false, forall_eq_or_imp, forall_eq]
  exact ⟨fits_bare (by decide) (by decide), fits_outputRef, fits_digest digest⟩

theorem fits_recovery : Json.Fits 1300 recovery.toDict := by
  refine fits_object (n := 100) rfl (by decide) (by decide) ?_
  simp only [List.mem_cons, List.not_mem_nil, or_false, forall_eq_or_imp, forall_eq]
  exact ⟨fits_bare (by decide) (by decide), fits_bare (by decide) (by decide), fits_digest digest⟩

theorem fits_link : Json.Fits 1300 link.toDict := by
  refine fits_object (n := 100) rfl (by decide) (by decide) ?_
  simp only [List.mem_cons, List.not_mem_nil, or_false, forall_eq_or_imp, forall_eq]
  exact ⟨fits_one, fits_bare (by decide) (by decide), fits_receiptRef, fits_digest digest, fits_bare (by decide) (by decide)⟩

theorem fits_observation : Json.Fits 20000 observation.toDict := by
  have hmono : ∀ {v : Json}, Json.Fits 100 v → Json.Fits 1300 v := fun h => h.mono (by decide)
  have hempty : Json.Fits 100 (.arr []) := ⟨writable_arr nofun, by decide⟩
  refine fits_object (n := 1300) rfl (by decide) (by decide) ?_
  simp only [List.mem_cons, List.not_mem_nil, or_false, forall_eq_or_imp, forall_eq]
  exact ⟨hmono fits_one, hmono (fits_bare (by decide) (by decide)), hmono (fits_bare (by decide) (by decide)), hmono fits_outputRef,
    hmono (fits_digest digest), fits_sources.mono (by decide), hmono hempty, hmono fits_null, fits_link⟩

/-- An object of two short fields. -/
theorem fits_pair {k l : String} {v w : Json} (hkeys : BareKeys 30 [k, l]) (hv : Json.Fits 100 v) (hw : Json.Fits 100 w) :
    Json.Fits 1300 (mkObj [(k, v), (l, w)]) := by
  have hfields : ∀ p ∈ [(k, v), (l, w)], Json.Fits 100 p.2 := by
    simp only [List.mem_cons, List.not_mem_nil, or_false, forall_eq_or_imp, forall_eq]
    exact ⟨hv, hw⟩
  exact fits_object rfl ⟨hkeys, Nat.le_add_left 2 7⟩ (by decide) hfields

theorem fits_invocation (decision : PolicyDecision) : Json.Fits 20000 (invocation decision).toDict := by
  have hmono : ∀ {v : Json}, Json.Fits 100 v → Json.Fits 1300 v := fun h => h.mono (by decide)
  have hkeys : BareKeys 30 EngineInvocation.keys ∧ EngineInvocation.keys.length ≤ 9 := by decide
  have hid : Json.Fits 100 (.str "i") := fits_bare (by decide) (by decide)
  have hversion : Json.Fits 100 (.str "3.0.0") := fits_bare (by decide) (by decide)
  have hpolicy : Json.Fits 100 (.str "policy") := fits_bare (by decide) (by decide)
  have hsource : Json.Fits 100 sourceRef.json := fits_bare (by decide) (by decide)
  have hdecision : Json.Fits 100 (.str decision.name) := by
    cases decision
    · exact fits_bare (by decide) (by decide)
    · exact fits_bare (by decide) (by decide)
  refine fits_object (n := 1300) rfl hkeys (by decide) ?_
  simp only [List.mem_cons, List.not_mem_nil, or_false, forall_eq_or_imp, forall_eq]
  exact ⟨hmono fits_one, hmono hid, fits_pair (by decide) (fits_bare (by decide) (by decide)) hversion,
    fits_pair (by decide) (fits_bare (by decide) (by decide)) (fits_bare (by decide) (by decide)), hmono hsource,
    hmono (fits_digest digest), fits_sources.mono (by decide), fits_pair (by decide) hpolicy hdecision⟩

theorem fits_response (decision : PolicyDecision) : Json.Fits maxResponseBytes (response decision).toDict := by
  have hmono : ∀ {v : Json}, Json.Fits 100 v → Json.Fits 20000 v := fun h => h.mono (by decide)
  have hkeys : BareKeys 30 keys ∧ keys.length ≤ 9 := by decide
  refine fits_object (n := 20000) rfl hkeys (by decide) ?_
  simp only [List.mem_cons, List.not_mem_nil, or_false, forall_eq_or_imp, forall_eq]
  exact ⟨hmono fits_one, hmono fits_one, hmono (fits_bare (by decide) (by decide)), fits_view.mono (by decide),
    fits_invocation decision, fits_observation, fits_recovery.mono (by decide)⟩

theorem isPlain_response (decision : PolicyDecision) : IsPlain (response decision).toDict := by
  have hpair : ∀ (i : EngineInvocation), IsPlain i.engine ∧ IsPlain EngineInvocation.operation ∧ IsPlain i.policyAdmission := by
    intro i
    refine ⟨isPlain_mkObj ?_, isPlain_mkObj ?_, isPlain_mkObj ?_⟩
    all_goals
      simp only [List.mem_cons, List.not_mem_nil, or_false, forall_eq_or_imp, forall_eq]
      exact ⟨rfl, rfl⟩
  have hinvocation : IsPlain (invocation decision).toDict := by
    obtain ⟨hengine, hoperation, hpolicy⟩ := hpair (invocation decision)
    refine isPlain_mkObj ?_
    simp only [List.mem_cons, List.not_mem_nil, or_false, forall_eq_or_imp, forall_eq]
    exact ⟨rfl, rfl, hengine, hoperation, rfl, rfl, rfl, hpolicy⟩
  have hlink : IsPlain link.toDict := by
    refine isPlain_mkObj ?_
    simp only [List.mem_cons, List.not_mem_nil, or_false, forall_eq_or_imp, forall_eq]
    exact ⟨rfl, rfl, rfl, rfl, rfl⟩
  have hobservation : IsPlain observation.toDict := by
    refine isPlain_mkObj ?_
    simp only [List.mem_cons, List.not_mem_nil, or_false, forall_eq_or_imp, forall_eq]
    exact ⟨rfl, rfl, rfl, rfl, rfl, rfl, rfl, rfl, hlink⟩
  have hview : IsPlain view.toDict := by
    refine isPlain_mkObj ?_
    simp only [List.mem_cons, List.not_mem_nil, or_false, forall_eq_or_imp, forall_eq]
    exact ⟨rfl, rfl, rfl⟩
  have hrecovery : IsPlain recovery.toDict := by
    refine isPlain_mkObj ?_
    simp only [List.mem_cons, List.not_mem_nil, or_false, forall_eq_or_imp, forall_eq]
    exact ⟨rfl, rfl, rfl⟩
  refine isPlain_mkObj ?_
  simp only [List.mem_cons, List.not_mem_nil, or_false, forall_eq_or_imp, forall_eq]
  exact ⟨rfl, rfl, rfl, hview, hinvocation, hobservation, hrecovery⟩

end

/-- An instance can write the response, and the client makes a sealed view of it. -/
theorem exists_contextView (decision : PolicyDecision) (plan : ContextPlan) (href : plan.source.sourceRef = none)
    (hdigest : plan.source.sourceDigest = none) : ∃ raw v, contextView plan raw = .ok v ∧ v.verify = true ∧
      Json.strictLoads? raw = some (response decision).toDict := by
  obtain ⟨⟨raw, hraw⟩, hlength⟩ := fits_response decision
  rw [← Json.length_canonicalBytes hraw] at hlength
  have hload : Json.strictLoads? raw = some (response decision).toDict :=
    (Json.strictLoads?_canonical hraw).trans (congrArg some (isPlain_response decision))
  have hdocument : parseDocument (response decision).toDict = .ok (response decision) :=
    parseDocument_eq_ok.mpr ⟨reads_toDict view (invocation decision) observation recovery, bound_view, joined decision⟩
  have hparse : parse raw = .ok (response decision) := parse_eq_ok.mpr ⟨hlength, _, hload, hdocument⟩
  have hstdout : checkStdout raw = .ok () := by
    obtain ⟨t, -, hdata⟩ := Option.bind_eq_some_iff.mp hraw
    have hscalar : t.all Str.isScalar = true := by
      unfold Str.utf8? at hdata
      split_ifs at hdata with h
      exact h
    have hne : raw ≠ [] := by
      rintro rfl
      cases hload
    rw [checkStdout, ensure_true hne, ok_bind]
    exact ensure_true (by rw [Str.decodeUtf8?_utf8 hdata, Option.any_some, hscalar]) _
  have hsourceRef : ∀ r ∈ plan.source.sourceRef, r = recovery.sourceRef.1 := by simp [href]
  have hsourceDigest : ∀ d ∈ plan.source.sourceDigest, d = recovery.sourceDigest.1 := by simp [hdigest]
  obtain ⟨v, hview, hverify⟩ := exists_view (joined decision) bound_view (.inl rfl) (List.mem_singleton_self _) rfl rfl rfl
    hsourceRef hsourceDigest
  exact ⟨raw, v, contextView_eq_ok.mpr ⟨hstdout, _, hparse, hview⟩, hverify, hload⟩

theorem admitted_response (decision : PolicyDecision) : Admitted (response decision).toDict ↔ decision = .admitted := by
  have hreads := reads_toDict view (invocation decision) observation recovery
  have hdecision := hreads.invocation.decision
  rw [Admitted]
  exact (congrArg (· = _) hdecision).to_iff.trans (by simp [invocation, PolicyDecision.name_injective.eq_iff])

end InstanceResponse.Sample

open InstanceResponse.Sample in
/-- The policy admitted a use, and the view of it is sound evidence. -/
theorem exists_sound : ∃ plan raw v, contextView plan raw = .ok v ∧ v.verify = true ∧
    ∃ response, Json.strictLoads? raw = some response ∧ Sound plan response v := by
  obtain ⟨p, -, hmake⟩ := Session.Sample.exists_asks true
  have hsource : p.source = Session.Sample.source "/p" := (ContextPlan.make_eq_ok.mp hmake).2.2.2.source
  obtain ⟨raw, v, hview, hverify, hload⟩ := exists_contextView .admitted p (by rw [hsource]; rfl) (by rw [hsource]; rfl)
  exact ⟨p, raw, v, hview, hverify, _, hload, (sound_iff_admitted hview hverify hload).mpr ((admitted_response _).mpr rfl)⟩

open InstanceResponse.Sample in
/-- A response whose invocation the policy rejected has a sealed view. -/
theorem not_sound : ¬∀ (plan : ContextPlan) (raw : Bytes) (v : ContextView) (response : Json), contextView plan raw = .ok v →
    v.verify = true → Json.strictLoads? raw = some response → Sound plan response v := by
  intro h
  obtain ⟨p, -, hmake⟩ := Session.Sample.exists_asks true
  have hsource : p.source = Session.Sample.source "/p" := (ContextPlan.make_eq_ok.mp hmake).2.2.2.source
  obtain ⟨raw, v, hview, hverify, hload⟩ := exists_contextView .rejected p (by rw [hsource]; rfl) (by rw [hsource]; rfl)
  have hdecision : PolicyDecision.rejected = .admitted := (admitted_response _).mp (h p raw v _ hview hverify hload).admitted
  cases hdecision

end LeanCtx
