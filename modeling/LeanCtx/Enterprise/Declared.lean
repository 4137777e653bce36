import LeanCtx.Enterprise.Evaluation
import LeanCtx.Enterprise.Lineage
import LeanCtx.Json.Kinds

/-! The plan that is declared and the plan that is executed. They are compared with Python's `==`, for which a Boolean, an integer
    and a float may be one value, so the executed plan is the declared one exactly where the host keeps the kinds of its numbers. -/

namespace LeanCtx

namespace Json

theorem without_sortFields (keys : List String) (f : List (Str × Json)) :
    (Json.obj (sortFields f)).without keys = .obj (sortFields (f.filter fun p => keys.all fun k => p.1 ≠ Str.lit k)) := by
  rw [without, obj.injEq]
  refine Agree.eq_of_ordered (fun j => ?_) (ordered_without keys (ordered_sortFields _)) (ordered_sortFields _)
  rw [find?_without, find?_sortFields, find?_sortFields, find?_without]

theorem plain_without (keys : List String) (v : Json) : (v.without keys).plain = v.plain.without keys := by
  cases v with
  | obj f =>
    rw [without, plain, plain, plainFields_eq, plainFields_eq, without_sortFields, List.filter_map]
    rfl
  | _ => rfl

theorem loose_without (keys : List String) (v : Json) : (v.without keys).loose = v.loose.without keys := by
  cases v with
  | obj f =>
    rw [without, loose, loose, looseFields_eq, looseFields_eq, without, List.filter_map]
    rfl
  | float x =>
    cases hx : x.toInt? <;> simp [without, loose, hx]
  | _ => rfl

/-- Equal values are equal without some of their keys. -/
theorem pyEq_without {a b : Json} (h : pyEq a b = true) (keys : List String) : pyEq (a.without keys) (b.without keys) = true := by
  rw [pyEq_iff] at h ⊢
  rw [plain_without, plain_without, loose_without, loose_without, h]

/-- A key that is set is not seen where it is left out. -/
theorem without_put {keys : List String} {k : String} (hk : k ∈ keys) (w v : Json) : (v.put k w).without keys = v.without keys := by
  cases v with
  | obj f =>
    rw [put, without, without, obj.injEq, List.filter_append, List.filter_filter]
    have hlast : ([(Str.lit k, w)].filter fun p => keys.all fun j => p.1 ≠ Str.lit j) = [] := by
      rw [List.filter_eq_nil_iff, List.forall_mem_singleton, List.all_eq_true]
      exact fun hall => by simpa using hall k hk
    rw [hlast, List.append_nil]
    refine List.filter_congr fun p _ => ?_
    rw [Bool.and_eq_left_iff_imp, List.all_eq_true]
    intro hall
    exact hall k hk
  | _ => rfl

theorem get_without {keys : List String} {k : String} (hk : k ∉ keys) (v : Json) : (v.without keys).get k = v.get k := by
  cases v with
  | obj f =>
    have hall : (keys.all fun j => Str.lit k ≠ Str.lit j) = true := by
      rw [List.all_eq_true]
      intro j hj
      simpa using fun heq : k = j => hk (heq ▸ hj)
    rw [without, Json.get, Json.get, Json.get?, Json.get?, find?_without, if_pos hall]
  | _ => rfl

theorem get?_put_of_ne {j k : String} (h : j ≠ k) (w v : Json) : (v.put k w).get? j = v.get? j := by
  cases v with
  | obj f =>
    have hlast : [(Str.lit k, w)].find? (fun p => p.1 = Str.lit j) = none := by simp [Ne.symm h]
    rw [put, Json.get?, Json.get?, List.find?_append, hlast, Option.or_none, List.find?_filter]
    congr 2
    funext p
    by_cases hp : p.1 = Str.lit j
    · simp [hp, h]
    · simp [hp]
  | _ => rfl

end Json

namespace Enterprise.Execution
open Json Planning

/-- A plan that is accepted is read without the optional members that are null. -/
theorem validatePlan_eq_ok {v : Json} {taskId : Str} {protocol allow : Bool} {p : Json}
    (h : validatePlan v taskId protocol allow = .ok p) : p = v.dropNull planOptional := by
  simp only [validatePlan, bind_eq_ok, ensure_eq_ok, Except.ok.injEq] at h
  obtain ⟨-, -, -, -, -, -, planTask, -, -, -, -, -, budget, -, -, -, -, -, capabilities, -, -, -, -, -, -, -, -, -, -, -, -, -, -, -,
    -, -, -, -, -, -, -, -, -, -, -, -, -, -, -, -, rfl⟩ := h
  rfl

/-- What the host adds to a declared plan. -/
def added (plan : Json) : List String := "context_plan_id" :: if (plan.get? decisionRef).isSome then [] else [decisionRef]

theorem expectedPlan_eq_ok {plan executed expected : Json} (h : expectedPlan plan executed = .ok expected) :
    expected.without (added plan) = plan.without (added plan) ∧
      (plan.get? decisionRef = none → ∃ s, s ≠ [] ∧ executed.get decisionRef = .str s) := by
  have hne : decisionRef ≠ "context_plan_id" := by decide
  rw [expectedPlan, get?_put_of_ne hne] at h
  split_ifs at h with hsome
  · cases h
    refine ⟨without_put List.mem_cons_self _ _, fun hnone => ?_⟩
    rw [hnone] at hsome
    cases hsome
  · have hadded : added plan = ["context_plan_id", decisionRef] := by rw [added, if_neg hsome]
    split at h
    · next s hs =>
      simp only [bind_eq_ok, ensure_eq_ok, Except.ok.injEq] at h
      obtain ⟨-, hs0, rfl⟩ := h
      rw [hadded, without_put (by simp), without_put (by simp)]
      exact ⟨rfl, fun _ => ⟨s, hs0, hs⟩⟩
    · cases h

/-- The executed plan is the declared one but for what the host adds, which is bound to the source plan. -/
structure Preserves (plan : Json) (r : Response) : Prop where
  declared : (r.executionPlan.without (added plan)).plain = (plan.without (added plan)).plain
  contextPlanId : r.executionPlan.get "context_plan_id" = r.sourcePlan.plan.contextPlanId.json
  decision : plan.get? decisionRef = none → ∃ s, s ≠ [] ∧ r.executionPlan.get decisionRef = .str s
  bound : ∀ k ∈ ["context_budget_tokens", "capability_ids", "provider", "model"],
    (r.executionPlan.get k).plain = (plan.get k).plain

/-- The plan that an answer says was executed holds numbers of the kinds of the declared one. -/
def SameNumbers (plan : Json) (raw : Bytes) : Prop :=
  ∀ v, strictLoads? raw = some v →
    SameKinds ((((v.get "execution").get "execution_plan").dropNull planOptional).without (added plan)) (plan.without (added plan))

/-- An accepted answer preserves the declared plan exactly where the host keeps the kinds of its numbers. -/
theorem preserves_iff {raw : Bytes} {request : Planning.Request} {sourceIds : List Str} {task plan : Json} {tenantId : Str}
    {revision : Nat} {bindingDigest : Str} {time : Option Str} {r : Response}
    (h : parse raw request sourceIds task plan tenantId revision bindingDigest time = .ok r) :
    Preserves plan r ↔ SameNumbers plan raw := by
  obtain ⟨v, hv, -, hexecuted, -⟩ := parse_joins h
  simp only [executedPlan, bind_eq_ok, ensure_eq_ok, Except.ok.injEq] at hexecuted
  obtain ⟨executed, hplan, -, hid, -, -, -, -, -, -, expected, hexpected, -, hequal, heq⟩ := hexecuted
  have hdropped := validatePlan_eq_ok hplan
  rw [heq] at hdropped hid hequal hexpected
  obtain ⟨hwithout, hdecision⟩ := expectedPlan_eq_ok hexpected
  have hloose := pyEq_without (pyEq_symm hequal) (added plan)
  rw [hwithout] at hloose
  constructor
  · intro hpreserves v' hv'
    cases hv.symm.trans hv'
    rw [← hdropped]
    exact (plain_eq_iff hloose).mp hpreserves.declared
  · intro hkinds
    have hsame := hkinds v hv
    rw [← hdropped] at hsame
    have hdeclared := (plain_eq_iff hloose).mpr hsame
    refine ⟨hdeclared, hid, hdecision, fun k hk => ?_⟩
    have hout : k ∉ added plan := by
      have hadded : added plan ⊆ ["context_plan_id", decisionRef] := by
        rw [added]
        split_ifs <;> simp
      intro hmem
      have hnot := hadded hmem
      simp only [List.mem_cons, List.not_mem_nil, or_false] at hk hnot
      rcases hk with rfl | rfl | rfl | rfl <;> revert hnot <;> decide
    have hget := congrArg (fun w : Json => w.get k) hdeclared
    simp only [get_plain, get_without hout] at hget
    exact hget

end Enterprise.Execution

/-! ### An executed plan with a number for a Boolean -/

namespace Enterprise.Execution
open Json Planning

theorem isRef_hex {start : String} (h : ∀ c ∈ Str.lit start, IsBare c) (hlength : (Str.lit start).length ≤ 448) (d : Digest) :
    isRef 512 (Str.lit start ++ d.hex) = true := by
  have hbare := InstanceResponse.Sample.isBare_append h d.isBare_hex
  have hhex : d.hex.length = 64 := by rw [Digest.hex, List.length_drop, d.isBare.1]
  refine isRef_of_ascii (fun c hc => ?_) (List.ne_nil_of_length_pos ?_) ?_
  · have hc := hbare c hc
    unfold IsBare at hc
    omega
  · rw [List.length_append, hhex]
    omega
  · rw [List.length_append, hhex]
    omega

/-- An invocation that supports a version and names its input is read back. -/
theorem Invocation.parse_toDict (i : Invocation) (hsemver : isSemver i.engineVersion.1 = true)
    (hlength : 0 < i.sourceRefs.length ∧ i.sourceRefs.length ≤ Instance.maxRefs) (hrefs : i.sourceRefs.Nodup ∧ i.inputRef ∈ i.sourceRefs)
    (hwritable : Writable i.toDict ∧ Writable (i.toDict.get "engine") ∧ Writable (i.toDict.get "operation") ∧
      Writable (i.toDict.get "policy_admission")) : Invocation.parse i.toDict = .ok i := by
  have hget : ∀ k, i.toDict.get k = _ := fun k => Json.get_mkObj _ k
  have hengine : i.toDict.get "engine" = mkObj [("engine_id", i.engineId.json), ("engine_version", i.engineVersion.json)] := hget _
  have hoperation : i.toDict.get "operation" = mkObj [("capability_id", .str capability), ("capability_version", .str capabilityVersion)] :=
    hget _
  have hpolicy : i.toDict.get "policy_admission" = mkObj [("policy_ref", i.policyRef.json), ("decision", .str "admitted")] := hget _
  have hrefs' : i.toDict.get "source_refs" = .arr (i.sourceRefs.map Ref.json) := hget _
  have hmap : (i.sourceRefs.map Ref.json).mapM (fun w => ref w "execution invocation source refs are invalid") = .ok i.sourceRefs := by
    exact (Instance.mapM_eq_ok_map fun _ _ => Instance.stringOf_eq_ok).mpr rfl
  simp only [Invocation.parse, mapping_eq_ok, exactKeys, bind_eq_ok, ensure_eq_ok, exists_const, plainText, text_eq_ok, exactVersion_eq_ok,
    hengine, hoperation, hpolicy, wrapping_eq_ok, validateDigest_eq_ok, hrefs']
  rw [hengine, hoperation, hpolicy] at hwritable
  obtain ⟨hself, hengines, hoperations, hpolicies⟩ := hwritable
  refine ⟨⟨rfl, hself⟩, hasExactly_mkObj_self _, hget _, i.invocationId, hget _, ⟨rfl, hengines⟩, hasExactly_mkObj_self _, i.engineId,
    Json.get_mkObj _ _, i.engineVersion, Json.get_mkObj _ _, hsemver, ⟨rfl, hoperations⟩, hasExactly_mkObj_self _,
    ⟨Json.get_mkObj _ _, Json.get_mkObj _ _⟩, ⟨rfl, hpolicies⟩, ⟨hasExactly_mkObj_self _, Json.get_mkObj _ _⟩, i.policyRef,
    Json.get_mkObj _ _, i.inputRef, Instance.stringOf_eq_ok.mpr (hget _), i.inputDigest, hget _, ?_⟩
  rw [List.length_map]
  exact ⟨hlength, i.sourceRefs, hmap, hrefs, rfl⟩

/-- A receipt is read back. -/
theorem Receipt.parse_toDict (r : Receipt) (hwritable : Writable r.toDict) : Receipt.parse r.toDict = .ok r := by
  have hget : ∀ k, r.toDict.get k = _ := fun k => Json.get_mkObj _ k
  have href : isRef 512 (Str.lit "id:" ++ r.receiptDigest.1) = true := by
    have hbare := InstanceResponse.Sample.isBare_append (s := "id:") (by decide) r.receiptDigest.isBare.2
    refine isRef_of_ascii (fun c hc => ?_) (List.append_ne_nil_of_left_ne_nil (by decide) _) ?_
    · have hc := hbare c hc
      unfold IsBare at hc
      omega
    · rw [List.length_append, r.receiptDigest.isBare.1]
      decide
  simp only [Receipt.parse, mapping_eq_ok, exactKeys, bind_eq_ok, ensure_eq_ok, exists_const, text_eq_ok, wrapping_eq_ok,
    validateDigest_eq_ok]
  exact ⟨⟨rfl, hwritable⟩, hasExactly_mkObj_self _, r.receiptId, hget _, r.receiptDigest, hget _, ⟨_, href⟩,
    Instance.stringOf_eq_ok.mpr (hget _), rfl, hget _, rfl⟩

/-- An invocation whose references are its input and the three digests of what was executed passes. -/
theorem validateLineage_eq_ok {i : Invocation} {sourcePlan plan task : Digest}
    (hinput : i.inputRef.1 = Str.lit inputRefPrefix ++ i.inputDigest.hex)
    (hrefs : i.sourceRefs.map (·.1) = (lineageKinds i.inputDigest sourcePlan task plan).map reference) :
    validateLineage i sourcePlan plan task = .ok () := by
  obtain ⟨found, hfound, hcount⟩ := ((apart_lineageKinds i.inputDigest sourcePlan task plan).counted_iff _).mpr (.of_eq hrefs)
  have hlength : i.sourceRefs.length = 4 := by
    have hmap := congrArg List.length hrefs
    rwa [List.length_map] at hmap
  simp only [validateLineage, bind_eq_ok, ensure_eq_ok, exists_const, digestSuffix_eq_ok, List.all_eq_true, decide_eq_true_eq]
  rw [List.mapM_map] at hfound
  exact ⟨hlength, i.inputDigest, hinput, rfl, found, hfound, hcount⟩

namespace ExecutionSample
open PlanSample
open InstanceResponse.Sample (view link bound_view fits_bare fits_one fits_digest fits_object)

def declaredFields (x : Json) : List (String × Json) :=
  [("schema_version", .int 1), ("plan_id", .str "p"), ("task_id", .str "t"), ("context_budget_tokens", .int 0),
    ("context_strategy", .str "minimal"), ("knowledge_refs", .arr []), ("capability_ids", .arr [.str capability]),
    ("model", .str localNative), ("provider", .str localNative), ("reasoning_allocation_milli", .int 0), ("max_retries", .int 0),
    ("fallback_refs", .arr []), ("stop_condition", .str "manual"), ("expected_cost_micros", .int 0),
    ("expected_quality_milli", .int 0), ("expected_latency_ms", .int 0), ("capability_bindings", .arr [localBinding]), ("x", x)]

def declared (x : Json) : Json := mkObj (declaredFields x)

def executed : Json := mkObj (declaredFields (.int 1) ++ [("context_plan_id", .str "c"), (decisionRef, .str "d")])

theorem exists_executedPlan (x : Json)
    (h : (executedPlan executed (declared x) request (plan InstanceResponse.Sample.digest)).toBool = true) :
    ∃ p, executedPlan executed (declared x) request (plan projection) = .ok p := by
  have hplan : executedPlan executed (declared x) request (plan projection) =
      executedPlan executed (declared x) request (plan InstanceResponse.Sample.digest) := rfl
  rw [hplan]
  cases hp : executedPlan executed (declared x) request (plan InstanceResponse.Sample.digest) with
  | ok p => exact ⟨p, rfl⟩
  | error e =>
    rw [hp] at h
    cases h


def sourceDigest : Digest := digestOf ((canonicalBytes? document).getD [])
def planDigest : Digest := digestOf ((canonicalBytes? executed).getD [])
def taskDigest : Digest := digestOf ((canonicalBytes? (mkObj [])).getD [])

def reference (start : String) (hstart : (∀ c ∈ Str.lit start, IsBare c) ∧ (Str.lit start).length ≤ 448) (d : Digest) : Ref 512 :=
  ⟨Str.lit start ++ d.hex, isRef_hex hstart.1 hstart.2 d⟩

def inputRef : Ref 512 := reference inputRefPrefix (by decide) InstanceResponse.Sample.digest

def references : List (Ref 512) :=
  [inputRef, reference evidencePrefix (by decide) sourceDigest, reference taskRefPrefix (by decide) taskDigest,
    reference planRefPrefix (by decide) planDigest]

theorem nodup_references : references.Nodup := by
  refine List.Nodup.of_map (fun r : Ref 512 => r.1.head?) ?_
  have hheads : references.map (fun r : Ref 512 => r.1.head?) = [some 105, some 97, some 116, some 112] := rfl
  rw [hheads]
  decide

def lineage : Instance.Lineage := ⟨references, by decide, nodup_references⟩

def invocation : Invocation :=
  ⟨⟨"i", by decide⟩, ⟨"e", by decide⟩, ⟨"1.0.0", by decide⟩, inputRef, InstanceResponse.Sample.digest, references, ⟨"policy", by decide⟩⟩

def observation : EngineObservation :=
  ⟨InstanceResponse.Sample.observation.invocationId, .succeeded, view.outputRef, view.outputDigest, lineage, [], none, some link⟩

def receipt : Receipt := ⟨⟨"r", by decide⟩, InstanceResponse.Sample.digest⟩

def execution : Json :=
  mkObj [("schema_version", .int 1), ("transport_version", .int 1), ("engine_interface_version", .str Planning.interfaceVersion),
    ("source_plan", document), ("execution_plan", executed), ("view", view.toDict), ("invocation", invocation.toDict),
    ("observation", observation.toDict), ("canonical_receipt", receipt.toDict)]

def answer : Json :=
  mkObj [("schema_version", .int 1), ("tenant_id", .str "tenant"), ("governance_revision", .int 0), ("execution", execution)]

theorem writable_executed : Writable executed := by
  rw [Writable, ← Option.isSome_iff_exists]
  decide +kernel

theorem isPlain_executed : IsPlain executed := by
  unfold IsPlain
  decide

theorem writable_reference (r : Ref 512) : Writable r.json := by
  have hr := r.2
  simp only [isRef, Bool.and_eq_true, List.all_eq_true, decide_eq_true_eq] at hr
  exact writable_str (List.all_eq_true.mpr fun c hc => isScalar_of_lt ((hr.2 c hc).2.trans_lt (by decide)))

theorem writable_bare {s : Str} (h : (∀ c ∈ s, IsBare c) ∧ s.length ≤ 90) : Writable (.str s) := (fits_bare h.1 h.2).1

theorem writable_references : Writable (.arr (references.map Ref.json)) := by
  refine writable_arr fun v hv => ?_
  obtain ⟨r, -, rfl⟩ := List.mem_map.mp hv
  exact writable_reference r

theorem writable_invocation : Writable invocation.toDict ∧ Writable (invocation.toDict.get "engine") ∧
    Writable (invocation.toDict.get "operation") ∧ Writable (invocation.toDict.get "policy_admission") := by
  have hpair : ∀ {k l : String} {v w : Json}, Writable v → Writable w → Writable (mkObj [(k, v), (l, w)]) := by
    intro k l v w hv hw
    refine writable_mkObj ?_
    simp only [List.mem_cons, List.not_mem_nil, or_false, forall_eq_or_imp, forall_eq]
    exact ⟨hv, hw⟩
  have hengine : Writable (mkObj [("engine_id", invocation.engineId.json), ("engine_version", invocation.engineVersion.json)]) :=
    hpair (writable_bare (by decide)) (writable_bare (by decide))
  have hoperation : Writable (mkObj [("capability_id", .str capability), ("capability_version", .str capabilityVersion)]) :=
    hpair (writable_bare (by decide)) (writable_bare (by decide))
  have hpolicy : Writable (mkObj [("policy_ref", invocation.policyRef.json), ("decision", .str "admitted")]) :=
    hpair (writable_bare (by decide)) (writable_bare (by decide))
  have hget : ∀ k, invocation.toDict.get k = _ := fun k => Json.get_mkObj _ k
  refine ⟨writable_mkObj ?_, by rw [hget]; exact hengine, by rw [hget]; exact hoperation, by rw [hget]; exact hpolicy⟩
  simp only [List.mem_cons, List.not_mem_nil, or_false, forall_eq_or_imp, forall_eq]
  exact ⟨fits_one.1, writable_bare (by decide), hengine, hoperation, writable_reference _, (fits_digest _).1, writable_references, hpolicy⟩

theorem writable_receipt : Writable receipt.toDict := by
  refine writable_mkObj ?_
  simp only [List.mem_cons, List.not_mem_nil, or_false, forall_eq_or_imp, forall_eq]
  have hid : (∀ c ∈ Str.lit "id:" ++ receipt.receiptDigest.1, IsBare c) ∧ (Str.lit "id:" ++ receipt.receiptDigest.1).length ≤ 90 := by
    refine ⟨InstanceResponse.Sample.isBare_append (by decide) receipt.receiptDigest.isBare.2, ?_⟩
    rw [List.length_append, receipt.receiptDigest.isBare.1]
    decide
  exact ⟨writable_bare (by decide), writable_bare hid, (fits_digest _).1, writable_bare (by decide)⟩

theorem writable_observation : Writable observation.toDict := by
  refine writable_mkObj ?_
  simp only [List.mem_cons, List.not_mem_nil, or_false, forall_eq_or_imp, forall_eq]
  exact ⟨fits_one.1, writable_bare (by decide), writable_bare (by decide), InstanceResponse.Sample.fits_outputRef.1, (fits_digest _).1,
    writable_references, writable_arr nofun, writable_null, InstanceResponse.Sample.fits_link.1⟩

theorem writable_execution : Writable execution := by
  refine writable_mkObj ?_
  simp only [List.mem_cons, List.not_mem_nil, or_false, forall_eq_or_imp, forall_eq]
  exact ⟨fits_one.1, fits_one.1, writable_bare (by decide), fits_document.1, writable_executed, InstanceResponse.Sample.fits_view.1,
    writable_invocation.1, writable_observation, writable_receipt⟩

theorem writable_answer : Writable answer := by
  refine writable_mkObj ?_
  simp only [List.mem_cons, List.not_mem_nil, or_false, forall_eq_or_imp, forall_eq]
  exact ⟨fits_one.1, writable_bare (by decide), fits_zero.1, writable_execution⟩

theorem isPlain_answer : IsPlain answer := by
  have hpair : ∀ {k l : String} {v w : Json}, IsPlain v → IsPlain w → IsPlain (mkObj [(k, v), (l, w)]) := by
    intro k l v w hv hw
    refine isPlain_mkObj ?_
    simp only [List.mem_cons, List.not_mem_nil, or_false, forall_eq_or_imp, forall_eq]
    exact ⟨hv, hw⟩
  have hview : IsPlain view.toDict := by
    refine isPlain_mkObj ?_
    simp only [List.mem_cons, List.not_mem_nil, or_false, forall_eq_or_imp, forall_eq]
    exact ⟨rfl, rfl, rfl⟩
  have hinvocation : IsPlain invocation.toDict := by
    refine isPlain_mkObj ?_
    simp only [List.mem_cons, List.not_mem_nil, or_false, forall_eq_or_imp, forall_eq]
    exact ⟨rfl, rfl, hpair rfl rfl, hpair rfl rfl, rfl, rfl, rfl, hpair rfl rfl⟩
  have hlink : IsPlain link.toDict := by
    refine isPlain_mkObj ?_
    simp only [List.mem_cons, List.not_mem_nil, or_false, forall_eq_or_imp, forall_eq]
    exact ⟨rfl, rfl, rfl, rfl, rfl⟩
  have hobservation : IsPlain observation.toDict := by
    refine isPlain_mkObj ?_
    simp only [List.mem_cons, List.not_mem_nil, or_false, forall_eq_or_imp, forall_eq]
    exact ⟨rfl, rfl, rfl, rfl, rfl, rfl, rfl, rfl, hlink⟩
  have hreceipt : IsPlain receipt.toDict := by
    refine isPlain_mkObj ?_
    simp only [List.mem_cons, List.not_mem_nil, or_false, forall_eq_or_imp, forall_eq]
    exact ⟨rfl, rfl, rfl, rfl⟩
  have hexecution : IsPlain execution := by
    refine isPlain_mkObj ?_
    simp only [List.mem_cons, List.not_mem_nil, or_false, forall_eq_or_imp, forall_eq]
    exact ⟨rfl, rfl, rfl, isPlain_document, isPlain_executed, hview, hinvocation, hobservation, hreceipt⟩
  refine isPlain_mkObj ?_
  simp only [List.mem_cons, List.not_mem_nil, or_false, forall_eq_or_imp, forall_eq]
  exact ⟨rfl, rfl, rfl, hexecution⟩

theorem digestOf_writable {v : Json} {b : Bytes} (h : canonicalBytes? v = some b) : digestOf ((canonicalBytes? v).getD []) = digestOf b := by
  rw [h, Option.getD_some]

/-- The parts of the answer are accepted and joined. -/
theorem joined_execution (f : InstanceView → Invocation → EngineObservation → Receipt → Response) :
    joined execution (mkObj []) f = .ok (f view invocation observation receipt) := by
  have hget : ∀ k, execution.get k = _ := fun k => Json.get_mkObj _ k
  have hview : InstanceView.parse (execution.get "view") = .ok view := by
    rw [hget]
    exact InstanceView.parse_eq_ok.mpr ⟨view.reads_toDict, bound_view⟩
  have hinvocation : Invocation.parse (execution.get "invocation") = .ok invocation := by
    rw [hget]
    exact Invocation.parse_toDict invocation (by decide) ⟨by decide, by decide⟩ ⟨nodup_references, List.mem_cons_self⟩
      writable_invocation
  have hof : observation.Of (Str.lit "i") := by
    have hsample := InstanceResponse.Sample.of_observation
    exact ⟨rfl, hsample.paired, hsample.measured, hsample.linked, hsample.succeeded, hsample.failed, hsample.receipt⟩
  have hobservation : EngineObservation.parse (execution.get "observation") invocation.invocationId.1 = .ok observation := by
    rw [hget]
    exact EngineObservation.parse_eq_ok.mpr ⟨observation.reads_toDict, hof⟩
  have hreceipt : Receipt.parse (execution.get "canonical_receipt") = .ok receipt := by
    rw [hget]
    exact Receipt.parse_toDict receipt writable_receipt
  obtain ⟨s, hs⟩ := fits_document.1
  obtain ⟨p, hp⟩ := writable_executed
  obtain ⟨t, ht⟩ : Writable (mkObj []) := writable_mkObj nofun
  have hlineage : validateLineage invocation (digestOf s) (digestOf p) (digestOf t) = .ok () := by
    rw [← digestOf_writable hs, ← digestOf_writable hp, ← digestOf_writable ht]
    exact validateLineage_eq_ok rfl rfl
  simp only [joined, bind_eq_ok, ensure_eq_ok, exists_const, Planning.canonical_eq_ok]
  refine ⟨view, hview, ⟨rfl, rfl⟩, by decide, invocation, hinvocation, observation, hobservation, rfl, rfl, ⟨rfl, rfl⟩, s, ?_, p, ?_, t,
    ht, (), hlineage, receipt, hreceipt, rfl⟩
  · rw [hget]
    exact hs
  · rw [hget]
    exact hp

/-- The answer is accepted for a plan that declares a value which equals 1. -/
theorem exists_accepted (x : Json)
    (h : (executedPlan executed (declared x) request (plan InstanceResponse.Sample.digest)).toBool = true) :
    ∃ raw r, strictLoads? raw = some answer ∧
      parse raw request [] (mkObj []) (declared x) "tenant" 0 binding.1 none = .ok r := by
  obtain ⟨raw, hraw⟩ := writable_answer
  obtain ⟨p, hp⟩ := exists_executedPlan x h
  obtain ⟨data, hdata, hplan⟩ := exists_parse
  have hload : strictLoads? raw = some answer := (strictLoads?_canonical hraw).trans (congrArg some isPlain_answer)
  have hget : ∀ k, answer.get k = _ := fun k => Json.get_mkObj _ k
  have hexecution : answer.get "execution" = execution := hget _
  have hfields : ∀ k, execution.get k = _ := fun k => Json.get_mkObj _ k
  refine ⟨raw, ⟨"tenant", 0, sourcePlan binding, p, view, invocation, observation, receipt⟩, hload, ?_⟩
  simp only [parse, mapping_eq_ok, exactKeys, bind_eq_ok, ensure_eq_ok, exists_const, loads_eq_ok, exactVersion_eq_ok,
    integer_eq_ok, wrapping_eq_ok, Planning.canonical_eq_ok]
  refine ⟨answer, hload, hasExactly_mkObj_self _, hget _, hget _, 0, ⟨hget _, by decide⟩, rfl, ?_⟩
  rw [hexecution]
  refine ⟨⟨rfl, writable_execution⟩, hasExactly_mkObj_self _, hfields _, hfields _, hfields _, sourcePlan binding, ⟨data, ?_, hplan⟩,
    (), rfl, binding, validateDigest_eq_ok.mpr rfl, rfl, p, ?_, (by rintro _ ⟨⟩), joined_execution _⟩
  · rw [hfields]
    exact hdata
  · rw [hfields]
    exact hp

end ExecutionSample

open ExecutionSample in
theorem exists_preserves : ∃ raw request sourceIds task plan tenantId revision bindingDigest time r,
    parse raw request sourceIds task plan tenantId revision bindingDigest time = .ok r ∧ (Preserves plan r ↔ SameNumbers plan raw) := by
  obtain ⟨raw, r, -, h⟩ := exists_accepted (.int 1) (by decide +kernel)
  exact ⟨_, _, _, _, _, _, _, _, _, _, h, preserves_iff h⟩

open ExecutionSample in
/-- A plan that declares a Boolean is executed with a number. -/
theorem not_preserves : ¬∀ (raw : Bytes) (request : Planning.Request) (sourceIds : List Str) (task plan : Json) (tenantId : Str)
    (revision : Nat) (bindingDigest : Str) (time : Option Str) (r : Response),
    parse raw request sourceIds task plan tenantId revision bindingDigest time = .ok r → Preserves plan r := by
  intro hall
  obtain ⟨raw, r, hload, h⟩ := exists_accepted (.bool true) (by decide +kernel)
  have hkinds := (preserves_iff h).mp (hall _ _ _ _ _ _ _ _ _ _ h) answer hload
  have hexecuted : (answer.get "execution").get "execution_plan" = executed := by
    have hexecution : answer.get "execution" = execution := Json.get_mkObj _ _
    rw [hexecution]
    exact Json.get_mkObj _ _
  rw [hexecuted] at hkinds
  exact absurd hkinds (by decide)

end Enterprise.Execution
end LeanCtx
