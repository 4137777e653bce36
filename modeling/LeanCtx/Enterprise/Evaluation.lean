import LeanCtx.Enterprise.Client
import LeanCtx.Json.Decoding
import LeanCtx.Session.Evidence

/-! The evaluation time of a plan. Where a call names the time at which its plan is evaluated, an execution is accepted only with
    that time; a materialization is accepted with the time that the host answers, whatever it is. -/

namespace LeanCtx

namespace Json

theorem plain_eq_str {v : Json} {s : Str} : v.plain = .str s ↔ v = .str s := by
  constructor
  · intro h
    cases v with
    | str t => exact h
    | null | bool | int | float | arr | obj => simp [plain] at h
  · rintro rfl
    rfl

end Json

namespace Planning
open Json

/-- The members that are not the plan's own are those of the extensions. -/
theorem Plan.get?_toDict (p : Plan) {k : String} (hk : k ∉ Plan.keys) :
    p.toDict.get? k = (Json.obj p.extensions).get? k := by
  have hkeys : ∀ j ∈ Plan.keys, Str.lit j ≠ Str.lit k := fun j hj h => hk (Str.lit_injective h ▸ hj)
  simp only [Plan.keys, List.mem_cons, List.not_mem_nil, or_false, forall_eq_or_imp, forall_eq] at hkeys
  obtain ⟨h1, h2, h3, h4, h5, h6, h7, h8, h9⟩ := hkeys
  have hskip : ∀ {l m : List (Str × Json)}, (∀ q ∈ l, q.1 ≠ Str.lit k) →
      (l ++ m).find? (fun q => q.1 = Str.lit k) = m.find? fun q => q.1 = Str.lit k := by
    intro l m hl
    have hnone : l.find? (fun q => q.1 = Str.lit k) = none := List.find?_eq_none.mpr fun q hq => by simpa using hl q hq
    rw [List.find?_append, hnone, Option.none_or]
  rw [Plan.toDict, Json.get?, Json.get?, find?_sortFields]
  congr 1
  rw [Plan.fields]
  simp only [List.append_assoc]
  rw [hskip, hskip, hskip, hskip, hskip]
  · split_ifs <;> simp [h9]
  · split_ifs <;> simp [h8]
  · split_ifs <;> simp [h7]
  · simp [h1, h2, h3, h5, h6]
  · simp only [field, List.mem_map, forall_exists_index, and_imp]
    rintro q a - rfl
    exact h4

theorem Plan.extensions_of_parse {v : Json} {p : Plan} (h : Plan.parse v = .ok p) : p.extensions = unreserved v Plan.keys := by
  simp only [Plan.parse, mapping, bind_eq_ok, ensure_eq_ok, exists_const] at h
  obtain ⟨-, -, extra, hextra, -, -, selections, -, -, budget, -, -, contextPlanId, -, taskId, -, digest, -, stats, -, refs, -,
    evidence, -, h⟩ := h
  have hplan : p.extensions = extra := by
    cases digest with
    | none =>
      cases h
      rfl
    | some d =>
      simp only [bind_eq_ok, ensure_eq_ok, exists_const, Except.ok.injEq] at h
      obtain ⟨_, -, -, rfl⟩ := h
      rfl
  rw [hplan, extensions_eq_ok hextra]

/-- A member that is not the plan's own is the one that the plan was read from. -/
theorem Plan.get?_of_parse {v : Json} {p : Plan} (h : Plan.parse v = .ok p) {k : String} (hk : k ∉ Plan.keys) :
    p.toDict.get? k = v.get? k := by
  rw [p.get?_toDict hk, Plan.extensions_of_parse h]
  cases v with
  | obj f =>
    have hall : (Plan.keys.all fun j => Str.lit k ≠ Str.lit j) = true := by
      rw [List.all_eq_true]
      intro j hj
      simpa using fun heq : k = j => hk (heq ▸ hj)
    rw [unreserved, Json.get?, Json.get?, find?_without, if_pos hall]
  | _ => rfl

theorem plan_of_response {raw : Bytes} {request : Request} {p : Plan} (h : response raw request = .ok p) :
    ∃ w, strictLoads? raw = some w ∧ Plan.parse (w.get "plan") = .ok p := by
  simp only [response, exactKeys, bind_eq_ok, ensure_eq_ok, exists_const, decode_eq_ok, Except.ok.injEq] at h
  obtain ⟨w, ⟨-, hw⟩, -, -, -, p', hp, -, -, rfl⟩ := h
  exact ⟨w, hw, hp⟩

/-- The plan of an answer is read from the document. -/
theorem SourcePlan.plan_of_parse {raw : Bytes} {request : Request} {sources : Option (List Source)} {x : SourcePlan}
    (h : SourcePlan.parse raw request sources = .ok x) :
    ∃ v, strictLoads? raw = some v ∧ Plan.parse ((v.get "result").get "plan").plain = .ok x.plan := by
  simp only [SourcePlan.parse, exactKeys, bind_eq_ok, ensure_eq_ok, exists_const, decode_eq_ok, canonical_eq_ok,
    Except.ok.injEq] at h
  obtain ⟨-, -, v, ⟨-, hv⟩, -, b, hb, plan, hplan, -, bindings, -, -, -, supplied, -, -, -, -, -, -, rfl⟩ := h
  obtain ⟨w, hw, hp⟩ := plan_of_response hplan
  rw [eq_plain_of_loads hb hw] at hp
  rw [get_plain] at hp
  exact ⟨v, hv, hp⟩

/-- The evaluation time that a document gives for its plan, null where there is none. -/
def documentTime (v : Json) : Json :=
  (((v.get "result").get "plan").get "context_plan_evaluation_v1").get "evaluation_time"

end Planning

namespace Enterprise
open Json Planning Execution

theorem documentTime_plain (v : Json) : documentTime v.plain = (documentTime v).plain := by
  rw [documentTime, documentTime, get_plain, get_plain, get_plain, get_plain]

/-- The evaluation time of a plan is the one of the document. -/
theorem evaluationTime_eq {raw : Bytes} {request : Planning.Request} {sources : Option (List Source)} {x : SourcePlan}
    (h : SourcePlan.parse raw request sources = .ok x) {v : Json} (hv : strictLoads? raw = some v) (t : Str) :
    evaluationTime x.plan = .str t ↔ documentTime v = .str t := by
  obtain ⟨v', hv', hp⟩ := SourcePlan.plan_of_parse h
  cases hv.symm.trans hv'
  have hget : x.plan.toDict.get "context_plan_evaluation_v1"
      = ((v.get "result").get "plan").plain.get "context_plan_evaluation_v1" := by
    rw [Json.get, Json.get, Plan.get?_of_parse hp (by decide)]
  rw [evaluationTime, hget, get_plain, get_plain, plain_eq_str]
  rfl

/-- The source plan in the envelope of a materialization. -/
def envelopePlan (v : Json) : Json := (v.get "materialization").get "plan"

theorem envelopePlan_plain (v : Json) : envelopePlan v.plain = (envelopePlan v).plain := by
  rw [envelopePlan, envelopePlan, get_plain, get_plain]

theorem Client.time_of_parseMaterialization {c : Client} {raw : Bytes} {request : Planning.Request} {k : Checked} {m : Materialization}
    (h : c.parseMaterialization raw request k = .ok m) :
    ∃ v, strictLoads? raw = some v ∧ ∀ t, evaluationTime m.plan.plan = .str t ↔ documentTime (envelopePlan v) = .str t := by
  simp only [parseMaterialization, parseMaterialized, exactKeys, bind_eq_ok, ensure_eq_ok, wrapping_eq_ok, loads_eq_ok,
    Planning.canonical_eq_ok, Except.ok.injEq] at h
  obtain ⟨v, hv, -, -, -, -, -, -, -, -, -, -, -, -, -, -, -, -, -, -, data, hdata, plan, hplan, -, -, -, -, -, -, -, -, -, -,
    -, -, -, -, rfl⟩ := h
  refine ⟨v, hv, fun t => ?_⟩
  obtain ⟨w, hw, -⟩ := SourcePlan.plan_of_parse hplan
  rw [evaluationTime_eq hplan hw, eq_plain_of_loads hdata hw, documentTime_plain, plain_eq_str]
  rfl

theorem Client.time_of_parsePresented {c : Client} {raw : Bytes} {request : Planning.Request} {k : Checked} {presenter : Presenter}
    {x : Presented} (h : c.parsePresented raw request k presenter = .ok x) :
    ∃ v, strictLoads? raw = some v ∧ ∀ t, evaluationTime x.materialization.plan.plan = .str t ↔
      documentTime (envelopePlan (v.get "materialization")) = .str t := by
  simp only [parsePresented, bind_eq_ok, ensure_eq_ok, wrapping_eq_ok, loads_eq_ok, Planning.canonical_eq_ok, Except.ok.injEq] at h
  obtain ⟨v, hv, -, -, -, -, inner, hinner, m, hm, grant, -, rfl⟩ := h
  obtain ⟨w, hw, htime⟩ := time_of_parseMaterialization hm
  refine ⟨v, hv, fun t => ?_⟩
  rw [htime, eq_plain_of_loads hinner hw, envelopePlan_plain, documentTime_plain, plain_eq_str, envelopePlan,
    get_mkObj]
  rfl

theorem time_of_parseV2 {raw : Bytes} {request : Planning.Request} {sourceIds : List Str} {task plan : Json} {tenantId : Str}
    {revision : Nat} {bindingDigest : Str} {time : Option Str} {r : Execution.ResponseV2}
    (h : Execution.parseV2 raw request sourceIds task plan tenantId revision bindingDigest time = .ok r) :
    ∀ t ∈ time, evaluationTime r.execution.sourcePlan.plan = .str t := by
  simp only [Execution.parseV2, bind_eq_ok, ensure_eq_ok] at h
  obtain ⟨-, -, value, -, -, -, -, -, -, -, found, -, -, -, -, -, -, -, -, -, h⟩ := h
  split at h
  · split at h
    · cases h
    · simp only [bind_eq_ok, ensure_eq_ok, Except.ok.injEq] at h
      obtain ⟨-, -, -, -, -, -, -, -, v1, -, execution, hexecution, -, -, rfl⟩ := h
      obtain ⟨-, -, -, -, htime⟩ := parse_joins hexecution
      exact htime
  · cases h

/-! ### Operations -/

/-- The operations that take an evaluation time and return a source plan. -/
inductive Operation
  | materialize
  | materializeV2 (presenter : Presenter)
  | execute (task plan : Json)
  | executeV2 (task plan : Json)

/-- The source plan that an operation returns. -/
def Client.sourcePlan (c : Client) (call : Call) : Operation → Except InstanceError SourcePlan
  | .materialize => do return (← c.contextMaterialize call).plan
  | .materializeV2 presenter => do return (← c.contextMaterializeV2 call presenter).materialization.plan
  | .execute task plan => do return (← c.contextExecute call task plan).sourcePlan
  | .executeV2 task plan => do return (← c.contextExecuteV2 call task plan).execution.sourcePlan

/-- A materialization is answered with the evaluation time of the call, where it has one. -/
def Client.Echoed (c : Client) (call : Call) : Operation → Prop
  | .materialize => ∀ k raw v, c.materializationAnswer call = .ok (k, raw) → strictLoads? raw = some v →
      ∀ t ∈ call.time, documentTime (envelopePlan v) = .str t
  | .materializeV2 presenter => ∀ k raw v, c.presentedAnswer call presenter = .ok (k, raw) → strictLoads? raw = some v →
      ∀ t ∈ call.time, documentTime (envelopePlan (v.get "materialization")) = .str t
  | .execute _ _ => True
  | .executeV2 _ _ => True

/-- The plan that an operation returns is evaluated at the time of the call where the operation is an execution, and else
    where the host answers with that time. -/
theorem evaluated_iff {c : Client} {call : Call} {op : Operation} {x : SourcePlan} (h : c.sourcePlan call op = .ok x) :
    (∀ t ∈ call.time, evaluationTime x.plan = .str t) ↔ c.Echoed call op := by
  cases op with
  | materialize =>
    simp only [Client.sourcePlan, Client.contextMaterialize, bind_eq_ok, pure_eq_ok] at h
    obtain ⟨m, ⟨⟨k, raw⟩, hanswer, hm⟩, rfl⟩ := h
    obtain ⟨v, hv, htime⟩ := Client.time_of_parseMaterialization hm
    constructor
    · intro hplan k' raw' v' hanswer' hv' t ht
      cases hanswer.symm.trans hanswer'
      cases hv.symm.trans hv'
      exact (htime t).mp (hplan t ht)
    · intro hhost t ht
      exact (htime t).mpr (hhost k raw v hanswer hv t ht)
  | materializeV2 presenter =>
    simp only [Client.sourcePlan, Client.contextMaterializeV2, bind_eq_ok, pure_eq_ok] at h
    obtain ⟨m, ⟨⟨k, raw⟩, hanswer, hm⟩, rfl⟩ := h
    obtain ⟨v, hv, htime⟩ := Client.time_of_parsePresented hm
    constructor
    · intro hplan k' raw' v' hanswer' hv' t ht
      cases hanswer.symm.trans hanswer'
      cases hv.symm.trans hv'
      exact (htime t).mp (hplan t ht)
    · intro hhost t ht
      exact (htime t).mpr (hhost k raw v hanswer hv t ht)
  | execute task plan =>
    simp only [Client.sourcePlan, Client.contextExecute, bind_eq_ok, pure_eq_ok] at h
    obtain ⟨r, ⟨prepared, -, raw, -, hr⟩, rfl⟩ := h
    obtain ⟨-, -, -, -, htime⟩ := parse_joins hr
    exact iff_of_true htime trivial
  | executeV2 task plan =>
    simp only [Client.sourcePlan, Client.contextExecuteV2, bind_eq_ok, pure_eq_ok] at h
    obtain ⟨r, ⟨prepared, -, raw, -, hr⟩, rfl⟩ := h
    exact iff_of_true (time_of_parseV2 hr) trivial

end Enterprise
end LeanCtx

namespace LeanCtx.Planning
open Json

/-! ### A plan of no sources -/

namespace PlanSample
open InstanceResponse.Sample (fits_bare fits_one fits_digest fits_object)

def request : Request := .sample

/-- The time of the call, and the one that is answered. -/
def asked : String := "2026-01-01T00:00:00Z"
def answered : String := "2026-01-02T00:00:00Z"

def evaluation : Json := mkObj [("evaluation_time", .str answered)]

theorem isText_planId : isText 256 true true (Str.lit "c") = true := by decide

def plan (d : Digest) : Plan :=
  ⟨⟨"c", isText_planId⟩, request.taskId, 0, [], some d, [], [], [], [(Str.lit "context_plan_evaluation_v1", evaluation)]⟩

def planFields (d : Digest) : List (String × Json) :=
  [("projection_digest", d.json), ("schema_version", .int 1), ("context_plan_id", .str "c"), ("task_id", .str "t"),
    ("budget_tokens", .int 0), ("selections", .arr []), ("context_plan_evaluation_v1", evaluation)]

theorem plan_toDict (d : Digest) : (plan d).toDict = mkObj (planFields d) := rfl

/-- The projection digest of the plan. -/
def projection : Digest := digestOf ((canonicalBytes? (plan InstanceResponse.Sample.digest).unsigned).getD [])

def sourcePlan (b : Digest) : SourcePlan := ⟨plan projection, [], b⟩

/-- The binding digest of the plan and of no sources. -/
def binding : Digest := digestOf ((canonicalBytes? (SourcePlan.bound (plan projection) [])).getD [])

def result : Json := resultDict (plan projection)

def document : Json := (sourcePlan binding).toDict

theorem fits_zero : Json.Fits 100 (.int 0) := ⟨writable_int (by decide), by decide⟩

theorem fits_nil : Json.Fits 100 (.arr []) := ⟨writable_arr nofun, by decide⟩

theorem fits_evaluation : Json.Fits 135 evaluation := by
  refine (fits_mkObj (n := 100) (k := 30) (l := ["evaluation_time"]) rfl (by decide) ?_).mono (by decide)
  exact List.forall_mem_singleton.mpr (fits_bare (by decide) (by decide))

theorem fits_plan : Json.Fits 1200 (plan projection).toDict := by
  have hmono : ∀ {v : Json}, Json.Fits 100 v → Json.Fits 135 v := fun h => h.mono (by decide)
  rw [plan_toDict]
  refine (fits_mkObj (n := 135) (k := 30) rfl (by decide) ?_).mono (by decide)
  simp only [planFields, List.mem_cons, List.not_mem_nil, or_false, forall_eq_or_imp, forall_eq]
  exact ⟨hmono (fits_digest _), hmono fits_one, hmono (fits_bare (by decide) (by decide)), hmono (fits_bare (by decide) (by decide)),
    hmono fits_zero, hmono fits_nil, fits_evaluation⟩

theorem fits_result : Json.Fits 5000 result := by
  have hmono : ∀ {v : Json}, Json.Fits 100 v → Json.Fits 1200 v := fun h => h.mono (by decide)
  refine (fits_mkObj (n := 1200) (k := 30) rfl (by decide) ?_).mono (by decide)
  simp only [List.mem_cons, List.not_mem_nil, or_false, forall_eq_or_imp, forall_eq]
  exact ⟨hmono fits_one, hmono fits_one, hmono (fits_bare (by decide) (by decide)), fits_plan⟩

theorem fits_document : Json.Fits 16000 document := by
  have hmono : ∀ {v : Json}, Json.Fits 100 v → Json.Fits 5000 v := fun h => h.mono (by decide)
  refine (fits_mkObj (n := 5000) (k := 30) rfl (by decide) ?_).mono (by decide)
  simp only [List.mem_cons, List.not_mem_nil, or_false, forall_eq_or_imp, forall_eq]
  exact ⟨fits_result, hmono fits_nil, hmono (fits_digest _)⟩

theorem isPlain_evaluation : IsPlain evaluation := isPlain_mkObj (List.forall_mem_singleton.mpr rfl)

theorem isPlain_plan : IsPlain (plan projection).toDict := by
  rw [plan_toDict]
  refine isPlain_mkObj ?_
  simp only [planFields, List.mem_cons, List.not_mem_nil, or_false, forall_eq_or_imp, forall_eq]
  exact ⟨rfl, rfl, rfl, rfl, rfl, rfl, isPlain_evaluation⟩

theorem isPlain_result : IsPlain result := by
  refine isPlain_mkObj ?_
  simp only [List.mem_cons, List.not_mem_nil, or_false, forall_eq_or_imp, forall_eq]
  exact ⟨rfl, rfl, rfl, isPlain_plan⟩

theorem isPlain_document : IsPlain document := by
  refine isPlain_mkObj ?_
  simp only [List.mem_cons, List.not_mem_nil, or_false, forall_eq_or_imp, forall_eq]
  exact ⟨isPlain_result, rfl, rfl⟩

theorem unreserved_plan : unreserved (mkObj (planFields projection)) Plan.keys = [(Str.lit "context_plan_evaluation_v1", evaluation)] := by
  have hnodup : (((planFields projection).map fun p => (Str.lit p.1, p.2)).map (·.1)).Nodup := by
    rw [List.map_map]
    change ((planFields projection).map (Str.lit ∘ Prod.fst)).Nodup
    rw [← List.map_map]
    exact List.Nodup.map Str.lit_injective (by decide)
  have hperm := (perm_sortFields hnodup).filter fun p => Plan.keys.all fun k => p.1 ≠ Str.lit k
  exact List.perm_singleton.mp (hperm.trans (List.Perm.of_eq (by simp [planFields, Plan.keys, Str.lit_inj])))

theorem extensions_plan : Planning.extensions (mkObj (planFields projection)) Plan.keys =
    .ok [(Str.lit "context_plan_evaluation_v1", evaluation)] := by
  rw [Planning.extensions, unreserved_plan]
  decide

theorem parse_plan : Plan.parse (mkObj (planFields projection)) = .ok (plan projection) := by
  have hget : ∀ k, (mkObj (planFields projection)).get k = (((planFields projection).find? fun p => p.1 = k).map (·.2)).getD .null :=
    fun k => Json.get_mkObj _ _
  have hget? : ∀ k, (mkObj (planFields projection)).get? k = ((planFields projection).find? fun p => p.1 = k).map (·.2) :=
    fun k => Json.get?_mkObj _ _
  have hdigest : optional (Enterprise.validateDigest · "plan.projection_digest") (mkObj (planFields projection)) "projection_digest" =
      .ok (some projection) := by
    rw [optional, hget?]
    exact congrArg (some <$> ·) (Enterprise.validateDigest_eq_ok.mpr rfl)
  have hwritable : (canonicalBytes? (plan projection).unsigned).isSome = true := by
    change (canonicalBytes? (plan InstanceResponse.Sample.digest).unsigned).isSome = true
    decide
  obtain ⟨b, hb⟩ := Option.isSome_iff_exists.mp hwritable
  have hprojection : projection = digestOf b := congrArg (fun o : Option Bytes => digestOf (o.getD [])) hb
  have hnone : ∀ k ∈ ["provider_stats", "policy_decision_refs", "evidence"], (mkObj (planFields projection)).get? k = none := by
    intro k hk
    rw [hget?]
    simp only [List.mem_cons, List.not_mem_nil, or_false] at hk
    obtain rfl | rfl | rfl := hk <;> rfl
  have hrequired : ∀ k ∈ Plan.required, ((mkObj (planFields projection)).get? k).isSome = true := by
    simp [Plan.required, planFields]
  have hselections : Plan.items Selection.parse ((mkObj (planFields projection)).get "selections") "plan.selections" = .ok [] := by
    rw [hget]
    rfl
  simp only [Plan.parse, mapping, bind_eq_ok, ensure_eq_ok, exists_const]
  refine ⟨rfl, List.all_eq_true.mpr hrequired, _, extensions_plan, 1, integer_eq_ok.mpr ⟨hget _, by decide⟩, [], hselections, by decide,
    0, integer_eq_ok.mpr ⟨hget _, by decide⟩, by decide, (plan projection).contextPlanId,
    text_eq_ok.mpr (hget _), (plan projection).taskId, text_eq_ok.mpr (hget _), _, hdigest, [], ?_, [], ?_, [], ?_, ?_⟩
  · rw [Plan.present, hnone _ (by decide)]
  · rw [Plan.present, hnone _ (by decide)]
  · rw [Plan.present, hnone _ (by decide)]
  · simp only [bind_eq_ok, ensure_eq_ok, exists_const]
    exact ⟨b, canonical_eq_ok.mpr hb, hprojection, rfl⟩

theorem response_result {data : Bytes} (h : canonicalBytes? result = some data) : response data request = .ok (plan projection) := by
  have hload : strictLoads? data = some result := (strictLoads?_canonical h).trans (congrArg some isPlain_result)
  have hget : ∀ k, result.get k = _ := fun k => Json.get_mkObj _ k
  have hlength : data.length ≤ maxResponseBytes := by
    rw [length_canonicalBytes h]
    exact fits_result.2.trans (by decide)
  simp only [response, exactKeys, header, bind_eq_ok, ensure_eq_ok, exists_const, decode_eq_ok]
  refine ⟨result, ⟨hlength, hload⟩, hasExactly_mkObj_self _, ⟨1, integer_eq_ok.mpr ⟨hget _, by decide⟩, 1,
    integer_eq_ok.mpr ⟨hget _, by decide⟩, hget _⟩, plan projection, ?_, rfl, by decide, rfl⟩
  rw [hget]
  exact parse_plan

theorem toDict_request : ∃ v, request.toDict = .ok v := by
  have htrue : request.toDict.toBool = true := by decide +kernel
  cases h : request.toDict with
  | ok v => exact ⟨v, rfl⟩
  | error e =>
    rw [h] at htrue
    cases htrue

/-- The plan is accepted with its bindings, which are none. -/
theorem exists_parse : ∃ data, canonicalBytes? document = some data ∧ SourcePlan.parse data request none = .ok (sourcePlan binding) := by
  obtain ⟨data, hdata⟩ := fits_document.1
  obtain ⟨r, hr⟩ := fits_result.1
  have hload : strictLoads? data = some document := (strictLoads?_canonical hdata).trans (congrArg some isPlain_document)
  have hget : ∀ k, document.get k = _ := fun k => Json.get_mkObj _ k
  have hlength : data.length ≤ maxResponseBytes := by
    rw [length_canonicalBytes hdata]
    exact fits_document.2.trans (by decide)
  have hbound : Writable (SourcePlan.bound (plan projection) []) := writable_arr (by
    simp only [List.mem_cons, List.not_mem_nil, or_false, forall_eq_or_imp, forall_eq]
    exact ⟨fits_result.1, fits_nil.1⟩)
  obtain ⟨b, hb⟩ := hbound
  have hbinding : binding = digestOf b := congrArg (fun o : Option Bytes => digestOf (o.getD [])) hb
  obtain ⟨v, hv⟩ := toDict_request
  refine ⟨data, hdata, ?_⟩
  simp only [SourcePlan.parse, exactKeys, bind_eq_ok, ensure_eq_ok, exists_const, decode_eq_ok, canonical_eq_ok]
  refine ⟨v, hv, document, ⟨hlength, hload⟩, hasExactly_mkObj_self _, r, ?_, plan projection, response_result hr, rfl, [], ?_, (), ?_,
    binding, Enterprise.validateDigest_eq_ok.mpr (hget _), b, hb, hbinding, (), rfl, rfl⟩
  · rw [hget]
    exact hr
  · rw [hget]
    rfl
  · simp only [SourcePlan.checkBindings, bind_eq_ok, ensure_eq_ok, exists_const]
    exact ⟨by decide, rfl, by decide⟩

end PlanSample
end LeanCtx.Planning

namespace LeanCtx.Enterprise
open Json Planning Execution

namespace MaterializationSample
open PlanSample
open InstanceResponse.Sample (fits_bare fits_one fits_digest fits_object)

def tenant : Uuid := ⟨"00000000-0000-4000-8000-000000000001", by decide⟩

def call : Call := ⟨request, [], 0, binding.1, some asked⟩

def checked : Checked := ⟨[], 0, binding⟩

variable (content : String)

def bytes : Bytes := ((Str.lit content).utf8?).getD []

def fields : List (String × Json) :=
  [("schema_version", .int 1), ("transport_version", .int 1), ("engine_interface_version", .str Planning.interfaceVersion),
    ("plan", document), ("materialized_digest", (digestOf (bytes content)).json), ("materialized_token_count", .int 0),
    ("content", .str content)]

def envelope : Json :=
  mkObj [("schema_version", .int 1), ("tenant_id", tenant.json), ("governance_revision", .int 0),
    ("materialization", mkObj (fields content))]

def materialization : Materialization := ⟨0, sourcePlan binding, digestOf (bytes content), 0, content⟩

theorem check_call : call.check = .ok checked := by
  have hdigest : validateDigest (.str binding.1) "expected_binding_digest" = .ok binding := validateDigest_eq_ok.mpr rfl
  simp only [Call.check, bind_eq_ok, catching_eq_ok]
  exact ⟨[], rfl, 0, rfl, binding, hdigest, rfl⟩

/-- A short text of printable ASCII. -/
abbrev Short : Prop :=
  (∀ c ∈ Str.lit content, IsBare c) ∧ (Str.lit content).length ≤ 90 ∧ (Str.lit content).all Str.isScalar = true ∧
    (bytes content).length ≤ 90

variable {content}

theorem fits_content (h : Short content) : Json.Fits 100 (.str content) := fits_bare h.1 h.2.1

theorem fits_material (h : Short content) : Json.Fits 113000 (mkObj (fields content)) := by
  have hmono : ∀ {v : Json}, Json.Fits 100 v → Json.Fits 16000 v := fun h => h.mono (by decide)
  refine (fits_mkObj (n := 16000) (k := 30) (l := materializationKeys) rfl (by decide) ?_).mono (by decide)
  simp only [fields, List.mem_cons, List.not_mem_nil, or_false, forall_eq_or_imp, forall_eq]
  exact ⟨hmono fits_one, hmono fits_one, hmono (fits_bare (by decide) (by decide)), fits_document, hmono (fits_digest _),
    hmono fits_zero, hmono (fits_content h)⟩

theorem fits_envelope (h : Short content) : Json.Fits 500000 (envelope content) := by
  have hmono : ∀ {v : Json}, Json.Fits 100 v → Json.Fits 113000 v := fun h => h.mono (by decide)
  refine (fits_mkObj (n := 113000) (k := 30) (l := envelopeKeys) rfl (by decide) ?_).mono (by decide)
  simp only [List.mem_cons, List.not_mem_nil, or_false, forall_eq_or_imp, forall_eq]
  exact ⟨hmono fits_one, hmono (fits_bare (by decide) (by decide)), hmono fits_zero, fits_material h⟩

theorem isPlain_material (content : String) : IsPlain (mkObj (fields content)) := by
  refine isPlain_mkObj ?_
  simp only [fields, List.mem_cons, List.not_mem_nil, or_false, forall_eq_or_imp, forall_eq]
  exact ⟨rfl, rfl, rfl, isPlain_document, rfl, rfl, rfl⟩

theorem isPlain_envelope (content : String) : IsPlain (envelope content) := by
  refine isPlain_mkObj ?_
  simp only [List.mem_cons, List.not_mem_nil, or_false, forall_eq_or_imp, forall_eq]
  exact ⟨rfl, rfl, rfl, isPlain_material content⟩

/-- Any short content is accepted with the plan. -/
theorem parse_material (h : Short content) :
    parseMaterialized (mkObj (fields content)) request checked = .ok (materialization content) := by
  have hget : ∀ k, (mkObj (fields content)).get k = (((fields content).find? fun p => p.1 = k).map (·.2)).getD .null :=
    fun k => Json.get_mkObj _ _
  obtain ⟨data, hdata, hplan⟩ := exists_parse
  have hbytes : (Str.lit content).utf8? = some (bytes content) := by
    rw [bytes, Str.utf8?, if_pos h.2.2.1, Option.getD_some]
  have hlength : (bytes content).length ≤ maxContentBytes := h.2.2.2.trans (by decide)
  have hcontent : materializedContent ((mkObj (fields content)).get "content") = .ok (Str.lit content, digestOf (bytes content)) := by
    have hstr : (mkObj (fields content)).get "content" = .str content := hget _
    rw [hstr, materializedContent, hbytes]
    exact (ensure_bind_eq_ok ..).mpr ⟨hlength, rfl⟩
  simp only [parseMaterialized, exactKeys, bind_eq_ok, ensure_eq_ok, exists_const, wrapping_eq_ok, Planning.canonical_eq_ok]
  refine ⟨hasExactly_mkObj_self _, hget _, hget _, hget _, data, ?_, _, hplan, (), rfl, rfl, digestOf (bytes content),
    validateDigest_eq_ok.mpr (hget _), 0, u64_eq_ok.mpr ⟨hget _, by decide⟩, le_rfl, _, hcontent, rfl, rfl⟩
  rw [hget]
  exact hdata

theorem parse_envelope (h : Short content) {post : String → Bytes → Option Capability → Except InstanceError Bytes} {data : Bytes}
    (hdata : canonicalBytes? (envelope content) = some data) :
    Client.parseMaterialization ⟨tenant, post⟩ data request checked = .ok (materialization content) := by
  have hload : strictLoads? data = some (envelope content) :=
    (strictLoads?_canonical hdata).trans (congrArg some (isPlain_envelope content))
  have hget : ∀ k, (envelope content).get k = _ := fun k => Json.get_mkObj _ k
  have htenant : canonicalUuid tenant.1 "tenant_id" = .ok tenant := by decide
  simp only [Client.parseMaterialization, exactKeys, bind_eq_ok, ensure_eq_ok, exists_const, loads_eq_ok]
  refine ⟨envelope content, hload, hasExactly_mkObj_self _, hget _, (), ?_, 0, u64_eq_ok.mpr ⟨hget _, by decide⟩, rfl, ?_⟩
  · have hstr : (envelope content).get "tenant_id" = .str tenant.1 := hget _
    rw [hstr, Client.tenant, htenant]
    rfl
  · have hmaterial : (envelope content).get "materialization" = mkObj (fields content) := hget _
    rw [hmaterial]
    exact parse_material h

/-- The host that answers with a text, whatever is asked. -/
def client (raw : Bytes) : Client := ⟨tenant, fun _ _ _ => .ok raw⟩

def bodyFields : List (String × Json) :=
  [("planning", mkObj request.fields), ("source_ids", .arr []), ("expected_governance_revision", .int 0),
    ("expected_binding_digest", binding.json)]

theorem body_call (more : List (String × Json)) :
    call.body checked (.ok more) = .ok (bodyFields ++ more ++ [("planning_evaluation_time", .str asked)]) := by
  have hplanning : request.toDict = .ok (mkObj request.fields) := by
    obtain ⟨v, hv⟩ := toDict_request
    rw [hv, Request.toDict_eq_ok hv]
  have htime : call.timeField = .ok [("planning_evaluation_time", .str asked)] := by
    have hread : Planning.timestamp (.str asked) "planning_evaluation_time" = .ok ⟨asked, by decide⟩ :=
      timestamp_eq_ok.mpr rfl
    rw [Call.timeField]
    exact (congrArg (· >>= _) hread).trans rfl
  have hcall : call.request.toDict = .ok (mkObj request.fields) := hplanning
  rw [Call.body, hcall, ok_bind, ok_bind, htime, ok_bind]
  rfl

theorem fits_request : Json.Fits 950 (mkObj request.fields) := by
  refine (fits_mkObj (n := 100) (k := 30) rfl (by decide) ?_).mono (by decide)
  simp only [Request.fields, List.mem_cons, List.not_mem_nil, or_false, forall_eq_or_imp, forall_eq]
  exact ⟨fits_one, fits_one, fits_bare (by decide) (by decide), fits_bare (by decide) (by decide), fits_bare (by decide) (by decide),
    fits_one, fits_one⟩

/-- What is sent is within its bound, also with one more short member. -/
theorem payload_body {more : List (String × Json)} (hmore : more = [] ∨ ∃ v, more = [("presenter", v)] ∧ Json.Fits 950 v)
    (message : String) : ∃ b, canonicalBytes? (mkObj (bodyFields ++ more ++ [("planning_evaluation_time", .str asked)])) = some b ∧
    payload (mkObj (bodyFields ++ more ++ [("planning_evaluation_time", .str asked)])) maxRequestBytes message = .ok b := by
  have hmono : ∀ {v : Json}, Json.Fits 100 v → Json.Fits 950 v := fun h => h.mono (by decide)
  have hfields : ∀ p ∈ bodyFields ++ more ++ [("planning_evaluation_time", Json.str asked)], Json.Fits 950 p.2 := by
    intro p hp
    rw [List.append_assoc, List.mem_append, List.mem_append, List.mem_singleton] at hp
    rcases hp with hp | hp | rfl
    · revert p
      simp only [bodyFields, List.mem_cons, List.not_mem_nil, or_false, forall_eq_or_imp, forall_eq]
      exact ⟨fits_request, hmono fits_nil, hmono fits_zero, hmono (fits_digest _)⟩
    · rcases hmore with rfl | ⟨v, rfl, hv⟩
      · cases hp
      · rw [List.mem_singleton.mp hp]
        exact hv
    · exact hmono (fits_bare (by decide) (by decide))
  have hfits : Json.Fits 6000 (mkObj (bodyFields ++ more ++ [("planning_evaluation_time", .str asked)])) := by
    rcases hmore with rfl | ⟨v, rfl, -⟩
    · exact (fits_mkObj (n := 950) (k := 30) rfl (by decide) hfields).mono (by decide)
    · refine (fits_mkObj (n := 950) (k := 30) (l := ["planning", "source_ids", "expected_governance_revision",
        "expected_binding_digest", "presenter", "planning_evaluation_time"]) rfl (by decide) hfields).mono (by decide)
  obtain ⟨⟨b, hb⟩, hlength⟩ := hfits
  refine ⟨b, hb, ?_⟩
  rw [payload, Planning.canonical_eq_ok.mpr hb, ok_bind, ensure_true, ok_bind]
  rw [length_canonicalBytes hb]
  exact hlength.trans (by decide)

/-- A materialization is accepted whose evaluation time is not the one that was asked for. -/
theorem exists_materialize (content : String) (h : Short content) : ∃ data, canonicalBytes? (envelope content) = some data ∧
    (client data).contextMaterialize call = .ok (materialization content) := by
  obtain ⟨⟨data, hdata⟩, hlength⟩ := fits_envelope h
  obtain ⟨b, -, hpayload⟩ := payload_body (.inl rfl) "Enterprise instance materialization request exceeds its byte bound"
  have hbody : call.body checked (.ok []) = _ := body_call []
  have hpost : (client data).postJson materializationPath b maxMaterializationBytes none = .ok data := by
    rw [Client.postJson, client, ok_bind, ensure_true, ok_bind]
    rw [length_canonicalBytes hdata]
    exact hlength.trans (by decide)
  refine ⟨data, hdata, ?_⟩
  simp only [Client.contextMaterialize, Client.materializationAnswer, check_call, ok_bind, hbody, hpayload, hpost]
  exact parse_envelope h hdata

end MaterializationSample

open MaterializationSample in
theorem exists_evaluated : ∃ c call op x, Client.sourcePlan c call op = .ok x ∧
    ((∀ t ∈ call.time, evaluationTime x.plan = .str t) ↔ c.Echoed call op) := by
  obtain ⟨data, -, h⟩ := exists_materialize "" (by decide)
  have hplan : (client data).sourcePlan call .materialize = .ok (materialization "").plan := by
    rw [Client.sourcePlan, h]
    rfl
  exact ⟨_, _, _, _, hplan, evaluated_iff hplan⟩

open MaterializationSample in
/-- A host answers with another evaluation time than the one of the call, and its plan is returned. -/
theorem not_evaluated : ¬∀ (c : Client) (call : Call) (op : Operation) (x : SourcePlan), c.sourcePlan call op = .ok x →
    ∀ t ∈ call.time, evaluationTime x.plan = .str t := by
  intro hall
  obtain ⟨data, -, h⟩ := exists_materialize "" (by decide)
  have hplan : (client data).sourcePlan call .materialize = .ok (materialization "").plan := by
    rw [Client.sourcePlan, h]
    rfl
  have htime := hall _ _ _ _ hplan _ (Option.mem_some_self _)
  have hanswered : evaluationTime (PlanSample.plan PlanSample.projection) = .str PlanSample.answered := by
    rw [evaluationTime, PlanSample.plan_toDict, Json.get_mkObj]
    exact Json.get_mkObj _ _
  exact absurd (hanswered.symm.trans htime) (by decide)

end LeanCtx.Enterprise
