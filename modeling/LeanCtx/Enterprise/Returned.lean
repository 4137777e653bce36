import LeanCtx.Enterprise.NormalForm
import LeanCtx.Enterprise.Unencodable
import LeanCtx.Workspace.Agreement

/-! What the two readers of plans return. Its canonical text is accepted for the same request and the same sources, and read as the
    document that it was written from, with the same digests. -/

namespace LeanCtx

namespace Json

/-- The members of an object that is written are written, each in no more bytes than the object. -/
theorem fits_of_mem_mkObj {f : List (String × Json)} (h : Writable (mkObj f)) (hnodup : (f.map (·.1)).Nodup) {p : String × Json} (hp : p ∈ f) :
    Fits (byteLength (mkObj f)) p.2 := by
  have hall := writable_of_mkObj hnodup h
  refine ⟨hall p hp, ?_⟩
  rw [byteLength_mkObj hall hnodup (List.ne_nil_of_mem hp)]
  have hle := List.single_le_sum (l := f.map fun q => (quote (Str.lit q.1)).utf8Length + byteLength q.2 + 2) (fun _ _ => Nat.zero_le _) _
    (List.mem_map_of_mem hp)
  omega

theorem writable_sorted {f : List (Str × Json)} (h : ∀ p ∈ f, p.1.all Str.isScalar = true ∧ Writable p.2) :
    Writable (.obj (sortFields f)) := by
  rw [writable_iff, plain_sorted]
  refine hasText_obj fun p hp => ?_
  obtain ⟨q, hq, rfl⟩ := List.mem_map.mp (mem_of_mem_sortFields hp)
  exact ⟨(h q hq).1, writable_iff.mp (h q hq).2⟩

end Json

namespace Planning
open Json

/-! ### Plans are writable -/

theorem isScalar_text {max : Nat} {controls nul : Bool} (t : Text max controls nul) : t.1.all Str.isScalar = true := by
  have h := t.2
  simp only [isText, Bool.and_eq_true] at h
  exact h.1.1.1.1.1

theorem writable_text {max : Nat} {controls nul : Bool} (t : Text max controls nul) : Writable t.json := writable_str (isScalar_text t)

theorem writable_timestamp (t : Timestamp) : Writable t.json := by
  have h := t.2
  rw [isTimestamp, Bool.and_eq_true] at h
  exact writable_text ⟨t.1, h.1⟩

theorem writable_projection (d : ProjectionDigest) : Writable d.json := by
  have hhex := d.2
  simp only [isHexDigest, Bool.and_eq_true, List.all_eq_true] at hhex
  have hscalar : (Str.dropPrefix "sha256:" d.1).all Str.isScalar = true := List.all_eq_true.mpr fun c hc => by
    have h := hhex.2 c hc
    simp only [isHexadecimal, isDigit, Bool.or_eq_true, Bool.and_eq_true, decide_eq_true_eq] at h
    exact isScalar_of_lt (by omega)
  refine writable_str ?_
  unfold Str.dropPrefix at hscalar
  split_ifs at hscalar with h
  · obtain ⟨t, ht⟩ := h
    rw [← ht, List.drop_left] at hscalar
    rw [← ht, List.all_append, hscalar]
    decide
  · exact hscalar

theorem writable_nat {n : Nat} (h : n ≤ maxU64) : Writable (.int n) := by
  have hdigits : (natText n).length ≤ 20 := (length_natText_le (by decide)).mpr (h.trans_lt (by decide))
  exact writable_int (hdigits.trans (by decide))

theorem writable_extension {depth : Nat} {v : Json} (h : extensionValue depth v = .ok ()) : Writable v := by
  have hserialized : serialized v = .ok () := by
    cases v <;> simp only [extensionValue, bind_eq_ok, ensure_eq_ok, exists_const] at h
    case obj | arr =>
      obtain ⟨-, -, _, -, h⟩ := h
      exact h
    all_goals simp only [h]
  simp only [serialized, bind_eq_ok, canonical_eq_ok] at hserialized
  obtain ⟨b, hb, -⟩ := hserialized
  exact ⟨b, hb⟩

theorem Extensible.writable {f : List (Str × Json)} (h : Extensible f) : ∀ p ∈ f, p.1.all Str.isScalar = true ∧ Writable p.2 := by
  intro p hp
  obtain ⟨k, hk⟩ := h.key p hp
  have heq : p.1 = k.1 := Json.str.inj (text_eq_ok.mp hk)
  exact ⟨heq ▸ isScalar_text k, writable_extension (h.value p hp)⟩

theorem writable_field {α : Type} {key : String} {f : α → Json} {o : Option α} (h : ∀ a, Writable (f a)) :
    ∀ p ∈ field key f o, p.1.all Str.isScalar = true ∧ Writable p.2 := by
  intro p hp
  obtain ⟨a, -, rfl⟩ := List.mem_map.mp hp
  exact ⟨isScalar_lit key, h a⟩

theorem Descriptor.writable (d : Descriptor) : Writable d.toDict := by
  refine writable_mkObj ?_
  simp only [List.mem_cons, List.not_mem_nil, or_false, forall_eq_or_imp, forall_eq]
  exact ⟨writable_text _, writable_text _, writable_lit _, writable_digest _, writable_optional writable_text _,
    writable_optional writable_text _, writable_optional writable_timestamp _, writable_optional writable_timestamp _,
    writable_optional (fun _ => writable_lit _) _, writable_lit _⟩

theorem Selection.Valid.writable {s : Selection} (h : s.Valid) : Writable s.toDict := by
  refine writable_sorted fun p hp => ?_
  simp only [List.mem_append, List.mem_cons, List.not_mem_nil, or_false] at hp
  obtain ((rfl | rfl | rfl | rfl | rfl) | hp) | hp := hp
  · exact ⟨isScalar_lit _, writable_text _⟩
  · exact ⟨isScalar_lit _, writable_text _⟩
  · exact ⟨isScalar_lit _, writable_lit _⟩
  · exact ⟨isScalar_lit _, writable_nat h.tokens⟩
  · exact ⟨isScalar_lit _, writable_map (fun c : ReasonCode => writable_lit c.name) _⟩
  · exact writable_field writable_projection p hp
  · exact writable_field writable_text p hp

theorem Evidence.Valid.writable {e : Evidence} (h : e.Valid) : Writable e.toDict := by
  refine writable_sorted fun p hp => ?_
  simp only [List.mem_append, List.mem_cons, List.not_mem_nil, or_false] at hp
  obtain (((hp | rfl | rfl | rfl | rfl) | hp) | hp) := hp
  · split_ifs at hp
    · rw [List.mem_singleton.mp hp]
      exact ⟨isScalar_lit _, writable_int (by decide)⟩
    · cases hp
  · exact ⟨isScalar_lit _, writable_lit _⟩
  · exact ⟨isScalar_lit _, writable_text _⟩
  · exact ⟨isScalar_lit _, writable_text _⟩
  · exact ⟨isScalar_lit _, writable_lit _⟩
  · exact writable_field writable_text p hp
  · exact h.extensible.writable p hp

theorem Stats.Valid.writable {s : Stats} (h : s.Valid) : Writable s.toDict := by
  refine writable_mkObj ?_
  simp only [List.mem_cons, List.not_mem_nil, or_false, forall_eq_or_imp, forall_eq]
  exact ⟨writable_nat h.offered, writable_nat (h.selected.trans h.offered), writable_nat h.tokens⟩

theorem Plan.Valid.writable {p : Plan} (h : p.Valid) : Writable p.toDict := by
  refine writable_sorted fun q hq => ?_
  simp only [List.mem_append, List.mem_cons, List.not_mem_nil, or_false, fields] at hq
  obtain hq | (((((rfl | rfl | rfl | rfl | rfl) | hq) | hq) | hq) | hq) := hq
  · exact writable_field writable_digest q hq
  · exact ⟨isScalar_lit _, writable_int (by decide)⟩
  · exact ⟨isScalar_lit _, writable_text _⟩
  · exact ⟨isScalar_lit _, writable_text _⟩
  · exact ⟨isScalar_lit _, writable_nat h.budget⟩
  · refine ⟨isScalar_lit _, writable_arr fun v hv => ?_⟩
    obtain ⟨s, hs, rfl⟩ := List.mem_map.mp hv
    exact (h.selections s hs).writable
  · split_ifs at hq
    · cases hq
    · rw [List.mem_singleton.mp hq]
      refine ⟨isScalar_lit _, writable_sorted fun r hr => ?_⟩
      obtain ⟨x, hx, rfl⟩ := List.mem_map.mp hr
      exact ⟨isScalar_text x.1, (h.stats x hx).writable⟩
  · split_ifs at hq
    · cases hq
    · rw [List.mem_singleton.mp hq]
      exact ⟨isScalar_lit _, writable_map writable_text _⟩
  · split_ifs at hq
    · cases hq
    · rw [List.mem_singleton.mp hq]
      refine ⟨isScalar_lit _, writable_arr fun v hv => ?_⟩
      obtain ⟨e, he, rfl⟩ := List.mem_map.mp hv
      exact (h.evidence e he).writable
  · exact h.extensible.writable q hq

theorem writable_result {p : Plan} (h : p.Valid) : Writable (resultDict p) := by
  refine writable_mkObj ?_
  simp only [List.mem_cons, List.not_mem_nil, or_false, forall_eq_or_imp, forall_eq]
  exact ⟨writable_int (by decide), writable_int (by decide), writable_lit _, h.writable⟩

/-! ### Results -/

/-- A plan that a request is answered with. -/
structure Plan.Answers (p : Plan) (request : Request) : Prop where
  encodes : ∃ v, request.toDict = .ok v
  valid : p.Valid
  task : p.taskId = request.taskId
  budget : p.budgetTokens ≤ request.budgetTokens.1

theorem valid_of_response {raw : Bytes} {request : Request} {p : Plan} (h : response raw request = .ok p) :
    p.Valid ∧ p.taskId = request.taskId ∧ p.budgetTokens ≤ request.budgetTokens.1 := by
  simp only [response, exactKeys, bind_eq_ok, ensure_eq_ok, exists_const, Except.ok.injEq] at h
  obtain ⟨v, -, -, ⟨⟩, -, p, hp, htask, hbudget, rfl⟩ := h
  exact ⟨Plan.valid_of_parse hp, htask, hbudget⟩

theorem resultDict_plain {p : Plan} {stats : List (Identifier × Stats)} (hstats : p.Sorts stats) :
    resultDict (p.plain stats) = (resultDict p).plain := by
  rw [resultDict, resultDict, plain_mkObj, Plan.toDict_plain hstats]
  rfl

/-- The canonical text of a result is read as the result, in order. -/
theorem response_canonical {p : Plan} {request : Request} (h : p.Answers request) {b : Bytes} (hb : canonicalBytes? (resultDict p) = some b)
    (hlength : b.length ≤ maxResponseBytes) : ∃ stats, p.Sorts stats ∧ response b request = .ok (p.plain stats) := by
  obtain ⟨stats, hstats, hparse⟩ := Plan.exists_parse_toDict h.valid
  refine ⟨stats, hstats, ?_⟩
  have hload : strictLoads? b = some (resultDict p).plain := strictLoads?_canonical hb
  have hplain : (resultDict p).plain = mkObj [("schema_version", .int schemaVersion), ("transport_version", .int transportVersion),
      ("engine_interface_version", .str interfaceVersion), ("plan", p.toDict.plain)] := plain_mkObj _
  have hget : ∀ k, (resultDict p).plain.get k = _ := fun k => hplain ▸ Json.get_mkObj _ k
  simp only [response, exactKeys, bind_eq_ok, ensure_eq_ok, exists_const, decode_eq_ok, header_eq_ok]
  refine ⟨_, ⟨hlength, hload⟩, by rw [hplain]; exact hasExactly_mkObj_self _, ⟨hget _, hget _, hget _⟩, p.plain stats, ?_, h.task, h.budget, rfl⟩
  rw [hget]
  exact hparse

/-! ### Context plans -/

/-- `parse_context_plan(raw, request)`. -/
def ContextPlan.parse (raw : Bytes) (request : Request) : Except InstanceError Plan := do
  let _ ← request.toDict
  response raw request

theorem ContextPlan.answers_of_parse {raw : Bytes} {request : Request} {p : Plan} (h : ContextPlan.parse raw request = .ok p) :
    p.Answers request := by
  simp only [ContextPlan.parse, bind_eq_ok] at h
  obtain ⟨v, hv, h⟩ := h
  obtain ⟨hvalid, htask, hbudget⟩ := valid_of_response h
  exact ⟨⟨v, hv⟩, hvalid, htask, hbudget⟩

/-! ### Source plans -/

namespace SourcePlan

/-- What is checked of a source plan, whatever it is written as. -/
structure Accepted (x : SourcePlan) (request : Request) (sources : Option (List Source)) : Prop where
  plan : x.plan.Answers request
  projected : x.plan.projectionDigest.isSome = true
  length : x.bindings.length ≤ maxProtocolItems
  ordered : ∀ d ∈ x.bindings, Descriptor.Ordered d.observedAt d.validUntil
  bindings : checkBindings x.plan x.bindings = .ok ()
  digest : ∃ b, canonicalBytes? (bound x.plan x.bindings) = some b ∧ x.bindingDigest = digestOf b
  sources : checkSources x.bindings sources = .ok ()

section
variable {raw : Bytes} {request : Request} {sources : Option (List Source)} {x : SourcePlan}

theorem accepted_of_parse (h : parse raw request sources = .ok x) : x.Accepted request sources := by
  simp only [parse, exactKeys, bind_eq_ok, ensure_eq_ok, exists_const, canonical_eq_ok, Enterprise.validateDigest_eq_ok, Except.ok.injEq] at h
  obtain ⟨v, hv, _, -, -, data, -, plan, hplan, hprojected, bindings, hbindings, ⟨⟩, hcheck, digest, -, b, hb, hdigest, ⟨⟩, hsources, rfl⟩ := h
  obtain ⟨hvalid, htask, hbudget⟩ := valid_of_response hplan
  obtain ⟨hlength, hitems⟩ := Plan.items_eq_ok (f := Descriptor.parse) hbindings
  refine ⟨⟨⟨v, hv⟩, hvalid, htask, hbudget⟩, hprojected, hlength, fun d hd => ?_, hcheck, ⟨b, hb, hdigest⟩, hsources⟩
  obtain ⟨_, _, hparse⟩ := hitems d hd
  exact Descriptor.ordered_of_parse hparse

/-- What is accepted can be written. -/
theorem Accepted.writable (h : x.Accepted request sources) : Writable x.toDict := by
  obtain ⟨b, hb, -⟩ := h.digest
  have hbound := writable_iff.mp ⟨b, hb⟩
  rw [bound, Json.plain, plainList_eq] at hbound
  have hitems := hasText_arr_iff.mp hbound
  refine writable_mkObj ?_
  simp only [List.mem_cons, List.not_mem_nil, or_false, forall_eq_or_imp, forall_eq]
  exact ⟨writable_iff.mpr (hitems _ (by simp)), writable_iff.mpr (hitems _ (by simp)), writable_digest _⟩

/-- The plan with the members of its plan in order. -/
def plain (x : SourcePlan) (stats : List (Identifier × Stats)) : SourcePlan := { x with plan := x.plan.plain stats }

theorem arr_bindings (bindings : List Descriptor) :
    (Json.arr (bindings.map Descriptor.toDict)).plain = .arr (bindings.map Descriptor.toDict) :=
  isPlain_arr fun v hv => by
    obtain ⟨d, -, rfl⟩ := List.mem_map.mp hv
    exact d.isPlain_toDict

theorem toDict_plain {stats : List (Identifier × Stats)} (hstats : x.plan.Sorts stats) : (x.plain stats).toDict = x.toDict.plain := by
  rw [toDict, toDict, plain_mkObj]
  simp only [List.map_cons, List.map_nil, ← resultDict_plain hstats, arr_bindings]
  rfl

theorem bound_plain {stats : List (Identifier × Stats)} (hstats : x.plan.Sorts stats) :
    bound (x.plan.plain stats) x.bindings = (bound x.plan x.bindings).plain := by
  rw [bound, bound, Json.plain, plainList_eq, List.map_cons, List.map_cons, List.map_nil, ← resultDict_plain hstats, arr_bindings]

/-- The canonical text of an accepted plan is read as the plan, in order. -/
theorem parse_canonical (h : x.Accepted request sources) {b : Bytes} (hb : canonicalBytes? x.toDict = some b)
    (hlength : b.length ≤ maxResponseBytes) : ∃ stats, x.plan.Sorts stats ∧ parse b request sources = .ok (x.plain stats) := by
  obtain ⟨hresult, hsize⟩ := fits_of_mem_mkObj h.writable (f := [("result", resultDict x.plan),
    ("source_bindings", .arr (x.bindings.map Descriptor.toDict)), ("binding_digest", x.bindingDigest.json)]) (by simp) List.mem_cons_self
  obtain ⟨data, hdata⟩ := hresult
  have hinner : data.length ≤ maxResponseBytes := by
    rw [length_canonicalBytes hb] at hlength
    rw [length_canonicalBytes hdata]
    exact hsize.trans hlength
  obtain ⟨stats, hstats, hresponse⟩ := response_canonical h.plan hdata hinner
  obtain ⟨v, hv⟩ := h.plan.encodes
  obtain ⟨c, hc, hdigest⟩ := h.digest
  have hload : strictLoads? b = some (x.plain stats).toDict := by
    rw [toDict_plain hstats]
    exact strictLoads?_canonical hb
  have hget : ∀ k, (x.plain stats).toDict.get k = _ := fun k => Json.get_mkObj _ k
  have hbindings := Plan.items_map (f := Descriptor.parse) (n := id) "source_bindings" h.length
    fun d hd name => Descriptor.parse_toDict (h.ordered d hd) name
  rw [List.map_id] at hbindings
  have hcheck : checkBindings (x.plan.plain stats) x.bindings = .ok () := h.bindings
  refine ⟨stats, hstats, ?_⟩
  simp only [parse, exactKeys, bind_eq_ok, ensure_eq_ok, exists_const, decode_eq_ok, canonical_eq_ok]
  refine ⟨v, hv, _, ⟨hlength, hload⟩, hasExactly_mkObj_self _, data, ?_, x.plan.plain stats, hresponse, h.projected, x.bindings, ?_, (), hcheck,
    x.bindingDigest, Enterprise.validateDigest_eq_ok.mpr (hget _), c, ?_, hdigest, (), h.sources, rfl⟩
  · rw [hget]
    change canonicalBytes? (resultDict (x.plan.plain stats)) = some data
    rw [resultDict_plain hstats, canonicalBytes?_plain, hdata]
  · rw [hget]
    exact hbindings
  · rw [bound_plain hstats, canonicalBytes?_plain, hc]

end

end SourcePlan
end Planning
end LeanCtx
