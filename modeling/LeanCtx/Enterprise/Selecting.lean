import LeanCtx.Enterprise.Returned
import LeanCtx.Json.Printable

/-! Which sources an answer can select. A selection names a source in the bytes of an identifier, a descriptor in those of a reference;
    a source whose reference is longer is accepted, and no answer selects it. -/

namespace LeanCtx.Planning
open Json

/-- `InstanceSource(descriptor, content)`. -/
def Source.make (v content : Json) : Except InstanceError Source := do
  let d ← Descriptor.parse v "descriptor"
  let t ← text content "content" maxContentBytes false false
  ensure (t.1.all Unicode.isSpace = false) (.validation "content must not be blank")
  if h : t.1.utf8?.map digestOf = some d.contentDigest then .ok ⟨d, t, Option.map_eq_some_iff.mp h⟩
  else .error (.validation "descriptor.content_digest does not match content")

theorem Source.ordered_of_make {v content : Json} {s : Source} (h : make v content = .ok s) :
    Descriptor.Ordered s.descriptor.observedAt s.descriptor.validUntil := by
  simp only [make, bind_eq_ok, ensure_eq_ok, exists_const] at h
  obtain ⟨d, hd, t, -, -, h⟩ := h
  split_ifs at h
  cases h
  exact Descriptor.ordered_of_parse hd

/-- A request is sent in a bounded number of bytes. -/
def Request.Bounded (r : Request) : Prop := ∃ b, canonicalBytes? (mkObj r.fields) = some b ∧ b.length ≤ maxRequestBytes

theorem Request.exists_toDict {r : Request} : (∃ v, r.toDict = .ok v) ↔ r.Bounded := by
  simp only [toDict, bind_eq_ok, ensure_eq_ok, exists_const, canonical_eq_ok, Except.ok.injEq]
  constructor
  · rintro ⟨_, b, hb, hlength, -⟩
    exact ⟨b, hb, hlength⟩
  · rintro ⟨b, hb, hlength⟩
    exact ⟨_, b, hb, hlength, rfl⟩

/-- The answer selects one source, and binds it. -/
structure SourcePlan.Selects (x : SourcePlan) (d : Descriptor) : Prop where
  bindings : x.bindings = [d]
  selected : ∃ s, (x.plan.selections.filter fun s => s.disposition = .selected) = [s] ∧ Matches d s

/-! ### The answer that selects a source -/

/-- The reference of a source is short enough for a selection. -/
def Descriptor.Selectable (d : Descriptor) : Prop := d.objectRef.1.utf8Length ≤ 256

theorem isText_mono {m n : Nat} {controls nul : Bool} {s : Str} (h : isText m controls nul s = true) (hlength : s.utf8Length ≤ n) :
    isText n controls nul s = true := by
  simp only [isText, Bool.and_eq_true, decide_eq_true_eq] at h ⊢
  exact ⟨⟨⟨⟨h.1.1.1.1, hlength⟩, h.1.1.2⟩, h.1.2⟩, h.2⟩

theorem isHexDigest_of_digest (d : Digest) : isHexDigest (Str.dropPrefix "sha256:" d.1) = true := by
  have h := d.2
  simp only [isDigest, Bool.and_eq_true, decide_eq_true_eq, beq_iff_eq, List.all_eq_true] at h
  obtain ⟨⟨hstart, hlength⟩, hhex⟩ := h
  rw [Str.dropPrefix, if_pos hstart, isHexDigest, Bool.and_eq_true, beq_iff_eq, List.all_eq_true]
  refine ⟨by rw [List.length_drop, hlength]; decide, fun c hc => ?_⟩
  have hc := hhex c hc
  simp only [Sha256.isHex, isHexadecimal, isDigit, Bool.or_eq_true, Bool.and_eq_true, decide_eq_true_eq] at hc ⊢
  omega

namespace Answering

variable (request : Request) (d : Descriptor) (hd : d.Selectable)

def selection : Selection where
  sourceRef := ⟨d.objectRef.1, isText_mono d.objectRef.2 hd⟩
  provider := d.sourceId
  disposition := .selected
  tokenCount := 1
  reasonCodes := [.relevant]
  projection := some ⟨d.contentDigest.1, isHexDigest_of_digest d.contentDigest⟩
  reasonDetail := none

/-- A plan of one token, with the digest that it is given. -/
def plan (digest : Option Digest) : Plan where
  contextPlanId := ⟨"c", by decide⟩
  taskId := request.taskId
  budgetTokens := 1
  selections := [selection d hd]
  projectionDigest := digest
  providerStats := []
  policyDecisionRefs := []
  evidence := []
  extensions := []

def projection : Digest := digestOf ((canonicalBytes? (plan request d hd none).unsigned).getD [])

def signed : Plan := plan request d hd (some (projection request d hd))

def answer : SourcePlan where
  plan := signed request d hd
  bindings := [d]
  bindingDigest := digestOf ((canonicalBytes? (SourcePlan.bound (signed request d hd) [d])).getD [])

variable {request d hd}

theorem valid_selection : (selection d hd).Valid where
  tokens := by simp [selection, maxU64]
  reasoned := nofun
  bounded := by simp [selection, maxProtocolItems]
  distinct := List.nodup_singleton _

theorem valid_plan {digest : Option Digest} (h : ∀ e ∈ digest, ∃ b, canonicalBytes? (plan request d hd none).unsigned = some b ∧ e = digestOf b) :
    (plan request d hd digest).Valid where
  selections := List.forall_mem_singleton.mpr valid_selection
  selectionsLength := by simp [plan, maxProtocolItems]
  distinct := List.nodup_singleton _
  budget := by simp [plan, maxU64]
  tokens := by simp [plan, Plan.selectedTokens, selection]
  stats := nofun
  statsLength := Nat.zero_le _
  refsLength := Nat.zero_le _
  refs := List.nodup_nil
  evidence := nofun
  evidenceLength := Nat.zero_le _
  extensible := ⟨nofun, nofun, Nat.zero_le _⟩
  reserved := nofun
  digest := h

theorem valid_signed : (signed request d hd).Valid := by
  have hnone : (plan request d hd none).Valid := valid_plan (by simp)
  obtain ⟨b, hb⟩ : Writable (plan request d hd none).unsigned := hnone.writable
  refine valid_plan fun e he => ⟨b, hb, ?_⟩
  cases he
  rw [projection, hb]
  rfl

theorem answers (h : request.Bounded) : (signed request d hd).Answers request where
  encodes := Request.exists_toDict.mpr h
  valid := valid_signed
  task := rfl
  budget := request.budgetTokens.2.1

theorem matches_selection : SourcePlan.Matches d (selection d hd) := ⟨rfl, rfl, rfl⟩

theorem checkBindings_answer : SourcePlan.checkBindings (signed request d hd) [d] = .ok () := by
  simp only [SourcePlan.checkBindings, bind_eq_ok, ensure_eq_ok, exists_const]
  have hfilter : ((signed request d hd).selections.filter fun s => s.disposition = .selected) = [selection d hd] := rfl
  rw [hfilter]
  refine ⟨List.isChain_singleton _, rfl, fun e he => ?_⟩
  rw [List.mem_singleton.mp he]
  exact ⟨_, List.mem_singleton_self _, matches_selection⟩

theorem checkSources_answer {s : Source} (hs : s.descriptor = d) : SourcePlan.checkSources [d] (some [s]) = .ok () := by
  simp only [SourcePlan.checkSources, bind_eq_ok, ensure_eq_ok, exists_const]
  refine ⟨by simp [maxSources], List.nodup_singleton _, fun e he => ?_⟩
  rw [List.mem_singleton.mp he, ← hs]
  exact List.mem_singleton_self _

theorem accepted {s : Source} (hs : s.descriptor = d) (h : request.Bounded) (hordered : Descriptor.Ordered d.observedAt d.validUntil) :
    (answer request d hd).Accepted request (some [s]) where
  plan := answers h
  projected := rfl
  length := by simp [answer, maxProtocolItems]
  ordered := List.forall_mem_singleton.mpr hordered
  bindings := checkBindings_answer
  digest := by
    obtain ⟨b, hb⟩ : Writable (SourcePlan.bound (signed request d hd) [d]) := writable_arr (by
      simp only [List.mem_cons, List.not_mem_nil, or_false, forall_eq_or_imp, forall_eq]
      refine ⟨writable_result valid_signed, writable_arr fun v hv => ?_⟩
      rw [List.mem_singleton.mp hv]
      exact d.writable)
    refine ⟨b, hb, ?_⟩
    rw [answer, hb]
    rfl
  sources := checkSources_answer hs

/-! ### The length of the answer -/

theorem fits_text {max : Nat} {controls nul : Bool} (t : Text max controls nul) : Json.Fits (6 * max + 2) t.json := by
  have h := t.2
  simp only [isText, Bool.and_eq_true, decide_eq_true_eq] at h
  exact Json.fits_text (isScalar_text t) h.1.1.1.2

theorem fits_bounded {max : Nat} {controls nul : Bool} (t : Text max controls nul) (h : max ≤ 1024) : Json.Fits 6146 t.json :=
  (fits_text t).mono (by omega)

theorem fits_short {s : String} (h : ∀ c ∈ Str.lit s, IsBare c) (hlength : (Str.lit s).length ≤ 90) : Json.Fits 6146 (.str s) :=
  (fits_str h).mono (by omega)

theorem fits_digest (d : Digest) : Json.Fits 6146 d.json := (fits_str d.isBare.2).mono (by rw [d.isBare.1]; decide)

theorem fits_optional {α : Type} {f : α → Json} {n : Nat} (h : ∀ a, Json.Fits n (f a)) (hn : 4 ≤ n) (o : Option α) :
    Json.Fits n (LeanCtx.optional f o) := by
  cases o with
  | none => exact ⟨writable_null, hn⟩
  | some a => exact h a

theorem fits_timestamp (t : Timestamp) : Json.Fits 6146 t.json := by
  have h := t.2
  rw [isTimestamp, Bool.and_eq_true] at h
  exact fits_bounded ⟨t.1, h.1⟩ (show 256 ≤ 1024 by decide)

theorem fits_one : Json.Fits 6146 (.int 1) := ⟨writable_int (by decide), by decide⟩

theorem fits_descriptor (d : Descriptor) : Json.Fits 61801 d.toDict := by
  refine fits_mkObj (l := Descriptor.keys) (n := 6146) (k := 30) rfl (by decide) ?_
  simp only [List.mem_cons, List.not_mem_nil, or_false, forall_eq_or_imp, forall_eq]
  refine ⟨fits_bounded _ (by decide), fits_bounded _ (by decide), ?_, fits_digest _, fits_optional (fun _ => fits_bounded _ (by decide)) (by decide) _,
    fits_optional (fun _ => fits_bounded _ (by decide)) (by decide) _, fits_optional fits_timestamp (by decide) _,
    fits_optional fits_timestamp (by decide) _, fits_optional (fun c => ?_) (by decide) _, ?_⟩
  · cases d.sourceType <;> exact fits_short (by decide) (by decide)
  · cases c <;> exact fits_short (by decide) (by decide)
  · cases d.permission <;> exact fits_short (by decide) (by decide)

theorem selection_toDict : (selection d hd).toDict = mkObj [("source_ref", d.objectRef.json), ("provider", d.sourceId.json),
    ("disposition", .str "selected"), ("token_count", .int 1), ("reason_codes", .arr [.str "relevant"]),
    ("sha256_digest", d.contentDigest.json)] := rfl

theorem fits_selection : Json.Fits 40000 (selection d hd).toDict := by
  have hcodes : Json.Fits 6146 (.arr [.str "relevant"]) := (fits_arr (n := 100) (List.forall_mem_singleton.mpr
    ((fits_str (by decide)).mono (by decide))) (by simp)).mono (by decide)
  rw [selection_toDict]
  refine (fits_mkObj (l := Selection.required ++ ["sha256_digest"]) (n := 6146) (k := 30) rfl (by decide) ?_).mono (by decide)
  simp only [List.mem_cons, List.not_mem_nil, or_false, forall_eq_or_imp, forall_eq]
  exact ⟨fits_bounded _ (by decide), fits_bounded _ (by decide), fits_short (by decide) (by decide), fits_one, hcodes, fits_digest _⟩

theorem plan_toDict (e : Digest) : (plan request d hd (some e)).toDict = mkObj [("projection_digest", e.json), ("schema_version", .int 1),
    ("context_plan_id", .str "c"), ("task_id", request.taskId.json), ("budget_tokens", .int 1), ("selections", .arr [(selection d hd).toDict])] := rfl

theorem fits_plan : Json.Fits 300000 (signed request d hd).toDict := by
  have hmono : ∀ {v : Json}, Json.Fits 6146 v → Json.Fits 40002 v := fun h => h.mono (by decide)
  have hselections : Json.Fits 40002 (.arr [(selection d hd).toDict]) :=
    (fits_arr (List.forall_mem_singleton.mpr fits_selection) (List.cons_ne_nil _ _)).mono (show 1 + 1 * 40001 ≤ 40002 by decide)
  rw [signed, plan_toDict]
  refine (fits_mkObj (l := "projection_digest" :: Plan.required) (n := 40002) (k := 30) rfl (by decide) ?_).mono (by decide)
  simp only [List.mem_cons, List.not_mem_nil, or_false, forall_eq_or_imp, forall_eq]
  exact ⟨hmono (fits_digest _), hmono fits_one, hmono (fits_short (by decide) (by decide)), hmono (fits_bounded _ (by decide)), hmono fits_one,
    hselections⟩

theorem fits_result : Json.Fits 1300000 (resultDict (signed request d hd)) := by
  have hmono : ∀ {v : Json}, Json.Fits 6146 v → Json.Fits 300000 v := fun h => h.mono (by decide)
  refine (fits_mkObj (l := ["schema_version", "transport_version", "engine_interface_version", "plan"]) (n := 300000) (k := 30) rfl (by decide) ?_).mono (by decide)
  simp only [List.mem_cons, List.not_mem_nil, or_false, forall_eq_or_imp, forall_eq]
  exact ⟨hmono fits_one, hmono fits_one, hmono (fits_short (by decide) (by decide)), fits_plan⟩

theorem fits_answer : Json.Fits maxResponseBytes (answer request d hd).toDict := by
  have hbindings : Json.Fits 1300000 (.arr [d.toDict]) :=
    (fits_arr (List.forall_mem_singleton.mpr (fits_descriptor d)) (List.cons_ne_nil _ _)).mono (show 1 + 1 * 61802 ≤ 1300000 by decide)
  refine (fits_mkObj (n := 1300000) (k := 30) (l := SourcePlan.keys) rfl (by decide) ?_).mono (by decide)
  simp only [List.mem_cons, List.not_mem_nil, or_false, forall_eq_or_imp, forall_eq]
  exact ⟨fits_result, hbindings, (fits_digest _).mono (by decide)⟩

end Answering

/-- The answer is read as a plan that selects the source. -/
theorem exists_selects {s : Source} {request : Request} (hordered : Descriptor.Ordered s.descriptor.observedAt s.descriptor.validUntil)
    (hrequest : request.Bounded) (hd : s.descriptor.Selectable) :
    ∃ raw x, SourcePlan.parse raw request (some [s]) = .ok x ∧ x.Selects s.descriptor := by
  have haccepted : (Answering.answer request s.descriptor hd).Accepted request (some [s]) := Answering.accepted rfl hrequest hordered
  obtain ⟨⟨b, hb⟩, hlength⟩ : Json.Fits maxResponseBytes (Answering.answer request s.descriptor hd).toDict := Answering.fits_answer
  obtain ⟨stats, -, hparse⟩ := SourcePlan.parse_canonical haccepted hb (length_canonicalBytes hb ▸ hlength)
  exact ⟨b, _, hparse, rfl, _, rfl, Answering.matches_selection⟩

/-- A source that is selected has a reference that a selection can name. -/
theorem SourcePlan.Selects.selectable {x : SourcePlan} {d : Descriptor} (hx : x.Selects d) : d.Selectable := by
  obtain ⟨s, -, href, -⟩ := hx.selected
  have hbound := s.sourceRef.2
  simp only [isText, Bool.and_eq_true, decide_eq_true_eq] at hbound
  rw [Descriptor.Selectable, ← href]
  exact hbound.1.1.1.2

/-! ### A source that is selected, and one that is not -/

namespace SourceSample

def request : Request := .sample

theorem bounded_request : request.Bounded := by
  have hany : ((canonicalBytes? (mkObj request.fields)).any fun b => b.length ≤ maxRequestBytes) = true := by decide +kernel
  obtain ⟨b, hb, hlength⟩ := (Option.any_eq_true _ _).mp hany
  exact ⟨b, hb, by simpa using hlength⟩

def content : Text maxContentBytes false false := ⟨"x", by decide⟩

/-- A reference of `n + 1` letters. -/
def letters (n : Nat) : Str := List.replicate (n + 1) 97

theorem utf8Length_letters (n : Nat) : (letters n).utf8Length = n + 1 := by
  rw [letters, Str.utf8Length, List.map_replicate, List.sum_replicate]
  exact Nat.mul_one _

variable (r : Reference)

theorem isText_sourceId : isText 256 true true (Str.lit "s") = true := by decide

def descriptor : Descriptor where
  objectRef := r
  sourceId := ⟨"s", isText_sourceId⟩
  sourceType := .other
  contentDigest := digestOf [120]
  revision := none
  owner := none
  observedAt := none
  validUntil := none
  permission := .unknown
  classification := none

def source : Source := ⟨descriptor r, content, [120], by decide, rfl⟩

theorem make_source : Source.make (descriptor r).toDict content.json = .ok (source r) := by
  have hblank : content.1.all Unicode.isSpace = false := by decide
  have hdigest : content.1.utf8?.map digestOf = some (descriptor r).contentDigest := congrArg (Option.map digestOf)
    (show content.1.utf8? = some [120] by decide)
  simp only [Source.make, bind_eq_ok, ensure_eq_ok, exists_const]
  exact ⟨descriptor r, Descriptor.parse_toDict (fun _ ha => by cases ha) _, content, text_eq_ok.mpr rfl, hblank, dif_pos hdigest⟩

def short : Reference := ⟨letters 0, by decide⟩

/-- One byte more than a selection can name. -/
def long : Reference := ⟨letters 256, by decide +kernel⟩

theorem exceeds_long : ¬(descriptor long).Selectable := by
  rw [Descriptor.Selectable, descriptor, long, utf8Length_letters]
  decide

theorem selectable_short : (descriptor short).Selectable := by
  rw [Descriptor.Selectable]
  exact (utf8Length_letters 0).trans_le (by decide)

theorem exists_short : ∃ raw x, SourcePlan.parse raw request (some [source short]) = .ok x ∧ x.Selects (descriptor short) :=
  exists_selects (s := source short) (fun _ ha => by cases ha) bounded_request selectable_short

end SourceSample

/-- A source that is accepted is selected by some answer to a request exactly when the request is within its byte bound and the reference
    of the source is within that of an identifier. -/
theorem Source.selected_iff {v content : Json} {s : Source} (h : make v content = .ok s) (request : Request) :
    (∃ raw x, SourcePlan.parse raw request (some [s]) = .ok x ∧ x.Selects s.descriptor) ↔ request.Bounded ∧ s.descriptor.Selectable := by
  constructor
  · rintro ⟨raw, x, hparse, hx⟩
    exact ⟨Request.exists_toDict.mp (SourcePlan.accepted_of_parse hparse).plan.encodes, hx.selectable⟩
  · rintro ⟨hrequest, hd⟩
    exact exists_selects (ordered_of_make h) hrequest hd

theorem Source.selected_short : ∃ raw x, SourcePlan.parse raw SourceSample.request (some [SourceSample.source SourceSample.short]) = .ok x ∧
    x.Selects (SourceSample.source SourceSample.short).descriptor :=
  (Source.selected_iff (SourceSample.make_source _) SourceSample.request).mpr ⟨SourceSample.bounded_request, SourceSample.selectable_short⟩

/-- The reference has 257 bytes, and no answer to the request selects its source. -/
theorem Source.not_selected_long : ∃ v content s, Source.make v content = .ok s ∧ SourceSample.request.Bounded ∧
    s.descriptor.objectRef.1.utf8Length = 257 ∧
    ¬∃ raw x, SourcePlan.parse raw SourceSample.request (some [s]) = .ok x ∧ x.Selects s.descriptor :=
  ⟨_, _, _, SourceSample.make_source SourceSample.long, SourceSample.bounded_request, SourceSample.utf8Length_letters 256,
    fun ⟨_, _, _, hx⟩ => SourceSample.exceeds_long (hx.selectable)⟩

end LeanCtx.Planning
