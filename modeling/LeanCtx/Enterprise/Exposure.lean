import LeanCtx.Enterprise.Evaluation
import LeanCtx.Json.Mention

/-! Where the secret of a presenter capability goes. A content that is materialized under a capability that the answer issues is
    checked for it, and so is a content that is given back; a content under a capability that is renewed is not. -/

namespace LeanCtx.Enterprise
open Json

/-! ### Secrets -/

theorem Capability.length (s : Capability) : s.1.length = 69 := by
  have hs := s.2
  simp only [isCapability, Bool.and_eq_true, beq_iff_eq] at hs
  exact hs.1.2

theorem Capability.isToken (s : Capability) : IsToken s.1 := by
  obtain ⟨s, hs⟩ := s
  simp only [isCapability, Bool.and_eq_true, decide_eq_true_eq, List.all_eq_true] at hs
  obtain ⟨⟨⟨t, rfl⟩, -⟩, hhex⟩ := hs
  have hstart : ∀ c ∈ Str.lit "lcp1_", IsWord c := by
    unfold IsWord
    decide
  refine ⟨fun c hc => ?_, List.mem_append_left t (by decide), rfl⟩
  rcases List.mem_append.mp hc with hc | hc
  · exact hstart c hc
  · have hchar := hhex c hc
    simp only [Sha256.isHex, Bool.or_eq_true, Bool.and_eq_true, decide_eq_true_eq] at hchar
    unfold IsWord isDigit
    simp only [Bool.and_eq_true, decide_eq_true_eq]
    omega

/-- A text that is shorter than a secret does not hold one. -/
theorem Capability.not_in_short (s : Capability) {t : Str} (h : t.length < 69) : ¬s.1 <:+: t := fun hin => by
  have hle := hin.length_le
  rw [s.length] at hle
  omega

theorem Capability.not_in_digest (s : Capability) (d : Digest) : ¬s.1 <:+: d.1 := by
  refine s.isToken.not_isInfix ?_
  obtain ⟨d, hd⟩ := d
  simp only [isDigest, Bool.and_eq_true, decide_eq_true_eq, lit_sha256, List.all_eq_true] at hd
  obtain ⟨⟨⟨t, rfl⟩, -⟩, hhex⟩ := hd
  intro hmem
  rcases List.mem_append.mp hmem with hmem | hmem
  · revert hmem
    decide
  · exact absurd (hhex 95 hmem) (by decide)

theorem length_scanned {s : Str} {l : List Nat} (h : Planning.scanParts s = some l) : s.length = 20 := by
  unfold Planning.scanParts at h
  split at h
  · rfl
  · cases h

theorem Capability.not_in_time (s : Capability) (t : Planning.Timestamp) : ¬s.1 <:+: t.1 := by
  have ht := t.2
  simp only [Planning.isTimestamp, Bool.and_eq_true, Option.any_eq_true] at ht
  obtain ⟨-, l, hl, -⟩ := ht
  exact s.not_in_short (by rw [length_scanned hl]; decide)

/-! ### Bodies -/

/-- Keys that are distinct and too short to hold a secret. -/
def ShortKeys (keys : List String) : Prop := keys.Nodup ∧ ∀ k ∈ keys, (Str.lit k).length < 69

instance (keys : List String) : Decidable (ShortKeys keys) := inferInstanceAs (Decidable (_ ∧ _))

theorem Capability.mentions_object (s : Capability) {f : List (String × Json)} {l : List String} (hf : f.map (·.1) = l)
    (hkeys : ShortKeys l) : Mentions s.1 (mkObj f).plain ↔ ∃ p ∈ f, Mentions s.1 p.2.plain := by
  subst hf
  rw [mentions_plain_mkObj_iff hkeys.1]
  refine exists_congr fun p => and_congr_right fun hp => or_iff_right ?_
  exact s.not_in_short (hkeys.2 p.1 (List.mem_map_of_mem hp))

theorem Capability.mentions_short (s : Capability) {t : Str} (h : t.length < 69) : Mentions s.1 (Json.str t).plain ↔ False :=
  iff_false_intro (s.not_in_short h)

theorem Capability.mentions_int (s : Capability) (n : Int) : Mentions s.1 (Json.int n).plain ↔ False := Iff.rfl

theorem Capability.mentions_request (s : Capability) (r : Planning.Request) :
    Mentions s.1 (mkObj r.fields).plain ↔ s.1 <:+: r.taskId.1 ∨ s.1 <:+: r.query.1 := by
  rw [s.mentions_object (l := ["schema_version", "transport_version", "engine_interface_version", "task_id", "query",
    "budget_tokens", "max_candidates"]) rfl (by decide)]
  simp only [Planning.Request.fields, List.mem_cons, List.not_mem_nil, or_false, exists_eq_or_imp, exists_eq_left, s.mentions_int,
    s.mentions_short (t := Planning.interfaceVersion) (by decide), false_or]
  exact Iff.rfl

theorem Capability.mentions_uuids (s : Capability) (l : List Uuid) : Mentions s.1 (Json.arr (l.map Uuid.json)).plain ↔ False := by
  refine iff_false_intro ?_
  rw [plain, plainList_eq, mentions_arr_iff]
  rintro ⟨v, hv, hs⟩
  obtain ⟨w, hw, rfl⟩ := List.mem_map.mp hv
  obtain ⟨u, -, rfl⟩ := List.mem_map.mp hw
  exact s.not_in_short (by rw [u.isBare.1]; decide) hs

/-- What is sent for a materialization holds a secret where the task or the query of the caller does. -/
theorem Capability.mentions_body (s : Capability) {call : Call} {k : Checked} {presenter : Presenter} {sent : Json × Bytes}
    (h : call.presentedPayload k presenter = .ok sent) :
    wordBytes s.1 <:+: sent.2 ↔ s.1 <:+: call.request.taskId.1 ∨ s.1 <:+: call.request.query.1 := by
  simp only [Call.presentedPayload, Call.body, payload, bind_eq_ok, ensure_eq_ok, pure_eq_ok, Except.ok.injEq,
    Planning.canonical_eq_ok] at h
  obtain ⟨fields, ⟨planning, hplanning, more, ⟨p, hp, rfl⟩, time, htime, rfl⟩, data, ⟨b, hb, -, -, rfl⟩, rfl⟩ := h
  cases Planning.Request.toDict_eq_ok hplanning
  rw [s.isToken.isInfix_canonical hb]
  have hpresenter : Mentions s.1 p.plain ↔ False := by
    cases presenter with
    | renew held =>
      cases hp
      rw [s.mentions_object (l := ["mode"]) rfl (by decide)]
      simp [s.mentions_short (t := "renew") (by decide)]
    | issue seconds =>
      simp only [presenterRequest, bind_eq_ok, ensure_eq_ok, Except.ok.injEq] at hp
      obtain ⟨-, -, rfl⟩ := hp
      rw [s.mentions_object (l := ["mode", "ttl_seconds"]) rfl (by decide)]
      simp [s.mentions_short (t := "issue") (by decide), s.mentions_int]
  have hfields : Mentions s.1 k.bindingDigest.json.plain ↔ False := iff_false_intro (s.not_in_digest k.bindingDigest)
  unfold Call.timeField at htime
  split at htime
  · cases htime
    rw [List.append_nil, s.mentions_object (l := ["planning", "source_ids", "expected_governance_revision",
      "expected_binding_digest", "presenter"]) rfl (by decide)]
    simp [s.mentions_int, s.mentions_uuids, s.mentions_request, hpresenter, hfields]
  · simp only [bind_eq_ok, Except.ok.injEq] at htime
    obtain ⟨t, -, rfl⟩ := htime
    have htime : Mentions s.1 t.json.plain ↔ False := iff_false_intro (s.not_in_time t)
    rw [s.mentions_object (l := ["planning", "source_ids", "expected_governance_revision", "expected_binding_digest",
      "presenter", "planning_evaluation_time"]) rfl (by decide)]
    simp [s.mentions_int, s.mentions_uuids, s.mentions_request, hpresenter, hfields, htime]

/-- What is sent for a use holds a secret where the presented text does. -/
theorem Capability.mentions_useBody (s : Capability) {sourceIds : List Str} {revision : Int} {mode value : Str}
    {sent : List Uuid × Nat × Asked × Json} (h : useBody sourceIds revision mode value = .ok sent) {data : Bytes}
    (hdata : canonicalBytes? sent.2.2.2 = some data) : wordBytes s.1 <:+: data ↔ s.1 <:+: value := by
  simp only [useBody, bind_eq_ok, ensure_eq_ok, Except.ok.injEq] at h
  obtain ⟨sources, -, -, -, number, -, asked, hasked, rfl⟩ := h
  rw [s.isToken.isInfix_canonical hdata]
  have hvalue : asked.value = value := by
    unfold presentedUseRequest at hasked
    split at hasked
    · cases hasked
    · simp only [bind_eq_ok, ensure_eq_ok, Except.ok.injEq] at hasked
      obtain ⟨-, -, rfl⟩ := hasked
      rfl
    · simp only [bind_eq_ok, ensure_eq_ok, Except.ok.injEq] at hasked
      obtain ⟨-, -, -, -, rfl⟩ := hasked
      rfl
  have hmode : ¬s.1 <:+: Str.lit asked.mode.name := s.not_in_short (by cases asked.mode <;> decide)
  have hasked : Mentions s.1 asked.json.plain ↔ s.1 <:+: value := by
    rw [Asked.json]
    split_ifs
    · rw [s.mentions_object (l := ["mode", "recovery_id"]) rfl (by decide)]
      simp [hmode, hvalue, plain, Mentions]
    · rw [s.mentions_object (l := ["mode", "content"]) rfl (by decide)]
      simp [hmode, hvalue, plain, Mentions]
  rw [s.mentions_object (l := ["schema_version", "source_ids", "expected_governance_revision", "use"]) rfl (by decide)]
  simp [s.mentions_int, s.mentions_uuids, hasked]

/-! ### Answers -/

/-- The content in the answer to a materialization under a capability. -/
def answeredContent (v : Json) : Json := ((v.get "materialization").get "materialization").get "content"

theorem materializedContent_eq_ok {v : Json} {x : Str × Digest} (h : materializedContent v = .ok x) : v = .str x.1 := by
  unfold materializedContent at h
  split at h
  · split at h
    · cases h
    · simp only [bind_eq_ok, ensure_eq_ok, Except.ok.injEq] at h
      obtain ⟨-, -, rfl⟩ := h
      rfl
  · cases h

theorem Client.content_of_parseMaterialization {c : Client} {raw : Bytes} {request : Planning.Request} {k : Checked}
    {m : Materialization} (h : c.parseMaterialization raw request k = .ok m) :
    ∃ v, strictLoads? raw = some v ∧ (v.get "materialization").get "content" = .str m.content := by
  simp only [parseMaterialization, parseMaterialized, exactKeys, bind_eq_ok, ensure_eq_ok, loads_eq_ok, Except.ok.injEq] at h
  obtain ⟨v, hv, -, -, -, -, -, -, -, -, -, -, -, -, -, -, -, -, -, -, data, -, plan, -, -, -, -, -, digest, -, tokens, -, -, -,
    content, hcontent, -, -, rfl⟩ := h
  exact ⟨v, hv, materializedContent_eq_ok hcontent⟩

/-- The content that is returned is the one of the answer, and the grant was checked against it. -/
theorem Client.parsePresented_joins {c : Client} {raw : Bytes} {request : Planning.Request} {k : Checked} {presenter : Presenter}
    {x : Presented} (h : c.parsePresented raw request k presenter = .ok x) :
    ∃ v, strictLoads? raw = some v ∧ answeredContent v = .str x.materialization.content ∧
      parsePresenterGrant ((v.get "materialization").get "presenter") x.materialization.content presenter.held.isNone = .ok x.grant := by
  simp only [parsePresented, bind_eq_ok, ensure_eq_ok, wrapping_eq_ok, loads_eq_ok, Planning.canonical_eq_ok, Except.ok.injEq] at h
  obtain ⟨v, hv, -, -, -, -, inner, hinner, m, hm, grant, hgrant, rfl⟩ := h
  obtain ⟨w, hw, hcontent⟩ := content_of_parseMaterialization hm
  rw [eq_plain_of_loads hinner hw, get_plain, Json.get_mkObj, get_plain, plain_eq_str] at hcontent
  exact ⟨v, hv, hcontent, hgrant⟩

/-- The secret that an answer is returned under: the one that is held, or the one that the answer issues. -/
def Presenter.Uses (presenter : Presenter) (v : Json) (s : Capability) : Prop :=
  match presenter with
  | .renew held => s = held
  | .issue _ => ((v.get "materialization").get "presenter").get "capability" = .str s.1

/-- An issued capability is the one of the answer, and the content does not hold it. -/
theorem parsePresenterGrant_issued {v : Json} {content : Str} {grant : Grant} (h : parsePresenterGrant v content true = .ok grant) :
    ∃ s, grant.capability = some s ∧ v.get "capability" = .str s.1 ∧ ¬Contains content s.1 := by
  simp only [parsePresenterGrant, if_true, bind_eq_ok, ensure_eq_ok, Instance.stringOf_eq_ok, Except.ok.injEq] at h
  obtain ⟨-, -, reference, -, expiresAt, -, -, -, s, hs, -, hcontent, rfl⟩ := h
  exact ⟨s, rfl, hs, hcontent⟩

/-- The content of an answer to a use does not hold the capability. -/
theorem parsePresentedUse_content {v : Json} {asked : Asked} {s : Capability} {u : Use} (h : parsePresentedUse v asked s = .ok u) :
    ∀ t ∈ u.content, ¬Contains t s.1 := by
  simp only [parsePresentedUse, bind_eq_ok, ensure_eq_ok] at h
  obtain ⟨-, -, reference, -, ids, -, h⟩ := h
  split_ifs at h
  · simp only [bind_eq_ok, ensure_eq_ok, Except.ok.injEq] at h
    obtain ⟨reason, -, -, -, rfl⟩ := h
    nofun
  · simp only [bind_eq_ok, ensure_eq_ok, Except.ok.injEq] at h
    obtain ⟨-, -, -, -, recoveryId, -, content, hcontent, rfl⟩ := h
    unfold useContent at hcontent
    split at hcontent
    · cases hcontent
      nofun
    · simp only [bind_eq_ok, ensure_eq_ok, Except.ok.injEq] at hcontent
      obtain ⟨-, hnot, rfl⟩ := hcontent
      rintro t ⟨⟩
      exact hnot
    · cases hcontent

/-! ### Calls under a capability -/

/-- The calls that are made under a presenter capability. -/
inductive Presentation
  | materialize (call : Call) (presenter : Presenter)
  | use (capability : Capability) (sourceIds : List Str) (revision : Int) (mode value : Str)

/-- What an accepted call shows: the body that was sent and the texts that are returned as context. The capability in use is beside
    them. -/
structure Shown where
  secret : Capability
  body : Bytes
  texts : List Str

/-- Neither the body nor a text holds the secret. -/
def Shown.Kept (x : Shown) : Prop := ¬wordBytes x.secret.1 <:+: x.body ∧ ∀ t ∈ x.texts, ¬Contains t x.secret.1

/-- What is shown by an accepted call. -/
def Client.Shows (c : Client) (x : Shown) : Presentation → Prop
  | .materialize call presenter => ∃ k sent m, call.check = .ok k ∧ call.presentedPayload k presenter = .ok sent ∧
      c.contextMaterializeV2 call presenter = .ok m ∧ presenter.held.or m.grant.capability = some x.secret ∧
      x.body = sent.2 ∧ x.texts = [m.materialization.content]
  | .use capability sourceIds revision mode value => ∃ sent u, useBody sourceIds revision mode value = .ok sent ∧
      c.presentedUse capability sourceIds revision mode value = .ok u ∧ x.secret = capability ∧
      canonicalBytes? sent.2.2.2 = some x.body ∧ x.texts = u.content.toList

/-- Nothing that the caller gives holds the secret, and the answer under a capability that is renewed does not hold it either. -/
def Client.Clean (c : Client) : Presentation → Prop
  | .materialize call presenter => ∀ k raw v s, c.presentedAnswer call presenter = .ok (k, raw) → strictLoads? raw = some v →
      presenter.Uses v s → ¬Contains call.request.taskId.1 s.1 ∧ ¬Contains call.request.query.1 s.1 ∧
        (presenter.held.isSome = true → ∀ t, answeredContent v = .str t → ¬Contains t s.1)
  | .use capability _ _ _ value => ¬Contains value capability.1

/-- A materialization that is accepted is shown under one secret. -/
theorem Client.exists_shows_materialize {c : Client} {call : Call} {presenter : Presenter} {m : Presented}
    (h : c.contextMaterializeV2 call presenter = .ok m) : ∃ x, c.Shows x (.materialize call presenter) := by
  have hm := h
  simp only [contextMaterializeV2, presentedAnswer, bind_eq_ok, Except.ok.injEq] at hm
  obtain ⟨-, ⟨k, hk, sent, hsent, raw, -, rfl⟩, hparse⟩ := hm
  obtain ⟨v, -, -, hgrant⟩ := parsePresented_joins hparse
  obtain ⟨s, hs⟩ : ∃ s, presenter.held.or m.grant.capability = some s := by
    cases presenter with
    | renew held => exact ⟨held, rfl⟩
    | issue seconds =>
      obtain ⟨s, hs, -, -⟩ := parsePresenterGrant_issued hgrant
      exact ⟨s, hs⟩
  exact ⟨⟨s, sent.2, [m.materialization.content]⟩, k, sent, m, hk, hsent, h, hs, rfl, rfl⟩

theorem Client.exists_shows_use {c : Client} {capability : Capability} {sourceIds : List Str} {revision : Int} {mode value : Str}
    {u : Use} (h : c.presentedUse capability sourceIds revision mode value = .ok u) :
    ∃ x, c.Shows x (.use capability sourceIds revision mode value) := by
  have hu := h
  simp only [presentedUse, bind_eq_ok, Planning.canonical_eq_ok] at hu
  obtain ⟨sent, hsent, data, hdata, -⟩ := hu
  exact ⟨⟨capability, data, u.content.toList⟩, sent, u, hsent, h, rfl, hdata, rfl⟩

/-- An accepted call keeps its secret where nothing that the caller gives holds it and, under a capability that is renewed, the
    content that the host answers does not hold it. -/
theorem kept_iff {c : Client} {p : Presentation} {x : Shown} (h : c.Shows x p) : x.Kept ↔ c.Clean p := by
  cases p with
  | materialize call presenter =>
    obtain ⟨k, sent, m, hk, hsent, hm, hsecret, hbody, htexts⟩ := h
    simp only [Client.contextMaterializeV2, bind_eq_ok] at hm
    obtain ⟨⟨k', raw⟩, hanswer, hparse⟩ := hm
    obtain ⟨v, hv, hcontent, hgrant⟩ := Client.parsePresented_joins hparse
    have huses : presenter.Uses v x.secret := by
      cases presenter with
      | renew held => exact (Option.some.inj hsecret).symm
      | issue seconds =>
        obtain ⟨s, hs, hdocument, -⟩ := parsePresenterGrant_issued hgrant
        obtain rfl : s = x.secret := Option.some.inj (hs.symm.trans hsecret)
        exact hdocument
    rw [Shown.Kept, hbody, htexts, x.secret.mentions_body hsent, not_or]
    constructor
    · rintro ⟨⟨htask, hquery⟩, htext⟩ k'' raw' v' s hanswer' hv' huses'
      cases hanswer.symm.trans hanswer'
      cases hv.symm.trans hv'
      obtain rfl : s = x.secret := by
        cases presenter with
        | renew held => exact huses'.trans huses.symm
        | issue seconds => exact Subtype.ext (Json.str.inj (huses'.symm.trans huses))
      refine ⟨htask, hquery, fun _ t ht => ?_⟩
      obtain rfl : t = m.materialization.content := Json.str.inj (ht.symm.trans hcontent)
      exact htext _ (List.mem_singleton_self _)
    · intro hclean
      obtain ⟨htask, hquery, htext⟩ := hclean k' raw v x.secret hanswer hv huses
      refine ⟨⟨htask, hquery⟩, List.forall_mem_singleton.mpr ?_⟩
      cases presenter with
      | renew held => exact htext rfl _ hcontent
      | issue seconds =>
        obtain ⟨s, hs, -, hnot⟩ := parsePresenterGrant_issued hgrant
        obtain rfl : s = x.secret := Option.some.inj (hs.symm.trans hsecret)
        exact hnot
  | use capability sourceIds revision mode value =>
    obtain ⟨sent, u, hsent, hu, hsecret, hbody, htexts⟩ := h
    rw [Shown.Kept, hsecret, htexts, capability.mentions_useBody hsent hbody, Client.Clean, Contains]
    refine and_iff_left fun t ht => ?_
    simp only [Client.presentedUse, Client.parseUse, bind_eq_ok, ensure_eq_ok, Except.ok.injEq] at hu
    obtain ⟨sent', -, data, -, raw, -, envelope, -, found, -, -, -, answer, hanswer, -, -, rfl⟩ := hu
    exact parsePresentedUse_content hanswer t (Option.mem_toList.mp ht)

/-! ### A content that holds the capability that is renewed -/

namespace RenewalSample
open MaterializationSample
open Planning.PlanSample (fits_zero)
open InstanceResponse.Sample (fits_bare fits_one)

def secret : String := "lcp1_0123456789abcdef0123456789abcdef0123456789abcdef0123456789abcdef"

def held : Capability := ⟨secret, by decide⟩

def grantFields : List (String × Json) :=
  [("presenter_ref", .str "presenter:0123456789abcdef0123456789abcdef"), ("expires_at_unix", .int 1)]

def engineFields : List (String × Json) :=
  [("schema_version", .int 2), ("materialization", mkObj (fields secret)), ("presenter", mkObj grantFields)]

def answer : Json :=
  mkObj [("schema_version", .int 2), ("tenant_id", tenant.json), ("governance_revision", .int 0), ("materialization", mkObj engineFields)]

theorem short_secret : Short secret := by decide

theorem fits_two : Json.Fits 100 (.int 2) := ⟨writable_int (by decide), by decide⟩

theorem fits_answer : Json.Fits 1600000 answer := by
  have hmono : ∀ {v : Json}, Json.Fits 100 v → Json.Fits 113000 v := fun h => h.mono (by decide)
  have hgrant : Json.Fits 113000 (mkObj grantFields) := by
    refine (fits_mkObj (n := 100) (k := 30) (l := ["presenter_ref", "expires_at_unix"]) rfl (by decide) ?_).mono (by decide)
    simp only [grantFields, List.mem_cons, List.not_mem_nil, or_false, forall_eq_or_imp, forall_eq]
    exact ⟨fits_bare (by decide) (by decide), fits_one⟩
  have hengine : Json.Fits 350000 (mkObj engineFields) := by
    refine (fits_mkObj (n := 113000) (k := 30) (l := ["schema_version", "materialization", "presenter"]) rfl (by decide) ?_).mono
      (by decide)
    simp only [engineFields, List.mem_cons, List.not_mem_nil, or_false, forall_eq_or_imp, forall_eq]
    exact ⟨hmono fits_two, fits_material short_secret, hgrant⟩
  refine (fits_mkObj (n := 350000) (k := 30) (l := envelopeKeys) rfl (by decide) ?_).mono (by decide)
  simp only [List.mem_cons, List.not_mem_nil, or_false, forall_eq_or_imp, forall_eq]
  exact ⟨fits_two.mono (by decide), (fits_bare (by decide) (by decide)).mono (by decide), fits_zero.mono (by decide), hengine⟩

theorem isPlain_answer : IsPlain answer := by
  have hgrant : IsPlain (mkObj grantFields) := by
    refine isPlain_mkObj ?_
    simp only [grantFields, List.mem_cons, List.not_mem_nil, or_false, forall_eq_or_imp, forall_eq]
    exact ⟨rfl, rfl⟩
  have hengine : IsPlain (mkObj engineFields) := by
    refine isPlain_mkObj ?_
    simp only [engineFields, List.mem_cons, List.not_mem_nil, or_false, forall_eq_or_imp, forall_eq]
    exact ⟨rfl, isPlain_material secret, hgrant⟩
  refine isPlain_mkObj ?_
  simp only [List.mem_cons, List.not_mem_nil, or_false, forall_eq_or_imp, forall_eq]
  exact ⟨rfl, rfl, rfl, hengine⟩

/-- The answer to a capability that is renewed is accepted, and its content is the secret. -/
theorem exists_renewed : ∃ c m, Client.contextMaterializeV2 c call (.renew held) = .ok m ∧ m.materialization.content = secret := by
  obtain ⟨⟨data, hdata⟩, hlength⟩ := fits_answer
  obtain ⟨⟨inner, hinner⟩, -⟩ := fits_envelope short_secret
  have hrenew : Json.Fits 950 (mkObj [("mode", .str "renew")]) := by
    refine (fits_mkObj (n := 100) (k := 30) (l := ["mode"]) rfl (by decide) ?_).mono (by decide)
    exact List.forall_mem_singleton.mpr (fits_bare (by decide) (by decide))
  obtain ⟨b, -, hpayload⟩ := payload_body (.inr ⟨_, rfl, hrenew⟩) "Enterprise instance materialization request exceeds its byte bound"
  have hload : strictLoads? data = some answer := (strictLoads?_canonical hdata).trans (congrArg some isPlain_answer)
  have hget : ∀ k, answer.get k = _ := fun k => Json.get_mkObj _ k
  have hengine : answer.get "materialization" = mkObj engineFields := hget _
  have hfields : ∀ k, (mkObj engineFields).get k = _ := fun k => Json.get_mkObj _ k
  obtain ⟨body, hsent⟩ : ∃ body, call.presentedPayload checked (.renew held) = .ok (body, b) := by
    have hbody : call.body checked (do return [("presenter", ← presenterRequest (.renew held))]) = _ :=
      body_call [("presenter", mkObj [("mode", .str "renew")])]
    simp only [Call.presentedPayload, hbody, ok_bind, hpayload]
    exact ⟨_, rfl⟩
  have hpost : (client data).postJson materializationV2Path b (maxMaterializationBytes + maxPresenterEnvelopeBytes) (some held)
      = .ok data := by
    rw [Client.postJson, client, ok_bind, ensure_true, ok_bind]
    rw [length_canonicalBytes hdata]
    exact hlength.trans (by decide)
  have hgrant : ∃ g, parsePresenterGrant (mkObj grantFields) secret false = .ok g := by
    have htrue : (parsePresenterGrant (mkObj grantFields) secret false).toBool = true := by decide
    cases h : parsePresenterGrant (mkObj grantFields) secret false with
    | ok g => exact ⟨g, rfl⟩
    | error e =>
      rw [h] at htrue
      cases htrue
  obtain ⟨g, hg⟩ := hgrant
  refine ⟨client data, ⟨materialization secret, g⟩, ?_, rfl⟩
  have hparse : (client data).parsePresented data Planning.PlanSample.request checked (.renew held) = .ok ⟨materialization secret, g⟩ := by
    simp only [Client.parsePresented, bind_eq_ok, ensure_eq_ok, exists_const, wrapping_eq_ok, loads_eq_ok, Planning.canonical_eq_ok]
    refine ⟨answer, hload, ⟨hasExactly_mkObj_self _, hget _⟩, ⟨?_, ?_⟩, inner, ?_, materialization secret,
      parse_envelope short_secret hinner, g, ?_, rfl⟩
    · rw [hengine]
      exact hasExactly_mkObj_self _
    · rw [hengine]
      exact hfields _
    · rw [hengine, hfields, hget, hget]
      exact hinner
    · rw [hengine, hfields]
      exact hg
  have hcall : call.request = Planning.PlanSample.request := rfl
  simp only [Client.contextMaterializeV2, Client.presentedAnswer, check_call, ok_bind, hsent, Presenter.held, hpost, hcall]
  exact hparse

end RenewalSample

open RenewalSample in
theorem exists_kept : ∃ c p x, Client.Shows c x p ∧ (x.Kept ↔ c.Clean p) := by
  obtain ⟨c, m, h, -⟩ := exists_renewed
  obtain ⟨x, hx⟩ := Client.exists_shows_materialize h
  exact ⟨c, _, x, hx, kept_iff hx⟩

open RenewalSample in
/-- A host answers a renewal with the capability that is renewed as the content, and it is returned. -/
theorem not_kept : ¬∀ (c : Client) (p : Presentation) (x : Shown), c.Shows x p → x.Kept := by
  intro hall
  obtain ⟨c, m, h, hcontent⟩ := exists_renewed
  obtain ⟨x, hx⟩ := Client.exists_shows_materialize h
  obtain ⟨-, htexts⟩ := hall c _ x hx
  obtain ⟨k, sent, m', hk, hsent, hm, hsecret, hbody, hshown⟩ := hx
  cases h.symm.trans hm
  have hheld : held = x.secret := Option.some.inj hsecret
  refine htexts m.materialization.content (by rw [hshown]; exact List.mem_singleton_self _) ?_
  rw [hcontent, ← hheld]
  exact List.infix_refl _

end LeanCtx.Enterprise
