import LeanCtx.Gateway.Report
import LeanCtx.Json.Fields

/-! The observation that a report returns, beside the one that was to be reported. The reader compares members with `==`, which takes
    `True` and `1.0` for one; a status is read as an integer besides, an attempt is not. -/

namespace LeanCtx

namespace Json

/-- Objects that have the same keys with the same values are the same, but for the order of keys. -/
theorem plain_eq_of_get? {v : Json} {g : List (String × Json)} {l : List String} (hv : v.isObj = true)
    (hkeys : ∀ k ∈ Preview.keysOf v, k ∈ l.map Str.lit) (hg : ∀ p ∈ g, p.1 ∈ l) (hget : ∀ k ∈ l, v.get? k = (mkObj g).get? k) :
    v.plain = (mkObj g).plain := by
  obtain ⟨f, rfl⟩ : ∃ f, v = .obj f := by
    cases v with
    | obj f => exact ⟨f, rfl⟩
    | _ => cases hv
  have hagree : Agree f (g.map fun p => (Str.lit p.1, p.2)) := by
    intro j
    by_cases hj : j ∈ l.map Str.lit
    · obtain ⟨k, hk, rfl⟩ := List.mem_map.mp hj
      have heq := hget k hk
      simp only [get?, mkObj, find?_sortFields] at heq
      have hkey : ∀ {h : List (Str × Json)} {p : Str × Json}, h.find? (fun p => p.1 = Str.lit k) = some p → p.1 = Str.lit k :=
        fun hp => by simpa using List.find?_some hp
      cases hf : f.find? fun p => p.1 = Str.lit k with
      | none =>
        rw [hf] at heq
        exact (Option.map_eq_none_iff.mp heq.symm).symm
      | some p =>
        rw [hf, Option.map_some] at heq
        obtain ⟨q, hq, hpq⟩ := Option.map_eq_some_iff.mp heq.symm
        rw [hq, Prod.ext ((hkey hq).trans (hkey hf).symm) hpq]
    · have hnone : ∀ {h : List (Str × Json)}, (∀ p ∈ h, p.1 ∈ l.map Str.lit) → h.find? (fun p => p.1 = j) = none := fun hh =>
        List.find?_eq_none.mpr fun p hp => by simpa using fun heq : p.1 = j => hj (heq ▸ hh p hp)
      rw [hnone fun p hp => hkeys p.1 (List.mem_map_of_mem hp), hnone fun p hp => ?_]
      obtain ⟨q, hq, rfl⟩ := List.mem_map.mp hp
      exact List.mem_map_of_mem (hg q hq)
  have hplain := sortFields_eq (hagree.map fun _ w => w.plain)
  rw [plain_obj, mkObj, plain_obj, plainFields_eq, plainFields_eq, map_sortFields, sortFields_eq_self (ordered_sortFields _)]
  exact congrArg Json.obj hplain

end Json

namespace Gateway
open Json Preview

variable {v : Json} {r : HostReportRequest} {x : EgressHostReportResponse}

/-- What is returned is what was to be reported, with the digest of what is returned. -/
structure EgressHostReportResponse.Echoes (x : EgressHostReportResponse) (r : HostReportRequest) : Prop where
  observation : x.observation.plain = r.observation
  digest : ∃ data, x.observation.canonicalBytes? = some data ∧ x.observationDigest = digestOf data

namespace HostReportRequest

def observationKeys : List String :=
  ["schema_version", "admission_receipt_digest", "attempt", "transport", "observer", "result", "http_status", "failure"]

theorem isPlain_observation (r : HostReportRequest) : IsPlain r.observation := by
  refine isPlain_mkObj fun p hp => ?_
  simp only [fields, List.mem_append, List.mem_cons, List.not_mem_nil, or_false, List.mem_map, Option.mem_toList] at hp
  rcases hp with (((rfl | rfl | rfl | rfl | rfl) | ⟨s, -, rfl⟩) | ⟨f, -, rfl⟩) | rfl
  all_goals rfl

theorem mem_observationKeys (r : HostReportRequest) : ∀ p ∈ r.fields ++ [("observer", .str "host_reported")], p.1 ∈ observationKeys := by
  intro p hp
  simp only [fields, List.mem_append, List.mem_cons, List.not_mem_nil, or_false, List.mem_map, Option.mem_toList] at hp
  rcases hp with (((rfl | rfl | rfl | rfl | rfl) | ⟨s, -, rfl⟩) | ⟨f, -, rfl⟩) | rfl
  all_goals
    dsimp only
    decide

theorem get?_fields (r : HostReportRequest) :
    (mkObj r.fields).get? "admission_receipt_digest" = some r.admissionReceiptDigest.json ∧
    (mkObj r.fields).get? "attempt" = some (.int r.attempt) ∧ (mkObj r.fields).get? "transport" = some (.str r.transport.name) ∧
    (mkObj r.fields).get? "result" = some (.str r.result.name) := by
  simp [fields]

/-- The members of an observation, where they are no more and no less than the request's. -/
theorem get?_observation (r : HostReportRequest) {k : String} (hk : k ≠ "observer") : r.observation.get? k = (mkObj r.fields).get? k := by
  have hnone : [("observer", Json.str "host_reported")].find? (fun p => p.1 = k) = none := by
    simpa using fun h : "observer" = k => hk h.symm
  rw [observation, get?_mkObj, get?_mkObj, List.find?_append, hnone, Option.or_none]

end HostReportRequest

/-- A member that agrees with one that `==` takes for itself alone is that one. -/
theorem get?_of_agrees {w : Json} {k : String} (h : agrees v w k = true)
    (hexact : ∀ a b, v.get? k = some a → w.get? k = some b → pyEq a b = true → a = b) : v.get? k = w.get? k := by
  unfold agrees at h
  split at h
  · next hv hw => rw [hv, hw]
  · next a b hv hw => rw [hv, hw, hexact a b hv hw h]
  · cases h

/-- What an accepted report is known to be: its members agree with the request's, and its digest is that of the observation asked for. -/
structure Reported (v : Json) (r : HostReportRequest) (x : EgressHostReportResponse) : Prop where
  returned : x.observation = v.get "observation"
  object : x.observation.isObj = true
  keys : HasKeys x.observation ["schema_version", "admission_receipt_digest", "attempt", "transport", "observer", "result"]
    ["http_status", "failure"]
  version : x.observation.get "schema_version" = .int 1
  observer : x.observation.get "observer" = .str "host_reported"
  agrees : ∀ k ∈ ["admission_receipt_digest", "attempt", "transport", "result", "http_status", "failure"],
    Gateway.agrees x.observation (mkObj r.fields) k = true
  digest : ∃ data, r.observation.canonicalBytes? = some data ∧ x.observationDigest = digestOf data
  status : x.observation.get "http_status" = .null ∨ ∃ n : Nat, x.observation.get "http_status" = .int n

theorem reported_of_parse (h : parseEgressHostReport v r = .ok x) : Reported v r x := by
  simp only [parseEgressHostReport, Preview.object, bind_eq_ok, ensure_eq_ok, exists_const, keys_eq_ok, int_eq_ok, forM_eq_ok, pure_eq_ok] at h
  obtain ⟨-, -, _, -, -, d, -, hobject, hkeys, one, ⟨hversion, -⟩, rfl, hobserver, hagrees, ⟨⟩, hdigest, ⟨⟩, hstatus, ⟨⟩, -, rfl⟩ := h
  refine ⟨rfl, hobject, hkeys, hversion, hobserver, hagrees, ?_, ?_⟩
  · unfold checkDigest at hdigest
    split at hdigest
    · cases hdigest
    · next data hdata => exact ⟨data, hdata, ensure_eq_ok.mp hdigest⟩
  · unfold checkStatus at hstatus
    split at hstatus
    · next hnull => exact Or.inl hnull
    · simp only [bind_eq_ok, int_eq_ok] at hstatus
      obtain ⟨n, ⟨hn, -⟩, -⟩ := hstatus
      exact Or.inr ⟨n, hn⟩

/-- Every member is the request's, the attempt where it is an integer. -/
theorem Reported.get? (h : Reported v r x) {n : Int} (hattempt : x.observation.get "attempt" = .int n) :
    ∀ k ∈ HostReportRequest.observationKeys, x.observation.get? k = r.observation.get? k := by
  have hsome : ∀ {w : Json} {k : String} {a : Json}, w.get k = a → a ≠ .null → w.get? k = some a := by
    intro w k a hget ha
    unfold Json.get at hget
    cases hw : w.get? k with
    | none =>
      rw [hw] at hget
      exact absurd hget.symm ha
    | some b => rw [hw] at hget; exact congrArg some hget
  have htext : ∀ {k : String}, k ≠ "observer" → k ∈ ["admission_receipt_digest", "attempt", "transport", "result", "http_status", "failure"] →
      (∀ b, (mkObj r.fields).get? k = some b → ∃ s, b = .str s) → x.observation.get? k = r.observation.get? k := by
    intro k hk hmem hstr
    rw [r.get?_observation hk]
    refine get?_of_agrees (h.agrees k hmem) fun a b _ hb hab => ?_
    obtain ⟨s, rfl⟩ := hstr b hb
    exact eq_of_pyEq_str hab
  obtain ⟨hdigest, hrequested, htransport, hresult⟩ := r.get?_fields
  simp only [HostReportRequest.observationKeys, List.mem_cons, List.not_mem_nil, or_false, forall_eq_or_imp, forall_eq]
  refine ⟨?_, htext (by decide) (by decide) ?_, ?_, htext (by decide) (by decide) ?_, ?_, htext (by decide) (by decide) ?_, ?_,
    htext (by decide) (by decide) ?_⟩
  · rw [hsome h.version Json.noConfusion, r.get?_observation (by decide), get?_mkObj]
    rfl
  · intro b hb
    rw [hdigest] at hb
    cases hb
    exact ⟨_, rfl⟩
  · rw [r.get?_observation (by decide)]
    refine get?_of_agrees (h.agrees _ (by decide)) fun a b ha hb hab => ?_
    rw [hsome hattempt Json.noConfusion] at ha
    rw [hrequested] at hb
    cases ha
    cases hb
    rw [pyEq_int.mp hab]
  · intro b hb
    rw [htransport] at hb
    cases hb
    exact ⟨_, rfl⟩
  · rw [hsome h.observer Json.noConfusion, HostReportRequest.observation, get?_mkObj]
    cases hs : r.httpStatus <;> cases hf : r.failure <;> simp [HostReportRequest.fields, hs, hf]
  · intro b hb
    rw [hresult] at hb
    cases hb
    exact ⟨_, rfl⟩
  · rw [r.get?_observation (by decide)]
    refine get?_of_agrees (h.agrees _ (by decide)) fun a b ha hb hab => ?_
    have hb : ∃ n : Nat, b = .int n := by
      rw [get?_mkObj] at hb
      cases hs : r.httpStatus with
      | none => cases hf : r.failure <;> simp [HostReportRequest.fields, hs, hf] at hb
      | some s => exact ⟨s, by simpa [HostReportRequest.fields, hs, eq_comm] using hb⟩
    obtain ⟨m, rfl⟩ := hb
    rcases h.status with hnull | ⟨n, hn⟩
    · rw [Json.get, ha] at hnull
      obtain rfl : a = .null := hnull
      exact absurd (eq_of_pyEq_null (pyEq_symm hab)) Json.noConfusion
    · rw [Json.get, ha] at hn
      obtain rfl : a = .int n := hn
      rw [pyEq_int.mp hab]
  · intro b hb
    rw [get?_mkObj] at hb
    cases hf : r.failure with
    | none => cases hs : r.httpStatus <;> simp [HostReportRequest.fields, hs, hf] at hb
    | some f => cases hs : r.httpStatus <;> exact ⟨Str.lit f.name, by simpa [HostReportRequest.fields, hs, hf, eq_comm] using hb⟩

/-! ### An attempt that is a number, and one that is a Boolean -/

namespace EchoSample

def receipt : Digest := ⟨Str.lit ("sha256:" ++ "0000000000000000000000000000000000000000000000000000000000000000"), by decide⟩

def request : HostReportRequest :=
  ⟨receipt, 1, .websocket, .responseObserved, none, none, HostReportRequest.attempted_one, HostReportRequest.statused_none, fun _ => ⟨rfl, nofun⟩, nofun⟩

/-- An observation whose attempt is the value. -/
def observation (attempt : Json) : Json :=
  mkObj [("schema_version", .int 1), ("admission_receipt_digest", receipt.json), ("attempt", attempt), ("transport", .str "websocket"),
    ("result", .str "response_observed"), ("observer", .str "host_reported")]

def digest : Digest := digestOf ((request.observation.canonicalBytes?).getD [])

def document (attempt : Json) : Json :=
  mkObj [("schema_version", .int 1), ("observation_digest", digest.json), ("observation", observation attempt)]

theorem checkDigest_digest : checkDigest digest request = .ok () := by
  obtain ⟨data, hdata⟩ := request.writable_observation
  rw [checkDigest, digest, hdata]
  exact ensure_eq_ok.mpr rfl

theorem parse_document {attempt : Json} (hkeys : HasKeys (observation attempt)
      ["schema_version", "admission_receipt_digest", "attempt", "transport", "observer", "result"] ["http_status", "failure"])
    (hattempt : pyEq attempt (.int 1) = true) : parseEgressHostReport (document attempt) request = .ok ⟨digest, observation attempt⟩ := by
  have hget : ∀ k, (document attempt).get k = _ := fun k => Json.get_mkObj _ k
  have hget? : ∀ k, (observation attempt).get? k = _ := fun k => Json.get?_mkObj _ k
  have hdocument : HasKeys (document attempt) ["schema_version", "observation_digest", "observation"] [] := by
    simp only [HasKeys, document, mkObj, keysOf, mem_keys_sortFields, List.map_cons, List.map_nil]
    simp
  have hagrees : ∀ k ∈ ["admission_receipt_digest", "attempt", "transport", "result", "http_status", "failure"],
      agrees (observation attempt) (mkObj request.fields) k = true := by
    simp only [agrees, hget?, get?_mkObj, List.mem_cons, List.not_mem_nil, or_false, forall_eq_or_imp, forall_eq]
    exact ⟨pyEq_refl _, hattempt, pyEq_refl _, pyEq_refl _, rfl, rfl⟩
  have hobservation : (document attempt).get "observation" = observation attempt := hget _
  simp only [parseEgressHostReport, Preview.object, bind_eq_ok, ensure_eq_ok, exists_const, keys_eq_ok, int_eq_ok, forM_eq_ok, pure_eq_ok,
    Preview.digest_eq_ok, hobservation]
  refine ⟨rfl, hdocument, 1, ⟨hget _, by decide⟩, rfl, digest, hget _, rfl, hkeys, 1, ⟨?_, by decide⟩, rfl, ?_, hagrees, (), checkDigest_digest,
    (), ?_, (), ?_, rfl⟩
  · rw [Json.get, hget?]
    rfl
  · rw [Json.get, hget?]
    rfl
  · rw [checkStatus, Json.get, hget?]
    rfl
  · rw [checkFailure, hget?]
    rfl

theorem parse_one : parseEgressHostReport (document (.int 1)) request = .ok ⟨digest, observation (.int 1)⟩ :=
  parse_document ⟨by decide, by decide⟩ (pyEq_refl _)

theorem parse_true : parseEgressHostReport (document (.bool true)) request = .ok ⟨digest, observation (.bool true)⟩ :=
  parse_document ⟨by decide, by decide⟩ (by decide)

end EchoSample

/-- A report that is accepted returns what was to be reported exactly when it gives the attempt as an integer. -/
theorem echoes_iff (h : parseEgressHostReport v r = .ok x) : x.Echoes r ↔ ∃ n, (v.get "observation").get "attempt" = .int n := by
  have hreported := reported_of_parse h
  rw [← hreported.returned]
  constructor
  · rintro ⟨hobservation, -⟩
    have hattempt : (x.observation.get "attempt").plain = .int r.attempt := by
      rw [← get_plain, hobservation, Json.get, r.get?_observation (by decide), r.get?_fields.2.1]
      rfl
    cases hget : x.observation.get "attempt" with
    | int n => exact ⟨n, rfl⟩
    | _ =>
      rw [hget] at hattempt
      cases hattempt
  · rintro ⟨n, hattempt⟩
    have hkeys : ∀ k ∈ keysOf x.observation, k ∈ HostReportRequest.observationKeys.map Str.lit := fun k hk => by
      have hmem := hreported.keys.2 k hk
      simpa [HostReportRequest.observationKeys, or_assoc, or_comm, or_left_comm] using hmem
    have hplain : x.observation.plain = r.observation :=
      (plain_eq_of_get? hreported.object hkeys r.mem_observationKeys (hreported.get? hattempt)).trans r.isPlain_observation
    obtain ⟨data, hdata, hdigest⟩ := hreported.digest
    exact ⟨hplain, data, by rw [← canonicalBytes?_plain, hplain, hdata], hdigest⟩

theorem echoes_one : EgressHostReportResponse.Echoes ⟨EchoSample.digest, EchoSample.observation (.int 1)⟩ EchoSample.request :=
  (echoes_iff EchoSample.parse_one).mpr ⟨1, by
    rw [show (EchoSample.document (.int 1)).get "observation" = EchoSample.observation (.int 1) from Json.get_mkObj _ _]
    exact Json.get_mkObj _ _⟩

/-- `"attempt": true` is accepted where the first attempt was asked for, and is returned. -/
theorem not_echoes_true : parseEgressHostReport (EchoSample.document (.bool true)) EchoSample.request =
      .ok ⟨EchoSample.digest, EchoSample.observation (.bool true)⟩ ∧
    ¬EgressHostReportResponse.Echoes ⟨EchoSample.digest, EchoSample.observation (.bool true)⟩ EchoSample.request := by
  refine ⟨EchoSample.parse_true, fun h => ?_⟩
  have hattempt := congrArg (Json.get · "attempt") h.observation
  simp only [get_plain] at hattempt
  rw [show (EchoSample.observation (.bool true)).get "attempt" = .bool true from Json.get_mkObj _ _, Json.get,
    EchoSample.request.get?_observation (by decide), EchoSample.request.get?_fields.2.1] at hattempt
  cases hattempt

end Gateway
end LeanCtx
