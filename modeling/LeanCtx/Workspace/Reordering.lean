import LeanCtx.Workspace.Admitting
import LeanCtx.Workspace.Presence
import LeanCtx.Workspace.Storing

/-! Reordering: the records of a handoff are read the same whichever order their keys have, and so a handoff whose keys are put in
    order is a handoff. -/

namespace LeanCtx
open Json Unicode

/-! ### Readers -/

theorem nested_plain {α : Type} {f : Json → Except Err α} (h : ∀ v, f v.plain = f v) (v : Json) :
    SourceAnchor.nested f v.plain = SourceAnchor.nested f v := by
  cases v with
  | null => rfl
  | arr l => exact congrArg (some <$> ·) (h (.arr l))
  | obj f => exact congrArg (some <$> ·) (h (.obj f))
  | _ => rfl

theorem memberOf_plain {α : Type} (all : List α) (name : α → String) (err : Err) (v : Json) :
    memberOf all name err v.plain = memberOf all name err v := by
  cases v <;> rfl

theorem digestValue_plain (v : Json) (field : String) : digestValue v.plain field = digestValue v field := by
  cases v <;> rfl

theorem optionalDigest_plain (v : Json) (field : String) : optionalDigest v.plain field = optionalDigest v field := by
  cases v <;> rfl

theorem parseTimestamp_plain (v : Json) (field : String) : parseTimestamp v.plain field = parseTimestamp v field := by
  cases v <;> rfl

theorem plain_eq_str {v : Json} {s : Str} : v.plain = .str s ↔ v = .str s := by
  cases v <;> simp [plain]

theorem isPlain_text {max : Nat} (t : Text max) : IsPlain t.json := rfl

theorem isSome_get?_plain (v : Json) (k : String) : (v.plain.get? k).isSome = (v.get? k).isSome := by
  rw [get?_plain, Option.isSome_map]

theorem KindValue.fromDict_plain (label : String) (v : Json) : fromDict label v.plain = fromDict label v := by
  simp only [fromDict, exact, hasExactly_plain, get_plain, text_plain]

theorem SourceFreshness.make_plain (observed status validUntil : Json) :
    make observed.plain status.plain validUntil.plain = make observed status validUntil := by
  rw [make, parseTimestamp_plain, memberOf_plain]
  cases validUntil <;> rfl

theorem SourceFreshness.fromDict_plain (v : Json) : fromDict v.plain = fromDict v := by
  cases v with
  | obj f =>
    have hkeys : ((Json.obj f).plain.get? "valid_until").isSome = ((Json.obj f).get? "valid_until").isSome := isSome_get?_plain _ _
    have hmake := make_plain ((Json.obj f).get "observed_at") ((Json.obj f).get "status") ((Json.obj f).get "valid_until")
    rw [← get_plain, ← get_plain, ← get_plain] at hmake
    unfold fromDict
    rw [hmake, hkeys, exact, exact, hasExactly_plain, plain_obj]
  | _ => rfl

theorem SourceRecovery.fromDict_plain (v : Json) : fromDict v.plain = fromDict v := by
  cases v with
  | obj f =>
    have hkeys : ((Json.obj f).plain.get? "digest").isSome = ((Json.obj f).get? "digest").isSome := isSome_get?_plain _ _
    unfold fromDict
    rw [hkeys, exact, exact, hasExactly_plain, get_plain, get_plain, get_plain, text_plain, ref_plain, optionalDigest_plain, plain_obj]
  | _ => rfl

theorem SourceTrust.make_plain (level : TrustLevel) (v : Json) : make level v.plain = make level v := by
  rw [make, make, refs_plain]

theorem SourceTrust.fromDict_plain (v : Json) (allow : Bool) : fromDict v.plain allow = fromDict v allow := by
  simp only [fromDict, exact, hasExactly_plain, get_plain, ne_eq, plain_eq_str, memberOf_plain, make_plain]
  congr 1
  funext _
  cases v.get "evidence_refs" <;> rfl

/-- An anchor without a local file is read the same whichever order its keys have. The binding of a local file is kept as it stands. -/
theorem SourceAnchor.fromDict_plain {v : Json} {allow : Bool} (h : v.get "engine_binding" = .null) :
    fromDict v.plain allow = fromDict v allow := by
  have hbinding : (Json.null).plain = .null := rfl
  simp only [fromDict, exact, hasExactly_plain, get_plain, h, hbinding, plain_eq_str, nested_plain (KindValue.fromDict_plain "revision"),
    SourceRevision.fromDict, SourceScope.fromDict, SourceFreshness.fromDict_plain, nested_plain SourceRecovery.fromDict_plain,
    SourceTrust.fromDict_plain, KindValue.fromDict_plain, make, text_plain, memberOf_plain]

theorem PackagePin.fromDict_plain (v : Json) : fromDict v.plain = fromDict v := by
  have hsigner : ∀ (state : SignatureState) (v : Json), signerKey state v.plain = signerKey state v := by
    intro state v
    cases state <;> cases v <;> rfl
  simp only [fromDict, exact, hasExactly_plain, make, get_plain, text_plain, digestValue_plain, memberOf_plain, plain_eq_str, hsigner]

/-! ### Secrets -/

theorem holdsSecretList_eq_false {l : List Json} : holdsSecretList l = false ↔ ∀ v ∈ l, holdsSecret v = false := by
  induction l with
  | nil => simp [holdsSecretList]
  | cons v l ih => simp [holdsSecretList, ih]

theorem holdsSecretFields_eq_false {f : List (Str × Json)} : holdsSecretFields f = false ↔
    ∀ p ∈ f, (forbiddenKeys.any fun w => Str.lit w = p.1.map lower) = false ∧ holdsSecret p.2 = false := by
  induction f with
  | nil => simp [holdsSecretFields]
  | cons p f ih => simp only [holdsSecretFields, Bool.or_eq_false_iff, List.forall_mem_cons, ih]

theorem holdsSecret_plain {v : Json} (h : holdsSecret v = false) : holdsSecret v.plain = false := by
  revert h
  refine induct (P := fun v => holdsSecret v = false → holdsSecret v.plain = false) (fun h => h) (fun _ h => h) (fun _ h => h)
    (fun _ h => h) (fun _ h => h) (fun l ih h => ?_) (fun f ih h => ?_) v
  · rw [plain, plainList_eq, holdsSecret, holdsSecretList_eq_false]
    rw [holdsSecret, holdsSecretList_eq_false] at h
    intro w hw
    obtain ⟨v, hv, rfl⟩ := List.mem_map.mp hw
    exact ih v hv (h v hv)
  · rw [plain, plainFields_eq, holdsSecret, holdsSecretFields_eq_false]
    rw [holdsSecret, holdsSecretFields_eq_false] at h
    intro p hp
    obtain ⟨q, hq, rfl⟩ := List.mem_map.mp (mem_of_mem_sortFields hp)
    exact ⟨(h q hq).1, ih q hq (h q hq).2⟩

theorem pyEq_map_plain {l m : List Json} (h : pyEq (.arr l) (.arr m) = true) : pyEq (.arr l) (.arr (m.map plain)) = true := by
  have hplain := pyEq_symm (pyEq_plain (.arr m))
  rw [plain, plainList_eq] at hplain
  exact pyEq_trans h hplain

/-! ### Handoffs -/

/-- Reading the items in order reads what the items are. -/
theorem mapM_plain {α : Type} {f : Json → Except Err α} {l : List Json} (h : ∀ v ∈ l, f v.plain = f v) :
    (l.map plain).mapM f = l.mapM f := by
  induction l with
  | nil => rfl
  | cons v l ih =>
    rw [List.map_cons, List.mapM_cons, List.mapM_cons, h v List.mem_cons_self, ih fun w hw => h w (List.mem_cons_of_mem _ hw)]

namespace HandoffFields
variable {x : HandoffFields}

/-- The fields with the keys of their documents in order. -/
def plain (x : HandoffFields) : HandoffFields :=
  { x with
    selectedEntries := x.selectedEntries.map Json.plain
    sourceAnchors := x.sourceAnchors.map Json.plain
    packageRefs := x.packageRefs.map Json.plain }

theorem plain_unsignedFields (x : HandoffFields) :
    x.unsignedFields.map (fun p => (p.1, p.2.plain)) = x.plain.unsignedFields := by
  have htarget : (mkObj [("workspace_id", x.targetWorkspaceId.json), ("role", optional Text.json x.targetRole)]).plain =
      mkObj [("workspace_id", x.targetWorkspaceId.json), ("role", optional Text.json x.targetRole)] :=
    isPlain_mkObj (by
      simp only [List.mem_cons, List.not_mem_nil, or_false, forall_eq_or_imp, forall_eq]
      exact ⟨rfl, isPlain_optional (fun t => isPlain_text t) _⟩)
  have hrefs : x.recoveryRefs.json.plain = x.recoveryRefs.json := isPlain_arr fun v hv => by
    obtain ⟨t, -, rfl⟩ := List.mem_map.mp hv
    exact isPlain_text t
  have hsource : x.source.toDict.plain = x.source.toDict := x.source.isPlain_toDict
  have hfloor : x.requiredPolicyFloor.toDict.plain = x.requiredPolicyFloor.toDict := x.requiredPolicyFloor.isPlain_toDict
  have hbounds : bounds.plain = bounds := isPlain_mkObj (by simp [IsPlain, Json.plain])
  simp only [unsignedFields, plain, List.map_cons, List.map_nil, hsource, htarget, hrefs, hbounds, hfloor, Json.plain, plainList_eq]
  rfl

theorem plain_toDict (x : HandoffFields) : x.toDict.plain = x.plain.toDict := by
  rw [toDict, toDict, plain_mkObj, List.map_append, plain_unsignedFields]
  rfl

/-- The anchors of a handoff are read from values that name no local file. -/
theorem anchors_of_check (h : x.check = .ok ()) : ∃ anchors, x.anchors = .ok anchors ∧
    ∀ v ∈ x.sourceAnchors, ∃ a ∈ anchors, SourceAnchor.fromDict v true = .ok a ∧ pyEq a.toDict v = true ∧ a.engineBinding = none ∧
      v.get "engine_binding" = .null := by
  simp only [check, bind_eq_ok, ensure_eq_ok, exists_const] at h
  obtain ⟨-, -, -, _, -, -, anchors, hanchors, hportable, hcanonical, -⟩ := h
  refine ⟨anchors, hanchors, fun v hv => ?_⟩
  obtain ⟨a, ha, hread⟩ := exists_mem_of_mapM hanchors v hv
  have heq := pyEq_of_mapM hanchors hcanonical v hv a hread
  have hget := pyEq_symm (pyEq_get heq "engine_binding")
  simp only [SourceAnchor.toDict, get_mkObj, List.find?, String.reduceEq, decide_false, decide_true, Option.map_some,
    Option.getD_some, hportable a ha, optional] at hget
  exact ⟨a, ha, hread, heq, hportable a ha, eq_of_pyEq_null hget⟩

/-- What the constructor checks does not depend on the order of the keys. -/
theorem check_plain (h : x.check = .ok ()) : x.plain.check = .ok () := by
  have hunsigned : mkObj x.plain.unsignedFields = (mkObj x.unsignedFields).plain := by
    rw [plain_mkObj, plain_unsignedFields]
  obtain ⟨_, -, hbare⟩ := anchors_of_check h
  have hread : ∀ v ∈ x.sourceAnchors, SourceAnchor.fromDict v.plain true = SourceAnchor.fromDict v true := fun v hv => by
    obtain ⟨_, -, -, -, -, hnull⟩ := hbare v hv
    exact SourceAnchor.fromDict_plain hnull
  simp only [check, entries, anchors, pins, parallelRejectSensitive, parallelDigest_eq_ok, bind_eq_ok, ensure_eq_ok, exists_const]
    at h ⊢
  obtain ⟨hcount, hsources, hrefs, entries, hentries, hdistinct, anchors, hanchors, hportable, hcanonical, hkeys, hnamed, pins, hpins,
    hsorted, hsecret, d, hd, hdigest⟩ := h
  refine ⟨?_, ?_, ?_, entries, ?_, hdistinct, anchors, ?_, hportable, pyEq_map_plain hcanonical, hkeys, hnamed, pins, ?_, hsorted, ?_,
    d, ?_, hdigest⟩
  · simpa [plain] using hcount
  · simpa [plain] using hsources
  · simpa [plain] using hrefs
  · rw [plain, mapM_plain fun v _ => ProjectContextEntry.fromDict_plain v, hentries]
  · rw [plain, mapM_plain hread, hanchors]
  · rw [plain, mapM_plain fun v _ => PackagePin.fromDict_plain v, hpins]
  · rw [hunsigned]
    exact holdsSecret_plain hsecret
  · rw [hunsigned, domainDigest, canonical_plain]
    exact hd

end HandoffFields

namespace ContextHandoff

/-- The handoff with the keys of its documents in order. -/
def plain (h : ContextHandoff) : ContextHandoff := ⟨h.toHandoffFields.plain, HandoffFields.check_plain h.valid⟩

/-- A journal keeps the document of a handoff with its keys in order, and reads that. -/
theorem fromDict_plain (h : ContextHandoff) : fromDict h.toDict.plain = .ok h.plain := by
  rw [HandoffFields.plain_toDict]
  exact fromDict_toDict h.plain

end ContextHandoff

end LeanCtx
