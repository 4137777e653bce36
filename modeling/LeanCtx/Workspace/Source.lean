import LeanCtx.Workspace.Digest
import LeanCtx.Workspace.Time
import LeanCtx.Python.Path

/-! Sources: the anchor by which a workspace knows a source, with its revision, freshness, recovery, trust and
    scope, and the local file that a filesystem source may be bound to. -/

namespace LeanCtx

/-! ### Local files -/

/-- A local file under a project root: a `ContextSource`, its path and root in normal form. -/
structure ContextSource where
  path : Str
  projectRoot : Str
  mediaType : Str
  sourceRef : Option Str
  sourceDigest : Option Str
deriving DecidableEq

namespace ContextSource

def maxPathBytes : Nat := 4096

/-- The absolute path of a file given under a root. -/
def absolutePath (path root : Str) : Str := Path.normpath (Path.join root path)

/-- `ContextSource(…)`, none where the constructor raises. A relative root would be resolved against the working
    directory; the result differs from the root that was given, which no caller accepts, so the model refuses
    it at once. -/
def make (path root mediaType : Str) (sourceRef sourceDigest : Option Str) : Option ContextSource :=
  let root' := Path.normpath root
  let absolute := absolutePath path root'
  if isText maxPathBytes path && isTask maxPathBytes root && Path.isAbs root &&
      root'.utf8Length ≤ maxPathBytes && Path.commonpath absolute root' == root' &&
      absolute.utf8Length ≤ maxPathBytes && isText 512 mediaType && sourceRef.all (isRef 512) &&
      sourceDigest.all isDigest then
    some ⟨if Path.isAbs path then absolute else Path.normpath path, root', mediaType, sourceRef, sourceDigest⟩
  else none

/-- `source.relative_path`, none where the property raises. -/
def relativePath (s : ContextSource) : Option Str :=
  let absolute := absolutePath s.path s.projectRoot
  let relative := Path.relpath absolute s.projectRoot
  if Path.commonpath absolute s.projectRoot != s.projectRoot || relative == [] || relative == [46] ||
      relative == [46, 46] || decide ([46, 46, 47] <+: relative) || relative.any (· < 32) then none
  else some relative

/-- `source.to_dict()`, none where it raises. -/
def toDict (s : ContextSource) : Option Json :=
  s.relativePath.map fun path => Json.mkObj <|
    [("path", .str path), ("media_type", .str s.mediaType)] ++
      (s.sourceRef.map fun r => ("source_ref", Json.str r)).toList ++
      (s.sourceDigest.map fun d => ("source_digest", Json.str d)).toList ++ [("project_root", .str s.projectRoot)]

end ContextSource

/-- A JSON string, or nothing where the key is missing or null. -/
def optionalStr (v : Json) (k : String) : Except Err (Option Str) :=
  match v.get? k with
  | none => .ok none
  | some .null => .ok none
  | some (.str s) => .ok (some s)
  | some _ => .error (.validation "engine_binding cannot be reconstructed")

/-- `_source_from_binding(binding)`. -/
def sourceFromBinding (v : Json) : Except Err ContextSource := do
  let path ← optionalStr v "path"
  let root ← optionalStr v "project_root"
  let mediaType ← optionalStr v "media_type"
  let sourceRef ← optionalStr v "source_ref"
  let sourceDigest ← optionalStr v "source_digest"
  match path, root, mediaType with
  | some path, some root, some mediaType =>
    match ContextSource.make path root mediaType sourceRef sourceDigest with
    | some s => .ok s
    | none => .error (.validation "engine_binding cannot be reconstructed")
  | _, _, _ => .error (.validation "engine_binding cannot be reconstructed")

/-- The keys of a descriptor: the path, the root and the media type, and at most a reference and a digest. -/
def hasBindingKeys (v : Json) : Bool :=
  match v with
  | .obj f =>
    f.all (fun p => ["path", "project_root", "media_type", "source_ref", "source_digest"].any (Str.lit · = p.1)) &&
      ["path", "project_root", "media_type"].all fun k => (v.get? k).isSome
  | _ => false

/-- A JSON object is the descriptor of the local file that it describes. -/
def isBinding (v : Json) : Bool :=
  hasBindingKeys v && match sourceFromBinding v with
    | .ok s => s.toDict.any (Json.pyEq v)
    | .error _ => false

/-- The binding of an anchor to a local file: a descriptor in normal form. -/
abbrev EngineBinding := {v : Json // isBinding v = true}

/-! ### Revision and scope -/

/-- A kind and a value. -/
structure KindValue where
  kind : Text 64
  value : Text 2048
deriving DecidableEq

namespace KindValue

def toDict (x : KindValue) : Json := Json.mkObj [("kind", x.kind.json), ("value", x.value.json)]

def fromDict (label : String) (v : Json) : Except Err KindValue := do
  exact v ["kind", "value"] label
  let kind ← text (v.get "kind") (label ++ ".kind") 64
  let value ← text (v.get "value") (label ++ ".value") 2048
  return ⟨kind, value⟩

@[simp] theorem fromDict_toDict (label : String) (x : KindValue) : fromDict label x.toDict = .ok x := by
  simp [fromDict, toDict, Json.get_mkObj]

theorem writable_toDict (x : KindValue) : x.toDict.Writable :=
  Json.writable_mkObj <| by simp [writable_text]

end KindValue

/-- `SourceRevision`. -/
abbrev SourceRevision := KindValue

/-- `SourceRevision.from_dict`. -/
def SourceRevision.fromDict : Json → Except Err SourceRevision := KindValue.fromDict "revision"

/-- `SourceScope`. -/
abbrev SourceScope := KindValue

/-- `SourceScope.from_dict`. -/
def SourceScope.fromDict : Json → Except Err SourceScope := KindValue.fromDict "scope"

/-! ### Freshness -/

inductive FreshnessStatus
  | current
  | stale
  | unknown
deriving DecidableEq

namespace FreshnessStatus

def name : FreshnessStatus → String
  | .current => "current"
  | .stale => "stale"
  | .unknown => "unknown"

def all : List FreshnessStatus := [.current, .stale, .unknown]

theorem mem_all (x : FreshnessStatus) : x ∈ all := by cases x <;> decide

theorem name_injective : Function.Injective name := by
  intro x y h
  cases x <;> cases y <;> first | rfl | simp [name] at h

end FreshnessStatus

/-- When a source was observed, and until when that holds. -/
structure SourceFreshness where
  observedAt : DateTime
  status : FreshnessStatus
  validUntil : Option DateTime
  valid : ∀ t ∈ validUntil, t.before observedAt = false
deriving DecidableEq

namespace SourceFreshness

def toDict (x : SourceFreshness) : Json :=
  Json.mkObj ([("observed_at", x.observedAt.json), ("status", .str x.status.name)] ++
    (x.validUntil.map fun t => ("valid_until", t.json)).toList)

/-- `SourceFreshness(…)`. -/
def make (observedAt status validUntil : Json) : Except Err SourceFreshness := do
  let observed ← parseTimestamp observedAt "freshness.observed_at"
  let status ← memberOf FreshnessStatus.all FreshnessStatus.name (.validation "freshness.status is invalid") status
  let until' ← match validUntil with
    | .null => Except.ok none
    | v => some <$> parseTimestamp v "freshness.valid_until"
  if h : ∀ t ∈ until', t.before observed = false then .ok ⟨observed, status, until', h⟩
  else .error (.validation "freshness.valid_until precedes observed_at")

/-- `SourceFreshness.from_dict`. -/
def fromDict (v : Json) : Except Err SourceFreshness := do
  match v with
  | .obj _ => pure ()
  | _ => .error (.incompatible "freshness is not an object")
  exact v (["observed_at", "status"] ++ if (v.get? "valid_until").isSome then ["valid_until"] else []) "freshness"
  catching (make (v.get "observed_at") (v.get "status") (v.get "valid_until")) fun
    | .typeError => .incompatible "invalid freshness"
    | e => e

/-- The times have a normal form that is a timestamp again. -/
def Stable (x : SourceFreshness) : Prop := 1000 ≤ x.observedAt.year ∧ ∀ t ∈ x.validUntil, 1000 ≤ t.year

end SourceFreshness

/-! ### Recovery -/

/-- How a source can be recovered. -/
structure SourceRecovery where
  kind : Text 64
  immutableRef : Ref 2048
  digest : Option Digest
deriving DecidableEq

namespace SourceRecovery

def toDict (x : SourceRecovery) : Json :=
  Json.mkObj ([("kind", x.kind.json), ("immutable_ref", x.immutableRef.json)] ++
    (x.digest.map fun d => ("digest", d.json)).toList)

/-- `SourceRecovery.from_dict`. -/
def fromDict (v : Json) : Except Err SourceRecovery := do
  match v with
  | .obj _ => pure ()
  | _ => .error (.incompatible "recovery is not an object")
  exact v (["kind", "immutable_ref"] ++ if (v.get? "digest").isSome then ["digest"] else []) "recovery"
  let kind ← text (v.get "kind") "recovery.kind" 64
  let immutableRef ← ref (v.get "immutable_ref") "recovery.immutable_ref" 2048
  let digest ← optionalDigest (v.get "digest") "recovery.digest"
  return ⟨kind, immutableRef, digest⟩

end SourceRecovery

/-! ### Trust -/

inductive TrustLevel
  | unverified
  | «local»
  | verified
deriving DecidableEq

namespace TrustLevel

def name : TrustLevel → String
  | .unverified => "unverified"
  | .local => "local"
  | .verified => "verified"

def all : List TrustLevel := [.unverified, .local, .verified]

theorem mem_all (x : TrustLevel) : x ∈ all := by cases x <;> decide

theorem name_injective : Function.Injective name := by
  intro x y h
  cases x <;> cases y <;> first | rfl | simp [name] at h

end TrustLevel

/-- A reference to a sealed receipt: `receipt:sha256:` and 64 hexadecimal digits. -/
def isReceiptRef (s : Str) : Bool := decide (Str.lit "receipt:" <+: s) && isDigest (s.drop 8)

/-- How far a source is trusted. Verified trust names the receipts that prove it. -/
structure SourceTrust where
  level : TrustLevel
  evidenceRefs : Refs 32
  valid : level = .verified → evidenceRefs.1 ≠ [] ∧ ∀ r ∈ evidenceRefs.1, isReceiptRef r.1 = true
deriving DecidableEq

namespace SourceTrust

def toDict (x : SourceTrust) : Json :=
  Json.mkObj [("level", .str x.level.name), ("evidence_refs", x.evidenceRefs.json)]

/-- `SourceTrust(level, evidence_refs)`, and `_verified_source_trust(evidence_refs)` for verified trust. -/
def make (level : TrustLevel) (evidence : Json) : Except Err SourceTrust := do
  let refs ← refs evidence "trust.evidence_refs" 32
  if h : level = .verified → refs.1 ≠ [] ∧ ∀ r ∈ refs.1, isReceiptRef r.1 = true then .ok ⟨level, refs, h⟩
  else .error (.validation "verified trust requires receipt-bound evidence")

/-- `_source_trust_from_dict(value, allow_verified=…)`. -/
def fromDict (v : Json) (allowVerified : Bool) : Except Err SourceTrust := do
  exact v ["level", "evidence_refs"] "trust"
  match v.get "evidence_refs" with
  | .arr _ => pure ()
  | _ => .error (.incompatible "trust.evidence_refs must be a JSON array")
  ensure (v.get "level" ≠ .str "verified" ∨ allowVerified = true)
    (.incompatible "verified trust requires SDK evidence")
  let level ← catching (memberOf TrustLevel.all TrustLevel.name (.validation "trust.level is invalid") (v.get "level"))
    fun
      | .typeError => .incompatible "invalid trust"
      | e => e
  make level (v.get "evidence_refs")

end SourceTrust

/-! ### Anchors -/

inductive SourceKind
  | filesystem
  | git
  | archive
  | api
  | custom
deriving DecidableEq

namespace SourceKind

def name : SourceKind → String
  | .filesystem => "filesystem"
  | .git => "git"
  | .archive => "archive"
  | .api => "api"
  | .custom => "custom"

def all : List SourceKind := [.filesystem, .git, .archive, .api, .custom]

theorem mem_all (x : SourceKind) : x ∈ all := by cases x <;> decide

theorem name_injective : Function.Injective name := by
  intro x y h
  cases x <;> cases y <;> first | rfl | simp [name] at h

end SourceKind

abbrev SourceId := Text 128

/-- What a workspace knows of a source. -/
structure SourceAnchor where
  sourceId : SourceId
  kind : SourceKind
  canonicalId : Text 2048
  revision : Option SourceRevision
  freshness : SourceFreshness
  recovery : Option SourceRecovery
  trust : SourceTrust
  scope : SourceScope
  engineBinding : Option EngineBinding
  revisionKind : ∀ r ∈ revision, r.kind.1 = Str.lit kind.name
  bindingKind : engineBinding.isSome = true → kind = .filesystem
deriving DecidableEq

namespace SourceAnchor

def schema : String := "leanctx.source-anchor/v1"

def toDict (x : SourceAnchor) : Json :=
  Json.mkObj [("schema_version", .str schema), ("source_id", x.sourceId.json), ("kind", .str x.kind.name),
    ("canonical_id", x.canonicalId.json), ("revision", optional KindValue.toDict x.revision),
    ("freshness", x.freshness.toDict), ("recovery", optional SourceRecovery.toDict x.recovery),
    ("trust", x.trust.toDict), ("scope", x.scope.toDict), ("engine_binding", optional Subtype.val x.engineBinding)]

/-- The binding that the constructor accepts for a source of some kind. -/
def binding (kind : SourceKind) (v : Json) : Except Err (Option EngineBinding) :=
  match v with
  | .null => .ok none
  | .obj f => do
    ensure (kind = .filesystem) (.validation "engine_binding requires a filesystem source")
    ensure (hasBindingKeys (.obj f) = true) (.validation "engine_binding fields do not match ContextSource")
    let _ ← catching (sourceFromBinding (.obj f)) fun _ => Err.validation "engine_binding is not a valid ContextSource"
    if h : isBinding (.obj f) = true then .ok (some ⟨.obj f, h⟩)
    else .error (.validation "engine_binding is not canonical")
  | _ =>
    if kind = .filesystem then .error (.validation "engine_binding must be a mapping")
    else .error (.validation "engine_binding requires a filesystem source")

/-- `SourceAnchor(…)` of values that are already checked, and the identifiers that are not. -/
def make (sourceId kind canonicalId : Json) (revision : Option SourceRevision) (freshness : SourceFreshness)
    (recovery : Option SourceRecovery) (trust : SourceTrust) (scope : SourceScope) (engineBinding : Json) :
    Except Err SourceAnchor := do
  let sourceId ← text sourceId "source_id" 128
  let kind ← memberOf SourceKind.all SourceKind.name (.validation "source kind is invalid") kind
  let canonicalId ← text canonicalId "canonical_id" 2048
  if hr : ∀ r ∈ revision, r.kind.1 = Str.lit kind.name then
    let binding ← binding kind engineBinding
    if hb : binding.isSome = true → kind = .filesystem then
      .ok ⟨sourceId, kind, canonicalId, revision, freshness, recovery, trust, scope, binding, hr, hb⟩
    else .error (.validation "engine_binding requires a filesystem source")
  else .error (.validation "revision kind does not match source kind")

/-- A nested value, or nothing where it is null. -/
def nested {α : Type} (f : Json → Except Err α) : Json → Except Err (Option α)
  | .null => .ok none
  | v => some <$> f v

/-- `_source_anchor_from_dict(value, allow_verified=…)`. -/
def fromDict (v : Json) (allowVerified : Bool) : Except Err SourceAnchor := do
  exact v ["schema_version", "source_id", "kind", "canonical_id", "revision", "freshness", "recovery", "trust", "scope",
    "engine_binding"] "source anchor"
  ensure (v.get "schema_version" = .str schema) (.incompatible "unknown source anchor schema")
  @catching Err Err _ (do
    let revision ← nested SourceRevision.fromDict (v.get "revision")
    let freshness ← SourceFreshness.fromDict (v.get "freshness")
    let recovery ← nested SourceRecovery.fromDict (v.get "recovery")
    let trust ← SourceTrust.fromDict (v.get "trust") allowVerified
    let scope ← SourceScope.fromDict (v.get "scope")
    make (v.get "source_id") (v.get "kind") (v.get "canonical_id") revision freshness recovery trust scope
      (v.get "engine_binding")) fun
    | .incompatible m => .incompatible m
    | _ => .incompatible "invalid source anchor"

@[simp] theorem memberOf_sourceKind (k : SourceKind) (e : Err) :
    memberOf SourceKind.all SourceKind.name e (.str k.name) = .ok k :=
  memberOf_name SourceKind.mem_all SourceKind.name_injective e k

/-- The anchor without its local file. -/
def portable (x : SourceAnchor) : SourceAnchor := { x with engineBinding := none, bindingKind := nofun }

end SourceAnchor
/-! ### Reading back -/

theorem mkObj_ne_null (f : List (String × Json)) : Json.mkObj f ≠ .null := nofun

theorem nested_optional {α : Type} {f : Json → Except Err α} {g : α → Json} (hne : ∀ a, g a ≠ .null) {o : Option α}
    (h : ∀ a ∈ o, f (g a) = .ok a) : SourceAnchor.nested f (optional g o) = .ok o := by
  cases o with
  | none => rfl
  | some a =>
    have hnull := hne a
    have ha := h a rfl
    simp only [optional]
    revert hnull ha
    cases g a <;> intro hnull ha
    case null => exact absurd rfl hnull
    all_goals
      rw [SourceAnchor.nested, ha]
      · rfl
      · exact hnull

theorem SourceFreshness.fromDict_toDict {x : SourceFreshness} (h : x.Stable) : fromDict x.toDict = .ok x := by
  obtain ⟨observed, status, until', hvalid⟩ := x
  have hobserved := parseTimestamp_json h.1 "freshness.observed_at"
  have hstatus := memberOf_name FreshnessStatus.mem_all FreshnessStatus.name_injective
    (.validation "freshness.status is invalid") status
  cases until' with
  | none => simp [fromDict, toDict, Json.get_mkObj, make, hobserved, hstatus]; rfl
  | some t =>
    have huntil := parseTimestamp_json (h.2 t rfl) "freshness.valid_until"
    have hbefore : t.before observed = false := hvalid t rfl
    simp only [DateTime.json] at huntil hobserved
    simp [fromDict, toDict, Json.get_mkObj, make, hobserved, hstatus, huntil, hbefore, DateTime.json]
    rfl

@[simp] theorem SourceRecovery.fromDict_toDict (x : SourceRecovery) : fromDict x.toDict = .ok x := by
  obtain ⟨kind, immutableRef, digest⟩ := x
  cases digest with
  | none => simp [fromDict, toDict, Json.get_mkObj]; rfl
  | some d =>
    have hd : optionalDigest d.json "recovery.digest" = .ok (some d) := optionalDigest_json (some d) _
    simp [fromDict, toDict, Json.get_mkObj, hd]
    rfl

theorem SourceTrust.fromDict_toDict {x : SourceTrust} {allow : Bool} (h : x.level = .verified → allow = true) :
    fromDict x.toDict allow = .ok x := by
  obtain ⟨level, evidence, hvalid⟩ := x
  have hlevel := memberOf_name TrustLevel.mem_all TrustLevel.name_injective (.validation "trust.level is invalid") level
  have hallow : ¬level.name = "verified" ∨ allow = true := by
    by_cases hv : level = .verified
    · exact Or.inr (h hv)
    · exact Or.inl fun e => hv (TrustLevel.name_injective (e.trans (show "verified" = TrustLevel.name .verified from rfl)))
  have hrefs := refs_json evidence "trust.evidence_refs"
  have hmake : make level evidence.json = .ok ⟨level, evidence, hvalid⟩ := by
    rw [make, hrefs, ok_bind, dif_pos hvalid]
  simp only [Refs.json] at hmake
  simp [fromDict, toDict, Json.get_mkObj, hlevel, ensure_true hallow, Refs.json, hmake]

/-- An anchor whose times are stable reads back, if its trust may be verified. -/
theorem SourceAnchor.fromDict_toDict {x : SourceAnchor} {allow : Bool} (hfresh : x.freshness.Stable)
    (hallow : x.trust.level = .verified → allow = true) : fromDict x.toDict allow = .ok x := by
  obtain ⟨sourceId, kind, canonicalId, revision, freshness, recovery, trust, scope, binding', hrev, hbind⟩ := x
  have hrevision : nested SourceRevision.fromDict (optional KindValue.toDict revision) = .ok revision :=
    nested_optional (fun _ => mkObj_ne_null _) fun r _ => KindValue.fromDict_toDict "revision" r
  have hrecovery : nested SourceRecovery.fromDict (optional SourceRecovery.toDict recovery) = .ok recovery :=
    nested_optional (fun _ => mkObj_ne_null _) fun r _ => SourceRecovery.fromDict_toDict r
  have hscope : SourceScope.fromDict scope.toDict = .ok scope := KindValue.fromDict_toDict "scope" scope
  have hbinding : binding kind (optional Subtype.val binding') = .ok binding' := by
    cases binding' with
    | none => rfl
    | some b =>
      obtain ⟨v, hv⟩ := b
      obtain ⟨hkeys, hsource⟩ := Bool.and_eq_true_iff.mp hv
      obtain ⟨f, rfl⟩ : ∃ f, v = .obj f := by
        cases v with
        | obj f => exact ⟨f, rfl⟩
        | _ => cases hkeys
      cases hs : sourceFromBinding (.obj f) with
      | error e => simp [hs] at hsource
      | ok s => simp [optional, binding, ensure_true (hbind rfl), ensure_true hkeys, hs, hv]
  have hkind : ∀ r : SourceRevision, revision = some r → r.kind.1 = Str.lit kind.name := hrev
  simp [fromDict, toDict, Json.get_mkObj, hrevision, SourceFreshness.fromDict_toDict hfresh, hrecovery,
    SourceTrust.fromDict_toDict hallow, hscope, make, hbinding]
  rw [dif_pos hkind, dif_pos hbind]

end LeanCtx
