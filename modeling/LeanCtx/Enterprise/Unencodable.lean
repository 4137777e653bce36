import LeanCtx.Enterprise.SourcePlan
import LeanCtx.Session.Typed
import LeanCtx.Json.Decoding

/-! The exceptions of the readers of plans: a plan raises another one than `ValidationError` exactly where a string of an extension
    does not encode, and no string of canonical bytes is one. -/

namespace LeanCtx

/-- `ValidationError`. -/
def InstanceError.IsValidation : InstanceError → Prop
  | .validation _ => True
  | _ => False

namespace Planning

/-! ### Fields -/

section
variable {α : Type}

/-- The exceptions that are no `ValidationError`. -/
def Unvalidated (e : InstanceError) : Prop := ¬e.IsValidation

@[simp] theorem not_unvalidated (m : String) : ¬Unvalidated (.validation m) := not_not_intro trivial

@[simp] theorem unvalidated_unicode : Unvalidated .unicode := not_false

theorem not_raises_mapping {v : Json} {name : String} : ¬Raises Unvalidated (mapping v name) :=
  fun h => not_unvalidated _ (raises_ensure.mp h).2

theorem not_raises_exactKeys {v : Json} {keys : List String} {name : String} : ¬Raises Unvalidated (exactKeys v keys name) :=
  fun h => not_unvalidated _ (raises_ensure.mp h).2

theorem not_raises_text {v : Json} {name : String} {max : Nat} {controls nul : Bool} :
    ¬Raises Unvalidated (text v name max controls nul) := by
  unfold text
  split
  · split_ifs <;> simp
  · simp

theorem not_raises_identifier {v : Json} {name : String} : ¬Raises Unvalidated (identifier v name) := not_raises_text

theorem not_raises_reference {v : Json} {name : String} : ¬Raises Unvalidated (reference v name) := not_raises_text

theorem not_raises_integer {v : Json} {name : String} {min max : Nat} : ¬Raises Unvalidated (integer v name min max) := by
  unfold integer
  split
  · split_ifs <;> simp
  · simp

theorem not_raises_enum {all : List α} {name : α → String} {v : Json} {label : String} :
    ¬Raises Unvalidated (enum all name v label) := by
  unfold enum
  split
  · split <;> simp
  · simp

theorem not_raises_timestamp {v : Json} {name : String} : ¬Raises Unvalidated (timestamp v name) := by
  simp only [timestamp, raises_bind, raises_dite, raises_ensure, raises_ok, raises_error, not_raises_text, not_unvalidated, and_false,
    exists_false, or_false, not_false_eq_true]

theorem not_raises_projectionDigest {v : Json} {name : String} : ¬Raises Unvalidated (projectionDigest v name) := by
  unfold projectionDigest
  split
  · split_ifs <;> simp
  · simp

theorem not_raises_validateDigest {v : Json} {name : String} : ¬Raises Unvalidated (Enterprise.validateDigest v name) := by
  unfold Enterprise.validateDigest
  split
  · split_ifs <;> simp
  · simp

theorem not_raises_canonical {v : Json} : ¬Raises Unvalidated (canonical v) := by
  unfold canonical
  split <;> simp

theorem not_raises_serialized {v : Json} : ¬Raises Unvalidated (serialized v) := by
  simp only [serialized, raises_bind, raises_ensure, not_raises_canonical, not_unvalidated, and_false, exists_false, or_false,
    not_false_eq_true]

theorem not_raises_optional {f : Json → Except InstanceError α} {v : Json} {key : String} (h : ∀ w, ¬Raises Unvalidated (f w)) :
    ¬Raises Unvalidated (optional f v key) := by
  unfold optional
  split
  · simp
  · simp
  · rw [raises_map]
    exact h _

theorem not_raises_items {f : Json → String → Except InstanceError α} {v : Json} {name : String}
    (h : ∀ w s, ¬Raises Unvalidated (f w s)) : ¬Raises Unvalidated (Plan.items f v name) := by
  unfold Plan.items
  split
  · rw [raises_bind, raises_ensure, raises_mapM]
    rintro (⟨-, hraises⟩ | ⟨_, -, _, p, _, -, -, hraises⟩)
    · exact not_unvalidated _ hraises
    · exact h _ _ hraises
  · simp

theorem not_raises_present {f : Json → Except InstanceError (List α)} {v : Json} {key : String} (h : ∀ w, ¬Raises Unvalidated (f w)) :
    ¬Raises Unvalidated (Plan.present f v key) := by
  unfold Plan.present
  split
  · simp
  · exact h _

theorem Request.not_raises_toDict {r : Request} : ¬Raises Unvalidated r.toDict := by
  simp only [toDict, raises_bind, raises_ensure, raises_ok, not_raises_canonical, not_unvalidated, and_false, exists_false, or_false,
    not_false_eq_true]

theorem Descriptor.not_raises_parse {v : Json} {name : String} : ¬Raises Unvalidated (parse v name) := by
  have hreference : ∀ label key, ¬Raises Unvalidated (optional (reference · label) v key) :=
    fun _ _ => not_raises_optional fun _ => not_raises_reference
  have htimestamp : ∀ label key, ¬Raises Unvalidated (optional (timestamp · label) v key) :=
    fun _ _ => not_raises_optional fun _ => not_raises_timestamp
  have henum : ∀ label key, ¬Raises Unvalidated (optional (enum Classification.all Classification.name · label) v key) :=
    fun _ _ => not_raises_optional fun _ => not_raises_enum
  simp only [parse, raises_bind, raises_ensure, raises_ok, hreference, htimestamp, henum, not_raises_mapping, not_raises_identifier,
    not_raises_reference, not_raises_enum, not_raises_validateDigest, not_unvalidated, and_false, exists_false, or_false,
    not_false_eq_true]

theorem Selection.not_raises_reasons {v : Json} {name : String} : ¬Raises Unvalidated (reasons v name) := by
  unfold reasons
  split
  · simp only [raises_bind, raises_ensure, raises_ok, raises_mapM, not_raises_enum, not_unvalidated, and_false, exists_false, or_false,
      not_false_eq_true]
  · simp

theorem Selection.not_raises_parse {v : Json} {name : String} : ¬Raises Unvalidated (parse v name) := by
  have hdigest : ∀ label key, ¬Raises Unvalidated (optional (projectionDigest · label) v key) :=
    fun _ _ => not_raises_optional fun _ => not_raises_projectionDigest
  have hidentifier : ∀ label key, ¬Raises Unvalidated (optional (identifier · label) v key) :=
    fun _ _ => not_raises_optional fun _ => not_raises_identifier
  simp only [parse, raises_bind, raises_ensure, raises_ok, hdigest, hidentifier, not_raises_mapping, not_raises_identifier,
    not_raises_enum, not_raises_integer, not_raises_reasons, not_unvalidated, and_false, exists_false, or_false, not_false_eq_true]

theorem Stats.not_raises_parse {v : Json} : ¬Raises Unvalidated (parse v) := by
  simp only [parse, raises_bind, raises_ensure, raises_ok, not_raises_mapping, not_raises_exactKeys, not_raises_integer,
    not_unvalidated, and_false, exists_false, or_false, not_false_eq_true]

theorem Stats.not_raises_parseAll {v : Json} : ¬Raises Unvalidated (parseAll v) := by
  unfold parseAll
  split
  · simp only [raises_bind, raises_ensure, raises_pure, raises_mapM, not_raises_identifier, not_raises_parse, not_unvalidated, and_false,
      exists_false, or_false, not_false_eq_true]
  · simp

theorem Plan.not_raises_policyRefs {v : Json} : ¬Raises Unvalidated (policyRefs v) := by
  have hitems : ∀ w label, ¬Raises Unvalidated (items (fun r _ => identifier r label) w label) :=
    fun _ _ => not_raises_items fun _ _ => not_raises_identifier
  simp only [policyRefs, raises_bind, raises_ensure, raises_ok, hitems, not_unvalidated, and_false, exists_false, or_false,
    not_false_eq_true]

end

/-! ### Where a reader meets a string that does not encode -/

/-- A field the key of which is an identifier, and the value of which is an extension. -/
def FieldRead (depth : Nat) (p : Str × Json) : Prop := isText 256 true true p.1 = true ∧ Returns (extensionValue depth p.2)

/-- A string that does not encode is met in the value of an extension, where all before it is accepted. -/
inductive ExtensionUnencodable : Nat → Json → Prop
  | str {depth : Nat} {s : Str} (shallow : depth ≤ maxExtensionDepth) (text : ¬s.all Str.isScalar = true) :
      ExtensionUnencodable depth (.str s)
  | arr {depth : Nat} {before after : List Json} {v : Json} (shallow : depth ≤ maxExtensionDepth)
      (bounded : (before ++ v :: after).length ≤ maxProtocolItems) (earlier : ∀ w ∈ before, Returns (extensionValue (depth + 1) w))
      (item : ExtensionUnencodable (depth + 1) v) : ExtensionUnencodable depth (.arr (before ++ v :: after))
  | obj {depth : Nat} {before after : List (Str × Json)} {k : Str} {v : Json} (shallow : depth ≤ maxExtensionDepth)
      (bounded : (before ++ (k, v) :: after).length ≤ maxProtocolItems) (earlier : ∀ p ∈ before, FieldRead (depth + 1) p)
      (key : isText 256 true true k = true) (value : ExtensionUnencodable (depth + 1) v) :
      ExtensionUnencodable depth (.obj (before ++ (k, v) :: after))

/-- The same among the extensions of an object. -/
def ExtensionsUnencodable (v : Json) (reserved : List String) : Prop :=
  ∃ before k w after, unreserved v reserved = before ++ (k, w) :: after ∧ (∀ p ∈ before, FieldRead 0 p) ∧
    isText 256 true true k = true ∧ ExtensionUnencodable 0 w

namespace Plan

/-- The members that a plan has to have. -/
def HasRequired (v : Json) : Prop := ∀ k ∈ required, (v.get? k).isSome = true

/-- What the reader of a plan checks before the evidence. -/
structure Headed (v : Json) : Prop where
  isObj : v.isObj = true
  required : HasRequired v
  extensions : Returns (Planning.extensions v keys)
  version : v.get "schema_version" = .int schemaVersion
  selections : ∃ selections : List Selection, items Selection.parse (v.get "selections") "plan.selections" = .ok selections ∧
    (selections.map (·.sourceRef)).Nodup ∧ ∃ budget : Nat, v.get "budget_tokens" = .int budget ∧ budget ≤ maxU64 ∧
      selectedTokens selections ≤ budget
  contextPlanId : ∃ t : Identifier, v.get "context_plan_id" = t.json
  taskId : ∃ t : Identifier, v.get "task_id" = t.json
  projectionDigest : Returns (optional (Enterprise.validateDigest · "plan.projection_digest") v "projection_digest")
  providerStats : Returns (present Stats.parseAll v "provider_stats")
  policyRefs : Returns (present policyRefs v "policy_decision_refs")

/-- Where the reader of a plan meets a string that does not encode: in an extension of the plan, or in one of its evidence. -/
inductive Unencodable (v : Json) : Prop
  | extension (isObj : v.isObj = true) (required : HasRequired v) (text : ExtensionsUnencodable v keys)
  | evidence (headed : Headed v) (before : List Json) (e : Json) (after : List Json)
      (list : v.get? "evidence" = some (.arr (before ++ e :: after))) (bounded : (before ++ e :: after).length ≤ maxProtocolItems)
      (earlier : ∀ p ∈ before.zipIdx, Returns (Evidence.parse p.1 ("plan.evidence[" ++ toString p.2 ++ "]")))
      (text : ExtensionsUnencodable e Evidence.keys)

end Plan

/-! ### Exactly there it raises -/

theorem returns_identifier {s : Str} {name : String} : (∃ t, identifier (.str s) name = .ok t) ↔ isText 256 true true s = true := by
  simp only [identifier, text_eq_ok, Text.json, Json.str.injEq]
  constructor
  · rintro ⟨t, rfl⟩
    exact t.2
  · intro h
    exact ⟨⟨s, h⟩, rfl⟩

theorem returns_field {p : Str × Json} {depth : Nat} {label : String} :
    Returns (identifier (.str p.1) label >>= fun _ => extensionValue depth p.2) ↔ FieldRead depth p := by
  simp only [Returns, bind_eq_ok, FieldRead, ← @returns_identifier p.1 label]
  constructor
  · rintro ⟨u, t, ht, hu⟩
    exact ⟨⟨t, ht⟩, u, hu⟩
  · rintro ⟨⟨t, ht⟩, u, hu⟩
    exact ⟨u, t, ht, hu⟩

theorem raises_field {p : Str × Json} {depth : Nat} {label : String} :
    Raises Unvalidated (identifier (.str p.1) label >>= fun _ => extensionValue depth p.2) ↔
      isText 256 true true p.1 = true ∧ Raises Unvalidated (extensionValue depth p.2) := by
  rw [raises_bind, or_iff_right not_raises_identifier, ← @returns_identifier p.1 label]
  exact exists_and_right

/-- The fields of an object raise what the value of one of them raises. -/
theorem raises_fields {f : List (Str × Json)} {depth : Nat} {label : String} :
    Raises Unvalidated (f.forM fun p => identifier (.str p.1) label >>= fun _ => extensionValue depth p.2) ↔
      ∃ before k v after, f = before ++ (k, v) :: after ∧ (∀ p ∈ before, FieldRead depth p) ∧ isText 256 true true k = true ∧
        Raises Unvalidated (extensionValue depth v) := by
  rw [raises_forM]
  simp only [returns_field]
  constructor
  · rintro ⟨before, ⟨k, v⟩, after, heq, hbefore, hraises⟩
    exact ⟨before, k, v, after, heq, hbefore, raises_field.mp hraises⟩
  · rintro ⟨before, k, v, after, heq, hbefore, hraises⟩
    exact ⟨before, (k, v), after, heq, hbefore, raises_field.mpr hraises⟩

theorem extensionItems_eq (depth : Nat) (l : List Json) : extensionItems depth l = l.forM (extensionValue depth) := by
  induction l with
  | nil => rfl
  | cons v l ih =>
    rw [extensionItems, ih]
    rfl

theorem extensionFields_eq (depth : Nat) (f : List (Str × Json)) : extensionFields depth f =
    f.forM fun p => identifier (.str p.1) "extension object key" >>= fun _ => extensionValue depth p.2 := by
  induction f with
  | nil => rfl
  | cons p f ih =>
    rw [extensionFields, ih]
    exact (bind_assoc _ _ _).symm

theorem raises_extensionValue {v : Json} : ∀ {depth : Nat}, Raises Unvalidated (extensionValue depth v) ↔ ExtensionUnencodable depth v := by
  induction v using Json.induct with
  | null | bool | int | float =>
    intro depth
    refine iff_of_false ?_ nofun
    simp only [extensionValue, raises_bind, raises_ensure, not_raises_serialized, not_unvalidated, and_false, exists_false, or_false,
      not_false_eq_true]
  | str s =>
    intro depth
    simp only [extensionValue, raises_bind, raises_ensure, ensure_eq_ok, exists_const, not_raises_serialized, not_unvalidated,
      unvalidated_unicode, and_false, and_true, or_false, false_or]
    constructor
    · rintro ⟨hdepth, htext⟩
      exact .str hdepth htext
    · rintro (⟨hdepth, htext⟩)
      exact ⟨hdepth, htext⟩
  | arr l ih =>
    intro depth
    simp only [extensionValue, extensionItems_eq, raises_bind, raises_ensure, raises_forM, ensure_eq_ok, exists_const,
      not_raises_serialized, not_unvalidated, and_false, or_false, false_or]
    constructor
    · rintro ⟨hdepth, hlength, before, v, after, rfl, hbefore, hv⟩
      exact .arr hdepth hlength hbefore ((ih v (by simp)).mp hv)
    · intro h
      cases h with
      | @arr _ before after v hdepth hlength hbefore hv =>
        exact ⟨hdepth, hlength, before, v, after, rfl, hbefore, (ih v (by simp)).mpr hv⟩
  | obj f ih =>
    intro depth
    simp only [extensionValue, extensionFields_eq, raises_bind, raises_ensure, raises_fields, ensure_eq_ok, exists_const,
      not_raises_serialized, not_unvalidated, and_false, or_false, false_or]
    constructor
    · rintro ⟨hdepth, hlength, before, k, v, after, rfl, hbefore, hkey, hv⟩
      exact .obj hdepth hlength hbefore hkey ((ih (k, v) (by simp)).mp hv)
    · intro h
      cases h with
      | @obj _ before after k v hdepth hlength hbefore hkey hv =>
        exact ⟨hdepth, hlength, before, k, v, after, rfl, hbefore, hkey, (ih (k, v) (by simp)).mpr hv⟩

theorem raises_extensions {v : Json} {reserved : List String} :
    Raises Unvalidated (extensions v reserved) ↔ ExtensionsUnencodable v reserved := by
  simp only [extensions, raises_bind, raises_ensure, raises_ok, raises_fields, raises_extensionValue, not_unvalidated, and_false,
    exists_false, or_false]
  rfl

theorem isObj_of_unencodable {v : Json} {reserved : List String} (h : ExtensionsUnencodable v reserved) : v.isObj = true := by
  obtain ⟨before, k, w, after, heq, -⟩ := h
  cases v with
  | obj f => rfl
  | _ => simp [unreserved] at heq

theorem Evidence.raises_parse {v : Json} {name : String} : Raises Unvalidated (parse v name) ↔ ExtensionsUnencodable v keys := by
  have hinteger : ∀ label key, ¬Raises Unvalidated (optional (integer · label 1 1) v key) :=
    fun _ _ => not_raises_optional fun _ => not_raises_integer
  have hidentifier : ∀ label key, ¬Raises Unvalidated (optional (identifier · label) v key) :=
    fun _ _ => not_raises_optional fun _ => not_raises_identifier
  simp only [parse, mapping, raises_bind, raises_ensure, raises_ok, raises_extensions, ensure_eq_ok, exists_const, hinteger, hidentifier,
    not_raises_enum, not_raises_identifier, not_unvalidated, and_false, exists_false, or_false, false_or]
  exact and_iff_right_of_imp isObj_of_unencodable

namespace Plan

theorem raises_items {α : Type} {P : InstanceError → Prop} {f : Json → String → Except InstanceError α} {v : Json} {name : String}
    (hname : ¬P (.validation (name ++ " has an invalid shape"))) :
    Raises P (items f v name) ↔ ∃ before w after, v = .arr (before ++ w :: after) ∧ (before ++ w :: after).length ≤ maxProtocolItems ∧
      (∀ p ∈ before.zipIdx, Returns (f p.1 (name ++ "[" ++ toString p.2 ++ "]"))) ∧
        Raises P (f w (name ++ "[" ++ toString before.length ++ "]")) := by
  unfold items
  split
  · next l =>
    simp only [raises_bind, raises_ensure, raises_mapM_zipIdx, ensure_eq_ok, exists_const, hname, and_false, false_or, Json.arr.injEq]
    constructor
    · rintro ⟨hlength, before, w, after, rfl, hbefore, hw⟩
      exact ⟨before, w, after, rfl, hlength, hbefore, hw⟩
    · rintro ⟨before, w, after, rfl, hlength, hbefore, hw⟩
      exact ⟨hlength, before, w, after, rfl, hbefore, hw⟩
  · next hv =>
    refine iff_of_false (fun h => hname (raises_error.mp h)) ?_
    rintro ⟨before, w, after, rfl, -⟩
    exact hv _ rfl

theorem raises_present {α : Type} {P : InstanceError → Prop} {f : Json → Except InstanceError (List α)} {v : Json} {key : String} :
    Raises P (present f v key) ↔ ∃ w, v.get? key = some w ∧ Raises P (f w) := by
  unfold present
  cases v.get? key with
  | none => simp
  | some w => simp

/-- The reader of a plan raises another exception exactly where it meets a string that does not encode. -/
theorem raises_parse {v : Json} : Raises Unvalidated (parse v) ↔ Unencodable v := by
  have hdigest : ∀ label key, ¬Raises Unvalidated (optional (Enterprise.validateDigest · label) v key) :=
    fun _ _ => not_raises_optional fun _ => not_raises_validateDigest
  have hselections : ∀ w label, ¬Raises Unvalidated (items Selection.parse w label) :=
    fun _ _ => not_raises_items fun _ _ => Selection.not_raises_parse
  have hstats : ∀ key, ¬Raises Unvalidated (present Stats.parseAll v key) :=
    fun _ => not_raises_present fun _ => Stats.not_raises_parseAll
  have hrefs : ∀ key, ¬Raises Unvalidated (present policyRefs v key) := fun _ => not_raises_present fun _ => not_raises_policyRefs
  have hevidence : Raises Unvalidated (present (items Evidence.parse · "plan.evidence") v "evidence") ↔ _ :=
    raises_present.trans (exists_congr fun _ => and_congr_right fun _ => raises_items (not_unvalidated _))
  have hrequired : (required.all fun k => (v.get? k).isSome) = true ↔ HasRequired v := List.all_eq_true
  simp only [parse, mapping, raises_bind, raises_ensure, raises_extensions, hevidence, Evidence.raises_parse, ensure_eq_ok, exists_const, integer_eq_ok, identifier, text_eq_ok, hdigest, hselections, hstats, hrefs,
    hrequired, not_raises_integer, not_raises_text, not_unvalidated, and_false, false_or]
  constructor
  · rintro ⟨hobj, hkeys, htext | ⟨extra, hextra, n, ⟨hversion, hmin, hmax⟩, selections, hselected, hnodup, budget,
      ⟨hbudget, -, hbound⟩, htokens, id, hid, task, htask, d, hd, stats, hs, refs, hr, hevidence | ⟨evidence, -, hraises⟩⟩⟩
    · exact .extension hobj hkeys htext
    · obtain ⟨w, hw, before, e, after, rfl, hlength, hbefore, htext⟩ := hevidence
      obtain rfl : n = schemaVersion := le_antisymm hmax hmin
      exact .evidence ⟨hobj, hkeys, ⟨extra, hextra⟩, hversion, ⟨selections, hselected, hnodup, budget, hbudget, hbound, htokens⟩,
        ⟨id, hid⟩, ⟨task, htask⟩, ⟨d, hd⟩, ⟨stats, hs⟩, ⟨refs, hr⟩⟩ before e after hw hlength hbefore htext
    · exfalso
      split at hraises
      · exact raises_ok _ hraises
      · simp only [raises_bind, raises_ensure, raises_ok, not_raises_canonical, not_unvalidated, and_false, exists_false,
          or_false] at hraises
  · rintro (⟨hobj, hkeys, htext⟩ | ⟨h, before, e, after, hw, hlength, hbefore, htext⟩)
    · exact ⟨hobj, hkeys, .inl htext⟩
    · obtain ⟨extra, hextra⟩ := h.extensions
      obtain ⟨selections, hselected, hnodup, budget, hbudget, hbound, htokens⟩ := h.selections
      obtain ⟨id, hid⟩ := h.contextPlanId
      obtain ⟨task, htask⟩ := h.taskId
      obtain ⟨d, hd⟩ := h.projectionDigest
      obtain ⟨stats, hs⟩ := h.providerStats
      obtain ⟨refs, hr⟩ := h.policyRefs
      exact ⟨h.isObj, h.required, .inr ⟨extra, hextra, schemaVersion, ⟨h.version, le_rfl, le_rfl⟩, selections, hselected, hnodup, budget,
        ⟨hbudget, Nat.zero_le _, hbound⟩, htokens, id, hid, task, htask, d, hd, stats, hs, refs, hr,
        .inl ⟨_, hw, before, e, after, rfl, hlength, hbefore, htext⟩⟩⟩

end Plan

/-- What the reader of an answer checks before the plan. -/
structure AnswerHeaded (v : Json) : Prop where
  keys : v.hasExactly ["schema_version", "transport_version", "engine_interface_version", "plan"] = true
  schema : v.get "schema_version" = .int schemaVersion
  transport : v.get "transport_version" = .int transportVersion
  engineInterface : v.get "engine_interface_version" = .str interfaceVersion

theorem header_eq_ok {v : Json} {label : String} {u : Unit} : header v label = .ok u ↔ v.get "schema_version" = .int schemaVersion ∧
    v.get "transport_version" = .int transportVersion ∧ v.get "engine_interface_version" = .str interfaceVersion := by
  simp only [header, bind_eq_ok, ensure_eq_ok, integer_eq_ok]
  constructor
  · rintro ⟨n, ⟨hn, hmin, hmax⟩, t, ⟨ht, htmin, htmax⟩, hinterface⟩
    obtain rfl : n = schemaVersion := le_antisymm hmax hmin
    obtain rfl : t = transportVersion := le_antisymm htmax htmin
    exact ⟨hn, ht, hinterface⟩
  · rintro ⟨hn, ht, hinterface⟩
    exact ⟨schemaVersion, ⟨hn, le_rfl, le_rfl⟩, transportVersion, ⟨ht, le_rfl, le_rfl⟩, hinterface⟩

theorem not_raises_header {v : Json} {label : String} : ¬Raises Unvalidated (header v label) := by
  simp only [header, raises_bind, raises_ensure, not_raises_integer, not_unvalidated, and_false, exists_false, or_false,
    not_false_eq_true]

/-! ### The values of canonical bytes -/

theorem hasText_get {v : Json} {k : String} (h : v.HasText) : (v.get k).HasText := by
  have hnull : Json.HasText .null := ⟨_, rfl, by decide⟩
  cases v with
  | obj f =>
    rw [Json.get, Json.get?]
    cases hfind : f.find? fun p => p.1 = Str.lit k with
    | none => exact hnull
    | some p => exact (Json.hasText_obj_iff.mp h p (List.mem_of_find?_eq_some hfind)).2
  | _ => exact hnull

/-- No string of a value that has a text is one that does not encode. -/
theorem not_hasText_of_unencodable {depth : Nat} {v : Json} (h : ExtensionUnencodable depth v) : ¬v.HasText := by
  induction h with
  | str _ htext => exact fun hs => htext (Json.hasText_str_iff.mp hs)
  | arr _ _ _ _ ih => exact fun hs => ih (Json.hasText_arr_iff.mp hs _ (by simp))
  | @obj _ before after k v _ _ _ _ _ ih => exact fun hs => ih (Json.hasText_obj_iff.mp hs (k, v) (by simp)).2

theorem not_hasText_of_extensions {v : Json} {reserved : List String} (h : ExtensionsUnencodable v reserved) : ¬v.HasText := by
  obtain ⟨before, k, w, after, heq, -, -, hw⟩ := h
  cases v with
  | obj f =>
    have hmem : (k, w) ∈ f := List.mem_of_mem_filter (heq ▸ by simp : (k, w) ∈ unreserved (.obj f) reserved)
    exact fun hs => not_hasText_of_unencodable hw (Json.hasText_obj_iff.mp hs _ hmem).2
  | _ => simp [unreserved] at heq

theorem Plan.not_hasText_of_unencodable {v : Json} (h : Unencodable v) : ¬v.HasText := by
  cases h with
  | extension _ _ htext => exact not_hasText_of_extensions htext
  | evidence _ before e after hlist _ _ htext =>
    intro hs
    have hevidence : (v.get "evidence").HasText := hasText_get hs
    rw [Json.get, hlist] at hevidence
    exact not_hasText_of_extensions htext (Json.hasText_arr_iff.mp hevidence e (by simp))

/-- A value decoded from canonical bytes has a text. -/
theorem hasText_of_canonical {v w : Json} {data : Bytes} (h : v.canonicalBytes? = some data) (hw : Json.strictLoads? data = some w) :
    w.HasText := by
  rw [Json.eq_plain_of_loads h hw]
  exact Json.writable_iff.mp ⟨data, h⟩

/-! ### The readers of the bytes -/

/-- `_decode(raw, label)` on an interpreter the decoder of which runs out of stack on the texts that are `deep`: neither
    `strict_json_loads` nor its callers catch the `RecursionError`. -/
def decodeWith (deep : Bytes → Bool) (raw : Bytes) (label : String) : Except ResponseError Json := do
  ensure (maxResponseBytes < raw.length ∨ deep raw = false) .recursion
  catching (decode raw label) .raised

/-- `_response(raw, request)` on it. -/
def responseWith (deep : Bytes → Bool) (raw : Bytes) (request : Request) : Except ResponseError Plan := do
  let v ← decodeWith deep raw "Instance context-plan response"
  catching (exactKeys v ["schema_version", "transport_version", "engine_interface_version", "plan"] "Instance context-plan response")
    .raised
  catching (header v "Instance context-plan response") .raised
  let plan ← catching (Plan.parse (v.get "plan")) .raised
  ensure (plan.taskId = request.taskId) (.raised (.validation "Instance context-plan response task_id does not bind the request"))
  ensure (plan.budgetTokens ≤ request.budgetTokens.1)
    (.raised (.validation "Instance context-plan response budget exceeds the request"))
  .ok plan

/-- `parse_context_plan(raw, request)` on it. -/
def parseContextPlan (deep : Bytes → Bool) (raw : Bytes) (request : Request) : Except ResponseError Plan := do
  let _ ← catching request.toDict .raised
  responseWith deep raw request

/-- `parse_source_plan(raw, request, sources)` on it. The result is encoded and decoded once more. -/
def parseSourcePlan (deep : Bytes → Bool) (raw : Bytes) (request : Request) (sources : Option (List Source)) :
    Except ResponseError SourcePlan := do
  let _ ← catching request.toDict .raised
  let v ← decodeWith deep raw "Instance source-plan response"
  catching (exactKeys v SourcePlan.keys "Instance source-plan response") .raised
  let data ← catching (canonical (v.get "result")) .raised
  let plan ← responseWith deep data request
  ensure (plan.projectionDigest.isSome = true) (.raised (.validation "Instance source-plan response requires projection_digest"))
  let bindings ← catching (Plan.items Descriptor.parse (v.get "source_bindings") "source_bindings") .raised
  catching (SourcePlan.checkBindings plan bindings) .raised
  let supplied ← catching (Enterprise.validateDigest (v.get "binding_digest") "binding_digest") .raised
  let b ← catching (canonical (SourcePlan.bound plan bindings)) .raised
  ensure (supplied = digestOf b) (.raised (.validation "binding_digest does not match canonical source bindings"))
  catching (SourcePlan.checkSources bindings sources) .raised
  .ok ⟨plan, bindings, supplied⟩

section
variable {deep : Bytes → Bool}

theorem decodeWith_of_shallow (h : ∀ data, deep data = false) (raw : Bytes) (label : String) :
    decodeWith deep raw label = catching (decode raw label) .raised := by
  rw [decodeWith, ensure_true (.inr (h raw)), ok_bind]

theorem responseWith_of_shallow (h : ∀ data, deep data = false) (raw : Bytes) (request : Request) :
    responseWith deep raw request = catching (response raw request) .raised := by
  simp only [responseWith, response, decodeWith_of_shallow h, catching_bind, catching_ensure, catching_ok]

/-- Where the decoder has stack enough, the reader is the one without it. -/
theorem parseSourcePlan_of_shallow (h : ∀ data, deep data = false) (raw : Bytes) (request : Request) (sources : Option (List Source)) :
    parseSourcePlan deep raw request sources = catching (SourcePlan.parse raw request sources) .raised := by
  simp only [parseSourcePlan, SourcePlan.parse, decodeWith_of_shallow h, responseWith_of_shallow h, catching_bind, catching_ensure,
    catching_ok]

end

/-- The text is one that the decoder reads, and that is nested too deep for it. -/
def Nested (deep : Bytes → Bool) (raw : Bytes) : Prop := raw.length ≤ maxResponseBytes ∧ deep raw = true

/-- The text is one that the decoder reads to a document. -/
def Decoded (deep : Bytes → Bool) (raw : Bytes) (v : Json) : Prop :=
  raw.length ≤ maxResponseBytes ∧ deep raw = false ∧ Json.strictLoads? raw = some v

/-- Where the reader of an answer raises another exception than `ValidationError`: the text is nested too deep, or a string of an
    extension does not encode. -/
inductive AnswerFails (deep : Bytes → Bool) (raw : Bytes) : Prop
  | nested (nested : Nested deep raw)
  | text (v : Json) (decoded : Decoded deep raw v) (headed : AnswerHeaded v) (text : Plan.Unencodable (v.get "plan"))

/-- The same of the reader of a source plan, in the canonical bytes of which every string encodes. -/
inductive SourceAnswerFails (deep : Bytes → Bool) (raw : Bytes) : Prop
  | nested (nested : Nested deep raw)
  | result (v : Json) (decoded : Decoded deep raw v) (keys : v.hasExactly SourcePlan.keys = true) (data : Bytes)
      (canonical : (v.get "result").canonicalBytes? = some data) (nested : Nested deep data)

end Planning

/-- `ValidationError`. -/
def ResponseError.IsValidation : ResponseError → Prop
  | .raised e => e.IsValidation
  | .recursion => False

namespace Planning

section
variable {deep : Bytes → Bool} {raw : Bytes} {request : Request}

/-- The exceptions of a reader of bytes that are no `ValidationError`. -/
def Uncaught (e : ResponseError) : Prop := ¬e.IsValidation

/-- Those of them that its readers raise. -/
def Escaped : ResponseError → Prop
  | .raised e => Unvalidated e
  | .recursion => False

theorem not_raises_decode {label : String} : ¬Raises Unvalidated (decode raw label) := by
  unfold decode
  rw [raises_bind, raises_ensure]
  rintro (⟨-, h⟩ | ⟨-, -, h⟩)
  · exact not_unvalidated _ h
  · split at h
    · exact raises_ok _ h
    · exact not_unvalidated _ (raises_error.mp h)

theorem decodeWith_eq_ok {label : String} {v : Json} : decodeWith deep raw label = .ok v ↔ Decoded deep raw v := by
  simp only [decodeWith, bind_eq_ok, ensure_eq_ok, catching_eq_ok, decode_eq_ok, exists_const, Decoded]
  constructor
  · rintro ⟨hlong | hdeep, hlength, hv⟩
    · omega
    · exact ⟨hlength, hdeep, hv⟩
  · rintro ⟨hlength, hdeep, hv⟩
    exact ⟨.inr hdeep, hlength, hv⟩

/-- An answer in canonical bytes has no string that does not encode. -/
theorem not_unencodable_canonical {v w : Json} (h : v.canonicalBytes? = some raw) (hw : Decoded deep raw w) :
    ¬Plan.Unencodable (w.get "plan") :=
  fun htext => Plan.not_hasText_of_unencodable htext (hasText_get (hasText_of_canonical h hw.2.2))

theorem not_raises_checkBindings {p : Plan} {l : List Descriptor} : ¬Raises Unvalidated (SourcePlan.checkBindings p l) := by
  simp only [SourcePlan.checkBindings, raises_bind, raises_ensure, not_unvalidated, and_false, exists_false, or_false,
    not_false_eq_true]

theorem not_raises_checkSources {l : List Descriptor} {sources : Option (List Source)} :
    ¬Raises Unvalidated (SourcePlan.checkSources l sources) := by
  cases sources with
  | none => simp [SourcePlan.checkSources]
  | some m =>
    simp only [SourcePlan.checkSources, raises_bind, raises_ensure, not_unvalidated, and_false, exists_false, or_false,
      not_false_eq_true]

section
variable {P : ResponseError → Prop} (hP : ∀ e, P (.raised e) ↔ Unvalidated e)
include hP

theorem raises_raised {α : Type} {x : Except InstanceError α} : Raises P (catching x .raised) ↔ Raises Unvalidated x := by
  rw [raises_catching]
  simp only [hP]

theorem raises_decodeWith {label : String} : Raises P (decodeWith deep raw label) ↔ Nested deep raw ∧ P .recursion := by
  simp only [decodeWith, raises_bind, raises_ensure, raises_raised hP, not_raises_decode, and_false, exists_false, or_false, not_or,
    Nat.not_lt, Bool.not_eq_false, Nested]

theorem raises_responseWith : Raises P (responseWith deep raw request) ↔
    Nested deep raw ∧ P .recursion ∨ ∃ v, Decoded deep raw v ∧ AnswerHeaded v ∧ Plan.Unencodable (v.get "plan") := by
  simp only [responseWith, raises_bind, raises_ensure, raises_ok, raises_raised hP, raises_decodeWith hP, decodeWith_eq_ok,
    Plan.raises_parse, catching_eq_ok, header_eq_ok, exactKeys, ensure_eq_ok, exists_const, not_raises_header, hP, not_unvalidated,
    and_false, exists_false, or_false, false_or]
  refine or_congr_right (exists_congr fun v => and_congr_right fun _ => ?_)
  constructor
  · rintro ⟨hkeys, ⟨hschema, htransport, hinterface⟩, htext⟩
    exact ⟨⟨hkeys, hschema, htransport, hinterface⟩, htext⟩
  · rintro ⟨⟨hkeys, hschema, htransport, hinterface⟩, htext⟩
    exact ⟨hkeys, ⟨hschema, htransport, hinterface⟩, htext⟩

theorem raises_parseSourcePlan {sources : Option (List Source)} :
    Raises P (parseSourcePlan deep raw request sources) ↔ Returns request.toDict ∧ SourceAnswerFails deep raw ∧ P .recursion := by
  have hbindings : ∀ w label, ¬Raises Unvalidated (Plan.items Descriptor.parse w label) :=
    fun _ _ => not_raises_items fun _ _ => Descriptor.not_raises_parse
  rw [parseSourcePlan, raises_bind, or_iff_right fun h => Request.not_raises_toDict ((raises_raised hP).mp h)]
  simp only [raises_bind, raises_ensure, raises_ok, raises_raised hP, raises_decodeWith hP, raises_responseWith hP, decodeWith_eq_ok,
    catching_eq_ok, canonical_eq_ok, exactKeys, ensure_eq_ok, exists_const, hbindings, not_raises_canonical, not_raises_checkBindings,
    not_raises_checkSources, not_raises_validateDigest, hP, not_unvalidated, and_false, exists_false, or_false, false_or]
  constructor
  · rintro ⟨d, hd, ⟨h, hrec⟩ | ⟨v, hv, hkeys, data, hdata, ⟨hnested, hrec⟩ | ⟨w, hw, -, htext⟩⟩⟩
    · exact ⟨⟨d, hd⟩, .nested h, hrec⟩
    · exact ⟨⟨d, hd⟩, .result v hv hkeys data hdata hnested, hrec⟩
    · exact absurd htext (not_unencodable_canonical hdata hw)
  · rintro ⟨⟨d, hd⟩, h | ⟨v, hv, hkeys, data, hdata, hnested⟩, hrec⟩
    · exact ⟨d, hd, .inl ⟨h, hrec⟩⟩
    · exact ⟨d, hd, .inr ⟨v, hv, hkeys, data, hdata, .inl ⟨hnested, hrec⟩⟩⟩

end

/-- The reader of a context plan raises another exception than `ValidationError` exactly where it meets a string that does not encode
    in an extension, or a text that is nested too deep. -/
theorem raises_parseContextPlan :
    Raises Uncaught (parseContextPlan deep raw request) ↔ Returns request.toDict ∧ AnswerFails deep raw := by
  have hP : ∀ e, Uncaught (.raised e) ↔ Unvalidated e := fun _ => Iff.rfl
  rw [parseContextPlan, raises_bind, or_iff_right fun h => Request.not_raises_toDict ((raises_raised hP).mp h)]
  simp only [catching_eq_ok, raises_responseWith hP]
  rw [exists_and_right]
  refine and_congr_right fun _ => ?_
  constructor
  · rintro (⟨h, -⟩ | ⟨v, hv, hheaded, htext⟩)
    · exact .nested h
    · exact .text v hv hheaded htext
  · rintro (h | ⟨v, hv, hheaded, htext⟩)
    · exact .inl ⟨h, not_false⟩
    · exact .inr ⟨v, hv, hheaded, htext⟩

theorem isValidation_of_parseSourcePlan {sources : Option (List Source)} {e : InstanceError}
    (h : parseSourcePlan deep raw request sources = .error (.raised e)) : e.IsValidation := by
  by_contra he
  have hescaped : Raises Escaped (parseSourcePlan deep raw request sources) := ⟨.raised e, h, he⟩
  exact ((raises_parseSourcePlan fun _ => Iff.rfl).mp hescaped).2.2

end

end Planning
end LeanCtx
