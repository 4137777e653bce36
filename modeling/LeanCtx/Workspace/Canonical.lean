import LeanCtx.Json.Equal
import LeanCtx.Workspace.Step

/-! Records are told apart by their JSON values, and what the parts of a logical state are: the entries, the policy and
    the sources of two equal logical states agree. -/

namespace LeanCtx
open Json

/-! ### Injectivity -/

theorem Text.eq_of_pyEq {max : Nat} {a b : Text max} (h : pyEq a.json b.json = true) : a = b :=
  Subtype.ext (pyEq_str.mp h)

theorem Ref.eq_of_pyEq {max : Nat} {a b : Ref max} (h : pyEq a.json b.json = true) : a = b :=
  Subtype.ext (pyEq_str.mp h)

theorem Uuid.eq_of_pyEq {a b : Uuid} (h : pyEq a.json b.json = true) : a = b := Subtype.ext (pyEq_str.mp h)

theorem Digest.eq_of_pyEq {a b : Digest} (h : pyEq a.json b.json = true) : a = b := Subtype.ext (pyEq_str.mp h)

theorem Positive.eq_of_pyEq {a b : Positive} (h : pyEq a.json b.json = true) : a = b :=
  Subtype.ext (Int.ofNat.inj (pyEq_int.mp h))

theorem optional_eq_of_pyEq {α : Type} {f : α → Json} (hnull : ∀ a, f a ≠ .null)
    (hf : ∀ a b, pyEq (f a) (f b) = true → a = b) {a b : Option α} (h : pyEq (optional f a) (optional f b) = true) :
    a = b := by
  cases a with
  | none =>
    cases b with
    | none => rfl
    | some b => exact absurd (eq_of_pyEq_null (pyEq_symm h)) (hnull b)
  | some a =>
    cases b with
    | none => exact absurd (eq_of_pyEq_null h) (hnull a)
    | some b => exact congrArg some (hf a b h)

theorem name_eq_of_pyEq {α : Type} {name : α → String} (hname : Function.Injective name) {a b : α}
    (h : pyEq (.str (name a)) (.str (name b)) = true) : a = b :=
  hname (Str.lit_injective (pyEq_str.mp h))

/-- An entry is told apart by its JSON value. -/
theorem ProjectContextEntry.eq_of_pyEq {x y : ProjectContextEntry} (h : pyEq x.toDict y.toDict = true) : x = y := by
  have hid := pyEq_get h "entry_id"
  have hcategory := pyEq_get h "category"
  have hvalue := pyEq_get h "value"
  have hsources := pyEq_get h "source_ids"
  have hsession := pyEq_get h "session_id"
  have hreceipts := pyEq_get h "receipt_refs"
  have hrecovery := pyEq_get h "recovery_refs"
  simp only [toDict, get_mkObj, List.find?, String.reduceEq, decide_false, decide_true, Option.map_some,
    Option.getD_some] at hid hcategory hvalue hsources hsession hreceipts hrecovery
  obtain ⟨id, category, value, sources, session, receipts, recovery⟩ := x
  obtain rfl := Uuid.eq_of_pyEq hid
  obtain rfl := name_eq_of_pyEq Category.name_injective hcategory
  obtain rfl := Text.eq_of_pyEq hvalue
  obtain rfl := Subtype.ext (map_inj_of_pyEq (fun _ _ => Text.eq_of_pyEq) hsources)
  obtain rfl := optional_eq_of_pyEq Text.json_ne_null (fun _ _ => Text.eq_of_pyEq) hsession
  obtain rfl := Subtype.ext (map_inj_of_pyEq (fun _ _ => Ref.eq_of_pyEq) hreceipts)
  obtain rfl := Subtype.ext (map_inj_of_pyEq (fun _ _ => Ref.eq_of_pyEq) hrecovery)
  rfl

/-- What reads as a policy and equals the JSON value of another policy is that policy. -/
theorem WorkspacePolicy.eq_of_fromDict {v : Json} {x y : WorkspacePolicy} (h : fromDict v = .ok x)
    (heq : pyEq v y.toDict = true) : x = y := by
  have hcategories := pyEq_get heq "allowed_categories"
  have hevents := pyEq_get heq "max_events"
  have hentries := pyEq_get heq "max_context_entries"
  have hentryBytes := pyEq_get heq "max_entry_bytes"
  have hcontextBytes := pyEq_get heq "max_context_bytes"
  have hsources := pyEq_get heq "max_sources"
  have hsessions := pyEq_get heq "max_sessions"
  have hexternal := pyEq_get heq "allow_external_sources"
  simp only [toDict, get_mkObj, List.find?, String.reduceEq, decide_false, decide_true, Option.map_some,
    Option.getD_some] at hcategories hevents hentries hentryBytes hcontextBytes hsources hsessions hexternal
  have hpositive : ∀ {w : Json} {field : String} {m n : Positive}, positiveInt w field = .ok m →
      pyEq w n.json = true → m = n := by
    intro w field m n hm hn
    unfold positiveInt at hm
    split at hm
    · next k =>
      split_ifs at hm with hk
      cases hm
      have hkn : k = (n.1 : Int) := pyEq_int.mp hn
      exact Subtype.ext (by simp [hkn])
    · cases hm
  have hbool : ∀ {w : Json} {field : String} {b c : Bool}, bool w field = .ok b → pyEq w (.bool c) = true → b = c := by
    intro w field b c hb hc
    unfold bool at hb
    split at hb
    · cases hb
      exact pyEq_bool.mp hc
    · cases hb
  simp only [fromDict, bind_eq_ok, ensure_eq_ok, exists_const] at h
  obtain ⟨_, -, -, h⟩ := h
  split at h
  · next items hitems =>
    simp only [catching_eq_ok, bind_eq_ok, pure_eq_ok] at h
    obtain ⟨categories, hread, _, h1, _, h2, _, h3, _, h4, _, h5, _, h6, _, h7, rfl⟩ := h
    -- the items are the names of the other policy's categories
    have hnames : items = y.allowedCategories.map fun c => .str c.name := by
      rw [hitems, pyEq_arr, List.forall₂_map_right_iff] at hcategories
      clear hread hitems
      generalize y.allowedCategories = l at hcategories
      induction hcategories with
      | nil => rfl
      | cons hab _ ih => rw [List.map_cons, eq_of_pyEq_str hab, ih]
    rw [hnames, mapM_map fun c => memberOf_name Category.mem_all Category.name_injective _ c] at hread
    obtain ⟨allowed, _, _, _, _, _, _, _, hsorted⟩ := y
    cases hread
    obtain rfl := hpositive h1 hevents
    obtain rfl := hpositive h2 hentries
    obtain rfl := hpositive h3 hentryBytes
    obtain rfl := hpositive h4 hcontextBytes
    obtain rfl := hpositive h5 hsources
    obtain rfl := hpositive h6 hsessions
    obtain rfl := hbool h7 hexternal
    simp only [hsorted]
  · cases h

/-- A policy is told apart by its JSON value. -/
theorem WorkspacePolicy.eq_of_pyEq {x y : WorkspacePolicy} (h : pyEq x.toDict y.toDict = true) : x = y :=
  eq_of_fromDict (fromDict_toDict x) h

/-- Equal JSON values of anchors are of sources of one kind. -/
theorem SourceAnchor.kind_eq_of_pyEq {a b : SourceAnchor} (h : pyEq a.toDict b.toDict = true) : a.kind = b.kind := by
  have hkind := pyEq_get h "kind"
  simp only [toDict, get_mkObj, List.find?, String.reduceEq, decide_false, decide_true, Option.map_some,
    Option.getD_some] at hkind
  exact name_eq_of_pyEq SourceKind.name_injective hkind

/-! ### The parts of a logical state -/

/-- What is known of the parts that a logical state is decomposed into. -/
structure LogicalState.Reads (l : LogicalState) (v : Json) : Prop where
  policy : WorkspacePolicy.fromDict (v.get "policy") = .ok l.policy
  entries : pyEq (entriesJson l.entries) (v.get "entries") = true
  sources : ∃ anchors : List SourceAnchor, pyEq (.arr (anchors.map SourceAnchor.toDict)) (v.get "sources") = true ∧
    (anchors.map (·.sourceId)).Nodup ∧ l.sources = Dict.ofItems (anchors.map fun a => (a.sourceId, a))
  referenced : ∀ x ∈ l.entries, ∀ i ∈ x.sourceIds.1, l.sources.contains i = true
  distinct : (l.entries.map (·.entryId)).Nodup

theorem logicalStateComponents_eq_ok {v : Json} {ws : Uuid} {l : LogicalState}
    (h : logicalStateComponents v ws = .ok l) : l.Reads v := by
  simp only [logicalStateComponents, bind_eq_ok, ensure_eq_ok, exists_const] at h
  obtain ⟨_, -, -, -, h⟩ := h
  split at h
  · next rawSources rawEntries rawPins hsources hentries hpins =>
    simp only [bind_eq_ok, ensure_eq_ok, exists_const, pure_eq_ok] at h
    obtain ⟨-, _, -, -, policy, hpolicy, anchors, -, entries, -, pins, -, hanchors, hcanonical, -, hnodup, -, hreferenced,
      hdistinct, -, lock, -, -, rfl⟩ := h
    exact ⟨hpolicy, hentries ▸ hcanonical, ⟨anchors, hsources ▸ hanchors, hnodup, rfl⟩, hreferenced, hdistinct⟩
  · cases h

section
variable {s : State} {v : Json} {l : LogicalState}

/-- The policy of a logical state equal to a state's. -/
theorem LogicalState.Reads.policy_eq (h : l.Reads v) (heq : pyEq v s.logicalState = true) : l.policy = s.policy := by
  have hpolicy := pyEq_get heq "policy"
  simp only [State.logicalState, State.logical, LogicalState.toDict, get_mkObj, List.find?, String.reduceEq,
    decide_false, decide_true, Option.map_some, Option.getD_some] at hpolicy
  exact WorkspacePolicy.eq_of_fromDict h.policy hpolicy

/-- The entries of a logical state equal to a state's. -/
theorem LogicalState.Reads.entries_eq (h : l.Reads v) (heq : pyEq v s.logicalState = true) : l.entries = s.entries := by
  have hentries := pyEq_get heq "entries"
  simp only [State.logicalState, State.logical, LogicalState.toDict, get_mkObj, List.find?, String.reduceEq,
    decide_false, decide_true, Option.map_some, Option.getD_some] at hentries
  exact map_inj_of_pyEq (fun _ _ => ProjectContextEntry.eq_of_pyEq) (pyEq_trans h.entries hentries)

/-- Every source of a logical state equal to a state's has the JSON value of a source of the state. -/
theorem LogicalState.Reads.sources_eq (h : l.Reads v) (heq : pyEq v s.logicalState = true) :
    ∀ a ∈ l.sources.values, ∃ b ∈ s.sources.values, pyEq a.toDict b.toDict = true := by
  obtain ⟨anchors, hanchors, hnodup, hl⟩ := h.sources
  have hsources := pyEq_get heq "sources"
  simp only [State.logicalState, State.logical, LogicalState.toDict, get_mkObj, List.find?, String.reduceEq,
    decide_false, decide_true, Option.map_some, Option.getD_some] at hsources
  have hall := pyEq_arr.mp (pyEq_trans hanchors hsources)
  rw [List.forall₂_map_left_iff, List.forall₂_map_right_iff] at hall
  intro a ha
  rw [hl] at ha
  have hmem : a ∈ anchors := by simpa [List.map_map, Function.comp_def] using Dict.mem_values_ofItems ha
  obtain ⟨b, hb, hab⟩ := exists_mem_of_forall₂ hall hmem
  exact ⟨b, Dict.mem_sortedValues.mp hb, hab⟩

end
end LeanCtx
