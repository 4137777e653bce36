import LeanCtx.Store.Lineage
import LeanCtx.Json.Equal
import LeanCtx.Json.Length

/-! Whether a lineage says what its records show. The reader ties two of the gaps to the records; the other ones, and the task that
    was asked about, are as true as the answer of the instance. -/

namespace LeanCtx

/-! ### What a lineage is to say -/

namespace TaskLineage

/-- The records that a complete lineage has. -/
structure Shown (l : TaskLineage) : Prop where
  plan : ∃ s ∈ l.steps, s.kind = .planCreated
  delivered : l.deliveries ≠ []
  verified : ∀ d ∈ l.deliveries, d.verified = true
  ledger : l.ledgerError = none
  outcome : l.outcome ≠ .unknown

/-- No record is what a gap says is missing. Deliveries that are not all there leave no record behind. -/
def Missing (l : TaskLineage) : Gap → Prop
  | .ledgerUnverified => l.ledgerError ≠ none
  | .noPlanRecorded => ∀ s ∈ l.steps, s.kind ≠ .planCreated
  | .noDeliveryRecorded => l.deliveries = []
  | .deliveryUnverified => ∃ d ∈ l.deliveries, d.verified = false
  | .deliveriesIncomplete => True
  | .noOutcomeRecorded => l.outcome = .unknown

/-- The lineage is that of the task, shows what it is complete of and misses what it names. -/
structure Truthful (l : TaskLineage) (taskId : Str) : Prop where
  task : l.taskId.1 = taskId
  complete : l.isComplete = true → l.Shown
  gaps : ∀ g ∈ l.gaps, l.Missing g

end TaskLineage

namespace Store
open Json Preview

/-! ### What an answer is to hold -/

/-- The items of an array. -/
def itemsOf : Json → List Json
  | .arr l => l
  | _ => []

/-- A step of the answer creates a plan. -/
def HasPlan (v : Json) : Prop := ∃ s ∈ itemsOf (v.get "steps"), s.get "kind" = .str StepKind.planCreated.name

/-- The answer names a gap. -/
def Names (v : Json) (g : Gap) : Prop := .str g.name ∈ itemsOf (v.get "gaps")

/-- The answer is about the task, and the gaps that its reader leaves alone are those of its records. -/
structure Answers (v : Json) (taskId : Str) : Prop where
  task : v.get "task_id" = .str taskId
  complete : v.get "gaps" = .arr [] →
    HasPlan v ∧ v.get "deliveries" ≠ .arr [] ∧ v.get "outcome" ≠ .str TaskOutcome.unknown.name
  plan : Names v .noPlanRecorded → ¬HasPlan v
  delivery : Names v .noDeliveryRecorded → v.get "deliveries" = .arr []
  outcome : Names v .noOutcomeRecorded → v.get "outcome" = .str TaskOutcome.unknown.name

/-! ### What was read -/

/-- What a lineage was read from. -/
structure Reads (l : TaskLineage) (v : Json) : Prop where
  taskId : v.get "task_id" = .str l.taskId.1
  gaps : v.get "gaps" = .arr (l.gaps.map fun g => .str g.name)
  steps : ∃ m, v.get "steps" = .arr m ∧ List.Forall₂ (fun v s => v.get "kind" = .str s.kind.name) m l.steps
  deliveries : ∃ m, v.get "deliveries" = .arr m ∧ m.length = l.deliveries.length
  outcome : v.get "outcome" = .str l.outcome.name

theorem kind_of_step {v : Json} {label : Str} {s : LineageStep} (h : step v label = .ok s) : v.get "kind" = .str s.kind.name := by
  simp only [step, bind_eq_ok, enum_eq_ok StepKind.mem_all StepKind.name_injective, pure_eq_ok] at h
  obtain ⟨_, -, _, -, fields, -, n, -, kind, hkind, t, -, rfl⟩ := h
  exact hkind

theorem reads_of_parse {v : Json} {l : TaskLineage} (h : parseTaskLineage v = .ok l) : Reads l v := by
  have hgap : ∀ (v : Json) (g : Gap), enum Gap.all Gap.name v (Str.lit "gaps") = .ok g ↔ v = .str g.name := fun _ _ =>
    enum_eq_ok Gap.mem_all Gap.name_injective
  simp only [parseTaskLineage, bind_eq_ok, list_eq_ok] at h
  obtain ⟨_, -, _, -, _, -, gapList, ⟨hgapList, -⟩, gaps, hgaps, h⟩ := h
  split_ifs at h with hdistinct
  obtain ⟨ledgerError, -, h⟩ := bind_eq_ok.mp h
  split_ifs at h with hledger
  simp only [bind_eq_ok, list_eq_ok] at h
  obtain ⟨stepList, ⟨hstepList, -⟩, steps, hsteps, deliveryList, ⟨hdeliveryList, -⟩, deliveries, hdeliveries, h⟩ := h
  split_ifs at h with hunverified
  simp only [bind_eq_ok, text_eq_ok, enum_eq_ok TaskOutcome.mem_all TaskOutcome.name_injective, pure_eq_ok] at h
  obtain ⟨taskId, htask, scope, -, outcome, houtcome, rfl⟩ := h
  refine ⟨htask, ?_, ⟨stepList, hstepList, (forall₂_of_items hsteps).imp fun v s ⟨_, hs⟩ => kind_of_step hs⟩,
    ⟨deliveryList, hdeliveryList, (forall₂_of_items hdeliveries).length_eq⟩, houtcome⟩
  rw [hgapList, (Instance.mapM_eq_ok_map hgap).mp hgaps]

section
variable {l : TaskLineage} {v : Json}

theorem Reads.names_iff (h : Reads l v) (g : Gap) : Names v g ↔ g ∈ l.gaps := by
  rw [Names, h.gaps, itemsOf]
  exact List.mem_map_of_injective (f := fun g : Gap => Json.str g.name) fun a b hab =>
    Gap.name_injective (Str.lit_injective (Json.str.inj hab))

theorem exists_mem_right {α β : Type} {R : α → β → Prop} {l : List α} {m : List β} (h : List.Forall₂ R l m) {b : β} (hb : b ∈ m) :
    ∃ a ∈ l, R a b := exists_mem_of_forall₂ h.flip hb

theorem Reads.hasPlan_iff (h : Reads l v) : HasPlan v ↔ ∃ s ∈ l.steps, s.kind = .planCreated := by
  obtain ⟨m, hm, hkinds⟩ := h.steps
  rw [HasPlan, hm, itemsOf]
  constructor
  · rintro ⟨w, hw, hkind⟩
    obtain ⟨s, hs, hread⟩ := exists_mem_of_forall₂ hkinds hw
    exact ⟨s, hs, StepKind.name_injective (Str.lit_injective (Json.str.inj (hread.symm.trans hkind)))⟩
  · rintro ⟨s, hs, hkind⟩
    obtain ⟨w, hw, hread⟩ := exists_mem_right hkinds hs
    exact ⟨w, hw, by rw [hread, hkind]⟩

theorem Reads.deliveries_iff (h : Reads l v) : v.get "deliveries" = .arr [] ↔ l.deliveries = [] := by
  obtain ⟨m, hm, hlength⟩ := h.deliveries
  rw [hm, Json.arr.injEq, ← List.length_eq_zero_iff, hlength, List.length_eq_zero_iff]

theorem Reads.outcome_iff (h : Reads l v) : v.get "outcome" = .str TaskOutcome.unknown.name ↔ l.outcome = .unknown := by
  rw [h.outcome, Json.str.injEq, Str.lit_inj, TaskOutcome.name_injective.eq_iff]

theorem Reads.complete_iff (h : Reads l v) : v.get "gaps" = .arr [] ↔ l.isComplete = true := by
  rw [h.gaps, Json.arr.injEq, List.map_eq_nil_iff, TaskLineage.isComplete, List.isEmpty_iff]

/-- A lineage without gaps has no error of the ledger and only verified deliveries. -/
theorem verified_of_isComplete (h : l.isComplete = true) : l.ledgerError = none ∧ ∀ d ∈ l.deliveries, d.verified = true := by
  have hgaps : l.gaps = [] := List.isEmpty_iff.mp h
  have hledger := l.ledger
  have hunverified := l.unverified
  simp only [hgaps, List.not_mem_nil, decide_false] at hledger hunverified
  refine ⟨Option.not_isSome_iff_eq_none.mp (by rw [hledger]; exact Bool.false_ne_true), fun d hd => ?_⟩
  simpa using List.any_eq_false.mp hunverified d hd

/-- The gaps of the ledger and of unverified deliveries are those of the records. -/
theorem missing_of_tied {g : Gap} (hg : g ∈ l.gaps) (htied : g = .ledgerUnverified ∨ g = .deliveryUnverified) : l.Missing g := by
  rcases htied with rfl | rfl
  · have hledger : l.ledgerError.isSome = true := l.ledger.trans (decide_eq_true hg)
    intro hnone
    rw [hnone] at hledger
    cases hledger
  · have hany := l.unverified.trans (decide_eq_true hg)
    obtain ⟨d, hd, hverified⟩ := List.any_eq_true.mp hany
    exact ⟨d, hd, by simpa using hverified⟩

/-- A lineage is truthful exactly where the value that it was read from is. -/
theorem Reads.truthful_iff (h : Reads l v) (taskId : Str) : l.Truthful taskId ↔ Answers v taskId := by
  constructor
  · intro ht
    constructor
    case task => rw [h.taskId, ht.task]
    case complete =>
      intro hgaps
      have hshown := ht.complete (h.complete_iff.mp hgaps)
      exact ⟨h.hasPlan_iff.mpr hshown.plan, fun hnil => hshown.delivered (h.deliveries_iff.mp hnil), fun hunknown =>
        hshown.outcome (h.outcome_iff.mp hunknown)⟩
    case plan =>
      intro hnames hplan
      obtain ⟨s, hs, hkind⟩ := h.hasPlan_iff.mp hplan
      exact ht.gaps _ ((h.names_iff _).mp hnames) s hs hkind
    case delivery => exact fun hnames => h.deliveries_iff.mpr (ht.gaps _ ((h.names_iff _).mp hnames))
    case outcome => exact fun hnames => h.outcome_iff.mpr (ht.gaps _ ((h.names_iff _).mp hnames))
  · intro ha
    constructor
    case task => exact Json.str.inj (h.taskId.symm.trans ha.task)
    case complete =>
      intro hcomplete
      obtain ⟨hplan, hdeliveries, houtcome⟩ := ha.complete (h.complete_iff.mpr hcomplete)
      obtain ⟨hledger, hverified⟩ := verified_of_isComplete hcomplete
      exact ⟨h.hasPlan_iff.mp hplan, fun hnil => hdeliveries (h.deliveries_iff.mpr hnil), hverified, hledger, fun hunknown =>
        houtcome (h.outcome_iff.mpr hunknown)⟩
    case gaps =>
      intro g hg
      have hnames := (h.names_iff g).mpr hg
      cases g with
      | ledgerUnverified => exact missing_of_tied hg (.inl rfl)
      | noPlanRecorded => exact fun s hs hkind => ha.plan hnames (h.hasPlan_iff.mpr ⟨s, hs, hkind⟩)
      | noDeliveryRecorded => exact h.deliveries_iff.mp (ha.delivery hnames)
      | deliveryUnverified => exact missing_of_tied hg (.inr rfl)
      | deliveriesIncomplete => trivial
      | noOutcomeRecorded => exact h.outcome_iff.mp (ha.outcome hnames)

end

theorem readTaskLineage_eq_ok {engine : Engine} {taskId : Str} {projectId tenantId : Option Str} {request document : Json}
    {raw : Bytes} {l : TaskLineage} (hrequest : storeRequest projectId tenantId (some taskId) = .ok request)
    (hraw : engine request = .ok raw) (hdocument : strictLoads? raw = some document) :
    readTaskLineage engine taskId projectId tenantId = .ok l ↔ ¬taskId.all Unicode.isSpace = true ∧ raw.length ≤ maxResponseBytes ∧
      HasKeys document ["schema_version", "transport_version", "engine_interface_version", "lineage"] [] ∧
      (document.get "schema_version" = .int 1 ∧ document.get "transport_version" = .int 1 ∧
        document.get "engine_interface_version" = .str "1.0.0") ∧ parseTaskLineage (document.get "lineage") = .ok l := by
  rw [readTaskLineage, ensure_bind_eq_ok, hrequest, ok_bind, Store.read, hraw, catching_ok, ok_bind, hdocument]
  simp only [bind_eq_ok, ensure_eq_ok, keys_eq_ok, exists_const, pure_eq_ok]
  constructor
  · rintro ⟨htask, value, ⟨hlength, hkeys, hversions, rfl⟩, hparse⟩
    exact ⟨htask, hlength, hkeys, hversions, hparse⟩
  · rintro ⟨htask, hlength, hkeys, hversions, hparse⟩
    exact ⟨htask, _, ⟨hlength, hkeys, hversions, rfl⟩, hparse⟩

/-- What was read for a task is truthful exactly where the instance answers with what its records show. -/
theorem lineage_truthful_iff {engine : Engine} {taskId : Str} {projectId tenantId : Option Str} {request document : Json}
    {raw : Bytes} {l : TaskLineage} (hrequest : storeRequest projectId tenantId (some taskId) = .ok request)
    (hraw : engine request = .ok raw) (hdocument : strictLoads? raw = some document)
    (h : readTaskLineage engine taskId projectId tenantId = .ok l) :
    l.Truthful taskId ↔ Answers (document.get "lineage") taskId := by
  obtain ⟨-, -, -, -, hparse⟩ := (readTaskLineage_eq_ok hrequest hraw hdocument).mp h
  exact (reads_of_parse hparse).truthful_iff taskId

/-! ### An empty history that reads as complete -/

namespace LineageSample

/-- A lineage without records, of an unknown outcome, that names some gaps. -/
def lineage (taskId : String) (gaps : List Gap) : Json :=
  mkObj [("schema_version", .int 1), ("task_id", .str taskId), ("steps", .arr []), ("deliveries", .arr []), ("outcome", .str "unknown"),
    ("gaps", .arr (gaps.map fun g => .str g.name))]

def response (taskId : String) (gaps : List Gap) : Json :=
  mkObj [("schema_version", .int 1), ("transport_version", .int 1), ("engine_interface_version", .str "1.0.0"),
    ("lineage", lineage taskId gaps)]

theorem hasKeys_mkObj {f : List (String × Json)} {required allowed : List String} (hrequired : ∀ k ∈ required, k ∈ f.map (·.1))
    (hallowed : ∀ k ∈ f.map (·.1), k ∈ required ++ allowed) : HasKeys (mkObj f) required allowed := by
  have hmem : ∀ j, j ∈ keysOf (mkObj f) ↔ j ∈ (f.map (·.1)).map Str.lit := by
    intro j
    rw [mkObj, keysOf, mem_keys_sortFields, List.map_map, List.map_map]
    rfl
  constructor
  · exact fun k hk => (hmem _).mpr (List.mem_map_of_mem (hrequired k hk))
  · intro j hj
    obtain ⟨k, hk, rfl⟩ := List.mem_map.mp ((hmem j).mp hj)
    exact List.mem_map_of_mem (hallowed k hk)

variable {taskId : String} {gaps : List Gap}

/-- The lineage is read, whatever task it is of and whatever of the other gaps it names. -/
theorem exists_parse (htask : isBounded maxRefBytes taskId = true)
    (hgaps : gaps.Nodup ∧ Gap.ledgerUnverified ∉ gaps ∧ Gap.deliveryUnverified ∉ gaps ∧ gaps.length ≤ Gap.all.length) :
    ∃ l, parseTaskLineage (lineage taskId gaps) = .ok l := by
  obtain ⟨hnodup, hledger, hunverified, hlength⟩ := hgaps
  have hgap : (gaps.map fun g : Gap => Json.str g.name).mapM (fun v => enum Gap.all Gap.name v (Str.lit "gaps")) = .ok gaps :=
    mapM_map (g := fun g : Gap => Json.str g.name) (fun g => (enum_eq_ok Gap.mem_all Gap.name_injective).mpr rfl) gaps
  have hlist : list (.arr (gaps.map fun g : Gap => Json.str g.name)) (Str.lit "gaps") Gap.all.length =
      .ok (gaps.map fun g => .str g.name) := list_eq_ok.mpr ⟨rfl, by rwa [List.length_map]⟩
  have hkeys : HasKeys (lineage taskId gaps) ["schema_version", "task_id", "steps", "deliveries", "outcome", "gaps"]
      ["scope", "ledger_error"] := by
    refine hasKeys_mkObj (fun k hk => hk) fun k hk => ?_
    exact List.mem_append_left _ hk
  have hvalue : ∀ k, (lineage taskId gaps).get k = _ := get_mkObj _
  have hschema : (lineage taskId gaps).get "schema_version" = .int 1 := hvalue _
  have hgaps : (lineage taskId gaps).get "gaps" = .arr (gaps.map fun g => .str g.name) := hvalue _
  have herror : (lineage taskId gaps).get "ledger_error" = .null := hvalue _
  have hsteps : (lineage taskId gaps).get "steps" = .arr [] := hvalue _
  have hdeliveries : (lineage taskId gaps).get "deliveries" = .arr [] := hvalue _
  have htaskId : (lineage taskId gaps).get "task_id" = .str taskId := hvalue _
  have houtcome : (lineage taskId gaps).get "outcome" = .str TaskOutcome.unknown.name := hvalue _
  have hscope : scopeOf (lineage taskId gaps) = .ok none := by
    have hget : (lineage taskId gaps).get? "scope" = none := get?_mkObj _ _
    rw [scopeOf, hget]
  have hempty : ∀ label, list (.arr []) label maxLineageItems = .ok [] := fun _ => list_eq_ok.mpr ⟨rfl, Nat.zero_le _⟩
  have htext : text (.str taskId) (Str.lit "task_id") maxRefBytes = .ok ⟨taskId, htask⟩ := text_eq_ok.mpr rfl
  have hunknown : enum TaskOutcome.all TaskOutcome.name (.str TaskOutcome.unknown.name) (Str.lit "outcome") = .ok .unknown :=
    (enum_eq_ok TaskOutcome.mem_all TaskOutcome.name_injective).mpr rfl
  have hobj : (lineage taskId gaps).isObj = true := rfl
  have hnone : (none : Option (Bounded maxTextBytes)).isSome = decide (Gap.ledgerUnverified ∈ gaps) := by
    rw [decide_eq_false hledger]
    rfl
  have hany : (([] : List LineageDelivery).any fun d => !d.verified) = decide (Gap.deliveryUnverified ∈ gaps) := by
    rw [decide_eq_false hunverified]
    rfl
  refine ⟨⟨⟨taskId, htask⟩, none, [], [], none, .unknown, gaps, hnodup, hnone, hany⟩, ?_⟩
  rw [parseTaskLineage, object, ensure_true hobj, ok_bind, keys_eq_ok (u := ()).mpr hkeys, ok_bind, ensure_true hschema, ok_bind, hgaps,
    hlist, ok_bind, hgap, ok_bind, dif_pos hnodup, herror, nullable, ok_bind, dif_pos hnone, hsteps, hempty, ok_bind,
    items, List.zipIdx_nil, List.mapM_nil, pure_bind, hdeliveries, hempty, ok_bind, items, List.zipIdx_nil, List.mapM_nil, pure_bind,
    dif_pos hany, htaskId, htext, ok_bind, hscope, ok_bind, houtcome, hunknown]
  rfl

theorem isPlain_response : IsPlain (response taskId gaps) := by
  have hgap : IsPlain (.arr (gaps.map fun g => .str g.name)) := by
    refine isPlain_arr fun v hv => ?_
    obtain ⟨g, -, rfl⟩ := List.mem_map.mp hv
    rfl
  have hlineage : IsPlain (lineage taskId gaps) := by
    refine isPlain_mkObj ?_
    simp only [List.mem_cons, List.not_mem_nil, or_false, forall_eq_or_imp, forall_eq]
    exact ⟨rfl, rfl, rfl, rfl, rfl, hgap⟩
  refine isPlain_mkObj ?_
  simp only [List.mem_cons, List.not_mem_nil, or_false, forall_eq_or_imp, forall_eq]
  exact ⟨rfl, rfl, rfl, hlineage⟩

variable (taskId gaps) in
/-- An instance answers a request about the task `t` with the lineage. -/
theorem exists_read (htask : isBounded maxRefBytes taskId = true)
    (hgaps : gaps.Nodup ∧ Gap.ledgerUnverified ∉ gaps ∧ Gap.deliveryUnverified ∉ gaps ∧ gaps.length ≤ Gap.all.length)
    (hshort : (canonicalBytes? (response taskId gaps)).any (fun raw => decide (raw.length ≤ maxResponseBytes)) = true) :
    ∃ request raw l, storeRequest none none (some "t") = .ok request ∧ strictLoads? raw = some (response taskId gaps) ∧
      (response taskId gaps).get "lineage" = lineage taskId gaps ∧ readTaskLineage (fun _ => .ok raw) "t" none none = .ok l := by
  obtain ⟨l, hparse⟩ := exists_parse htask hgaps
  cases hraw : canonicalBytes? (response taskId gaps) with
  | none =>
    rw [hraw] at hshort
    cases hshort
  | some raw =>
    rw [hraw, Option.any_some, decide_eq_true_eq] at hshort
    have hdocument : strictLoads? raw = some (response taskId gaps) :=
      (strictLoads?_canonical hraw).trans (congrArg some isPlain_response)
    have hvalue : (response taskId gaps).get "lineage" = lineage taskId gaps := get_mkObj _ _
    have hkeys : HasKeys (response taskId gaps)
        ["schema_version", "transport_version", "engine_interface_version", "lineage"] [] :=
      hasKeys_mkObj (fun _ hk => hk) fun _ hk => List.mem_append_left _ hk
    refine ⟨_, raw, l, rfl, hdocument, hvalue, (readTaskLineage_eq_ok rfl rfl hdocument).mpr
      ⟨by decide, hshort, hkeys, ⟨get_mkObj _ _, get_mkObj _ _, get_mkObj _ _⟩, ?_⟩⟩
    rw [hvalue, hparse]

/-- The gaps of a task without records. -/
def allGaps : List Gap := [.noPlanRecorded, .noDeliveryRecorded, .noOutcomeRecorded]

end LineageSample

open LineageSample in
/-- A lineage that names every gap of a task without records is read and is truthful. -/
theorem exists_lineage_truthful : ∃ request raw l, storeRequest none none (some "t") = .ok request ∧
    readTaskLineage (fun _ => .ok raw) "t" none none = .ok l ∧ ∃ document, strictLoads? raw = some document ∧
      (l.Truthful "t" ↔ Answers (document.get "lineage") "t") := by
  obtain ⟨request, raw, l, hrequest, hdocument, -, h⟩ := exists_read "t" allGaps (by decide) (by decide)
    (by decide +kernel)
  exact ⟨request, raw, l, hrequest, h, _, hdocument, lineage_truthful_iff hrequest rfl hdocument h⟩

open LineageSample in
/-- The empty history of another task is read, and it reads as complete. -/
theorem not_truthful : ¬∀ (engine : Engine) (taskId : Str) (projectId tenantId : Option Str) (l : TaskLineage),
    readTaskLineage engine taskId projectId tenantId = .ok l → l.Truthful taskId := by
  intro htruthful
  obtain ⟨request, raw, l, hrequest, hdocument, hvalue, h⟩ := exists_read "other" [] (by decide) (by decide)
    (by decide +kernel)
  have hanswers := (lineage_truthful_iff hrequest rfl hdocument h).mp (htruthful _ _ _ _ l h)
  rw [hvalue] at hanswers
  have hplan := (hanswers.complete (get_mkObj _ _)).1
  have hsteps : (lineage "other" []).get "steps" = .arr [] := get_mkObj _ _
  rw [HasPlan, hsteps] at hplan
  obtain ⟨s, hs, -⟩ := hplan
  cases hs

end Store
end LeanCtx
