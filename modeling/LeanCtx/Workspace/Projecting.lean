import LeanCtx.Workspace.Delivering
import LeanCtx.Workspace.Taking

/-! Projections of the context: `project_context` selects the newest entries of some categories, as many as two bounds allow. The
    bytes of a longer suffix are more, so that the loop over the suffixes ends at the longest one that meets the bounds. -/

namespace LeanCtx
open Json

/-! ### Projecting -/

/-- `ProjectContext`. -/
structure ProjectContext where
  workspaceId : Uuid
  stateDigest : Digest
  entries : List ProjectContextEntry
  filteredCount : Nat
  omittedByBounds : Nat
deriving DecidableEq

/-- The keyword arguments of `project_context`. The categories are a list where they are given. -/
structure ProjectArguments where
  categories : Option Json
  limit : Option Json
  maxBytes : Option Json

/-- `set(_CATEGORIES)`, or the set of the categories that are given. -/
def selectedCategories : Option Json → Except Err (List Category)
  | none => .ok Category.all
  | some (.str _) => .error (.validation "categories must be a collection")
  | some (.arr l) => l.mapM (memberOf Category.all Category.name (.validation "categories contains an invalid category"))
  | some _ => .error .typeError

/-- A bound that is given, no larger than that of the policy. -/
def givenBound (v : Option Json) (field : String) (bound : Positive) : Except Err Positive :=
  match v with
  | none => .ok bound
  | some v => do
    let n ← positiveInt v field
    ensure (n.1 ≤ bound.1) .policy
    return n

/-- The loop over the suffixes of the eligible entries that begin before `start`, the shortest first. -/
def newestEntries (eligible : List ProjectContextEntry) (entryLimit byteLimit : Nat) :
    Nat → List ProjectContextEntry → Except Err (List ProjectContextEntry)
  | 0, selected => .ok selected
  | start + 1, selected =>
    if entryLimit < (eligible.drop start).length then newestEntries eligible entryLimit byteLimit start selected
    else do
      let bytes ← stateContextBytes (eligible.drop start)
      if bytes ≤ byteLimit then newestEntries eligible entryLimit byteLimit start (eligible.drop start)
      else if selected ≠ [] then return selected
      else newestEntries eligible entryLimit byteLimit start selected

/-- `project_context(categories=…, limit=…, max_bytes=…)` of a state. -/
def State.projectContext (s : State) (a : ProjectArguments) : Except Err ProjectContext := do
  let categories ← selectedCategories a.categories
  let entryLimit ← givenBound a.limit "limit" s.policy.maxContextEntries
  let byteLimit ← givenBound a.maxBytes "max_bytes" s.policy.maxContextBytes
  let eligible := s.entries.filter fun x => categories.contains x.category
  let selected ← newestEntries eligible entryLimit.1 byteLimit.1 eligible.length []
  let stateDigest ← s.logicalDigest
  return ⟨s.identity.workspaceId, stateDigest, selected, s.entries.length - eligible.length, eligible.length - selected.length⟩

/-- `project_context(…)` of a workspace. -/
def projectContext (workspaceId : Uuid) (files : List EventFile) (a : ProjectArguments) : Except Err ProjectContext :=
  readState workspaceId files >>= fun s => s.projectContext a

/-! ### The bytes of a suffix -/

/-- The bytes of entries in a projection. -/
def contextBytes (l : List ProjectContextEntry) : Nat := byteLength (entriesJson l)

theorem stateContextBytes_eq (l : List ProjectContextEntry) : stateContextBytes l = .ok (contextBytes l) := by
  obtain ⟨b, hb⟩ := writable_entriesJson l
  rw [stateContextBytes, canonical_eq_ok.mpr hb, contextBytes, ← length_canonicalBytes hb]
  rfl

theorem contextBytes_cons (x : ProjectContextEntry) (l : List ProjectContextEntry) :
    contextBytes (x :: l) = 2 + byteLength x.toDict + (l.map fun y => byteLength y.toDict + 1).sum := by
  have hwritable : ∀ v ∈ (x :: l).map ProjectContextEntry.toDict, Writable v := fun v hv => by
    obtain ⟨y, -, rfl⟩ := List.mem_map.mp hv
    exact y.writable_toDict
  rw [contextBytes, entriesJson, byteLength_arr hwritable (by simp), List.map_map, List.map_cons, List.sum_cons]
  simp only [Function.comp_def]
  omega

theorem contextBytes_nil : contextBytes [] = 2 := by decide

/-- A longer list of entries takes more bytes. -/
theorem contextBytes_le_cons (x : ProjectContextEntry) (l : List ProjectContextEntry) : contextBytes l ≤ contextBytes (x :: l) := by
  cases l with
  | nil =>
    rw [contextBytes_nil, contextBytes_cons]
    omega
  | cons y l =>
    rw [contextBytes_cons, contextBytes_cons, List.map_cons, List.sum_cons]
    omega

theorem contextBytes_suffix {l m : List ProjectContextEntry} (h : l <:+ m) : contextBytes l ≤ contextBytes m := by
  obtain ⟨t, rfl⟩ := h
  induction t with
  | nil => exact le_rfl
  | cons x t ih => exact ih.trans (contextBytes_le_cons x (t ++ l))

/-! ### The longest suffix -/

/-- Entries that meet both bounds. -/
def MeetsBounds (entryLimit byteLimit : Nat) (l : List ProjectContextEntry) : Prop :=
  l.length ≤ entryLimit ∧ contextBytes l ≤ byteLimit

theorem MeetsBounds.suffix {entryLimit byteLimit : Nat} {l m : List ProjectContextEntry} (h : MeetsBounds entryLimit byteLimit m)
    (hl : l <:+ m) : MeetsBounds entryLimit byteLimit l :=
  ⟨hl.length_le.trans h.1, (contextBytes_suffix hl).trans h.2⟩

/-- What the loop has selected before it looks at the suffixes that begin before `start`: of the non-empty suffixes behind, the
    selected one and those that begin later meet the bounds. -/
def Selected (eligible : List ProjectContextEntry) (entryLimit byteLimit start : Nat) (selected : List ProjectContextEntry) : Prop :=
  ∃ k, start ≤ k ∧ k ≤ eligible.length ∧ selected = eligible.drop k ∧
    ∀ j, start ≤ j → j < eligible.length → (MeetsBounds entryLimit byteLimit (eligible.drop j) ↔ k ≤ j)

section Loop
variable {eligible selected : List ProjectContextEntry} {entryLimit byteLimit start : Nat}

theorem Selected.initial : Selected eligible entryLimit byteLimit eligible.length [] :=
  ⟨eligible.length, le_rfl, le_rfl, by simp, fun j hj hlt => absurd hlt (by omega)⟩

/-- A suffix that is too big is passed over. -/
theorem Selected.skip (h : Selected eligible entryLimit byteLimit (start + 1) selected)
    (hbig : ¬ MeetsBounds entryLimit byteLimit (eligible.drop start)) : Selected eligible entryLimit byteLimit start selected := by
  obtain ⟨k, hk, hle, hselected, hmeets⟩ := h
  refine ⟨k, by omega, hle, hselected, fun j hj hlt => ?_⟩
  rcases Nat.eq_or_lt_of_le hj with rfl | hj
  · exact ⟨fun h => absurd h hbig, fun h => absurd h (by omega)⟩
  · exact hmeets j hj hlt

theorem Selected.take (hmeets : MeetsBounds entryLimit byteLimit (eligible.drop start)) (hstart : start ≤ eligible.length) :
    Selected eligible entryLimit byteLimit start (eligible.drop start) := by
  refine ⟨start, le_rfl, hstart, rfl, fun j hj _ => ⟨fun _ => hj, fun _ => hmeets.suffix ?_⟩⟩
  obtain ⟨i, rfl⟩ := Nat.exists_eq_add_of_le hj
  rw [← List.drop_drop]
  exact List.drop_suffix i _

/-- Behind a suffix that is too big every longer one is too big. -/
theorem Selected.stop (h : Selected eligible entryLimit byteLimit start selected)
    (hbig : ¬ MeetsBounds entryLimit byteLimit (eligible.drop start)) : Selected eligible entryLimit byteLimit 0 selected := by
  obtain ⟨k, hk, hle, hselected, hmeets⟩ := h
  refine ⟨k, Nat.zero_le k, hle, hselected, fun j _ hlt => ?_⟩
  rcases Nat.lt_or_ge j start with hj | hj
  · refine ⟨fun hmeet => absurd (hmeet.suffix ?_) hbig, fun hkj => absurd hkj (by omega)⟩
    obtain ⟨i, rfl⟩ := Nat.exists_eq_add_of_le hj.le
    rw [← List.drop_drop]
    exact List.drop_suffix i _
  · exact hmeets j hj hlt

/-- The loop selects the longest suffix that meets both bounds. -/
theorem newestEntries_selected (h : Selected eligible entryLimit byteLimit start selected) (hstart : start ≤ eligible.length) :
    ∃ r, newestEntries eligible entryLimit byteLimit start selected = .ok r ∧ Selected eligible entryLimit byteLimit 0 r := by
  induction start generalizing selected with
  | zero => exact ⟨selected, rfl, h⟩
  | succ start ih =>
    rw [newestEntries]
    by_cases hlong : entryLimit < (eligible.drop start).length
    · rw [if_pos hlong]
      exact ih (h.skip fun hmeets => absurd hmeets.1 (by omega)) (by omega)
    · rw [if_neg hlong, stateContextBytes_eq, ok_bind]
      by_cases hbytes : contextBytes (eligible.drop start) ≤ byteLimit
      · rw [if_pos hbytes]
        exact ih (Selected.take ⟨by omega, hbytes⟩ (by omega)) (by omega)
      · have hbig : ¬ MeetsBounds entryLimit byteLimit (eligible.drop start) := fun hmeets => hbytes hmeets.2
        rw [if_neg hbytes]
        by_cases hempty : selected ≠ []
        · rw [if_pos hempty]
          exact ⟨selected, rfl, (h.skip hbig).stop hbig⟩
        · rw [if_neg hempty]
          exact ih (h.skip hbig) (by omega)

/-- What is selected in the end is a suffix, every suffix that meets the bounds is one of it, and it meets them where the brackets
    alone do. -/
theorem Selected.longest (h : Selected eligible entryLimit byteLimit 0 selected) :
    selected <:+ eligible ∧ (∀ l, l <:+ eligible → MeetsBounds entryLimit byteLimit l → l <:+ selected) ∧
      (2 ≤ byteLimit → MeetsBounds entryLimit byteLimit selected) ∧ (byteLimit < 2 → selected = []) := by
  obtain ⟨k, -, hle, rfl, hmeets⟩ := h
  refine ⟨List.drop_suffix k eligible, fun l hl hbounds => ?_, fun hbytes => ?_, fun hbytes => ?_⟩
  · obtain ⟨t, ht⟩ := hl
    have hdrop : l = eligible.drop t.length := by rw [← ht, List.drop_left]
    rcases Nat.lt_or_ge t.length eligible.length with hlt | hge
    · have hk : k ≤ t.length := (hmeets t.length (Nat.zero_le _) hlt).mp (hdrop ▸ hbounds)
      obtain ⟨i, hi⟩ := Nat.exists_eq_add_of_le hk
      rw [hdrop, hi, ← List.drop_drop]
      exact List.drop_suffix i _
    · rw [hdrop, List.drop_eq_nil_of_le hge]
      exact List.nil_suffix
  · rcases Nat.lt_or_ge k eligible.length with hlt | hge
    · exact (hmeets k (Nat.zero_le _) hlt).mpr le_rfl
    · rw [List.drop_eq_nil_of_le hge]
      exact ⟨Nat.zero_le _, by rw [contextBytes_nil]; exact hbytes⟩
  · rcases Nat.lt_or_ge k eligible.length with hlt | hge
    · have hbig := ((hmeets k (Nat.zero_le _) hlt).mpr le_rfl).2
      have := contextBytes_suffix (List.nil_suffix (l := eligible.drop k))
      rw [contextBytes_nil] at this
      omega
    · exact List.drop_eq_nil_of_le hge

end Loop

/-! ### Projections of a workspace -/

/-- The categories and the bounds that a caller gives. -/
structure Projection where
  categories : Option (List Category)
  limit : Option Positive
  maxBytes : Option Positive

namespace Projection

def arguments (p : Projection) : ProjectArguments :=
  ⟨p.categories.map fun l => .arr (l.map fun c => .str c.name), p.limit.map Positive.json, p.maxBytes.map Positive.json⟩

/-- The bounds that are given are no larger than those of the policy. -/
def Within (p : Projection) (policy : WorkspacePolicy) : Prop :=
  (∀ n ∈ p.limit, n.1 ≤ policy.maxContextEntries.1) ∧ ∀ n ∈ p.maxBytes, n.1 ≤ policy.maxContextBytes.1

def entryLimit (p : Projection) (policy : WorkspacePolicy) : Nat := (p.limit.getD policy.maxContextEntries).1

def byteLimit (p : Projection) (policy : WorkspacePolicy) : Nat := (p.maxBytes.getD policy.maxContextBytes).1

/-- The entries of the categories, in the order of the journal. -/
def eligible (p : Projection) (s : State) : List ProjectContextEntry :=
  s.entries.filter fun x => (p.categories.getD Category.all).contains x.category

end Projection

theorem selectedCategories_given (c : Option (List Category)) :
    selectedCategories (c.map fun l => .arr (l.map fun c => .str c.name)) = .ok (c.getD Category.all) := by
  cases c with
  | none => rfl
  | some l => exact mapM_map (fun c => memberOf_name Category.mem_all Category.name_injective _ c) l

theorem givenBound_within {n : Option Positive} {field : String} {bound : Positive} (h : ∀ m ∈ n, m.1 ≤ bound.1) :
    givenBound (n.map Positive.json) field bound = .ok (n.getD bound) := by
  cases n with
  | none => rfl
  | some n =>
    simp only [givenBound, Option.map_some, positiveInt_json, ok_bind]
    rw [ensure_true (h n rfl), ok_bind]
    rfl

/-- A state that is stored computes the digest of what it holds. -/
theorem State.Stored.exists_logicalDigest {s : State} (h : s.Stored) : ∃ d, s.logicalDigest = .ok d :=
  domainDigest_of_writable _ (LogicalState.writable_toDict h.written.policy h.written.sources)

/-- What a projection holds: the longest suffix of the eligible entries that meets both bounds, and the counts of the others. Where
    the bound leaves no room for the brackets of an empty list, it holds no entry. -/
structure Projection.Holds (p : Projection) (s : State) (x : ProjectContext) : Prop where
  suffix : x.entries <:+ p.eligible s
  longest : ∀ l, l <:+ p.eligible s → MeetsBounds (p.entryLimit s.policy) (p.byteLimit s.policy) l → l <:+ x.entries
  meets : 2 ≤ p.byteLimit s.policy → MeetsBounds (p.entryLimit s.policy) (p.byteLimit s.policy) x.entries
  empty : p.byteLimit s.policy < 2 → x.entries = []
  filtered : x.filteredCount + (p.eligible s).length = s.entries.length
  counted : x.filteredCount + x.omittedByBounds + x.entries.length = s.entries.length

theorem projectContext_holds {workspaceId : Uuid} {files : List EventFile} {s : State} (h : project workspaceId files = .ok s)
    {p : Projection} (hp : p.Within s.policy) : ∃ x, projectContext workspaceId files p.arguments = .ok x ∧ p.Holds s x := by
  have hinitial : Selected (p.eligible s) (p.entryLimit s.policy) (p.byteLimit s.policy) _ _ := Selected.initial
  obtain ⟨r, hr, hselected⟩ := newestEntries_selected hinitial le_rfl
  obtain ⟨hsuffix, hlongest, hmeets, hempty⟩ := hselected.longest
  obtain ⟨d, hd⟩ := (stored_of_project h).exists_logicalDigest
  have hfiltered : (p.eligible s).length ≤ s.entries.length := List.length_filter_le _ _
  have hlength := hsuffix.length_le
  refine ⟨⟨s.identity.workspaceId, d, r, s.entries.length - (p.eligible s).length, (p.eligible s).length - r.length⟩, ?_, hsuffix,
    hlongest, hmeets, hempty, ?_, ?_⟩
  · rw [projectContext, readState, h, catching_ok, ok_bind, State.projectContext, Projection.arguments, selectedCategories_given,
      ok_bind, givenBound_within hp.1, ok_bind, givenBound_within hp.2, ok_bind]
    simp only [Projection.eligible, Projection.entryLimit, Projection.byteLimit] at hr ⊢
    rw [hr, ok_bind, hd, ok_bind]
    rfl
  · simp only
    omega
  · simp only
    omega

theorem exists_projectContext_holds : ∃ (files : List EventFile) (s : State) (p : Projection) (x : ProjectContext),
    project (numberedUuid 0) files = .ok s ∧ projectContext (numberedUuid 0) files p.arguments = .ok x ∧ p.Holds s x := by
  obtain ⟨s, -, -, files, -, -, -, -, -, -, -, -, -, -, hs⟩ := exists_committed
  obtain ⟨x, hx, hholds⟩ := projectContext_holds hs (p := ⟨some [.decisions], none, none⟩) ⟨nofun, nofun⟩
  exact ⟨files, s, _, x, hs, hx, hholds⟩

/-- A bound of one byte leaves no room for the brackets of the empty list that is projected. -/
theorem not_meetsBounds : ∃ (files : List EventFile) (s : State) (p : Projection) (x : ProjectContext),
    project (numberedUuid 0) files = .ok s ∧ p.Within s.policy ∧ projectContext (numberedUuid 0) files p.arguments = .ok x ∧
      ¬ MeetsBounds (p.entryLimit s.policy) (p.byteLimit s.policy) x.entries := by
  obtain ⟨files, s, hs, hsample, -⟩ := exists_sample
  obtain ⟨d, hd⟩ := (stored_of_project hs).exists_logicalDigest
  refine ⟨files, s, ⟨none, none, some .one⟩, ⟨s.identity.workspaceId, d, [], 0, 0⟩, hs, ⟨nofun, fun n hn => ?_⟩, ?_, fun h => ?_⟩
  · cases hn
    exact s.policy.maxContextBytes.2
  · have hone : (Positive.one).1 ≤ s.policy.maxContextBytes.1 := s.policy.maxContextBytes.2
    rw [projectContext, readState, hs, catching_ok, ok_bind, State.projectContext]
    simp only [Projection.arguments, Option.map_none, Option.map_some, selectedCategories, givenBound, positiveInt_json, ok_bind,
      ensure_true hone, hsample.entries, List.filter_nil, List.length_nil, newestEntries, hd]
    rfl
  · have hbytes := h.2
    rw [contextBytes_nil] at hbytes
    have hlimit : (⟨none, none, some .one⟩ : Projection).byteLimit s.policy = 1 := rfl
    omega

end LeanCtx
