import LeanCtx.Agent.Calls

/-! The metrics of a session over the interleavings of its calls. -/

namespace LeanCtx.Agent

open Machine

/-! ### Lists in which one element is replaced -/

section
variable {α β : Type} {f : α → Option β} {l : List α} {i : Nat} {x y : α}

theorem filterMap_set_none (hi : l[i]? = some x) (hx : f x = none) (hy : f y = none) : (l.set i y).filterMap f = l.filterMap f := by
  induction l generalizing i with
  | nil => cases hi
  | cons z l ih =>
    cases i with
    | zero =>
      obtain rfl : z = x := by simpa using hi
      rw [List.set_cons_zero, List.filterMap_cons_none hx, List.filterMap_cons_none hy]
    | succ i =>
      have hset := ih (by simpa using hi)
      rw [List.set_cons_succ, List.filterMap_cons, List.filterMap_cons, hset]

theorem filterMap_set_some {b : β} (hi : l[i]? = some x) (hx : f x = none) (hy : f y = some b) :
    ((l.set i y).filterMap f).Perm (l.filterMap f ++ [b]) := by
  induction l generalizing i with
  | nil => cases hi
  | cons z l ih =>
    cases i with
    | zero =>
      obtain rfl : z = x := by simpa using hi
      rw [List.set_cons_zero, List.filterMap_cons_none hx, List.filterMap_cons_some hy]
      exact (List.perm_append_singleton b _).symm
    | succ i =>
      have hset := ih (by simpa using hi)
      rw [List.set_cons_succ, List.filterMap_cons, List.filterMap_cons]
      cases f z with
      | none => exact hset
      | some c => exact hset.cons c

end

namespace Session

/-- The results that calls have returned. -/
def results (s : Session) : List ToolResult := s.calls.filterMap Phase.result?

/-- After all calls have finished, the metrics are those of a session that returned the same results one after another, and the
    tokens add up. -/
def Exact (s : Session) : Prop :=
  (∀ p ∈ s.calls, p.finished = true) →
    s.metrics = AgentMetrics.total s.results ∧ s.metrics.originalTokens = s.metrics.outputTokens + s.metrics.savedTokens

/-- A call reads the metrics only while no other call has read them and not yet stored its own. -/
def SerialReads : Option Session → Event → Prop
  | some s, .read _ => ∀ e r m, Phase.reading e r m ∉ s.calls
  | _, _ => True

/-- The metrics are those of the results so far, and what a call has read is what they still are. -/
structure Counts (s : Session) : Prop where
  metrics : s.metrics = AgentMetrics.total s.results
  reads : ∀ (i : Nat) e r m, s.calls[i]? = some (Phase.reading e r m) → m = s.metrics
  alone : ∀ (i j : Nat) e r m e' r' m', s.calls[i]? = some (Phase.reading e r m) → s.calls[j]? = some (Phase.reading e' r' m') → i = j

/-- A step that leaves the metrics, what calls have read of them and what they have returned as they are. -/
structure Quiet (s t : Session) : Prop where
  metrics : t.metrics = s.metrics
  results : t.results = s.results
  reads : ∀ (i : Nat) e r m, t.calls[i]? = some (Phase.reading e r m) → s.calls[i]? = some (Phase.reading e r m)

end Session

/-- A phase without metrics that the call has read and without a result that it has returned. -/
def Phase.quiet : Phase → Bool
  | .reading _ _ _ => false
  | .returned _ _ => false
  | _ => true

theorem Phase.result?_of_quiet {p : Phase} (h : p.quiet = true) : p.result? = none := by
  cases p <;> first | rfl | cases h

namespace Session

section
variable {s t : Session} {i : Nat} {p q : Phase}

@[simp] theorem quiet_ends (op : Op) (line : Option Nat) (e : AgentError) : (ends op line e).quiet = true := by cases op <;> rfl

theorem quiet_answer (closed : Bool) (op : Op) (id line : Nat) (raw : Bytes) (deep : Bool) :
    (answer closed op id line raw deep).1.quiet = true := by
  cases op with
  | close => rfl
  | call tool =>
    obtain ⟨e, h⟩ | ⟨v, -, -, h⟩ := answer_call closed tool id line raw deep
    · rw [h]
      rfl
    · rw [h]
      rfl

theorem Quiet.refl (s : Session) : Quiet s s := ⟨rfl, rfl, fun _ _ _ _ h => h⟩

theorem Quiet.of_calls (hcalls : t.calls = s.calls) (hmetrics : t.metrics = s.metrics) : Quiet s t where
  metrics := hmetrics
  results := by rw [Session.results, hcalls, Session.results]
  reads i e r m h := by rwa [← hcalls]

theorem Quiet.of_set (hi : s.calls[i]? = some q) (hq : q.quiet = true) (hp : p.quiet = true) (hcalls : t.calls = (s.put i p).calls)
    (hmetrics : t.metrics = s.metrics) : Quiet s t where
  metrics := hmetrics
  results := by
    rw [Session.results, hcalls]
    exact filterMap_set_none hi (Phase.result?_of_quiet hq) (Phase.result?_of_quiet hp)
  reads j e r m h := by
    rw [hcalls, getElem?_put hi] at h
    split_ifs at h
    · cases h
      cases hp
    · exact h

theorem Quiet.start (s : Session) (op : Op) : Quiet s { s with calls := s.calls ++ [.waiting op] } where
  metrics := rfl
  results := by simp [Session.results, Phase.result?]
  reads j e r m h := by
    have h' : (s.calls ++ [Phase.waiting op])[j]? = some (Phase.reading e r m) := h
    rw [List.getElem?_append] at h'
    split_ifs at h' with hj
    · exact h'
    · have hmem := List.mem_of_getElem? h'
      simp at hmem

/-- Only a read and a store concern the metrics. -/
theorem quiet_next (s : Session) (e : Event) (hread : ∀ i, e ≠ .read i) (hstore : ∀ i, e ≠ .store i) : Quiet s (s.next e) := by
  cases e with
  | start op => exact .start s op
  | line raw =>
    simp only [next, putLine]
    split_ifs
    · exact .of_calls rfl rfl
    · exact .refl s
  | exit => exact .of_calls rfl rfl
  | cancel => exact .of_calls rfl rfl
  | take i encodes =>
    obtain h | ⟨op, hi, -, ⟨e, c, n, h, -⟩ | ⟨-, -, h⟩⟩ := take_cases s i encodes
    · exact (congrArg (Quiet s) h).mpr (.refl s)
    · exact (congrArg (Quiet s) h).mpr (.of_set hi rfl (quiet_ends op none e) rfl rfl)
    · exact (congrArg (Quiet s) h).mpr (.of_set hi rfl rfl rfl rfl)
  | breakPipe i =>
    obtain h | ⟨op, id, hi, h⟩ := breakPipe_cases s i
    · exact (congrArg (Quiet s) h).mpr (.refl s)
    · exact (congrArg (Quiet s) h).mpr (.of_set hi rfl (quiet_ends op none _) rfl rfl)
  | expire i ended =>
    obtain h | ⟨op, id, e, hi, h⟩ := expire_cases s i ended
    · exact (congrArg (Quiet s) h).mpr (.refl s)
    · exact (congrArg (Quiet s) h).mpr (.of_set hi rfl (quiet_ends op none e) rfl rfl)
  | receive i deep =>
    obtain h | ⟨op, id, raw, hi, -, h⟩ := receive_cases s i deep
    · exact (congrArg (Quiet s) h).mpr (.refl s)
    · exact (congrArg (Quiet s) h).mpr (.of_set hi rfl (quiet_answer _ _ _ _ _ _) rfl rfl)
  | validate i =>
    obtain h | ⟨e, v, hi, ⟨r, -, h⟩ | ⟨x, h⟩⟩ := validate_cases s i
    · exact (congrArg (Quiet s) h).mpr (.refl s)
    · exact (congrArg (Quiet s) h).mpr (.of_set hi rfl rfl rfl rfl)
    · exact (congrArg (Quiet s) h).mpr (.of_set hi rfl rfl rfl rfl)
  | read i => exact absurd rfl (hread i)
  | store i => exact absurd rfl (hstore i)

/-! ### The invariant -/

theorem Counts.quiet (hs : s.Counts) (h : Quiet s t) : t.Counts where
  metrics := by rw [h.metrics, h.results, hs.metrics]
  reads j e r m hj := by rw [h.metrics, hs.reads j e r m (h.reads j e r m hj)]
  alone j k e r m e' r' m' hj hk := hs.alone j k e r m e' r' m' (h.reads _ _ _ _ hj) (h.reads _ _ _ _ hk)

theorem Counts.read (hs : s.Counts) (hcond : SerialReads (some s) (.read i)) : (s.readMetrics i).Counts := by
  obtain h | ⟨e, r, hi, h⟩ := readMetrics_cases s i
  · rwa [h]
  · rw [h]
    -- no call was between its read and its store, so this one alone is now
    have hreads : ∀ (j : Nat) e' r' m, (s.put i (.reading e r s.metrics)).calls[j]? = some (Phase.reading e' r' m) → j = i ∧ m = s.metrics := by
      intro j e' r' m hj
      rw [getElem?_put hi] at hj
      split_ifs at hj with hij
      · cases hj
        exact ⟨hij.symm, rfl⟩
      · exact absurd (List.mem_of_getElem? hj) (hcond e' r' m)
    constructor
    · have hresults : (s.put i (.reading e r s.metrics)).results = s.results := filterMap_set_none hi rfl rfl
      exact hs.metrics.trans (congrArg AgentMetrics.total hresults.symm)
    · intro j e' r' m hj
      exact (hreads j e' r' m hj).2
    · intro j k e₁ r₁ m₁ e₂ r₂ m₂ hj hk
      rw [(hreads j e₁ r₁ m₁ hj).1, (hreads k e₂ r₂ m₂ hk).1]

theorem Counts.store (hs : s.Counts) (i : Nat) : (s.storeMetrics i).Counts := by
  obtain h | ⟨e, r, m, hi, h⟩ := storeMetrics_cases s i
  · rwa [h]
  · rw [h]
    have hm := hs.reads i e r m hi
    have hreads : ∀ (j : Nat) e' r' m', (s.put i (.returned e r)).calls[j]? ≠ some (Phase.reading e' r' m') := by
      intro j e' r' m' hj
      rw [getElem?_put hi] at hj
      split_ifs at hj with hij
      · cases hj
      · exact hij (hs.alone i j e r m e' r' m' hi hj)
    constructor
    · have hperm : (s.put i (.returned e r)).results.Perm (s.results ++ [r]) := filterMap_set_some hi rfl rfl
      calc m.add r = (AgentMetrics.total s.results).add r := by rw [hm, hs.metrics]
        _ = AgentMetrics.total (s.results ++ [r]) := (AgentMetrics.total_append _ _).symm
        _ = AgentMetrics.total (s.put i (.returned e r)).results := (AgentMetrics.total_perm hperm).symm
    · intro j e' r' m' hj
      exact absurd hj (hreads j e' r' m')
    · intro j k e₁ r₁ m₁ e₂ r₂ m₂ hj
      exact absurd hj (hreads j e₁ r₁ m₁)

theorem Counts.next (hs : s.Counts) {e : Event} (hcond : SerialReads (some s) e) : (s.next e).Counts := by
  by_cases hread : ∃ i, e = .read i
  · obtain ⟨i, rfl⟩ := hread
    exact hs.read hcond
  · by_cases hstore : ∃ i, e = .store i
    · obtain ⟨i, rfl⟩ := hstore
      exact hs.store i
    · exact hs.quiet (quiet_next s e (fun i h => hread ⟨i, h⟩) fun i h => hstore ⟨i, h⟩)

theorem counts_of_reaches (h : Reaches Step SerialReads s) : s.Counts := by
  refine h.invariant ?_ ?_
  · rintro e t - rfl
    exact ⟨rfl, (fun i _ _ _ h => by cases h), fun i _ _ _ _ _ _ _ h => by cases h⟩
  · rintro t e t' ht hcond rfl
    exact ht.next hcond

/-- The metrics lose no call where no two calls stand between their read and their store at once. -/
theorem metrics_exact (h : Reaches Step SerialReads s) : s.Exact := by
  have hcounts := counts_of_reaches h
  refine fun _ => ⟨hcounts.metrics, ?_⟩
  rw [hcounts.metrics]
  exact (AgentMetrics.total_adds_up _).symm

end

/-! ### One call, and two that overlap -/

open Sample

/-- One call returns a result, and it is counted. -/
theorem exists_metrics_exact :
    ∃ s, Reaches Step SerialReads s ∧ (∀ p ∈ s.calls, p.finished = true) ∧ s.results.length = 1 ∧ s.Exact := by
  have hfirst : Reaches Step SerialReads (after next opened (exchange 0)) :=
    reaches_after (.start (i := .exit) trivial rfl) ⟨trivial, trivial, trivial, trivial, trivial, trivial⟩
  have hquiet : ∀ p ∈ (after next opened (exchange 0)).calls, p.quiet = true := by decide +kernel
  have hcond : SerialReads (some (after next opened (exchange 0))) (.read 0) := fun e r m h => Bool.noConfusion (hquiet _ h)
  have hreach := reaches_after hfirst (l := [.read 0, .store 0]) ⟨hcond, trivial, trivial⟩
  exact ⟨_, hreach, by decide +kernel, by decide +kernel, metrics_exact hreach⟩

/-- Two calls read the metrics before either has stored its own, and one of them is lost. -/
theorem not_metrics_exact : ∃ s, Reaches Step (fun _ _ => True) s ∧ (∀ p ∈ s.calls, p.finished = true) ∧ s.results.length = 2 ∧
    s.metrics.toolCalls = 1 ∧ ¬ s.Exact := by
  have hreach : Reaches Step (fun _ _ => True) (after next opened (exchange 0 ++ exchange 1 ++ [.read 0, .read 1, .store 0, .store 1])) :=
    reaches_after (.start (i := .exit) trivial rfl) (allowed_true _ _ _)
  have hfinished : ∀ p ∈ (after next opened (exchange 0 ++ exchange 1 ++ [.read 0, .read 1, .store 0, .store 1])).calls, p.finished = true := by
    decide +kernel
  refine ⟨_, hreach, hfinished, by decide +kernel, by decide +kernel, fun hexact => ?_⟩
  have hmetrics := congrArg AgentMetrics.toolCalls (hexact hfinished).1
  revert hmetrics
  decide +kernel

end Session
end LeanCtx.Agent
