import LeanCtx.Session.Calls

/-! A session and a client that it need not trust: what a prepare call ends in, whatever the client does. -/

namespace LeanCtx.Session

/-- What a prepare call that asks the client for a plan ends in, given the session after it and its result: a view of the
    source of the plan; none, where the session fails open; or an abortion with a receipt. -/
def Handled (p : ContextPlan) (o : Outcome) (t : Session) : Except SessionError ClientValue → Prop
  | .ok (.view v) => v.source = p.source ∧ t.view = .view v ∧ t.state = .executing
  | .ok .none => t.view = .none ∧ t.failOpen = true ∧ ∃ x, o = .error x ∧ x.failsOpen = true
  | .ok (.foreign _) => False
  | .error _ => t.state = .aborted ∧ t.receipt.isSome = true

/-- A value that is no view of the source of the plan. -/
def Alien (p : ContextPlan) : ClientValue → Prop
  | .none => False
  | .view v => v.source ≠ p.source
  | .foreign _ => True

/-- What the client returns gets into the session, or into its sealed receipt, only as a view of the source of the plan. -/
def Excluded (p : ContextPlan) (o : Outcome) (t : Session) : Prop :=
  ∀ w, o = .ok w → Alien p w → t.view ≠ w ∧ ∀ r ∈ t.receipt, r.integrity = .sealed → .ofView r.view ≠ w

/-- The outcomes that a session is safe from: the client returns a view of the source of the plan, or nothing; or it raises an
    `Exception` that leaves the session with a view or none. -/
def Trusted (s : Session) (p : ContextPlan) : Outcome → Prop
  | .ok w => ¬Alien p w
  | .error x => x.kind ≠ .base ∧ (x.failsOpen = true ∧ s.failOpen = true ∨ ∃ v, s.evidence x = .ofView v)

theorem not_alien_ofView {p : ContextPlan} {w : ClientValue} (h : ¬Alien p w) : ∃ v, w = .ofView v := by
  rcases w.eq_ofView_or_foreign with hv | ⟨x, rfl⟩
  · exact hv
  · exact absurd trivial h

theorem excluded_error (p : ContextPlan) (x : Raised) (t : Session) : Excluded p (.error x) t := by
  intro w hw
  cases hw

/-- After an exception that it does not survive a session is aborted just in case it is left with a view or none. -/
theorem Executing.handled_abort {s : Session} (h : s.Executing) (p : ContextPlan) (o : Outcome) (x : Raised) :
    Handled p o (s.abortEngineFailure x).1 (s.abortEngineFailure x).2 ↔ ∃ v, s.evidence x = .ofView v := by
  rcases h.abortEngineFailure x with ⟨v, r, hv, -, -, heq⟩ | ⟨y, e, hy, heq⟩
  · rw [heq]
    exact ⟨fun _ => ⟨v, hv⟩, fun _ => ⟨rfl, rfl⟩⟩
  · rw [heq]
    constructor
    · rintro ⟨hstate, -⟩
      exact absurd ((h.failed x).state.symm.trans hstate) nofun
    · rintro ⟨v, hv⟩
      exact absurd (hv.symm.trans hy) ClientValue.ofView_ne_foreign

theorem Executing.handled_settle {s : Session} (h : s.Executing) (p : ContextPlan) (o : Outcome) :
    Handled p o (s.settle o).1 (s.settle o).2 ∧ Excluded p o (s.settle o).1 ↔ s.Trusted p o := by
  rcases h.settle o with ⟨w, d, rfl, hstatus, -, hset⟩ | ⟨x, rfl, hbase, hset⟩ | ⟨x, d, rfl, hbase, hfails, hopen, -, hset⟩ |
    ⟨x, u, hu, hset, ⟨rfl, hbase, hopen, rfl⟩ | ⟨w, rfl, hstatus, rfl, rfl⟩⟩
  · -- The client returns a value that has a status.
    rw [hset]
    cases w with
    | none => cases hstatus
    | foreign x => exact ⟨fun ⟨hhandled, _⟩ => hhandled.elim, fun htrusted => absurd trivial htrusted⟩
    | view v =>
      constructor
      · rintro ⟨⟨hsource, -⟩, -⟩
        exact fun halien => halien hsource
      · intro htrusted
        refine ⟨⟨not_not.mp htrusted, rfl, h.state⟩, fun w hw halien => ?_⟩
        cases hw
        exact absurd halien htrusted
  · rw [hset]
    constructor
    · rintro ⟨⟨hstate, -⟩, -⟩
      exact absurd (h.state.symm.trans hstate) nofun
    · rintro ⟨hkind, -⟩
      exact absurd hbase hkind
  · rw [hset]
    exact ⟨fun _ => ⟨hbase, .inl ⟨hfails, hopen⟩⟩, fun _ => ⟨⟨rfl, hopen, x, rfl, hfails⟩, excluded_error p x _⟩⟩
  · rw [hset, hu.handled_abort]
    constructor
    · rintro ⟨hv, -⟩
      exact ⟨hbase, .inr hv⟩
    · rintro ⟨-, hfails | hv⟩
      · exact absurd hfails hopen
      · exact ⟨hv, excluded_error p x _⟩
  · -- The client returns a value without a status, which raises.
    rw [hset, hu.handled_abort]
    constructor
    · rintro ⟨⟨v, hv⟩, -⟩ halien
      cases w with
      | none => exact halien
      | view v => cases hstatus
      | foreign y => exact ClientValue.ofView_ne_foreign hv.symm
    · intro htrusted
      obtain ⟨v, hv⟩ := not_alien_ofView htrusted
      refine ⟨⟨v, hv⟩, fun w' hw' halien => ?_⟩
      cases hw'
      exact absurd halien htrusted

/-- A prepare call that asks the client is handled just in case the session is safe from what the client does. -/
theorem handled_iff_trusted {s t : Session} {source : Option ContextSource} {mode freshness : Str} {p : ContextPlan}
    (h : s.Reachable) (hasks : s.Asks source mode freshness t p) (client : ContextPlan → Outcome) :
    Handled p (client p) (s.prepare source mode freshness client).1 (s.prepare source mode freshness client).2 ∧
      Excluded p (client p) (s.prepare source mode freshness client).1 ↔ s.Trusted p (client p) := by
  have hsettle := hasks.executing h.inv |>.handled_settle p (client p)
  rw [hasks.prepare client, hsettle]
  -- Taking a plan leaves the view and the setting of the session.
  rcases hasks.cases with ⟨rfl, -⟩ | ⟨-, -, hplanned, -⟩
  · rfl
  · cases hplanned.planned
    rfl

/-- A new session that the client gives a view of the source that it asks for. -/
theorem exists_handled : ∃ s t source mode freshness p client, s.Trusted p (client p) ∧
    (Handled p (client p) (prepare s source mode freshness client).1 (prepare s source mode freshness client).2 ∧
      Excluded p (client p) (prepare s source mode freshness client).1 ↔ s.Trusted p (client p)) ∧
    Asks s source mode freshness t p := by
  obtain ⟨p, hasks, hp⟩ := Sample.exists_asks false
  obtain ⟨v, hv⟩ := Sample.exists_view (Sample.source "/p")
  have htrusted : (Sample.created false).Trusted p (.ok (.view v)) := fun halien => halien (hv.trans (ContextPlan.make_eq_ok.mp hp).2.2.2.source.symm)
  exact ⟨_, _, _, _, _, p, fun _ => .ok (.view v), htrusted,
    handled_iff_trusted (Sample.reachable_created false) hasks (fun _ => .ok (.view v)), hasks⟩

/-- A client that gives a view of another source gets it into the session. -/
theorem not_handled : ¬∀ (s t : Session) (source : Option ContextSource) (mode freshness : Str) (p : ContextPlan)
    (client : ContextPlan → Outcome), s.Reachable → s.Asks source mode freshness t p →
      Handled p (client p) (s.prepare source mode freshness client).1 (s.prepare source mode freshness client).2 ∧
        Excluded p (client p) (s.prepare source mode freshness client).1 := by
  intro hall
  obtain ⟨p, hasks, hp⟩ := Sample.exists_asks false
  obtain ⟨v, hv⟩ := Sample.exists_view (Sample.source "/q")
  have hinv := (Sample.reachable_created false).inv
  have hhandled := hall _ _ _ _ _ p (fun _ => .ok (.view v)) (Sample.reachable_created false) hasks
  rw [hasks.prepare, (hasks.executing hinv).handled_settle] at hhandled
  refine hhandled fun hsame => ?_
  exact absurd ((ContextPlan.make_eq_ok.mp hp).2.2.2.source.symm.trans (hsame.symm.trans hv)) (by decide)

end LeanCtx.Session
