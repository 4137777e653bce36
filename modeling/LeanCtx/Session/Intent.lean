import LeanCtx.Session.Calls

/-! The intent of a session: the views and plans that its calls return, beside the sources, modes and freshness that they are
    asked for. -/

namespace LeanCtx

/-- A plan is for a source, mode and freshness: the root, the relative path, the media type and the bindings are the same. -/
structure ContextPlan.Matches (p : ContextPlan) (source : ContextSource) (mode freshness : Str) : Prop where
  root : p.source.projectRoot = source.projectRoot
  path : p.source.relativePath = source.relativePath
  mediaType : p.source.mediaType = source.mediaType
  sourceRef : p.source.sourceRef = source.sourceRef
  sourceDigest : p.source.sourceDigest = source.sourceDigest
  mode : Str.lit p.mode.name = mode
  freshness : Str.lit p.freshness.name = freshness

theorem ContextPlan.Of.matches {p : ContextPlan} {source : ContextSource} {mode freshness : Str} (h : p.Of source mode freshness) :
    p.Matches source mode freshness := by
  obtain ⟨rfl, hmode, hfreshness⟩ := h
  exact ⟨rfl, rfl, rfl, rfl, rfl, hmode, hfreshness⟩

namespace Session

/-- The session does not plan for a source other than that of its plan: it makes no plan of the arguments, or one with another
    identifier. -/
def Refuses (s : Session) (p : ContextPlan) (source : ContextSource) (mode freshness : Str) : Prop :=
  ∀ q, ContextPlan.make s.sessionId s.taskId s.task.1 source mode freshness = .ok q → q.planId ≠ p.planId

theorem planIntent_of_plan {s : Session} {p : ContextPlan} (hterminal : s.state.terminal = false) (hp : s.plan = some p)
    (source : ContextSource) (mode freshness : Str) :
    s.Refuses p source mode freshness ∧ (∃ e, s.planIntent source mode freshness = (s, .error e)) ∨
      ¬s.Refuses p source mode freshness ∧ s.planIntent source mode freshness = (s, .ok p) := by
  unfold planIntent
  rw [if_neg (by simp [hterminal])]
  cases hmake : ContextPlan.make s.sessionId s.taskId s.task.1 source mode freshness with
  | error e =>
    refine .inl ⟨fun q hq => ?_, _, rfl⟩
    cases hmake.symm.trans hq
  | ok candidate =>
    simp only [hp]
    by_cases hid : p.planId = candidate.planId
    · rw [if_neg (not_not.mpr hid)]
      exact .inr ⟨fun hrefuses => hrefuses candidate hmake hid.symm, rfl⟩
    · rw [if_pos hid]
      refine .inl ⟨fun q hq => ?_, _, rfl⟩
      cases hmake.symm.trans hq
      exact fun h => hid h.symm

theorem failed_eq (s : Session) (x : Raised) :
    s.failed x = { s with view := s.evidence x, degradations := (s.failed x).degradations } :=
  addDegradation_eq { s with view := s.evidence x } x.degradation

theorem Executing.plan_settle {s : Session} (h : s.Executing) (o : Outcome) : (s.settle o).1.plan = s.plan := by
  rcases h.settle o with ⟨w, d, -, -, -, hset⟩ | ⟨x, -, -, hset⟩ | ⟨x, d, -, -, -, -, -, hset⟩ | ⟨x, u, hu, hset, hu'⟩
  · rw [hset]
  · rw [hset]
  · rw [hset]
  · have hplan : u.plan = s.plan := by
      rcases hu' with ⟨-, -, -, rfl⟩ | ⟨w, -, -, -, rfl⟩ <;> rfl
    rw [hset, ← hplan]
    rcases hu.abortEngineFailure x with ⟨v, r, -, -, -, heq⟩ | ⟨y, e, -, heq⟩
    · rw [heq, failed_eq]
    · rw [heq, failed_eq]

/-- A session that is prepared, and not ended, has as its view what the client has given, or none. -/
theorem Executing.view_settle {s : Session} (h : s.Executing) (hprepared : s.prepared = false) (o : Outcome)
    (hterminal : (s.settle o).1.state.terminal = false) (hprepared' : (s.settle o).1.prepared = true) :
    (s.settle o).1.view = .none ∨ o = .ok (s.settle o).1.view := by
  rcases h.settle o with ⟨w, d, ho, -, -, hset⟩ | ⟨x, -, -, hset⟩ | ⟨x, d, -, -, -, -, -, hset⟩ | ⟨x, u, hu, hset, hu'⟩
  · rw [hset]
    exact .inr ho
  · rw [hset] at hprepared'
    exact absurd (hprepared.symm.trans hprepared') nofun
  · rw [hset]
    exact .inl rfl
  · rw [hset] at hterminal hprepared' ⊢
    rcases hu.abortEngineFailure x with ⟨v, r, -, -, -, heq⟩ | ⟨y, e, -, heq⟩
    · rw [heq] at hterminal
      cases hterminal
    · rw [heq, failed_eq] at hprepared'
      rcases hu' with ⟨-, -, -, rfl⟩ | ⟨w, ho, -, rfl, rfl⟩
      · exact absurd (hprepared.symm.trans hprepared') nofun
      · rw [heq, failed_eq]
        exact .inr ho

/-- A plan stays. -/
theorem Inv.plan_next {s : Session} (inv : s.Inv) {p : ContextPlan} (h : s.plan = some p) (call : SessionCall) :
    (s.next call).plan = some p := by
  rcases s.next_cases call with heq | ⟨q, hq⟩ | ⟨source, mode, freshness, client, t, q, -, hasks, heq⟩ |
    ⟨r, state, -, -, -, heq⟩ | ⟨-, heq⟩
  · rw [heq, h]
  · exact absurd (h.symm.trans hq.unplanned) nofun
  · rw [heq, (hasks.executing inv).plan_settle]
    rcases hasks.cases with ⟨rfl, -⟩ | ⟨x, -, hplanned, -⟩
    · exact h
    · exact absurd (h.symm.trans hplanned.unplanned) nofun
  · rw [heq]
    exact h
  · rw [heq]
    exact h

/-! ### What the client has given -/

/-- What the client gives in a call: a value for a plan. -/
def given (s : Session) : SessionCall → List (ContextPlan × ClientValue)
  | .prepare source mode freshness client =>
    if s.state.terminal = true ∨ s.prepared = true then []
    else match s.intend source mode freshness with
      | (_, .error _) => []
      | (_, .ok p) => match client p with
        | .error _ => []
        | .ok w => [(p, w)]
  | _ => []

theorem Asks.given {s t : Session} {source : Option ContextSource} {mode freshness : Str} {p : ContextPlan}
    (h : s.Asks source mode freshness t p) (client : ContextPlan → Outcome) {w : ClientValue} (hw : client p = .ok w) :
    (p, w) ∈ s.given (.prepare source mode freshness client) := by
  have hnot : ¬(s.state.terminal = true ∨ s.prepared = true) := by simp [h.terminal, h.prepared]
  simp only [Session.given, if_neg hnot, h.intend, hw]
  exact List.mem_singleton_self _

/-- What the client gives in a call is for the plan that the session has afterwards. -/
theorem Inv.plan_of_given {s : Session} (inv : s.Inv) {call : SessionCall} {q : ContextPlan × ClientValue} (h : q ∈ s.given call) :
    (s.next call).plan = some q.1 := by
  unfold Session.given at h
  split at h
  · next source mode freshness client =>
    split at h
    · cases h
    · next hnot =>
      rw [not_or, Bool.not_eq_true, Bool.not_eq_true] at hnot
      split at h
      · cases h
      · next t p hintend =>
        have hasks : s.Asks source mode freshness t p := ⟨hnot.1, hnot.2, hintend⟩
        have hp : t.plan = some p := by
          rcases hasks.cases with ⟨rfl, hp⟩ | ⟨x, -, hplanned, -⟩
          · exact hp
          · rw [hplanned.planned]
        split at h
        · cases h
        · cases List.mem_singleton.mp h
          rw [Session.next, hasks.prepare, (hasks.executing inv).plan_settle]
          exact hp
  · cases h

/-- A session, and all that the client has given in its calls. -/
structure History where
  session : Session
  given : List (ContextPlan × ClientValue)

namespace History

/-- The history after a call. -/
def next (x : History) (call : SessionCall) : History := ⟨x.session.next call, x.given ++ x.session.given call⟩

def Step : Option History → SessionCall → History → Prop
  | none, call, y => Session.Step none call y.session ∧ y.given = []
  | some x, call, y => x.next call = y

abbrev Reachable : History → Prop := Machine.Reaches Step fun _ _ => True

/-- What holds of every history. -/
structure Inv (x : History) : Prop where
  session : x.session.Inv
  plans : ∀ q ∈ x.given, x.session.plan = some q.1
  viewed : x.session.state.terminal = false → x.session.prepared = true → x.session.view ≠ .none →
    ∃ p, (p, x.session.view) ∈ x.given

theorem Inv.next {x : History} (inv : x.Inv) (call : SessionCall) : (x.next call).Inv where
  session := inv.session.next call
  plans q hq := by
    rcases List.mem_append.mp hq with hq | hq
    · exact inv.session.plan_next (inv.plans q hq) call
    · exact inv.session.plan_of_given hq
  viewed hterminal hprepared hview := by
    have hold : x.session.state.terminal = false → (x.next call).session.prepared = x.session.prepared →
        (x.next call).session.view = x.session.view → ∃ p, (p, (x.next call).session.view) ∈ (x.next call).given := by
      intro hterminal hp hv
      rw [hp] at hprepared
      rw [hv] at hview ⊢
      obtain ⟨p, hp⟩ := inv.viewed hterminal hprepared hview
      exact ⟨p, List.mem_append_left _ hp⟩
    rcases x.session.next_cases call with heq | ⟨p, hp⟩ | ⟨source, mode, freshness, client, t, p, rfl, hasks, heq⟩ |
      ⟨r, state, -, -, hstate, heq⟩ | ⟨-, heq⟩
    · rw [History.next, heq] at hterminal
      exact hold hterminal (congrArg Session.prepared heq) (congrArg Session.view heq)
    · exact hold hp.terminal (by rw [History.next, hp.planned]) (by rw [History.next, hp.planned])
    · have hunprepared : t.prepared = false := by
        rcases hasks.cases with ⟨rfl, -⟩ | ⟨y, -, hplanned, -⟩
        · exact hasks.prepared
        · rw [hplanned.planned]
          exact hasks.prepared
      rw [History.next, heq] at hterminal hprepared hview
      rcases (hasks.executing inv.session).view_settle hunprepared (client p) hterminal hprepared with hnone | hgiven
      · exact absurd hnone hview
      · refine ⟨p, List.mem_append_right _ ?_⟩
        rw [History.next, heq]
        exact hasks.given client hgiven
    · rw [History.next, heq] at hterminal
      exact absurd (hstate.symm.trans hterminal) nofun
    · rw [History.next, heq] at hterminal
      cases hterminal

theorem Reachable.inv {x : History} (h : x.Reachable) : x.Inv := by
  refine Machine.Reaches.invariant (fun call x _ hstep => ?_) (fun x call y inv _ hstep => ?_) h
  · obtain ⟨hstart, hgiven⟩ := hstep
    cases call with
    | create task sessionId taskId failOpen =>
      refine ⟨Session.Inv.create hstart, by simp [hgiven], fun _ hprepared => ?_⟩
      simp only [Session.Step, Session.create, bind_eq_ok, catching_eq_ok, pure_eq_ok] at hstart
      obtain ⟨task, -, heq⟩ := hstart
      rw [← heq] at hprepared
      cases hprepared
    | _ => cases hstart
  · cases hstep
    exact inv.next call

/-- The views that a prepare call returns have been given for a plan for its arguments. -/
def PreparesFor (x : History) (source : ContextSource) (mode freshness : Str) : Prop :=
  ∀ client v, (x.session.prepare (some source) mode freshness client).2 = .ok (.view v) →
    ∃ p, (p, .view v) ∈ (x.next (.prepare (some source) mode freshness client)).given ∧ p.Matches source mode freshness

/-- The plans that a plan call returns are for its arguments. -/
def PlansFor (x : History) (source : ContextSource) (mode freshness : Str) : Prop :=
  ∀ p, (x.session.planIntent source mode freshness).2 = .ok p → p.Matches source mode freshness

end History

/-- A session plans, or prepares, only for the arguments of its plan: it is terminal, or it has no plan, or one for the arguments,
    or it refuses them. -/
def Bound (s : Session) (refuses : ContextPlan → Prop) (source : ContextSource) (mode freshness : Str) : Prop :=
  s.state.terminal = true ∨ ∀ p ∈ s.plan, p.Matches source mode freshness ∨ refuses p

namespace History

theorem plansFor_iff (x : History) (source : ContextSource) (mode freshness : Str) :
    x.PlansFor source mode freshness ↔
      x.session.Bound (fun p => x.session.Refuses p source mode freshness) source mode freshness := by
  constructor
  · intro h
    by_contra hbound
    simp only [Bound, not_or, not_forall, Bool.not_eq_true] at hbound
    obtain ⟨hterminal, p, hp, hmatches, hrefuses⟩ := hbound
    rcases planIntent_of_plan hterminal hp source mode freshness with ⟨h', -⟩ | ⟨-, heq⟩
    · exact hrefuses h'
    · exact hmatches (h p (by rw [heq]))
  · intro hbound p hp
    rcases x.session.planIntent_cases source mode freshness with ⟨-, hsame⟩ | ⟨q, hq, -, hof⟩
    · have hplan := hsame p hp
      rcases hbound with hterminal | hbound
      · rw [planIntent, if_pos hterminal] at hp
        cases hp
      · rcases hbound p hplan with hmatches | hrefuses
        · exact hmatches
        · cases hterminal : x.session.state.terminal with
          | true =>
            rw [planIntent, if_pos hterminal] at hp
            cases hp
          | false =>
            rcases planIntent_of_plan hterminal hplan source mode freshness with ⟨-, e, heq⟩ | ⟨hnot, -⟩
            · rw [heq] at hp
              cases hp
            · exact absurd hrefuses hnot
    · cases hq.symm.trans hp
      exact hof.matches

/-- A session that is prepared returns its view; else it refuses the arguments or asks for the view of its plan. -/
theorem Inv.preparesFor_iff {x : History} (inv : x.Inv) (source : ContextSource) (mode freshness : Str) :
    x.PreparesFor source mode freshness ↔
      x.session.Bound (fun p => if x.session.prepared = true then ∀ v, x.session.view ≠ .view v
        else x.session.Refuses p source mode freshness) source mode freshness := by
  constructor
  · intro h
    by_contra hbound
    simp only [Bound, not_or, not_forall, Bool.not_eq_true] at hbound
    obtain ⟨hterminal, p, hp, hmatches, hrefuses⟩ := hbound
    -- All that has been given is for the plan, which is not for the arguments.
    have hnot : ∀ client v, (x.session.prepare (some source) mode freshness client).2 ≠ .ok (.view v) := by
      intro client v hv
      obtain ⟨q, hq, hmatch⟩ := h client v hv
      have hplan := (inv.next (.prepare (some source) mode freshness client)).plans _ hq
      cases hplan.symm.trans (inv.session.plan_next hp _)
      exact hmatches hmatch
    cases hprepared : x.session.prepared with
    | true =>
      rw [if_pos hprepared, not_forall] at hrefuses
      obtain ⟨v, hv⟩ := hrefuses
      refine hnot (fun _ => .ok .none) v ?_
      rw [prepare, if_neg (by simp [hterminal]), if_pos hprepared, not_not.mp hv]
    | false =>
      rw [if_neg (by simp [hprepared])] at hrefuses
      have hasks : x.session.Asks (some source) mode freshness x.session p := by
        refine ⟨hterminal, hprepared, ?_⟩
        rcases planIntent_of_plan hterminal hp source mode freshness with ⟨h', -⟩ | ⟨-, heq⟩
        · exact absurd h' hrefuses
        · rw [intend_some, heq]
      obtain ⟨v, -⟩ := Sample.exists_view source
      refine hnot (fun _ => .ok (.view v)) v ?_
      rw [hasks.prepare]
      rfl
  · intro hbound client v hv
    rcases x.session.prepare_cases (some source) mode freshness client with ⟨hprepared, hterminal, heq⟩ | ⟨e, heq⟩ |
      ⟨t, p, hasks, heq⟩
    · rw [heq] at hv
      have hview : x.session.view = .view v := Except.ok.inj hv
      obtain ⟨p, hp⟩ := inv.viewed hterminal hprepared (by rw [hview]; nofun)
      rw [hview] at hp
      refine ⟨p, List.mem_append_left _ hp, ?_⟩
      rcases hbound with hended | hbound
      · exact absurd (hended.symm.trans hterminal) nofun
      · rcases hbound p (inv.plans _ hp) with hmatches | hrefuses
        · exact hmatches
        · rw [if_pos hprepared] at hrefuses
          exact absurd hview (hrefuses v)
    · rw [heq] at hv
      cases hv
    · rw [heq] at hv
      have hgiven : client p = .ok (.view v) := by
        rcases (hasks.executing inv.session).eq_of_settle hv with ⟨ho, -⟩ | ⟨hnone, -⟩
        · exact ho
        · cases hnone
      refine ⟨p, List.mem_append_right _ (hasks.given client hgiven), ?_⟩
      rcases hasks.cases with ⟨rfl, hp⟩ | ⟨y, hy, hplanned, hof⟩
      · rcases hbound with hended | hbound
        · exact absurd (hended.symm.trans hasks.terminal) nofun
        · rcases hbound p hp with hmatches | hrefuses
          · exact hmatches
          · rw [if_neg (by simp [hasks.prepared])] at hrefuses
            have hintend := hasks.intend
            rw [intend_some] at hintend
            rcases planIntent_of_plan hasks.terminal hp source mode freshness with ⟨-, e, herror⟩ | ⟨hnot, -⟩
            · cases herror.symm.trans hintend
            · exact absurd hrefuses hnot
      · cases hy
        exact hof.matches

theorem reachable_created (failOpen : Bool) : (⟨Sample.created failOpen, []⟩ : History).Reachable :=
  have h : Step none (.create "task" "session" "task" failOpen) ⟨Sample.created failOpen, []⟩ := ⟨Sample.create_created failOpen, rfl⟩
  .start trivial h

/-- The plans for the file under two roots have one identifier. -/
theorem not_refuses {s : Session} {p : ContextPlan} (hsession : s.sessionId = "session") (htask : s.taskId = "task")
    (htext : s.task.1 = "task") (hp : ContextPlan.make "session" "task" "task" (Sample.source "/p") "aggressive" "reuse" = .ok p) :
    ¬s.Refuses p (Sample.source "/q") "aggressive" "reuse" := by
  intro hrefuses
  obtain ⟨d, hd, hwritable, hd'⟩ := Sample.descriptor_source
  have hsessionId : isText 512 (Str.lit "session") = true := by decide
  have htaskId : isText 512 (Str.lit "task") = true := by decide
  have htaskText : isTask maxTaskBytes (Str.lit "task") = true := by decide
  obtain ⟨q, hq⟩ := ContextPlan.exists_make hsessionId htaskId htaskText hd' hwritable
  refine hrefuses q (by rw [hsession, htask, htext]; exact hq) ?_
  obtain ⟨hps, hpt, hpk, hpo⟩ := ContextPlan.make_eq_ok.mp hp
  obtain ⟨hqs, hqt, hqk, hqo⟩ := ContextPlan.make_eq_ok.mp hq
  have hsource : q.source.descriptor = p.source.descriptor := by rw [hpo.source, hqo.source, hd, hd']
  have hfreshness : q.freshness = p.freshness := by
    cases hqf : q.freshness <;> cases hpf : p.freshness
    · rfl
    · exact absurd (hpf ▸ hpo.freshness) (by decide)
    · exact absurd (hqf ▸ hqo.freshness) (by decide)
    · rfl
  exact ContextPlan.planId_eq_of_descriptor (Subtype.ext (hqs.trans hps.symm)) (Subtype.ext (hqt.trans hpt.symm))
    (Subtype.ext (hqk.trans hpk.symm)) hsource hfreshness

/-- A session that has a view of the file under one root. -/
theorem exists_prepared : ∃ (x : History) (p : ContextPlan) (v : ContextView), x.Reachable ∧
    ContextPlan.make "session" "task" "task" (Sample.source "/p") "aggressive" "reuse" = .ok p ∧
    x.session.plan = some p ∧ x.session.state.terminal = false ∧ x.session.prepared = true ∧ x.session.view = .view v ∧
    x.session.sessionId = "session" ∧ x.session.taskId = "task" ∧ x.session.task.1 = "task" := by
  obtain ⟨p, hasks, hp⟩ := Sample.exists_asks false
  obtain ⟨v, -⟩ := Sample.exists_view (Sample.source "/p")
  have hset := hasks.prepare fun _ => .ok (.view v)
  rcases (hasks.executing (Sample.reachable_created false).inv).settle (.ok (.view v)) with
    ⟨w, l, hw, -, -, heq⟩ | ⟨y, hy, -⟩ | ⟨y, l, hy, -⟩ | ⟨y, u, -, -, ⟨hy, -⟩ | ⟨w, hw, hnone, -⟩⟩
  · cases hw
    let call : SessionCall := .prepare (some (Sample.source "/p")) "aggressive" "reuse" fun _ => .ok (.view v)
    have hnext : (Sample.created false).next call =
        { Sample.planned false p with state := .executing, view := .view v, prepared := true, degradations := l } := by
      rw [Session.next, hset, heq]
    refine ⟨History.next ⟨Sample.created false, []⟩ call, p, v, .next (reachable_created false) (i := call) trivial rfl, hp, ?_⟩
    rw [History.next, hnext]
    exact ⟨rfl, rfl, rfl, rfl, rfl, rfl, rfl⟩
  · cases hy
  · cases hy
  · cases hy
  · cases hw
    cases hnone

end History

end Session

end LeanCtx
