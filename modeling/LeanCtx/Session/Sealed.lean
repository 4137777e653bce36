import LeanCtx.Session.Calls

/-! The receipt of a session: there is one at most, it stays, and it is sealed only by a view that verifies. -/

namespace LeanCtx.Session
open Machine

/-! ### Terminal sessions -/

/-- A terminal session changes only by being closed. -/
theorem next_of_terminal {s : Session} (h : s.state.terminal = true) (call : SessionCall) :
    s.next call = s ∨ (s.state = .completed ∨ s.state = .aborted) ∧ s.next call = { s with state := .closed } := by
  rcases s.next_cases call with heq | ⟨p, hp⟩ | ⟨source, mode, freshness, client, t, p, -, hasks, -⟩ | ⟨r, state, -, hopen, -⟩ | hclose
  · exact .inl heq
  · exact absurd (h.symm.trans hp.terminal) nofun
  · exact absurd (h.symm.trans hasks.terminal) nofun
  · exact absurd (h.symm.trans hopen) nofun
  · exact .inr hclose

/-- A receipt stays. -/
theorem Inv.receipt_next {s : Session} (inv : s.Inv) {r : ContextReceipt} (h : s.receipt = some r) (call : SessionCall) :
    (s.next call).receipt = some r := by
  have hterminal : s.state.terminal = true := inv.receipt.mp (by rw [h]; rfl)
  rcases next_of_terminal hterminal call with heq | ⟨-, heq⟩
  · rw [heq, h]
  · rw [heq]
    exact h

/-- A completion that succeeds where there is a receipt returns it. -/
theorem Inv.complete_eq {s : Session} (inv : s.Inv) {r r' : ContextReceipt} (h : s.receipt = some r) {outcome : Str}
    {usage : Option Json} (hok : (s.complete outcome usage).2 = .ok r') : r' = r := by
  rcases s.complete_cases outcome usage with hkeeps | ⟨o, q, hstate, -, -⟩
  · exact Option.some.inj ((hkeeps.2 r' hok).symm.trans h)
  · have hterminal : s.state.terminal = true := inv.receipt.mp (by rw [h]; rfl)
    rw [hstate] at hterminal
    cases hterminal

/-- An abortion that succeeds where there is a receipt returns it. -/
theorem Inv.abort_eq {s : Session} (inv : s.Inv) {r r' : ContextReceipt} (h : s.receipt = some r) {typeName : Str}
    (hok : (s.abort typeName).2 = .ok r') : r' = r := by
  rcases s.abort_cases typeName with hkeeps | ⟨q, hstate, -, -⟩
  · exact Option.some.inj ((hkeeps.2 r' hok).symm.trans h)
  · have hterminal : s.state.terminal = true := inv.receipt.mp (by rw [h]; rfl)
    exact absurd (hterminal.symm.trans hstate) nofun

/-! ### Failing open -/

/-- A session goes on without a view. -/
structure Unviewed (s : Session) : Prop where
  prepared : s.prepared = true
  view : s.view = .none

/-- A prepare call that returns none leaves the session without a view. -/
theorem Inv.unviewed {s : Session} (inv : s.Inv) {source : Option ContextSource} {mode freshness : Str}
    {client : ContextPlan → Outcome} (h : (s.prepare source mode freshness client).2 = .ok .none) :
    (s.prepare source mode freshness client).1.Unviewed := by
  rcases s.prepare_cases source mode freshness client with ⟨hprepared, -, heq⟩ | ⟨e, heq⟩ | ⟨t, p, hasks, heq⟩
  · rw [heq] at h ⊢
    exact ⟨hprepared, Except.ok.inj h⟩
  · rw [heq] at h
    cases h
  · rw [heq] at h ⊢
    rcases (hasks.executing inv).eq_of_settle h with ⟨-, hstatus⟩ | ⟨-, hview, hprepared⟩
    · -- None has no status, so that it is not returned as it is.
      cases hstatus
    · exact ⟨hprepared, hview⟩

theorem Unviewed.next {s : Session} (h : s.Unviewed) (call : SessionCall) : (s.next call).Unviewed := by
  rcases s.next_cases call with heq | ⟨p, hp⟩ | ⟨source, mode, freshness, client, t, p, -, hasks, -⟩ |
    ⟨r, state, -, -, -, heq⟩ | ⟨-, heq⟩
  · rw [heq]
    exact h
  · rw [hp.planned]
    exact ⟨h.prepared, h.view⟩
  · exact absurd (h.prepared.symm.trans hasks.prepared) nofun
  · rw [heq]
    exact ⟨h.prepared, h.view⟩
  · rw [heq]
    exact ⟨h.prepared, h.view⟩

/-- Without a view a receipt is not sealed. -/
theorem Inv.unsealed {s : Session} (inv : s.Inv) (h : s.Unviewed) {r : ContextReceipt} (hr : s.receipt = some r) :
    r.integrity = .unsealed := by
  have hrecords := inv.recorded r hr
  have hnone : r.view = none := ClientValue.ofView_inj.mp (hrecords.view.trans h.view)
  rw [hrecords.integrity, hnone]
  rfl

/-! ### Runs -/

/-- What holds in every state of a session of its receipt and of the calls that fail. -/
structure Settled (s : Session) : Prop where
  recorded : s.state = .completed ∨ s.state = .aborted → s.receipt.isSome = true
  left : s.state = .completed ∨ s.state = .aborted → ∀ call, (s.next call).state = s.state ∨ (s.next call).state = .closed
  verified : ∀ r ∈ s.receipt, r.integrity = .sealed → ∃ v ∈ r.view, v.verify = true
  complete : ∀ outcome usage e, (s.complete outcome usage).2 = .error e → (s.complete outcome usage).1 = s
  abort : ∀ typeName e, (s.abort typeName).2 = .error e → (s.abort typeName).1 = s
  recover : ∀ view client e, (s.recover view client).2 = .error e → (s.recover view client).1 = s
  close : ∀ e, s.close.2 = .error e → s.close.1 = s

/-- A receipt is the one of a session: it stays, and the calls that succeed return it. -/
structure HasReceipt (s : Session) (r : ContextReceipt) : Prop where
  receipt : s.receipt = some r
  complete : ∀ outcome usage r', (s.complete outcome usage).2 = .ok r' → r' = r
  abort : ∀ typeName r', (s.abort typeName).2 = .ok r' → r' = r

theorem terminal_of_ended {s : SessionState} (h : s = .completed ∨ s = .aborted) : s.terminal = true := by
  rcases h with rfl | rfl <;> rfl

theorem Inv.settled {s : Session} (inv : s.Inv) : s.Settled where
  recorded h := inv.receipt.mpr (terminal_of_ended h)
  left h call := by
    rcases next_of_terminal (terminal_of_ended h) call with heq | ⟨-, heq⟩
    · exact .inl (by rw [heq])
    · exact .inr (by rw [heq])
  verified r _ hsealed := r.verify_of_sealed hsealed
  complete outcome usage e he := by
    rcases s.complete_cases outcome usage with hkeeps | ⟨o, r, -, -, heq⟩
    · exact hkeeps.1
    · rw [heq] at he
      cases he
  abort typeName e he := by
    rcases s.abort_cases typeName with hkeeps | ⟨r, -, -, heq⟩
    · exact hkeeps.1
    · rw [heq] at he
      cases he
  recover view client e _ := rfl
  close e he := by
    rcases s.close_cases with heq | ⟨-, heq⟩
    · exact heq
    · rw [heq] at he
      cases he

theorem Runs.inv {s t : Session} (h : Runs Step (fun _ _ => True) s t) (inv : s.Inv) : t.Inv :=
  h.invariant (fun s call t inv _ hstep => by cases hstep; exact inv.next call) inv

/-- In every state that follows a session a receipt that it has is still its receipt, and after it has gone on without a view
    its receipt is not sealed. -/
theorem sealed_once {s t : Session} (hs : s.Reachable) (h : Runs Step (fun _ _ => True) s t) :
    t.Settled ∧ (∀ r, s.receipt = some r → t.HasReceipt r) ∧
      ∀ source mode freshness client u, (t.prepare source mode freshness client).2 = .ok .none →
        Runs Step (fun _ _ => True) (t.prepare source mode freshness client).1 u → ∀ r ∈ u.receipt, r.integrity = .unsealed := by
  have invS := hs.inv
  have invT := Runs.inv h invS
  refine ⟨invT.settled, fun r hr => ?_, fun source mode freshness client u hnone hu r hr => ?_⟩
  · have hreceipt : t.Inv ∧ t.receipt = some r := by
      refine h.invariant (I := fun u => u.Inv ∧ u.receipt = some r) (fun s call t inv _ hstep => ?_) ⟨invS, hr⟩
      cases hstep
      exact ⟨inv.1.next call, inv.1.receipt_next inv.2 call⟩
    exact ⟨hreceipt.2, fun _ _ _ => invT.complete_eq hreceipt.2, fun _ _ => invT.abort_eq hreceipt.2⟩
  · have hunviewed : u.Inv ∧ u.Unviewed := by
      refine hu.invariant (I := fun u => u.Inv ∧ u.Unviewed) (fun s call t inv _ hstep => ?_) ⟨invT.next (.prepare source mode freshness client), invT.unviewed hnone⟩
      cases hstep
      exact ⟨inv.1.next call, inv.2.next call⟩
    exact hunviewed.1.unsealed hunviewed.2 hr

/-- A session that fails open, and is completed. -/
theorem exists_sealed_once : ∃ s source mode freshness client u, Reachable s ∧
    (prepare s source mode freshness client).2 = .ok .none ∧ Runs Step (fun _ _ => True) (prepare s source mode freshness client).1 u ∧
    ∃ r, u.receipt = some r ∧ r.integrity = .unsealed := by
  let x : Raised := ⟨.unavailable, some "engine_unavailable", .none⟩
  have hreachable := Sample.reachable_created true
  obtain ⟨p, hasks, -⟩ := Sample.exists_asks true
  have hexecuting := hasks.executing hreachable.inv
  have hset : ∃ d, (∀ e ∈ d, e ≠ []) ∧ (Sample.created true).prepare (some (Sample.source "/p")) "aggressive" "reuse" (fun _ => .error x) =
      ({ Sample.planned true p with state := .executing, view := .none, prepared := true, degradations := d }, .ok .none) := by
    rw [hasks.prepare]
    rcases hexecuting.settle (.error x) with ⟨w, d, hw, -⟩ | ⟨y, hy, hbase, -⟩ | ⟨y, d, -, -, -, -, hd, h⟩ | ⟨y, u, -, -, ⟨hy, -, hn, -⟩ | ⟨w, hw, -⟩⟩
    · cases hw
    · cases hy
      cases hbase
    · exact ⟨d, hd, h⟩
    · cases hy
      exact absurd ⟨rfl, rfl⟩ hn
    · cases hw
  obtain ⟨d, hd, hset⟩ := hset
  let u : Session := { Sample.planned true p with state := .executing, view := .none, prepared := true, degradations := d }
  have hu : u.Executing := ⟨rfl, hexecuting.receipt, hexecuting.plan, hd⟩
  obtain ⟨r, hr⟩ := hu.exists_makeReceipt (v := none) rfl .unknown
  have hcomplete : u.complete "unknown" none = ({ u with receipt := some r, state := .completed }, .ok r) := by
    simp only [complete, hu.state, show HostOutcome.explicit.find? (fun o => Str.lit o.name = Str.lit "unknown") = some .unknown by decide,
      hr]
  have hnone : ((Sample.created true).prepare (some (Sample.source "/p")) "aggressive" "reuse" (fun _ => .error x)).2 = .ok .none := by
    rw [hset]
  have hrun : Runs Step (fun _ _ => True)
      ((Sample.created true).prepare (some (Sample.source "/p")) "aggressive" "reuse" (fun _ => .error x)).1
      { u with receipt := some r, state := .completed } := by
    rw [hset]
    exact .next (i := .complete "unknown" none) .refl trivial (by rw [Step, next, hcomplete])
  exact ⟨_, _, _, _, _, _, hreachable, hnone, hrun, r, rfl, (sealed_once hreachable .refl).2.2 _ _ _ _ _ hnone hrun r rfl⟩

end LeanCtx.Session
