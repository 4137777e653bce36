import LeanCtx.Enterprise.Client

/-! The answer to a use of presented text, beside what was asked. The reader tests whether a member is present and, where its value is
    not null, the value; an answer whose member is present and null passes both tests and gives nothing. -/

namespace LeanCtx.Enterprise
open Json

/-- What an answer that fits its question is. -/
structure Use.Answers (u : Use) (asked : Asked) (capability : Capability) : Prop where
  refused : u.usable = false → (∃ r, u.reason = some r ∧ isReason r = true) ∧ u.sourceIds = [] ∧ u.recoveryId = none ∧ u.content = none
  checked : u.usable = true → asked.mode = .check → u.recoveryId = none ∧ u.content = none
  retained : u.usable = true → asked.mode = .retain → (∃ r, u.recoveryId = some r ∧ isRecoveryId r = true) ∧ u.content = none
  expanded : u.usable = true → asked.mode = .expand →
    u.recoveryId = some asked.value ∧ ∃ t, u.content = some t ∧ ¬Contains t capability.1
  sources : u.usable = true → u.sourceIds ≠ [] ∧ u.sourceIds.Nodup ∧ ∀ s ∈ u.sourceIds, s ≠ []

/-- No member that gives a recovery identifier or a text is null. -/
def Given (v : Json) : Prop := v.get "usable" = .bool true → ∀ k ∈ ["recovery_id", "content"], v.get? k ≠ some .null

section
variable {v : Json} {asked : Asked} {capability : Capability} {u : Use}

theorem useSources_eq_ok {ids : List Str} (h : useSources v = .ok ids) : ids.Nodup ∧ ∀ s ∈ ids, s ≠ [] := by
  unfold useSources at h
  split at h
  · simp only [bind_eq_ok, ensure_eq_ok, exists_const, Except.ok.injEq] at h
    obtain ⟨ids, hids, hnodup, rfl⟩ := h
    refine ⟨hnodup, fun s hs => ?_⟩
    obtain ⟨w, -, hw⟩ := mem_of_mapM hids hs
    split at hw
    · split_ifs at hw with hne
      cases hw
      exact hne
    · cases hw
  · cases h

theorem useReason_eq_ok {r : Str} (h : useReason v = .ok r) : isReason r = true := by
  unfold useReason at h
  split at h
  · simp only [bind_eq_ok, ensure_eq_ok, exists_const, Except.ok.injEq] at h
    obtain ⟨hreason, rfl⟩ := h
    exact hreason
  · cases h

/-- A recovery identifier that is not null is one, and the one that was asked for. -/
theorem useRecovery_eq_ok {o : Option Str} (h : useRecovery v asked = .ok o) :
    (v = .null ∧ o = none) ∨ ∃ s, v = .str s ∧ o = some s ∧ isRecoveryId s = true ∧ (asked.mode = .expand → s = asked.value) := by
  unfold useRecovery at h
  split at h
  · cases h
    exact Or.inl ⟨rfl, rfl⟩
  · simp only [bind_eq_ok, ensure_eq_ok, exists_const, Except.ok.injEq] at h
    obtain ⟨⟨hid, hasked⟩, rfl⟩ := h
    exact Or.inr ⟨_, rfl, rfl, hid, hasked⟩
  · cases h

theorem useContent_eq_ok {o : Option Str} (h : useContent v capability = .ok o) :
    (v = .null ∧ o = none) ∨ ∃ s, v = .str s ∧ o = some s ∧ ¬Contains s capability.1 := by
  unfold useContent at h
  split at h
  · cases h
    exact Or.inl ⟨rfl, rfl⟩
  · simp only [bind_eq_ok, ensure_eq_ok, exists_const, Except.ok.injEq] at h
    obtain ⟨hnot, rfl⟩ := h
    exact Or.inr ⟨_, rfl, rfl, hnot⟩
  · cases h

/-- What the reader knows of an answer: a refusal, or an answer with the members that the mode asks for. -/
theorem parsePresentedUse_cases (h : parsePresentedUse v asked capability = .ok u) :
    (v.get "usable" = .bool false ∧ u.usable = false ∧ (∃ r, u.reason = some r ∧ isReason r = true) ∧ u.sourceIds = [] ∧
      u.recoveryId = none ∧ u.content = none) ∨
    (v.get "usable" = .bool true ∧ u.usable = true ∧ (u.sourceIds ≠ [] ∧ u.sourceIds.Nodup ∧ ∀ s ∈ u.sourceIds, s ≠ []) ∧
      (v.get? "recovery_id").isSome = decide (asked.mode ≠ .check) ∧ (v.get? "content").isSome = decide (asked.mode = .expand) ∧
      useRecovery (v.get "recovery_id") asked = .ok u.recoveryId ∧ useContent (v.get "content") capability = .ok u.content) := by
  simp only [parsePresentedUse, bind_eq_ok, ensure_eq_ok, exists_const] at h
  obtain ⟨⟨-, -, husable⟩, reference, -, ids, hids, h⟩ := h
  split_ifs at h with hfalse
  · simp only [bind_eq_ok, ensure_eq_ok, exists_const, Except.ok.injEq] at h
    obtain ⟨reason, hreason, -, rfl⟩ := h
    exact Or.inl ⟨hfalse, rfl, ⟨reason, rfl, useReason_eq_ok hreason⟩, rfl, rfl, rfl⟩
  · simp only [bind_eq_ok, ensure_eq_ok, exists_const, Except.ok.injEq] at h
    obtain ⟨⟨-, hne⟩, ⟨hrecovery, hcontent⟩, recoveryId, hid, content, htext, rfl⟩ := h
    exact Or.inr ⟨husable.resolve_right hfalse, rfl, ⟨hne, useSources_eq_ok hids⟩, hrecovery, hcontent, hid, htext⟩

theorem get_of_absent {k : String} (h : (v.get? k).isSome = false) : v.get k = .null := by
  cases hget : v.get? k with
  | none => rw [Json.get, hget]; rfl
  | some w =>
    rw [hget] at h
    cases h

/-- A member that is absent or null gives nothing. -/
theorem useRecovery_null {o : Option Str} (h : useRecovery (v.get "recovery_id") asked = .ok o) (hnull : v.get "recovery_id" = .null) : o = none := by
  rw [hnull] at h
  cases h
  rfl

theorem useContent_null {o : Option Str} (h : useContent (v.get "content") capability = .ok o) (hnull : v.get "content" = .null) : o = none := by
  rw [hnull] at h
  cases h
  rfl

/-- A member that is present and not null gives its value. -/
theorem get_ne_null {k : String} (h : (v.get? k).isSome = true) (hgiven : v.get? k ≠ some .null) : v.get k ≠ .null := by
  obtain ⟨w, hw⟩ := Option.isSome_iff_exists.mp h
  rw [Json.get, hw]
  rintro rfl
  exact hgiven hw

/-- Whatever was asked, an accepted answer fits its question exactly when it gives no null for a recovery identifier or a text. -/
theorem answers_iff (h : parsePresentedUse v asked capability = .ok u) :
    u.Answers asked capability ↔ Given v := by
  rcases parsePresentedUse_cases h with ⟨hfalse, husable, hrefused⟩ | ⟨htrue, husable, hsources, hrecovery, hcontent, hid, htext⟩
  · refine iff_of_true ⟨fun _ => hrefused, ?_, ?_, ?_, ?_⟩ fun htrue => ?_
    all_goals first | exact fun htrue => absurd (husable.symm.trans htrue) (by decide) | exact absurd (hfalse.symm.trans htrue) (by simp)
  constructor
  · intro hanswers _ k hk hnull
    have hget : v.get k = .null := by
      rw [Json.get, hnull]
      rfl
    simp only [List.mem_cons, List.not_mem_nil, or_false] at hk
    rcases hk with rfl | rfl
    · have hnone := useRecovery_null hid hget
      rw [hnull] at hrecovery
      cases hmode : asked.mode with
      | check =>
        rw [hmode] at hrecovery
        cases hrecovery
      | retain =>
        obtain ⟨⟨r, hr, -⟩, -⟩ := hanswers.retained husable hmode
        rw [hnone] at hr
        cases hr
      | expand =>
        have hr := (hanswers.expanded husable hmode).1
        rw [hnone] at hr
        cases hr
    · have hnone := useContent_null htext hget
      rw [hnull] at hcontent
      obtain ⟨-, t, ht, -⟩ := hanswers.expanded husable (of_decide_eq_true hcontent.symm)
      rw [hnone] at ht
      cases ht
  · intro hgiven
    have hgiven := hgiven htrue
    refine ⟨fun hfalse => absurd (husable.symm.trans hfalse) (by decide), fun _ hmode => ?_, fun _ hmode => ?_, fun _ hmode => ?_, fun _ => hsources⟩
    · rw [hmode] at hrecovery hcontent
      exact ⟨useRecovery_null hid (get_of_absent hrecovery), useContent_null htext (get_of_absent hcontent)⟩
    · rw [hmode] at hrecovery hcontent
      refine ⟨?_, useContent_null htext (get_of_absent hcontent)⟩
      rcases useRecovery_eq_ok hid with ⟨hnull, -⟩ | ⟨r, -, hr, hvalid, -⟩
      · exact absurd hnull (get_ne_null hrecovery (hgiven _ (by decide)))
      · exact ⟨r, hr, hvalid⟩
    · rw [hmode] at hrecovery hcontent
      refine ⟨?_, ?_⟩
      · rcases useRecovery_eq_ok hid with ⟨hnull, -⟩ | ⟨r, -, hr, -, hsame⟩
        · exact absurd hnull (get_ne_null hrecovery (hgiven _ (by decide)))
        · rw [hr, hsame hmode]
      · rcases useContent_eq_ok htext with ⟨hnull, -⟩ | ⟨t, -, ht, hnot⟩
        · exact absurd hnull (get_ne_null hcontent (hgiven _ (by decide)))
        · exact ⟨t, ht, hnot⟩

end

/-! ### A recovery identifier that is given, and one that is null -/

namespace UseSample

def capability : Capability := ⟨Str.lit ("lcp1_" ++ "0000000000000000000000000000000000000000000000000000000000000000"), by decide⟩

def asked : Asked := ⟨.retain, "text"⟩

theorem presentedUseRequest_asked : presentedUseRequest "retain" "text" = .ok asked := by decide

def recoveryId : Str := Str.lit "0000000000000000000000000000000000000000000000000000000000000000"

/-- An answer to a use that keeps the text. -/
def answer (recovery : Json) : Json :=
  mkObj [("schema_version", .int 1), ("presenter_ref", .str "presenter:00000000000000000000000000000000"), ("usable", .bool true),
    ("source_ids", .arr [.str "s"]), ("recovery_id", recovery)]

def use (recovery : Option Str) : Use :=
  ⟨⟨"presenter:00000000000000000000000000000000", by decide⟩, true, none, ["s"], recovery, none⟩

theorem parse_given : parsePresentedUse (answer (.str recoveryId)) asked capability = .ok (use (some recoveryId)) := by decide

theorem parse_null : parsePresentedUse (answer .null) asked capability = .ok (use none) := by decide

theorem given_answer : Given (answer (.str recoveryId)) := by
  intro _ k hk
  simp only [List.mem_cons, List.not_mem_nil, or_false] at hk
  rcases hk with rfl | rfl
  · exact (by decide : (answer (.str recoveryId)).get? "recovery_id" ≠ some .null)
  · exact (by decide : (answer (.str recoveryId)).get? "content" ≠ some .null)

end UseSample

theorem answers_given : (UseSample.use (some UseSample.recoveryId)).Answers UseSample.asked UseSample.capability :=
  (answers_iff UseSample.parse_given).mpr UseSample.given_answer

/-- `"recovery_id": null` is accepted where the text was to be kept, and the answer has no recovery identifier. -/
theorem not_answers_null : presentedUseRequest "retain" "text" = .ok UseSample.asked ∧
    parsePresentedUse (UseSample.answer .null) UseSample.asked UseSample.capability = .ok (UseSample.use none) ∧
    ¬(UseSample.use none).Answers UseSample.asked UseSample.capability := by
  refine ⟨UseSample.presentedUseRequest_asked, UseSample.parse_null, fun h => ?_⟩
  obtain ⟨⟨r, hr, -⟩, -⟩ := h.retained rfl rfl
  cases hr

end LeanCtx.Enterprise
