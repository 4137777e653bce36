import LeanCtx.Workspace.Error

/-! Which exceptions a computation can raise: whether it raises one with a property is a property of its parts, in the order in which
    they run. -/

namespace LeanCtx

section
variable {ε ε' α β : Type}

/-- The computation raises an exception with a property. -/
def Raises (P : ε → Prop) (x : Except ε α) : Prop := ∃ e, x = .error e ∧ P e

/-- The computation returns. -/
def Returns (x : Except ε α) : Prop := ∃ a, x = .ok a

variable {P : ε → Prop}

@[simp] theorem raises_ok (a : α) : ¬Raises P (.ok a : Except ε α) := nofun

@[simp] theorem raises_pure (a : α) : ¬Raises P (pure a : Except ε α) := nofun

@[simp] theorem raises_error {e : ε} : Raises P (.error e : Except ε α) ↔ P e := by
  constructor
  · rintro ⟨_, h, he⟩
    cases h
    exact he
  · intro he
    exact ⟨e, rfl, he⟩

@[simp] theorem not_raises_false {x : Except ε α} : ¬Raises (fun _ => False) x := fun h => h.choose_spec.2

/-- A sequence raises what its first part raises, or its second part once the first one has returned. -/
theorem raises_bind {x : Except ε α} {f : α → Except ε β} : Raises P (x >>= f) ↔ Raises P x ∨ ∃ a, x = .ok a ∧ Raises P (f a) := by
  cases x with
  | error e => simp
  | ok a => simp

theorem raises_map {x : Except ε α} {f : α → β} : Raises P (f <$> x) ↔ Raises P x := by
  cases x with
  | error e => exact raises_error.trans raises_error.symm
  | ok a => exact iff_of_false nofun nofun

theorem raises_ensure {c : Prop} [Decidable c] {e : ε} : Raises P (ensure c e) ↔ ¬c ∧ P e := by
  by_cases h : c
  · rw [ensure_true h]
    exact iff_of_false nofun fun hn => hn.1 h
  · rw [ensure, if_neg h, raises_error]
    exact (and_iff_right h).symm

theorem catching_bind (x : Except ε α) (f : α → Except ε β) (g : ε → ε') :
    catching (x >>= f) g = catching x g >>= fun a => catching (f a) g := by
  cases x <;> rfl

theorem catching_ensure (c : Prop) [Decidable c] (e : ε) (g : ε → ε') : catching (ensure c e) g = ensure c (g e) := by
  by_cases h : c <;> simp [ensure, catching, h]

theorem catching_pure (a : α) (g : ε → ε') : catching (pure a) g = pure a := rfl

theorem raises_catching {Q : ε' → Prop} {x : Except ε α} {f : ε → ε'} : Raises Q (catching x f) ↔ Raises (fun e => Q (f e)) x := by
  cases x with
  | error e => simp [catching]
  | ok a => simp

theorem dite_eq_ok {c : Prop} [Decidable c] {f : c → α} {e : ε} {a : α} :
    (if h : c then pure (f h) else .error e : Except ε α) = .ok a ↔ ∃ h, f h = a := by
  by_cases h : c <;> simp [h]

theorem raises_ite {c : Prop} [Decidable c] {x y : Except ε α} : Raises P (if c then x else y) ↔ (c ∧ Raises P x) ∨ (¬c ∧ Raises P y) := by
  by_cases h : c <;> simp [h]

theorem raises_dite {c : Prop} [Decidable c] {x : c → Except ε α} {y : ¬c → Except ε α} :
    Raises P (if h : c then x h else y h) ↔ (∃ h, Raises P (x h)) ∨ ∃ h, Raises P (y h) := by
  by_cases h : c <;> simp [h]

/-- A loop raises what one of its items raises, the earlier ones of which return. -/
theorem raises_mapM {f : α → Except ε β} {l : List α} :
    Raises P (l.mapM f) ↔ ∃ before a after, l = before ++ a :: after ∧ (∀ b ∈ before, Returns (f b)) ∧ Raises P (f a) := by
  induction l with
  | nil => simp
  | cons a l ih =>
    rw [List.mapM_cons, raises_bind]
    simp only [raises_bind, raises_pure, and_false, exists_false, or_false, ih]
    constructor
    · rintro (ha | ⟨b, hb, before, c, after, rfl, hbefore, hc⟩)
      · exact ⟨[], a, l, rfl, nofun, ha⟩
      · exact ⟨a :: before, c, after, rfl, List.forall_mem_cons.mpr ⟨⟨b, hb⟩, hbefore⟩, hc⟩
    · rintro ⟨before, c, after, heq, hbefore, hc⟩
      cases before with
      | nil =>
        cases heq
        exact .inl hc
      | cons b before =>
        cases heq
        obtain ⟨⟨d, hd⟩, hrest⟩ := List.forall_mem_cons.mp hbefore
        exact .inr ⟨d, hd, before, c, after, rfl, hrest, hc⟩

/-- The same of a loop over the items with their places. -/
theorem raises_mapM_zipIdx {f : α × Nat → Except ε β} {l : List α} :
    Raises P (l.zipIdx.mapM f) ↔ ∃ before a after, l = before ++ a :: after ∧ (∀ p ∈ before.zipIdx, Returns (f p)) ∧
      Raises P (f (a, before.length)) := by
  rw [raises_mapM]
  constructor
  · rintro ⟨before, p, after, heq, hbefore, hp⟩
    have hl : l = before.map (·.1) ++ p.1 :: after.map (·.1) := by
      have hmap := congrArg (List.map (·.1)) heq
      simpa using hmap
    subst hl
    rw [List.zipIdx_append, List.zipIdx_cons, Nat.zero_add, List.length_map] at heq
    obtain ⟨hhead, htail⟩ := List.append_inj heq (by simp)
    obtain ⟨hpair, -⟩ := List.cons.inj htail
    refine ⟨before.map (·.1), p.1, after.map (·.1), rfl, ?_, ?_⟩
    · rw [hhead]
      exact hbefore
    · rw [← hpair] at hp
      rwa [List.length_map]
  · rintro ⟨before, a, after, rfl, hbefore, ha⟩
    refine ⟨before.zipIdx, (a, before.length), after.zipIdx (before.length + 1), ?_, hbefore, ha⟩
    rw [List.zipIdx_append, List.zipIdx_cons, Nat.zero_add]

theorem returns_mapM {f : α → Except ε β} {l : List α} : Returns (l.mapM f) ↔ ∀ a ∈ l, Returns (f a) := by
  induction l with
  | nil => exact iff_of_true ⟨[], rfl⟩ nofun
  | cons a l ih =>
    simp only [Returns, List.mapM_cons, bind_eq_ok, pure_eq_ok] at ih ⊢
    rw [List.forall_mem_cons, ← ih]
    constructor
    · rintro ⟨_, b, hb, m, hm, -⟩
      exact ⟨⟨b, hb⟩, m, hm⟩
    · rintro ⟨⟨b, hb⟩, m, hm⟩
      exact ⟨b :: m, b, hb, m, hm, rfl⟩

/-- A loop over statements raises what one of them raises, the earlier ones of which return. -/
theorem raises_forM {f : α → Except ε Unit} {l : List α} :
    Raises P (l.forM f) ↔ ∃ before a after, l = before ++ a :: after ∧ (∀ b ∈ before, Returns (f b)) ∧ Raises P (f a) := by
  induction l with
  | nil => simp
  | cons a l ih =>
    change Raises P (f a >>= fun _ => l.forM f) ↔ _
    rw [raises_bind, ih]
    constructor
    · rintro (ha | ⟨u, hu, before, c, after, rfl, hbefore, hc⟩)
      · exact ⟨[], a, l, rfl, nofun, ha⟩
      · exact ⟨a :: before, c, after, rfl, List.forall_mem_cons.mpr ⟨⟨u, hu⟩, hbefore⟩, hc⟩
    · rintro ⟨before, c, after, heq, hbefore, hc⟩
      cases before with
      | nil =>
        cases heq
        exact .inl hc
      | cons b before =>
        cases heq
        obtain ⟨⟨u, hu⟩, hrest⟩ := List.forall_mem_cons.mp hbefore
        exact .inr ⟨u, hu, before, c, after, rfl, hrest, hc⟩

/-- A loop over statements raises nothing that none of them raises. -/
theorem not_raises_forM {f : α → Except ε Unit} {l : List α} (h : ∀ a ∈ l, ¬Raises P (f a)) : ¬Raises P (l.forM f) := by
  rw [raises_forM]
  rintro ⟨before, a, after, rfl, -, ha⟩
  exact h a (by simp) ha

/-- A computation returns or raises an exception with the property exactly when it raises none without it. -/
theorem returns_or_raises_iff {x : Except ε α} : Returns x ∨ Raises P x ↔ ¬Raises (fun e => ¬P e) x := by
  cases x with
  | error e =>
    rw [raises_error, raises_error, not_not]
    exact or_iff_right nofun
  | ok a => exact iff_of_true (.inl ⟨a, rfl⟩) nofun

end

end LeanCtx
