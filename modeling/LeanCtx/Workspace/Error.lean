import LeanCtx.Json.RoundTrip

/-! The exceptions of the workspace, and computations that may raise them. Where the code catches an exception and
    raises another one, the model maps the error (`catching`). -/

namespace LeanCtx

/-- An exception: the subclasses of `WorkspaceError`, and the exceptions of Python itself that the workspace's own code
    may raise. -/
inductive Err
  | validation (message : String)
  | incompatible (message : String)
  | corrupt
  | conflict
  | policy
  | lifecycle
  | lock
  | notFound
  | alreadyExists
  | io
  | sensitive (field : String)
  | keyError
  | typeError
  | stopIteration
deriving DecidableEq

/-- `isinstance(exc, WorkspaceError)`. -/
def Err.isWorkspace : Err → Bool
  | .keyError => false
  | .typeError => false
  | .stopIteration => false
  | _ => true

/-- The kind of a `_ProjectionFailure`. -/
inductive Failure
  | corrupt
  | incompatible
  | io
  | notFound
deriving DecidableEq

section
variable {ε ε' α β : Type}

/-- Go on if a condition holds, else raise. -/
def ensure (c : Prop) [Decidable c] (e : ε) : Except ε Unit := if c then .ok () else .error e

/-- `try: … except …: raise …`. -/
def catching (x : Except ε α) (f : ε → ε') : Except ε' α :=
  match x with
  | .ok a => .ok a
  | .error e => .error (f e)

/-- A value whose validity has been checked. -/
def certify : (x : Except ε Unit) → (x = .ok () → α) → Except ε α
  | .ok (), f => .ok (f rfl)
  | .error e, _ => .error e

theorem certify_eq_ok {x : Except ε Unit} {f : x = .ok () → α} {a : α} : certify x f = .ok a ↔ ∃ h, f h = a := by
  cases x with
  | error e => exact ⟨nofun, fun ⟨h, _⟩ => nomatch h⟩
  | ok u => exact ⟨fun h => ⟨rfl, Except.ok.inj h⟩, fun ⟨_, h⟩ => congrArg _ h⟩

theorem bind_eq_ok {x : Except ε α} {f : α → Except ε β} {b : β} :
    (x >>= f) = .ok b ↔ ∃ a, x = .ok a ∧ f a = .ok b := by
  cases x with
  | error e => exact ⟨nofun, fun ⟨_, h, _⟩ => nomatch h⟩
  | ok a => exact ⟨fun h => ⟨a, rfl, h⟩, fun ⟨_, h, h'⟩ => by cases h; exact h'⟩

@[simp] theorem ok_bind (a : α) (f : α → Except ε β) : (Except.ok a >>= f) = f a := rfl

@[simp] theorem error_bind (e : ε) (f : α → Except ε β) : (Except.error e >>= f) = .error e := rfl

@[simp] theorem pure_eq_ok {a b : α} : (pure a : Except ε α) = .ok b ↔ a = b :=
  ⟨fun h => Except.ok.inj h, fun h => h ▸ rfl⟩

@[simp] theorem ensure_eq_ok {c : Prop} [Decidable c] {e : ε} {u : Unit} : ensure c e = .ok u ↔ c := by
  unfold ensure
  split_ifs with h <;> simp [h]

@[simp] theorem ensure_of_true (e : ε) : ensure True e = .ok () := rfl

theorem ensure_true {c : Prop} [Decidable c] (h : c) (e : ε) : ensure c e = .ok () := if_pos h

theorem ensure_bind_eq_ok {c : Prop} [Decidable c] {e : ε} {f : Unit → Except ε β} {b : β} :
    (ensure c e >>= f) = .ok b ↔ c ∧ f () = .ok b := by
  rw [bind_eq_ok]
  exact ⟨fun ⟨_, h, h'⟩ => ⟨ensure_eq_ok.mp h, h'⟩, fun ⟨h, h'⟩ => ⟨(), ensure_true h e, h'⟩⟩

@[simp] theorem catching_ok (a : α) (f : ε → ε') : catching (.ok a) f = .ok a := rfl

@[simp] theorem catching_eq_ok {x : Except ε α} {f : ε → ε'} {a : α} : catching x f = .ok a ↔ x = .ok a := by
  cases x <;> simp [catching]

/-- `except WorkspaceError: raise _ProjectionFailure("incompatible", state)`. -/
def projecting (x : Except Err α) : Except Failure α := catching x fun _ => .incompatible

/-- The same, but a conflict is a corruption. -/
def projectingConflict (x : Except Err α) : Except Failure α :=
  catching x fun
    | .conflict => .corrupt
    | _ => .incompatible

@[simp] theorem projecting_ok (a : α) : projecting (.ok a) = .ok a := rfl

@[simp] theorem projecting_eq_ok {x : Except Err α} {a : α} : projecting x = .ok a ↔ x = .ok a := catching_eq_ok

@[simp] theorem projectingConflict_eq_ok {x : Except Err α} {a : α} : projectingConflict x = .ok a ↔ x = .ok a :=
  catching_eq_ok

/-- Mapping a computation over a list keeps the length. -/
theorem length_of_mapM {γ δ : Type} {f : γ → Except ε δ} {l : List γ} {m : List δ} (h : l.mapM f = .ok m) :
    m.length = l.length := by
  induction l generalizing m with
  | nil =>
    cases h
    rfl
  | cons a l ih =>
    rw [List.mapM_cons, bind_eq_ok] at h
    obtain ⟨b, -, h⟩ := h
    obtain ⟨n, hn, h⟩ := bind_eq_ok.mp h
    cases h
    simp [ih hn]

/-- Decoding a list of encoded values gives the values back. -/
theorem mapM_map {γ δ : Type} {f : γ → Except ε δ} {g : δ → γ} (h : ∀ a, f (g a) = .ok a) (l : List δ) :
    (l.map g).mapM f = .ok l := by
  induction l with
  | nil => rfl
  | cons a l ih =>
    rw [List.map_cons, List.mapM_cons, h, ok_bind, ih]
    rfl

theorem mem_of_mapM {γ δ : Type} {f : γ → Except ε δ} {l : List γ} {m : List δ} (h : l.mapM f = .ok m) {b : δ}
    (hb : b ∈ m) : ∃ a ∈ l, f a = .ok b := by
  induction l generalizing m with
  | nil =>
    cases h
    cases hb
  | cons a l ih =>
    rw [List.mapM_cons, bind_eq_ok] at h
    obtain ⟨c, hc, h⟩ := h
    obtain ⟨n, hn, h⟩ := bind_eq_ok.mp h
    cases h
    rcases List.mem_cons.mp hb with rfl | hb
    · exact ⟨a, by simp, hc⟩
    · obtain ⟨d, hd, hfd⟩ := ih hn hb
      exact ⟨d, by simp [hd], hfd⟩

theorem forM_eq_ok {γ : Type} {f : γ → Except ε Unit} {l : List γ} {u : Unit} :
    l.forM f = .ok u ↔ ∀ a ∈ l, f a = .ok () := by
  induction l with
  | nil => exact ⟨fun _ _ ha => (nomatch ha), fun _ => rfl⟩
  | cons a l ih =>
    rw [show (a :: l).forM f = (f a >>= fun _ => l.forM f) from rfl, bind_eq_ok, List.forall_mem_cons]
    exact ⟨fun ⟨_, ha, hl⟩ => ⟨ha, ih.mp hl⟩, fun ⟨ha, hl⟩ => ⟨(), ha, ih.mpr hl⟩⟩

/-- What every step of a fold preserves holds of its result. -/
theorem foldlM_invariant {γ δ : Type} {f : δ → γ → Except ε δ} {P : δ → Prop} {l : List γ} {a b : δ} (ha : P a)
    (hstep : ∀ c x d, x ∈ l → P c → f c x = .ok d → P d) (h : l.foldlM f a = .ok b) : P b := by
  induction l generalizing a with
  | nil =>
    cases h
    exact ha
  | cons x l ih =>
    rw [List.foldlM_cons, bind_eq_ok] at h
    obtain ⟨c, hc, h⟩ := h
    exact ih (hstep a x c (by simp) ha hc) (fun c y d hy => hstep c y d (by simp [hy])) h

/-- What each item brings and no later one takes away is there at the end. -/
theorem foldlM_forall {α β : Type} {f : β → α → Except ε β} {Q : α → β → Prop} (hstep : ∀ b a b', f b a = .ok b' → Q a b')
    (hkeep : ∀ a b c b', Q a b → f b c = .ok b' → Q a b') {l : List α} {b b' : β} (h : l.foldlM f b = .ok b') :
    ∀ a ∈ l, Q a b' := by
  induction l generalizing b with
  | nil => nofun
  | cons a l ih =>
    obtain ⟨next, hnext, hrest⟩ := bind_eq_ok.mp (List.foldlM_cons (f := f) ▸ h)
    intro c hc
    rcases List.mem_cons.mp hc with rfl | hc
    · exact foldlM_invariant (P := Q c) (hstep _ _ _ hnext) (fun b d b' _ hb hd => hkeep _ _ _ _ hb hd) hrest
    · exact ih hrest c hc

end
end LeanCtx
