import Mathlib.Logic.Basic

/-! Machines that start without a state and step on inputs: the states that they reach, and invariants of these. -/

namespace LeanCtx.Machine
variable {σ ι : Type} {step : Option σ → ι → σ → Prop} {cond cond' : Option σ → ι → Prop}

/-- The states that are reached by inputs that all satisfy a condition. -/
inductive Reaches (step : Option σ → ι → σ → Prop) (cond : Option σ → ι → Prop) : σ → Prop
  | start {i : ι} {s : σ} (hc : cond none i) (h : step none i s) : Reaches step cond s
  | next {s : σ} {i : ι} {s' : σ} (hs : Reaches step cond s) (hc : cond (some s) i) (h : step (some s) i s') :
    Reaches step cond s'

/-- What holds at the start and is kept by every step holds of every state that is reached. -/
theorem Reaches.invariant {I : σ → Prop} (hstart : ∀ i s, cond none i → step none i s → I s)
    (hnext : ∀ s i s', I s → cond (some s) i → step (some s) i s' → I s') {s : σ} (h : Reaches step cond s) : I s := by
  induction h with
  | start hc h => exact hstart _ _ hc h
  | next _ hc h ih => exact hnext _ _ _ ih hc h

/-- A weaker condition reaches at least as much. -/
theorem Reaches.mono (hcond : ∀ s i, cond s i → cond' s i) {s : σ} (h : Reaches step cond s) : Reaches step cond' s := by
  induction h with
  | start hc h => exact .start (hcond _ _ hc) h
  | next _ hc h ih => exact .next ih (hcond _ _ hc) h

/-- The states that follow a state, over inputs that all satisfy a condition. -/
inductive Runs (step : Option σ → ι → σ → Prop) (cond : Option σ → ι → Prop) (s : σ) : σ → Prop
  | refl : Runs step cond s s
  | next {t : σ} {i : ι} {t' : σ} (ht : Runs step cond s t) (hc : cond (some t) i) (h : step (some t) i t') :
    Runs step cond s t'

theorem Runs.trans {s t u : σ} (h : Runs step cond s t) (h' : Runs step cond t u) : Runs step cond s u := by
  induction h' with
  | refl => exact h
  | next _ hc hs ih => exact .next ih hc hs

/-- What every step keeps holds of every state that follows one of which it holds. -/
theorem Runs.invariant {I : σ → Prop} (hnext : ∀ s i s', I s → cond (some s) i → step (some s) i s' → I s') {s t : σ}
    (h : Runs step cond s t) (hs : I s) : I t := by
  induction h with
  | refl => exact hs
  | next _ hc h ih => exact hnext _ _ _ ih hc h

/-- What follows a state that is reached is reached. -/
theorem Runs.reaches {s t : σ} (h : Runs step cond s t) (hs : Reaches step cond s) : Reaches step cond t := by
  induction h with
  | refl => exact hs
  | next _ hc h ih => exact .next ih hc h

/-! ### Machines whose next state is computed -/

/-- The state after several inputs. -/
def after (next : σ → ι → σ) (s : σ) (l : List ι) : σ := l.foldl next s

/-- The inputs of a list all satisfy a condition where they come. -/
def Allowed (next : σ → ι → σ) (cond : Option σ → ι → Prop) : σ → List ι → Prop
  | _, [] => True
  | s, i :: l => cond (some s) i ∧ Allowed next cond (next s i) l

theorem allowed_true (next : σ → ι → σ) (s : σ) (l : List ι) : Allowed next (fun _ _ => True) s l := by
  induction l generalizing s with
  | nil => trivial
  | cons i l ih => exact ⟨trivial, ih _⟩

theorem Reaches.after {next : σ → ι → σ} (hnext : ∀ s i, step (some s) i (next s i)) {s : σ} (hs : Reaches step cond s) {l : List ι}
    (hl : Allowed next cond s l) : Reaches step cond (Machine.after next s l) := by
  induction l generalizing s with
  | nil => exact hs
  | cons i l ih => exact ih (.next hs hl.1 (hnext s i)) hl.2

end LeanCtx.Machine
