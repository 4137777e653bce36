import LeanCtx.Machine.Run
import Mathlib.Data.List.Nodup
import Mathlib.Logic.Function.Basic

/-! Directories whose names are linked to files, and programs that observe a directory by one call after another while it is
    changed. -/

namespace LeanCtx.Machine

/-- A directory: its names with the files that they are linked to, and what each file holds. -/
structure Directory (ν δ : Type) where
  entries : List (ν × Nat)
  contents : Nat → δ

namespace Directory
variable {ν δ : Type} [DecidableEq ν] (d : Directory ν δ)

def names : List ν := d.entries.map (·.1)

/-- The file that a name is linked to. -/
def file? (name : ν) : Option Nat := (d.entries.find? fun e => e.1 = name).map (·.2)

/-- The number of names that a file has. -/
def links (file : Nat) : Nat := d.entries.countP fun e => e.2 = file

/-- What `stat` returns of a name: its file, and the number of names that it has. -/
def stat (name : ν) : Option (Nat × Nat) := (d.file? name).map fun i => (i, d.links i)

/-- The name of a new file. -/
def create (name : ν) (file : Nat) (empty : δ) : Directory ν δ :=
  ⟨d.entries ++ [(name, file)], Function.update d.contents file empty⟩

def write (file : Nat) (data : δ) : Directory ν δ := { d with contents := Function.update d.contents file data }

/-- One name more of a file. -/
def link (name : ν) (file : Nat) : Directory ν δ := { d with entries := d.entries ++ [(name, file)] }

def unlink (name : ν) : Directory ν δ := { d with entries := d.entries.filter fun e => e.1 ≠ name }

variable {d} {name : ν} {file : Nat}

theorem file?_eq_some (hnodup : d.names.Nodup) : d.file? name = some file ↔ (name, file) ∈ d.entries := by
  constructor
  · intro h
    obtain ⟨e, he, rfl⟩ := Option.map_eq_some_iff.mp h
    obtain rfl : e.1 = name := by simpa using List.find?_some he
    exact List.mem_of_find?_eq_some he
  · intro h
    cases hfound : d.entries.find? fun e => e.1 = name with
    | none => simpa using List.find?_eq_none.mp hfound _ h
    | some e =>
      have hname : e.1 = name := by simpa using List.find?_some hfound
      obtain rfl := List.inj_on_of_nodup_map hnodup (List.mem_of_find?_eq_some hfound) h hname
      rw [file?, hfound]
      rfl

theorem file?_eq_none : d.file? name = none ↔ name ∉ d.names := by
  rw [file?, Option.map_eq_none_iff, List.find?_eq_none, names]
  constructor
  · intro h hmem
    obtain ⟨e, he, hname⟩ := List.mem_map.mp hmem
    exact h e he (by simpa using hname)
  · intro h e he hname
    exact h (List.mem_map.mpr ⟨e, he, by simpa using hname⟩)

end Directory

/-! ### Programs that observe -/

/-- A program that observes a directory: it asks for the names, for the file of a name and how many names that has, for the file of a
    name, for the number of names of a file, or for what a file holds. -/
inductive Observation (ν δ ε α : Type)
  | done (result : Except ε α)
  | list (next : List ν → Observation ν δ ε α)
  | stat (name : ν) (next : Option (Nat × Nat) → Observation ν δ ε α)
  | lookup (name : ν) (next : Option Nat → Observation ν δ ε α)
  | links (file : Nat) (next : Nat → Observation ν δ ε α)
  | read (file : Nat) (next : δ → Observation ν δ ε α)

namespace Observation
variable {ν δ ε α β : Type}

def bind : Observation ν δ ε α → (α → Observation ν δ ε β) → Observation ν δ ε β
  | .done (.ok a), f => f a
  | .done (.error e), _ => .done (.error e)
  | .list next, f => .list fun l => (next l).bind f
  | .stat name next, f => .stat name fun x => (next x).bind f
  | .lookup name next, f => .lookup name fun x => (next x).bind f
  | .links file next, f => .links file fun n => (next n).bind f
  | .read file next, f => .read file fun b => (next b).bind f

instance : Monad (Observation ν δ ε) where
  pure a := .done (.ok a)
  bind := bind

theorem bind_eq (p : Observation ν δ ε α) (f : α → Observation ν δ ε β) : p >>= f = p.bind f := rfl

/-- Go on if a condition holds, else fail. -/
def require (c : Prop) [Decidable c] (e : ε) : Observation ν δ ε Unit := .done (if c then .ok () else .error e)

/-- The result where it is there, else fail. -/
def orFail (e : ε) : Option α → Observation ν δ ε α
  | some a => .done (.ok a)
  | none => .done (.error e)

section
variable [DecidableEq ν]

/-! ### Without interference -/

/-- The result in a directory that nobody changes. -/
def eval (d : Directory ν δ) : Observation ν δ ε α → Except ε α
  | .done r => r
  | .list next => (next d.names).eval d
  | .stat name next => (next (d.stat name)).eval d
  | .lookup name next => (next (d.file? name)).eval d
  | .links file next => (next (d.links file)).eval d
  | .read file next => (next (d.contents file)).eval d

theorem eval_bind (d : Directory ν δ) (p : Observation ν δ ε α) (f : α → Observation ν δ ε β) :
    (p >>= f).eval d = p.eval d >>= fun a => (f a).eval d := by
  rw [bind_eq]
  induction p with
  | done r => cases r <;> rfl
  | list next ih => exact ih _
  | stat name next ih => exact ih _
  | lookup name next ih => exact ih _
  | links file next ih => exact ih _
  | read file next ih => exact ih _

/-! ### With interference -/

/-- What a listing of the names may return while the directory is changed: every name that was there all the time, and only names that
    were there at some time. -/
structure Lists (l : List (Directory ν δ)) (names : List ν) : Prop where
  started : l ≠ []
  nodup : names.Nodup
  seen : ∀ n ∈ names, ∃ d ∈ l, n ∈ d.names
  kept : ∀ n, (∀ d ∈ l, n ∈ d.names) → n ∈ names

/-- The result of a program whose calls find the directory as a list has it, one after another. A listing is no single call. -/
inductive Runs : Observation ν δ ε α → List (Directory ν δ) → Except ε α → Prop
  | done (r : Except ε α) : Runs (.done r) [] r
  | list {next : List ν → Observation ν δ ε α} {l ds : List (Directory ν δ)} {names : List ν} {r : Except ε α} (h : Lists l names)
    (hr : Runs (next names) ds r) : Runs (.list next) (l ++ ds) r
  | stat {name : ν} {next : Option (Nat × Nat) → Observation ν δ ε α} {d : Directory ν δ} {ds : List (Directory ν δ)} {r : Except ε α}
    (hr : Runs (next (d.stat name)) ds r) : Runs (.stat name next) (d :: ds) r
  | lookup {name : ν} {next : Option Nat → Observation ν δ ε α} {d : Directory ν δ} {ds : List (Directory ν δ)} {r : Except ε α}
    (hr : Runs (next (d.file? name)) ds r) : Runs (.lookup name next) (d :: ds) r
  | links {file : Nat} {next : Nat → Observation ν δ ε α} {d : Directory ν δ} {ds : List (Directory ν δ)} {r : Except ε α}
    (hr : Runs (next (d.links file)) ds r) : Runs (.links file next) (d :: ds) r
  | read {file : Nat} {next : δ → Observation ν δ ε α} {d : Directory ν δ} {ds : List (Directory ν δ)} {r : Except ε α}
    (hr : Runs (next (d.contents file)) ds r) : Runs (.read file next) (d :: ds) r

variable {ds : List (Directory ν δ)} {r : Except ε α}

theorem runs_done {x : Except ε α} : Runs (.done x) ds r ↔ ds = [] ∧ r = x := by
  constructor
  · intro h
    cases h
    exact ⟨rfl, rfl⟩
  · rintro ⟨rfl, rfl⟩
    exact .done _

/-- A program in two parts: the second one begins where the first one has ended. -/
theorem Runs.of_bind {p : Observation ν δ ε β} {f : β → Observation ν δ ε α} (h : Runs (p >>= f) ds r) :
    ∃ ds₁ ds₂ x, ds = ds₁ ++ ds₂ ∧ Runs p ds₁ x ∧ Runs (.done x >>= f) ds₂ r := by
  rw [bind_eq] at h
  induction p generalizing ds with
  | done x => exact ⟨[], ds, x, rfl, .done x, h⟩
  | list next ih =>
    cases h with
    | list hl hr =>
      obtain ⟨ds₁, ds₂, x, rfl, hp, hf⟩ := ih _ hr
      exact ⟨_, ds₂, x, (List.append_assoc _ _ _).symm, .list hl hp, hf⟩
  | stat name next ih =>
    cases h with
    | stat hr =>
      obtain ⟨ds₁, ds₂, x, rfl, hp, hf⟩ := ih _ hr
      exact ⟨_, ds₂, x, (List.cons_append).symm, .stat hp, hf⟩
  | lookup name next ih =>
    cases h with
    | lookup hr =>
      obtain ⟨ds₁, ds₂, x, rfl, hp, hf⟩ := ih _ hr
      exact ⟨_, ds₂, x, (List.cons_append).symm, .lookup hp, hf⟩
  | links file next ih =>
    cases h with
    | links hr =>
      obtain ⟨ds₁, ds₂, x, rfl, hp, hf⟩ := ih _ hr
      exact ⟨_, ds₂, x, (List.cons_append).symm, .links hp, hf⟩
  | read file next ih =>
    cases h with
    | read hr =>
      obtain ⟨ds₁, ds₂, x, rfl, hp, hf⟩ := ih _ hr
      exact ⟨_, ds₂, x, (List.cons_append).symm, .read hp, hf⟩

/-- A first part that fails is the end of the program. -/
theorem Runs.bind_cases {p : Observation ν δ ε β} {f : β → Observation ν δ ε α} (h : Runs (p >>= f) ds r) :
    (∃ e, r = .error e ∧ Runs p ds (.error e)) ∨ ∃ ds₁ ds₂ b, ds = ds₁ ++ ds₂ ∧ Runs p ds₁ (.ok b) ∧ Runs (f b) ds₂ r := by
  obtain ⟨ds₁, ds₂, x, rfl, hp, hf⟩ := h.of_bind
  cases x with
  | error e =>
    obtain ⟨rfl, rfl⟩ := runs_done.mp (show Runs (.done (.error e)) ds₂ r from hf)
    exact .inl ⟨e, rfl, by rwa [List.append_nil]⟩
  | ok b => exact .inr ⟨ds₁, ds₂, b, rfl, hp, hf⟩

/-- What a program finds in a directory that nobody changes is one of its runs. -/
theorem exists_runs {d : Directory ν δ} (hnodup : d.names.Nodup) (p : Observation ν δ ε α) :
    ∃ n, Runs p (List.replicate n d) (p.eval d) := by
  induction p with
  | done r => exact ⟨0, .done r⟩
  | list next ih =>
    obtain ⟨n, hn⟩ := ih d.names
    have hl : Lists [d] d.names := by
      refine ⟨List.cons_ne_nil _ _, hnodup, fun name h => ⟨d, List.mem_singleton_self d, h⟩, fun name h => ?_⟩
      exact h d (List.mem_singleton_self d)
    exact ⟨n + 1, .list hl hn⟩
  | stat name next ih =>
    obtain ⟨n, hn⟩ := ih (d.stat name)
    exact ⟨n + 1, .stat hn⟩
  | lookup name next ih =>
    obtain ⟨n, hn⟩ := ih (d.file? name)
    exact ⟨n + 1, .lookup hn⟩
  | links file next ih =>
    obtain ⟨n, hn⟩ := ih (d.links file)
    exact ⟨n + 1, .links hn⟩
  | read file next ih =>
    obtain ⟨n, hn⟩ := ih (d.contents file)
    exact ⟨n + 1, .read hn⟩

end
end Observation
end LeanCtx.Machine
