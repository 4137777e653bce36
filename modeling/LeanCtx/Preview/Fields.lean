import LeanCtx.Session.Response
import LeanCtx.Python.Unicode

/-! The fields of the preview documents of an instance, read as `context_store.py` and `gateway.py` read them. -/

namespace LeanCtx

/-- An exception of a preview reader. Its message starts with the name of the reader's module, which is left out here, and the messages
    that end in a Python value keep the value instead of its text. -/
inductive PreviewError
  | bad (message : Str)
  | lacks (label : Str) (missing : List Str)
  | unknownFields (label : Str) (unknown : List Str)
  | unknownValue (label : Str) (value : Json)
  | validation (message : String)
  | unicode
  | engine (e : InstanceError)
deriving DecidableEq

namespace Preview
open Json

/-- `2**53 - 1`. -/
def maxSafe : Nat := 9007199254740991

def maxRefBytes : Nat := 512

/-- `_object(value, label)`. -/
def object (v : Json) (label : Str) : Except PreviewError Unit :=
  ensure (v.isObj = true) (.bad (label ++ Str.lit " must be an object"))

/-- The keys of an object. -/
def keysOf : Json → List Str
  | .obj f => f.map (·.1)
  | _ => []

/-- `_keys(value, required, optional, label)`. -/
def keys (v : Json) (required allowed : List String) (label : Str) : Except PreviewError Unit := do
  let missing := (required.map Str.lit).filter fun k => k ∉ keysOf v
  let unknown := (keysOf v).filter fun k => k ∉ (required ++ allowed).map Str.lit
  ensure (missing = []) (.lacks label (missing.mergeSort fun a b => decide (a ≤ b)))
  ensure (unknown = []) (.unknownFields label (unknown.mergeSort fun a b => decide (a ≤ b)))

/-- An object holds the required keys, and besides these only allowed ones. -/
def HasKeys (v : Json) (required allowed : List String) : Prop :=
  (∀ k ∈ required, Str.lit k ∈ keysOf v) ∧ ∀ k ∈ keysOf v, k ∈ (required ++ allowed).map Str.lit

theorem keys_eq_ok {v : Json} {required allowed : List String} {label : Str} {u : Unit} :
    keys v required allowed label = .ok u ↔ HasKeys v required allowed := by
  simp only [keys, ensure_bind_eq_ok, ensure_eq_ok, List.filter_eq_nil_iff, HasKeys, decide_eq_true_eq, not_not,
    List.forall_mem_map]

/-- `_int(value, label, maximum)`. A Boolean is no integer here. -/
def int (v : Json) (label : Str) (max : Nat) : Except PreviewError Nat :=
  match v with
  | .int n =>
    if 0 ≤ n ∧ n ≤ max then .ok n.toNat else .error (.bad (label ++ Str.lit " must be an integer in 0.." ++ natText max))
  | _ => .error (.bad (label ++ Str.lit " must be an integer in 0.." ++ natText max))

/-- `_bool(value, label)`. -/
def bool (v : Json) (label : Str) : Except PreviewError Bool :=
  match v with
  | .bool b => .ok b
  | _ => .error (.bad (label ++ Str.lit " must be a boolean"))

/-- `_enum(value, allowed, label)`. -/
def enum {α : Type} (all : List α) (name : α → String) (v : Json) (label : Str) : Except PreviewError α :=
  match all.find? fun a => v = .str (name a) with
  | some a => .ok a
  | none => .error (.unknownValue label v)

/-- `_digest(value, label)`. -/
def digest (v : Json) (label : Str) : Except PreviewError Digest :=
  match v with
  | .str s => if h : isDigest s = true then .ok ⟨s, h⟩ else .error (.bad (label ++ Str.lit " must be a sha256 digest"))
  | _ => .error (.bad (label ++ Str.lit " must be a sha256 digest"))

/-- `None if value is None else read(value)`. -/
def nullable {α : Type} (read : Json → Except PreviewError α) : Json → Except PreviewError (Option α)
  | .null => .ok none
  | v => some <$> read v

/-- Items read in order, each under a label with its index. -/
def items {α : Type} (read : Json → Str → Except PreviewError α) (label : String) (l : List Json) : Except PreviewError (List α) :=
  l.zipIdx.mapM fun p => read p.1 (Str.lit label ++ Str.lit "[" ++ natText p.2 ++ Str.lit "]")

theorem int_eq_ok {v : Json} {label : Str} {max n : Nat} : int v label max = .ok n ↔ v = .int n ∧ n ≤ max := by
  constructor
  · intro h
    unfold int at h
    split at h
    · split_ifs at h with hn
      cases h
      exact ⟨congrArg Json.int (Int.toNat_of_nonneg hn.1).symm, by omega⟩
    · cases h
  · rintro ⟨rfl, hn⟩
    simp [int, hn]

theorem bool_eq_ok {v : Json} {label : Str} {b : Bool} : bool v label = .ok b ↔ v = .bool b := by
  cases v <;> simp [bool]

theorem enum_eq_ok {α : Type} {all : List α} {name : α → String} (hall : ∀ a, a ∈ all) (hname : Function.Injective name)
    {v : Json} {label : Str} {a : α} : enum all name v label = .ok a ↔ v = .str (name a) := by
  constructor
  · intro h
    unfold enum at h
    split at h
    · next b hb =>
      cases h
      simpa using List.find?_some hb
    · cases h
  · rintro rfl
    unfold enum
    split
    · next b hb =>
      have heq := List.find?_some hb
      simp only [Json.str.injEq, Str.lit_inj, decide_eq_true_eq] at heq
      rw [hname heq]
    · next hb => exact absurd (List.find?_eq_none.mp hb a (hall a)) (by simp)

theorem digest_eq_ok {v : Json} {label : Str} {d : Digest} : digest v label = .ok d ↔ v = d.json := by
  constructor
  · intro h
    unfold digest at h
    split at h
    · split_ifs at h
      cases h
      rfl
    · cases h
  · rintro rfl
    simp [digest, Digest.json, d.2]

/-- Every item was read from the value at its place. -/
theorem forall₂_of_items {α : Type} {read : Json → Str → Except PreviewError α} {label : String} {l : List Json} {m : List α}
    (h : items read label l = .ok m) : List.Forall₂ (fun v a => ∃ s, read v s = .ok a) l m := by
  unfold items at h
  generalize 0 = n at h
  induction l generalizing n m with
  | nil =>
    cases h
    exact .nil
  | cons v l ih =>
    rw [List.zipIdx_cons, List.mapM_cons] at h
    obtain ⟨a, ha, h⟩ := bind_eq_ok.mp h
    obtain ⟨m, hm, h⟩ := bind_eq_ok.mp h
    cases h
    exact .cons ⟨_, ha⟩ (ih (n + 1) hm)

/-- Items that can be read under every label are. -/
theorem items_of_forall₂ {α : Type} {read : Json → Str → Except PreviewError α} {l : List Json} {m : List α}
    (h : List.Forall₂ (fun v a => ∀ s, read v s = .ok a) l m) (label : String) : items read label l = .ok m := by
  unfold items
  generalize 0 = n
  induction h generalizing n with
  | nil => rfl
  | cons ha _ ih =>
    rw [List.zipIdx_cons, List.mapM_cons, ha, ok_bind, ih (n + 1)]
    rfl

end Preview

/-- What became of a delivery. -/
inductive DeliveryOutcome
  | delivered
  | withheld
  | failed
deriving DecidableEq

namespace DeliveryOutcome

def name : DeliveryOutcome → String
  | .delivered => "delivered"
  | .withheld => "withheld"
  | .failed => "failed"

def all : List DeliveryOutcome := [.delivered, .withheld, .failed]

theorem mem_all (o : DeliveryOutcome) : o ∈ all := by cases o <;> simp [all]

theorem name_injective : Function.Injective name := by
  intro a b h
  cases a <;> cases b <;> first | rfl | exact absurd h (by decide)

end DeliveryOutcome

end LeanCtx
