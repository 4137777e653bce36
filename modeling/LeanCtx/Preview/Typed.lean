import LeanCtx.Preview.Fields
import LeanCtx.Python.Raises

/-! The exceptions of the fields of preview documents: only the measuring of a text that does not encode raises one of Python's own. -/

namespace LeanCtx

/-- `isinstance(exc, InstanceProtocolError)`. -/
def PreviewError.IsTyped : PreviewError → Prop
  | .bad _ => True
  | .lacks _ _ => True
  | .unknownFields _ _ => True
  | .unknownValue _ _ => True
  | _ => False

/-- A text with an unpaired surrogate, which does not encode. -/
def Json.Unencodable : Json → Prop
  | .str s => ¬s.all Str.isScalar = true
  | _ => False

theorem Json.unencodable_iff {v : Json} : v.Unencodable ↔ ∃ s, v = .str s ∧ ¬s.all Str.isScalar = true := by
  cases v with
  | str s =>
    simp only [Json.str.injEq, exists_eq_left']
    rfl
  | _ => exact iff_of_false not_false nofun

namespace Preview
open Json

section
variable {α : Type}

/-- The exceptions that no caller of a preview reader expects. -/
def Untyped (e : PreviewError) : Prop := ¬e.IsTyped

@[simp] theorem not_untyped_bad (m : Str) : ¬Untyped (.bad m) := not_not_intro trivial

@[simp] theorem not_untyped_lacks (l : Str) (m : List Str) : ¬Untyped (.lacks l m) := not_not_intro trivial

@[simp] theorem not_untyped_unknownFields (l : Str) (m : List Str) : ¬Untyped (.unknownFields l m) := not_not_intro trivial

@[simp] theorem not_untyped_unknownValue (l : Str) (v : Json) : ¬Untyped (.unknownValue l v) := not_not_intro trivial

@[simp] theorem untyped_unicode : Untyped .unicode := not_false

@[simp] theorem untyped_validation (m : String) : Untyped (.validation m) := not_false

theorem object_eq_ok {v : Json} {label : Str} {u : Unit} : object v label = .ok u ↔ v.isObj = true := ensure_eq_ok

theorem not_raises_object {v : Json} {label : Str} : ¬Raises Untyped (object v label) :=
  fun h => not_untyped_bad _ (raises_ensure.mp h).2

theorem not_raises_keys {v : Json} {required allowed : List String} {label : Str} :
    ¬Raises Untyped (keys v required allowed label) := by
  rw [keys, raises_bind, raises_ensure]
  rintro (⟨-, h⟩ | ⟨_, -, h⟩)
  · exact not_untyped_lacks _ _ h
  · exact not_untyped_unknownFields _ _ (raises_ensure.mp h).2

theorem not_raises_int {v : Json} {label : Str} {max : Nat} : ¬Raises Untyped (int v label max) := by
  unfold int
  split
  · split_ifs <;> simp
  · simp

theorem not_raises_bool {v : Json} {label : Str} : ¬Raises Untyped (Preview.bool v label) := by
  unfold Preview.bool
  split <;> simp

theorem not_raises_enum {all : List α} {name : α → String} {v : Json} {label : Str} : ¬Raises Untyped (enum all name v label) := by
  unfold enum
  split <;> simp

theorem returns_enum {all : List α} {name : α → String} {v : Json} {label : Str} :
    (∃ a, enum all name v label = .ok a) ↔ ∃ a ∈ all, v = .str (name a) := by
  unfold enum
  split
  · next a ha =>
    refine iff_of_true ⟨a, rfl⟩ ⟨a, List.mem_of_find?_eq_some ha, ?_⟩
    simpa using List.find?_some ha
  · next hnone =>
    refine iff_of_false nofun ?_
    rintro ⟨a, ha, heq⟩
    exact absurd (List.find?_eq_none.mp hnone a ha) (by simp [heq])

theorem not_raises_digest {v : Json} {label : Str} : ¬Raises Untyped (Preview.digest v label) := by
  unfold Preview.digest
  split
  · split_ifs <;> simp
  · simp

theorem nullable_of_ne_null {f : Json → Except PreviewError α} {v : Json} (hv : v ≠ .null) : nullable f v = some <$> f v := by
  unfold nullable
  split
  · exact absurd rfl hv
  · rfl

theorem raises_nullable {P : PreviewError → Prop} {f : Json → Except PreviewError α} {v : Json} :
    Raises P (nullable f v) ↔ v ≠ .null ∧ Raises P (f v) := by
  by_cases hv : v = .null
  · subst hv
    exact iff_of_false nofun fun h => h.1 rfl
  · rw [nullable_of_ne_null hv, raises_map]
    exact (and_iff_right hv).symm

theorem nullable_eq_ok {f : Json → Except PreviewError α} {v : Json} {o : Option α} :
    nullable f v = .ok o ↔ (v = .null ∧ o = none) ∨ (v ≠ .null ∧ ∃ a, f v = .ok a ∧ o = some a) := by
  by_cases hv : v = .null
  · subst hv
    simp [nullable, eq_comm]
  · rw [nullable_of_ne_null hv]
    cases f v with
    | error e =>
      refine iff_of_false nofun ?_
      rintro (⟨hnull, -⟩ | ⟨-, a, ha, -⟩)
      · exact hv hnull
      · cases ha
    | ok a =>
      change Except.ok (some a) = Except.ok o ↔ _
      simp [hv, eq_comm]

theorem not_raises_nullable {f : Json → Except PreviewError α} {v : Json} (h : ¬Raises Untyped (f v)) :
    ¬Raises Untyped (nullable f v) := fun hraises => h (raises_nullable.mp hraises).2

/-- The label of an item. -/
def itemLabel (label : String) (n : Nat) : Str := Str.lit label ++ Str.lit "[" ++ natText n ++ Str.lit "]"

/-- A list raises what one of its items raises, the earlier ones of which are accepted. -/
theorem raises_items {P : PreviewError → Prop} {read : Json → Str → Except PreviewError α} {label : String} {l : List Json} :
    Raises P (items read label l) ↔ ∃ before v after, l = before ++ v :: after ∧
      (∀ p ∈ before.zipIdx, Returns (read p.1 (itemLabel label p.2))) ∧ Raises P (read v (itemLabel label before.length)) :=
  raises_mapM_zipIdx

/-- The same, where an item is accepted under every label if it is under one. -/
theorem raises_items_of {P : PreviewError → Prop} {R : Json → Prop} {read : Json → Str → Except PreviewError α}
    (hread : ∀ v s, Returns (read v s) ↔ R v) {label : String} {l : List Json} :
    Raises P (items read label l) ↔ ∃ before v after, l = before ++ v :: after ∧ (∀ b ∈ before, R b) ∧
      Raises P (read v (itemLabel label before.length)) := by
  rw [raises_items]
  refine exists_congr fun before => exists_congr fun v => exists_congr fun after => and_congr_right fun _ => and_congr_left fun _ => ?_
  simp only [hread]
  constructor
  · intro h b hb
    obtain ⟨n, hn, rfl⟩ := List.getElem_of_mem hb
    exact h (before[n], n) (List.mk_mem_zipIdx_iff_getElem?.mpr (List.getElem?_eq_getElem hn))
  · intro h p hp
    exact h p.1 (List.fst_mem_of_mem_zipIdx hp)

theorem returns_items_of {R : Json → Prop} {read : Json → Str → Except PreviewError α} (hread : ∀ v s, Returns (read v s) ↔ R v)
    {label : String} {l : List Json} : Returns (items read label l) ↔ ∀ v ∈ l, R v := by
  rw [items, returns_mapM]
  simp only [hread]
  constructor
  · intro h b hb
    obtain ⟨n, hn, rfl⟩ := List.getElem_of_mem hb
    exact h (l[n], n) (List.mk_mem_zipIdx_iff_getElem?.mpr (List.getElem?_eq_getElem hn))
  · intro h p hp
    exact h p.1 (List.fst_mem_of_mem_zipIdx hp)

theorem not_raises_items {read : Json → Str → Except PreviewError α} {label : String} {l : List Json}
    (h : ∀ v s, ¬Raises Untyped (read v s)) : ¬Raises Untyped (items read label l) := by
  rw [raises_items]
  rintro ⟨_, v, _, -, -, hv⟩
  exact h v _ hv

end

end Preview
end LeanCtx
