import LeanCtx.Json.Fields
import LeanCtx.Json.Writable

/-! Objects without some of their keys: what they hold, and when two of them agree. -/

namespace LeanCtx.Json

/-- `{key: item for key, item in value.items() if key not in keys}`. -/
def without (keys : List String) : Json → Json
  | .obj f => .obj (f.filter fun p => keys.all fun k => p.1 ≠ Str.lit k)
  | v => v

theorem find?_without (keys : List String) (f : List (Str × Json)) (j : Str) :
    (f.filter fun p => keys.all fun k => p.1 ≠ Str.lit k).find? (fun p => p.1 = j) =
      if keys.all fun k => j ≠ Str.lit k then f.find? fun p => p.1 = j else none := by
  rw [List.find?_filter]
  split_ifs with hj
  · congr 1
    funext p
    by_cases hp : p.1 = j
    · simp only [hp, hj, true_and, decide_true]
    · simp [hp]
  · refine List.find?_eq_none.mpr fun p _ => ?_
    by_cases hp : p.1 = j
    · simp only [hp, hj, false_and, decide_false, Bool.false_eq_true, not_false_eq_true]
    · simp [hp]

theorem ordered_without (keys : List String) {f : List (Str × Json)} (h : Ordered f) :
    Ordered (f.filter fun p => keys.all fun k => p.1 ≠ Str.lit k) :=
  List.Pairwise.sublist (List.filter_sublist.map _) h

theorem isPlain_without (keys : List String) {v : Json} (h : IsPlain v) : IsPlain (v.without keys) := by
  cases v with
  | obj f =>
    obtain ⟨hordered, hfields⟩ := isPlain_obj h
    have hkept : ∀ p ∈ f.filter fun p => keys.all fun k => p.1 ≠ Str.lit k, p.2.plain = p.2 := fun p hp =>
      hfields p (List.mem_of_mem_filter hp)
    have hmap : (f.filter fun p => keys.all fun k => p.1 ≠ Str.lit k).map (fun p => (p.1, p.2.plain)) =
        f.filter fun p => keys.all fun k => p.1 ≠ Str.lit k := by
      conv_rhs => rw [← List.map_id (f.filter _)]
      exact List.map_congr_left fun p hp => by rw [hkept p hp]; rfl
    rw [IsPlain, without, plain, plainFields_eq, hmap, sortFields_eq_self (ordered_without keys hordered)]
  | _ => exact h

/-- Dropping keys from a built object leaves the object that was built without them. -/
theorem without_mkObj (keys : List String) (f : List (String × Json)) :
    (mkObj f).without keys = mkObj (f.filter fun p => keys.all fun k => p.1 ≠ k) := by
  rw [mkObj, mkObj, without, obj.injEq]
  refine Agree.eq_of_ordered (fun j => ?_) (ordered_without keys (ordered_sortFields _)) (ordered_sortFields _)
  have hmap : (f.filter fun p => keys.all fun k => p.1 ≠ k).map (fun p => (Str.lit p.1, p.2)) =
      (f.map fun p => (Str.lit p.1, p.2)).filter fun p => keys.all fun k => p.1 ≠ Str.lit k := by
    rw [List.filter_map]
    congr 2
    funext p
    simp
  rw [find?_without, find?_sortFields, find?_sortFields, hmap, find?_without]

/-- Objects that agree without some keys and under one of these agree without the others. -/
theorem without_eq_of_get? {f g : List (Str × Json)} (hf : Ordered f) (hg : Ordered g) {k : String} {keys : List String}
    (h : (Json.obj f).without (k :: keys) = (Json.obj g).without (k :: keys)) (hk : (Json.obj f).get? k = (Json.obj g).get? k) :
    (Json.obj f).without keys = (Json.obj g).without keys := by
  rw [without, without, obj.injEq] at h ⊢
  refine Agree.eq_of_ordered (fun j => ?_) (ordered_without keys hf) (ordered_without keys hg)
  rw [find?_without, find?_without]
  by_cases hj : j = Str.lit k
  · subst hj
    have hfind : ∀ l : List (Str × Json), l.find? (fun p => p.1 = Str.lit k) =
        ((Json.obj l).get? k).map fun v => (Str.lit k, v) := by
      intro l
      rw [get?, Option.map_map]
      cases hl : l.find? fun p => p.1 = Str.lit k with
      | none => rfl
      | some p =>
        have hp : p.1 = Str.lit k := by simpa using List.find?_some hl
        rw [Option.map_some, Function.comp_apply, ← hp]
    rw [hfind f, hfind g, hk]
  · have hall := congrArg (fun l : List (Str × Json) => l.find? fun p => p.1 = j) h
    rw [find?_without, find?_without, List.all_cons, decide_eq_true hj, Bool.true_and] at hall
    exact hall

/-- A value that its canonical bytes read back as is plain. -/
theorem isPlain_of_loads {v : Json} {data : Bytes} (hload : strictLoads? data = some v) (hdata : canonicalBytes? v = some data) :
    IsPlain v ∧ ∃ f, v = .obj f := by
  obtain ⟨t, -, ht⟩ := Option.bind_eq_some_iff.mp hload
  obtain ⟨w, -, hw⟩ := Option.bind_eq_some_iff.mp ht
  cases w with
  | obj f =>
    cases hw
    exact ⟨Option.some.inj ((strictLoads?_canonical hdata).symm.trans hload), f, rfl⟩
  | _ => cases hw

end LeanCtx.Json
