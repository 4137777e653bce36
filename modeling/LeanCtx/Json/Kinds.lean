import LeanCtx.Json.Equal

/-! Values that Python's `==` takes for one value, and when they are one: where each holds a Boolean, an integer or a float, the
    other holds one of the same kind, and floats of the same sign. -/

namespace LeanCtx

namespace PyFloat

def isNeg : PyFloat → Bool
  | .finite neg _ _ _ => neg
  | .inf neg => neg

/-- Significands and exponents of binary64 that give one value are the same. -/
theorem eq_of_mul_pow_eq {m m' a b : Nat} (hm : m < 2 ^ 53) (hm' : m' < 2 ^ 53) (ha : 0 < a → 2 ^ 52 ≤ m) (hb : 0 < b → 2 ^ 52 ≤ m')
    (h : m * 2 ^ a = m' * 2 ^ b) : m = m' ∧ a = b := by
  have hle : ∀ {m m' a b : Nat}, m < 2 ^ 53 → (0 < b → 2 ^ 52 ≤ m') → a ≤ b → m * 2 ^ a = m' * 2 ^ b → m = m' ∧ a = b := by
    intro m m' a b hm hb hab h
    obtain ⟨k, rfl⟩ := Nat.exists_eq_add_of_le hab
    have hk : m = m' * 2 ^ k := by
      refine Nat.eq_of_mul_eq_mul_right (Nat.two_pow_pos a) ?_
      rw [h, Nat.pow_add]
      ring
    cases k with
    | zero => exact ⟨by simpa using hk, rfl⟩
    | succ k =>
      have hlarge := hb (by omega)
      have hpow : 2 ≤ 2 ^ (k + 1) := by
        rw [Nat.pow_succ]
        have := Nat.two_pow_pos k
        omega
      have hmul := Nat.mul_le_mul hlarge hpow
      omega
  rcases Nat.le_total a b with hab | hab
  · exact hle hm hb hab h
  · obtain ⟨hmm, hba⟩ := hle hm' ha hab h.symm
    exact ⟨hmm.symm, hba.symm⟩

/-- The integer that a finite float equals, scaled by the least exponent. -/
theorem natAbs_of_toInt? {neg : Bool} {m : Nat} {e : Int} {valid : isBinary64 m e = true} {n : Int}
    (h : (PyFloat.finite neg m e valid).toInt? = some n) : n.natAbs * 2 ^ 1074 = m * 2 ^ (e + 1074).toNat := by
  have hexp : -1074 ≤ e := by
    simp only [isBinary64, Bool.and_eq_true, decide_eq_true_eq] at valid
    exact valid.1.1.2
  have habs : ∀ k : Nat, ((if neg then -1 else 1 : Int) * (k : Int)).natAbs = k := by
    intro k
    cases neg <;> simp
  simp only [toInt?] at h
  by_cases hpos : 0 ≤ e
  · rw [if_pos hpos] at h
    obtain rfl := Option.some.inj h
    rw [habs, Nat.mul_assoc, ← Nat.pow_add]
    congr 2
    omega
  · rw [if_neg hpos] at h
    by_cases hdiv : m % 2 ^ (-e).toNat = 0
    · rw [if_pos hdiv] at h
      obtain rfl := Option.some.inj h
      have hsplit : 1074 = (-e).toNat + (e + 1074).toNat := by omega
      obtain ⟨q, hq⟩ := Nat.dvd_of_mod_eq_zero hdiv
      conv_lhs => rw [habs, hsplit]
      rw [hq, Nat.mul_div_cancel_left _ (Nat.two_pow_pos _), Nat.pow_add]
      ring
    · rw [if_neg hdiv] at h
      cases h

/-- Floats of one sign that equal one integer are the same. -/
theorem eq_of_toInt? {x y : PyFloat} {n : Int} (hx : x.toInt? = some n) (hy : y.toInt? = some n) (hneg : x.isNeg = y.isNeg) :
    x = y := by
  cases x with
  | inf s => cases hx
  | finite s m e valid =>
    cases y with
    | inf s' => cases hy
    | finite s' m' e' valid' =>
      have hm := valid
      have hm' := valid'
      simp only [isBinary64, Bool.and_eq_true, Bool.or_eq_true, decide_eq_true_eq, beq_iff_eq] at hm hm'
      obtain ⟨⟨⟨hlt, hlow⟩, -⟩, hnormal⟩ := hm
      obtain ⟨⟨⟨hlt', hlow'⟩, -⟩, hnormal'⟩ := hm'
      have hvalue := (natAbs_of_toInt? hx).symm.trans (natAbs_of_toInt? hy)
      obtain ⟨hmm, hexp⟩ := eq_of_mul_pow_eq hlt hlt' (fun h => by omega) (fun h => by omega) hvalue
      obtain rfl : s = s' := hneg
      obtain rfl := hmm
      obtain rfl : e = e' := by omega
      rfl

end PyFloat

namespace Json

mutual
/-- The value with only the kind of its numbers, and the sign of a float. -/
def kinds : Json → Json
  | .bool _ => .bool false
  | .int _ => .int 0
  | .float x => .float (.inf x.isNeg)
  | .arr l => .arr (kindsList l)
  | .obj f => .obj (kindsFields f)
  | .null => .null
  | .str s => .str s

def kindsList : List Json → List Json
  | [] => []
  | v :: l => kinds v :: kindsList l

def kindsFields : List (Str × Json) → List (Str × Json)
  | [] => []
  | (k, v) :: f => (k, kinds v) :: kindsFields f
end

/-- The values hold numbers of the same kinds, and floats of the same signs, at the same places. -/
def SameKinds (a b : Json) : Prop := a.plain.kinds = b.plain.kinds

instance (a b : Json) : Decidable (SameKinds a b) := inferInstanceAs (Decidable (a.plain.kinds = b.plain.kinds))

theorem eq_of_loose_of_kinds (a : Json) : ∀ b, a.loose = b.loose → a.kinds = b.kinds → a = b := by
  induction a using induct with
  | null =>
    intro b _ hkinds
    cases b <;> simp_all [kinds]
  | bool x =>
    intro b hloose hkinds
    cases b with
    | bool y => cases x <;> cases y <;> simp_all [loose]
    | _ => simp [kinds] at hkinds
  | int n =>
    intro b hloose hkinds
    cases b with
    | int m => simpa [loose] using hloose
    | _ => simp [kinds] at hkinds
  | float x =>
    intro b hloose hkinds
    cases b with
    | float y =>
      have hneg : x.isNeg = y.isNeg := by simpa [kinds] using hkinds
      rw [loose, loose] at hloose
      cases hx : x.toInt? with
      | none =>
        rw [hx] at hloose
        cases hy : y.toInt? with
        | none =>
          rw [hy] at hloose
          exact hloose
        | some n =>
          rw [hy] at hloose
          cases hloose
      | some n =>
        rw [hx] at hloose
        cases hy : y.toInt? with
        | none =>
          rw [hy] at hloose
          cases hloose
        | some m =>
          rw [hy] at hloose
          have hnm : n = m := Json.int.inj hloose
          rw [PyFloat.eq_of_toInt? hx (hnm ▸ hy) hneg]
    | _ => simp [kinds] at hkinds
  | str s =>
    intro b _ hkinds
    cases b <;> simp_all [kinds]
  | arr l ih =>
    intro b hloose hkinds
    cases b with
    | arr m =>
      simp only [loose, kinds, arr.injEq] at hloose hkinds ⊢
      induction l generalizing m with
      | nil =>
        cases m with
        | nil => rfl
        | cons w m => cases hkinds
      | cons v l ihl =>
        cases m with
        | nil => cases hkinds
        | cons w m =>
          simp only [looseList, kindsList, List.cons.injEq] at hloose hkinds
          rw [ih v (by simp) w hloose.1 hkinds.1, ihl (fun u hu => ih u (by simp [hu])) m hloose.2 hkinds.2]
    | float x => cases hx : x.toInt? <;> simp [kinds] at hkinds
    | _ => simp [kinds] at hkinds
  | obj f ih =>
    intro b hloose hkinds
    cases b with
    | obj g =>
      simp only [loose, kinds, obj.injEq] at hloose hkinds ⊢
      induction f generalizing g with
      | nil =>
        cases g with
        | nil => rfl
        | cons q g => cases hkinds
      | cons p f ihf =>
        cases g with
        | nil => cases hkinds
        | cons q g =>
          obtain ⟨k, v⟩ := p
          obtain ⟨j, w⟩ := q
          simp only [looseFields, kindsFields, List.cons.injEq, Prod.mk.injEq] at hloose hkinds
          have hvalue : v = w := ih (k, v) (by simp) w hloose.1.2 hkinds.1.2
          rw [hvalue, hloose.1.1, ihf (fun u hu => ih u (by simp [hu])) g hloose.2 hkinds.2]
    | _ => simp [kinds] at hkinds

/-- Equal values are the same, but for the order of keys, exactly where their numbers are of the same kinds. -/
theorem plain_eq_iff {a b : Json} (h : pyEq a b = true) : a.plain = b.plain ↔ SameKinds a b :=
  ⟨fun heq => congrArg kinds heq, eq_of_loose_of_kinds _ _ (pyEq_iff.mp h)⟩

end Json
end LeanCtx
