import Mathlib.Data.List.Infix

/-! Where a word stands in a text that is written block by block. A word of letters that are written as they are, and that begin
    no other block, stands in what is written exactly where it stands in what was said. -/

namespace LeanCtx.Blocks
variable {α β : Type} {f : α → List β} {g : α → β} {s l : List α}

/-- In the blocks of a text, the letters of a word are blocks of one symbol, and no other block begins with one of them. -/
structure Plain (f : α → List β) (g : α → β) (s l : List α) : Prop where
  nonempty : ∀ b ∈ l, f b ≠ []
  single : ∀ a ∈ s, f a = [g a]
  own : ∀ a ∈ s, ∀ b ∈ l, (f b).head? = some (g a) → b = a

theorem Plain.tail {b : α} (h : Plain f g s (b :: l)) : Plain f g s l where
  nonempty := fun c hc => h.nonempty c (List.mem_cons_of_mem b hc)
  single := h.single
  own := fun a ha c hc => h.own a ha c (List.mem_cons_of_mem b hc)

theorem Plain.isPrefix (h : Plain f g s l) (hs : s.map g <+: l.flatMap f) : s <+: l := by
  induction s generalizing l with
  | nil => exact List.nil_prefix
  | cons a s ih =>
    cases l with
    | nil => cases List.prefix_nil.mp hs
    | cons b l =>
      have hhead : (f b).head? = some (g a) := by
        obtain ⟨t, ht⟩ := hs
        rw [List.flatMap_cons, List.map_cons, List.cons_append] at ht
        cases hb : f b with
        | nil => exact absurd hb (h.nonempty b List.mem_cons_self)
        | cons x r =>
          rw [hb, List.cons_append] at ht
          rw [List.head?_cons, (List.cons.inj ht).1]
      obtain rfl := h.own a List.mem_cons_self b List.mem_cons_self hhead
      rw [List.flatMap_cons, h.single b List.mem_cons_self, List.map_cons, List.singleton_append, List.prefix_cons_inj] at hs
      have htail : Plain f g s l :=
        ⟨h.tail.nonempty, fun a ha => h.single a (List.mem_cons_of_mem b ha), fun a ha => h.tail.own a (List.mem_cons_of_mem b ha)⟩
      exact (List.prefix_cons_inj b).mpr (ih htail hs)

/-- A word whose first letter stands in no other block. -/
theorem Plain.isInfix_iff (h : Plain f g s l) (hs : s ≠ []) (hfirst : ∀ a ∈ s.head?, ∀ b ∈ l, g a ∈ f b → b = a) :
    s.map g <:+: l.flatMap f ↔ s <:+: l := by
  constructor
  · intro hin
    induction l with
    | nil => exact absurd (List.map_eq_nil_iff.mp (List.infix_nil.mp hin)) hs
    | cons b l ih =>
      have hrec : s.map g <:+: l.flatMap f → s <:+: b :: l := fun hin =>
        (ih h.tail (fun a ha c hc => hfirst a ha c (List.mem_cons_of_mem b hc)) hin).trans (List.suffix_cons b l).isInfix
      obtain ⟨u, w, huw⟩ := hin
      rw [List.flatMap_cons, List.append_assoc, List.append_eq_append_iff] at huw
      rcases huw with ⟨c, hb, hrest⟩ | ⟨c, -, hrest⟩
      · cases c with
        | nil => exact hrec ⟨[], w, hrest⟩
        | cons x c =>
          obtain ⟨a, s, rfl⟩ := List.exists_cons_of_ne_nil hs
          have hmem : g a ∈ f b := by
            rw [hb, show g a = x from (List.cons.inj hrest).1]
            exact List.mem_append_right _ List.mem_cons_self
          obtain rfl := hfirst a rfl b List.mem_cons_self hmem
          have hstart : u = [] := by
            rw [h.single b List.mem_cons_self] at hb
            have hlength := congrArg List.length hb
            simp only [List.length_append, List.length_cons, List.length_nil] at hlength
            exact List.eq_nil_of_length_eq_zero (by omega)
          rw [hstart, List.nil_append] at hb
          refine (h.isPrefix ⟨w, ?_⟩).isInfix
          rw [List.flatMap_cons, hb, hrest]
      · exact hrec ⟨c, w, by rw [List.append_assoc, hrest]⟩
  · rintro ⟨u, w, rfl⟩
    refine ⟨u.flatMap f, w.flatMap f, ?_⟩
    have hword : s.flatMap f = s.map g := by
      rw [List.flatMap_congr h.single]
      exact List.flatMap_pure_eq_map g s
    rw [List.flatMap_append, List.flatMap_append, hword]

/-- A word without the separator stands before it or after it. -/
theorem isInfix_append_cons {c : α} {a b : List α} (hc : c ∉ s) : s <:+: a ++ c :: b ↔ s <:+: a ∨ s <:+: b := by
  constructor
  · rintro ⟨u, w, huw⟩
    rw [List.append_eq_append_iff] at huw
    rcases huw with ⟨d, rfl, -⟩ | ⟨d, hd, hw⟩
    · exact .inl ⟨u, d, rfl⟩
    · cases d with
      | nil => exact .inl ⟨u, [], by rw [hd, List.append_nil, List.append_nil]⟩
      | cons x d =>
        obtain ⟨rfl, rfl⟩ := List.cons.inj hw
        rw [List.append_eq_append_iff] at hd
        rcases hd with ⟨e, -, hse⟩ | ⟨e, -, hce⟩
        · exact absurd (hse ▸ List.mem_append_right e List.mem_cons_self) hc
        · cases e with
          | nil =>
            rw [List.nil_append] at hce
            exact absurd (hce ▸ List.mem_cons_self) hc
          | cons y e =>
            obtain ⟨-, rfl⟩ := List.cons.inj hce
            exact .inr ⟨e, w, rfl⟩
  · rintro (h | h)
    · exact h.trans (List.prefix_append a _).isInfix
    · exact h.trans ((List.suffix_cons c b).isInfix.trans (List.suffix_append a _).isInfix)

end LeanCtx.Blocks
