import LeanCtx.Enterprise.Execution

/-! The references of an invocation. They are told apart by their prefixes, counted by kind and compared with one digest each, and
    together that asks for the four references of the lineage in some order. -/

namespace LeanCtx

theorem Digest.sha256_hex (d : Digest) : Str.lit "sha256:" ++ d.hex = d.1 := by
  have hd := d.2
  simp only [isDigest, Bool.and_eq_true, decide_eq_true_eq] at hd
  obtain ⟨t, ht⟩ := hd.1.1
  rw [Digest.hex, ← ht]
  rfl

namespace Enterprise.Execution
open Planning

/-- A reference that names a digest after a prefix is read as the digest. -/
theorem digestSuffix_eq_ok {value : Str} {start field : String} {d : Digest} :
    digestSuffix value start field = .ok d ↔ value = Str.lit start ++ d.hex := by
  simp only [digestSuffix, bind_eq_ok, ensure_eq_ok, exists_const, wrapping_eq_ok, validateDigest_eq_ok, Digest.json, Json.str.injEq]
  constructor
  · rintro ⟨⟨rest, rfl⟩, hd⟩
    rw [List.drop_left, ← d.sha256_hex] at hd
    rw [List.append_cancel_left hd]
  · rintro rfl
    rw [List.drop_left]
    exact ⟨List.prefix_append _ _, d.sha256_hex⟩

/-- Texts that begin with different letters are no prefixes of each other. -/
theorem not_isPrefix_append {s t r : Str} (h : s.head? ≠ t.head?) (hs : s ≠ []) (ht : t ≠ []) : ¬s <+: t ++ r := by
  obtain ⟨a, s, rfl⟩ := List.exists_cons_of_ne_nil hs
  obtain ⟨b, t, rfl⟩ := List.exists_cons_of_ne_nil ht
  rw [List.cons_append, List.cons_prefix_cons]
  exact fun hab => h (congrArg some hab.1)

/-- The reference that a kind asks for. -/
def reference (k : String × Digest × String) : Str := Str.lit k.1 ++ k.2.1.hex

/-- The kinds are told apart by the first letters of their prefixes. -/
structure Apart (starts : List String) : Prop where
  nonempty : ∀ s ∈ starts, Str.lit s ≠ []
  heads : starts.Pairwise fun s t => (Str.lit s).head? ≠ (Str.lit t).head?

theorem apart_lineageKinds (input evidence task plan : Digest) : Apart ((lineageKinds input evidence task plan).map (·.1)) where
  nonempty := by
    change ∀ s ∈ [inputRefPrefix, evidencePrefix, taskRefPrefix, planRefPrefix], _
    decide
  heads := by
    change [inputRefPrefix, evidencePrefix, taskRefPrefix, planRefPrefix].Pairwise _
    decide

section
variable {kinds : List (String × Digest × String)} (h : Apart (kinds.map (·.1)))
include h

theorem Apart.nodup : (kinds.map (·.1)).Nodup := h.heads.imp fun hne heq => hne (by rw [heq])

/-- The prefixes do not shadow each other: a reference is of the kind that it was made for. -/
theorem Apart.find?_reference {k : String × Digest × String} (hk : k ∈ kinds) :
    kinds.find? (fun j => Str.lit j.1 <+: reference k) = some k := by
  obtain ⟨before, after, rfl⟩ := List.append_of_mem hk
  refine List.find?_eq_some_iff_append.mpr ⟨decide_eq_true (List.prefix_append _ _), before, after, rfl, fun j hj => ?_⟩
  have hheads := h.heads
  rw [List.map_append, List.pairwise_append] at hheads
  rw [Bool.not_eq_true', decide_eq_false_iff_not]
  exact not_isPrefix_append (hheads.2.2 _ (List.mem_map_of_mem hj) _ (List.mem_map_of_mem List.mem_cons_self))
    (h.nonempty _ (List.mem_map_of_mem (List.mem_append_left _ hj))) (h.nonempty _ (List.mem_map_of_mem hk))

theorem Apart.lineageKind_eq_ok {ref : Str} {start : String} :
    lineageKind kinds ref = .ok start ↔ ∃ k ∈ kinds, ref = reference k ∧ start = k.1 := by
  constructor
  · intro hkind
    unfold lineageKind at hkind
    split at hkind
    · cases hkind
    · next found expected message hfind =>
      simp only [bind_eq_ok, ensure_eq_ok, exists_const, digestSuffix_eq_ok, Except.ok.injEq] at hkind
      obtain ⟨d, hd, rfl, rfl⟩ := hkind
      exact ⟨_, List.mem_of_find?_eq_some hfind, hd, rfl⟩
  · rintro ⟨k, hk, rfl, rfl⟩
    simp only [lineageKind, h.find?_reference hk, bind_eq_ok, ensure_eq_ok, exists_const, digestSuffix_eq_ok]
    exact ⟨k.2.1, rfl, rfl, trivial⟩

/-- References of all the kinds, and of each kind one, are a permutation of what the kinds ask for. -/
theorem Apart.counted_iff (refs : List Str) :
    (∃ found, refs.mapM (lineageKind kinds) = .ok found ∧ ∀ k ∈ kinds, found.count k.1 = 1) ↔ refs.Perm (kinds.map reference) := by
  simp only [Instance.mapM_eq_ok, h.lineageKind_eq_ok]
  constructor
  · rintro ⟨found, hfound, hcount⟩
    obtain ⟨read, hread, rfl, rfl⟩ : ∃ read : List (String × Digest × String),
        (∀ k ∈ read, k ∈ kinds) ∧ refs = read.map reference ∧ found = read.map (·.1) := by
      clear hcount
      induction hfound with
      | nil => exact ⟨[], nofun, rfl, rfl⟩
      | cons hhead _ ih =>
        obtain ⟨k, hk, rfl, rfl⟩ := hhead
        obtain ⟨read, hread, rfl, rfl⟩ := ih
        exact ⟨k :: read, List.forall_mem_cons.mpr ⟨hk, hread⟩, rfl, rfl⟩
    refine List.Perm.map _ ((List.perm_ext_iff_of_nodup ?_ h.nodup.of_map).mpr fun k => ⟨hread k, fun hk => ?_⟩)
    · -- A kind that is found twice would be counted twice.
      refine (List.nodup_iff_count_le_one.mpr fun s => ?_ : (read.map (·.1)).Nodup).of_map
      by_cases hs : s ∈ read.map (·.1)
      · obtain ⟨k, hk, rfl⟩ := List.mem_map.mp hs
        exact (hcount k (hread k hk)).le
      · rw [List.count_eq_zero_of_not_mem hs]
        exact Nat.zero_le 1
    · have hmem : k.1 ∈ read.map (·.1) := List.count_pos_iff.mp (by rw [hcount k hk]; exact Nat.one_pos)
      obtain ⟨j, hj, heq⟩ := List.mem_map.mp hmem
      rwa [← List.inj_on_of_nodup_map h.nodup (hread j hj) hk heq]
  · intro hperm
    obtain ⟨read, rfl, hread⟩ : ∃ read : List (String × Digest × String), refs = read.map reference ∧ read.Perm kinds := by
      have hcomp := congrFun (congrFun (List.eq_map_comp_perm reference) refs) kinds
      exact hcomp.mpr hperm
    refine ⟨read.map (·.1), ?_, fun k hk => ?_⟩
    · rw [List.forall₂_map_left_iff, List.forall₂_map_right_iff, List.forall₂_same]
      exact fun k hk => ⟨k, hread.subset hk, rfl, rfl⟩
    · rw [(hread.map _).count_eq]
      exact List.count_eq_one_of_mem h.nodup (List.mem_map_of_mem hk)

end

/-- The lineage is accepted exactly when its references are the four that it asks for, in some order, and the input is one of them. -/
theorem validateLineage_iff (i : Invocation) (sourcePlan plan task : Digest) :
    validateLineage i sourcePlan plan task = .ok () ↔
      (i.sourceRefs.map (·.1)).Perm [Str.lit inputRefPrefix ++ i.inputDigest.hex, Str.lit evidencePrefix ++ sourcePlan.hex,
        Str.lit taskRefPrefix ++ task.hex, Str.lit planRefPrefix ++ plan.hex] ∧
      i.inputRef.1 = Str.lit inputRefPrefix ++ i.inputDigest.hex := by
  have hcounted := (apart_lineageKinds i.inputDigest sourcePlan task plan).counted_iff (i.sourceRefs.map (·.1))
  have hmap : ∀ kinds, (i.sourceRefs.map (·.1)).mapM (lineageKind kinds) = i.sourceRefs.mapM fun r => lineageKind kinds r.1 := by
    intro kinds
    rw [List.mapM_map]
    rfl
  rw [hmap] at hcounted
  simp only [validateLineage, bind_eq_ok, ensure_eq_ok, exists_const, digestSuffix_eq_ok, List.all_eq_true, decide_eq_true_eq]
  constructor
  · rintro ⟨-, d, hinput, rfl, hfound⟩
    exact ⟨hcounted.mp hfound, hinput⟩
  · rintro ⟨hperm, hinput⟩
    have hlength := hperm.length_eq
    rw [List.length_map] at hlength
    exact ⟨hlength, i.inputDigest, hinput, rfl, hcounted.mpr hperm⟩

end Enterprise.Execution
end LeanCtx
