import LeanCtx.Workspace.Conflict
import LeanCtx.Json.Length

/-! When evidence, conflicts and reports are made, and what they hold then. -/

namespace LeanCtx
open Json

section
variable {α : Type} {β : Type} [LinearOrder β] (key : α → β)

/-- A list that is sorted by a key stays as it is when it is sorted again. -/
theorem insertionSort_insertionSort (l : List α) :
    (l.insertionSort fun a b => key a ≤ key b).insertionSort (fun a b => key a ≤ key b) = l.insertionSort fun a b => key a ≤ key b := by
  have htotal : Std.Total fun a b : α => key a ≤ key b := ⟨fun a b => le_total (key a) (key b)⟩
  have htrans : IsTrans α fun a b => key a ≤ key b := ⟨fun _ _ _ => le_trans⟩
  exact (List.pairwise_insertionSort _ l).insertionSort_eq

end

namespace EvidenceRef

theorem sort_sort (l : List EvidenceRef) : sort (sort l) = sort l := insertionSort_insertionSort sortKey l

theorem sort_perm (l : List EvidenceRef) : (sort l).Perm l := List.perm_insertionSort _ l

end EvidenceRef

namespace ConflictEntry
open ConflictFields

variable {category : ConflictCategory} {key : Text 512} {base left right : Json} {evidence : List EvidenceRef}

theorem sort_sort (l : List ConflictEntry) : sort (sort l) = sort l := insertionSort_insertionSort sortKey l

theorem sort_perm (l : List ConflictEntry) : (sort l).Perm l := List.perm_insertionSort _ l

/-- A conflict that is made holds what it is made of. -/
theorem of_create {x : ConflictEntry} (h : create category key base left right evidence = .ok x) :
    x.category = category ∧ x.stableKey = key ∧ x.base = base ∧ x.left = left ∧ x.right = right ∧
      x.evidenceRefs = EvidenceRef.sort evidence := by
  simp only [create, bind_eq_ok, make_eq_ok] at h
  obtain ⟨d, -, hx⟩ := h
  simp [hx]

/-- A conflict of values that can be written is made. -/
theorem exists_create (category : ConflictCategory) (key : Text 512) (hbase : base.Writable) (hleft : left.Writable)
    (hright : right.Writable) (evidence : List EvidenceRef) : ∃ x, create category key base left right evidence = .ok x := by
  have hpayload : (mkObj [("schema_version", .str schema), ("category", .str category.name), ("stable_key", key.json), ("base", base),
      ("left", left), ("right", right), ("evidence_refs", .arr ((EvidenceRef.sort evidence).map EvidenceRef.toDict)),
      ("resolution", .str "manual_required")]).Writable := by
    refine writable_mkObj ?_
    simp only [List.mem_cons, List.not_mem_nil, or_false, forall_eq_or_imp, forall_eq]
    exact ⟨writable_lit _, writable_lit _, writable_text _, hbase, hleft, hright, writable_map EvidenceRef.writable_toDict _, writable_lit _⟩
  obtain ⟨d, hd⟩ := domainDigest_of_writable "leanctx.conflict-entry.v1" hpayload
  rw [← parallelDigest_eq_ok] at hd
  have hcheck : ConflictFields.check ⟨category, key, base, left, right, EvidenceRef.sort evidence, d⟩ = .ok () := by
    simp only [check, payloadFields, hd, bind_eq_ok, ensure_eq_ok, exists_const, Except.ok.injEq, exists_eq_left', and_true]
    exact (EvidenceRef.sort_sort evidence).symm
  exact ⟨⟨_, hcheck⟩, bind_eq_ok.mpr ⟨d, hd, make_eq_ok.mpr rfl⟩⟩

/-- A conflict can be written where its values can. -/
theorem writable_toDict {x : ConflictEntry} (hbase : x.base.Writable) (hleft : x.left.Writable) (hright : x.right.Writable) :
    x.toDict.Writable := by
  refine writable_mkObj ?_
  simp only [payloadFields, List.cons_append, List.nil_append, List.mem_cons, List.not_mem_nil, or_false, forall_eq_or_imp, forall_eq]
  exact ⟨writable_lit _, writable_lit _, writable_text _, hbase, hleft, hright, writable_map EvidenceRef.writable_toDict _, writable_lit _,
    writable_digest _⟩

end ConflictEntry

namespace ConflictReport
open ReportFields

variable {base : Option WorkspaceStateRef} {left right : WorkspaceStateRef} {ancestry : Ancestry} {entries : List ConflictEntry}

/-- A report that is made holds what it is made of, at most 256 conflicts among it. -/
theorem of_create {x : ConflictReport} (h : create base left right ancestry entries = .ok x) :
    entries.length ≤ maxConflicts ∧ x.base = base ∧ x.left = left ∧ x.right = right ∧ x.ancestry = ancestry ∧
      x.entries = ConflictEntry.sort entries := by
  simp only [create, bind_eq_ok, ensure_eq_ok, exists_const, make_eq_ok] at h
  obtain ⟨hlength, d, -, hx⟩ := h
  rw [(ConflictEntry.sort_perm entries).length_eq] at hlength
  simp [hx, hlength]

/-- A report of at most 256 conflicts that can be written is made. -/
theorem exists_create (base : Option WorkspaceStateRef) (left right : WorkspaceStateRef) (ancestry : Ancestry)
    (hlength : entries.length ≤ maxConflicts) (hentries : ∀ e ∈ entries, e.toDict.Writable) :
    ∃ x, create base left right ancestry entries = .ok x := by
  have hlength' : (ConflictEntry.sort entries).length ≤ maxConflicts := by rwa [(ConflictEntry.sort_perm entries).length_eq]
  have hunsigned : (mkObj [("schema_version", .str schema), ("base", optional WorkspaceStateRef.toDict base), ("left", left.toDict),
      ("right", right.toDict), ("ancestry", .str ancestry.name),
      ("entries", .arr ((ConflictEntry.sort entries).map fun e => e.toDict))]).Writable := by
    refine writable_mkObj ?_
    simp only [List.mem_cons, List.not_mem_nil, or_false, forall_eq_or_imp, forall_eq]
    refine ⟨writable_lit _, writable_optional WorkspaceStateRef.writable_toDict _, left.writable_toDict, right.writable_toDict,
      writable_lit _, writable_arr fun v hv => ?_⟩
    obtain ⟨e, he, rfl⟩ := List.mem_map.mp hv
    exact hentries e ((ConflictEntry.sort_perm entries).mem_iff.mp he)
  obtain ⟨d, hd⟩ := domainDigest_of_writable "leanctx.conflict-report.v1" hunsigned
  rw [← parallelDigest_eq_ok] at hd
  have hcheck : ReportFields.check ⟨base, left, right, ancestry, ConflictEntry.sort entries, d⟩ = .ok () := by
    simp only [check, unsignedFields, hd, bind_eq_ok, ensure_eq_ok, exists_const, Except.ok.injEq, exists_eq_left', and_true]
    exact ⟨hlength', (ConflictEntry.sort_sort entries).symm⟩
  exact ⟨⟨_, hcheck⟩, bind_eq_ok.mpr ⟨(), ensure_true hlength' _, bind_eq_ok.mpr ⟨d, hd, make_eq_ok.mpr rfl⟩⟩⟩

/-- A report can be written where its conflicts can. -/
theorem writable_toDict {x : ConflictReport} (hentries : ∀ e ∈ x.entries, e.toDict.Writable) : x.toDict.Writable := by
  refine writable_mkObj ?_
  simp only [unsignedFields, List.cons_append, List.nil_append, List.mem_cons, List.not_mem_nil, or_false, forall_eq_or_imp, forall_eq]
  refine ⟨writable_lit _, writable_optional WorkspaceStateRef.writable_toDict _, x.left.writable_toDict, x.right.writable_toDict,
    writable_lit _, writable_arr fun v hv => ?_, writable_digest _⟩
  obtain ⟨e, he, rfl⟩ := List.mem_map.mp hv
  exact hentries e he

end ConflictReport
end LeanCtx
