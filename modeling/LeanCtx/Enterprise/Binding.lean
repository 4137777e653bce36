import LeanCtx.Enterprise.Selecting
import LeanCtx.Machine.Matching

/-! The bindings of an accepted source plan: one for each selection, one for each source that was asked for. The reader counts the
    bindings and looks for a selection of each; that no reference stands twice makes a bijection of it. -/

namespace LeanCtx.Planning
open Json

/-- The selections that are bound. -/
def Plan.selected (p : Plan) : List Selection := p.selections.filter fun s => s.disposition = .selected

namespace SourcePlan

/-- What the bindings of a plan are to its selections, to the sources and to the budgets. -/
structure Bound (x : SourcePlan) (request : Request) (sources : Option (List Source)) : Prop where
  matched : ∃ e : Fin x.bindings.length ≃ Fin x.plan.selected.length, ∀ i, Matches x.bindings[i] x.plan.selected[e i]
  sorted : (x.bindings.map fun d => d.objectRef.1).Pairwise (· < ·)
  requested : ∀ l ∈ sources, ∀ d ∈ x.bindings, ∃! i : Fin l.length, l[i].descriptor = d
  tokens : (x.plan.selected.map (·.tokenCount)).sum ≤ x.plan.budgetTokens
  budget : x.plan.budgetTokens ≤ request.budgetTokens.1

variable {request : Request} {sources : Option (List Source)} {x : SourcePlan}

theorem sorted_of_checkBindings {p : Plan} {l : List Descriptor} {u : Unit} (h : checkBindings p l = .ok u) :
    (l.map fun d => d.objectRef.1).Pairwise (· < ·) := by
  simp only [checkBindings, bind_eq_ok, ensure_eq_ok, exists_const] at h
  exact h.1.pairwise

theorem exists_equiv_of_checkBindings {p : Plan} {l : List Descriptor} {u : Unit} (h : checkBindings p l = .ok u) :
    ∃ e : Fin l.length ≃ Fin p.selected.length, ∀ i, Matches l[i] p.selected[e i] := by
  have hsorted := sorted_of_checkBindings h
  simp only [checkBindings, bind_eq_ok, ensure_eq_ok, exists_const] at h
  have hseparates : Separates Matches l :=
    separates_of_nodup (fun d => d.objectRef.1) (fun s => s.sourceRef.1) (fun d s hd => hd.1) (hsorted.imp ne_of_lt)
  exact exists_equiv_of_matched h.2.1.symm h.2.2 hseparates

theorem existsUnique_of_checkSources {l : List Descriptor} {sources : List Source} {u : Unit} (h : checkSources l (some sources) = .ok u) :
    ∀ d ∈ l, ∃! i : Fin sources.length, sources[i].descriptor = d := by
  simp only [checkSources, bind_eq_ok, ensure_eq_ok, exists_const] at h
  obtain ⟨-, hnodup, hmem⟩ := h
  have hseparates : Separates (fun s d => s.descriptor = d) sources :=
    separates_of_nodup (fun s => s.descriptor.objectRef) (fun d => d.objectRef) (fun s d hd => by rw [hd]) hnodup
  exact fun d hd => hseparates.existsUnique (List.mem_map.mp (hmem d hd))

theorem Accepted.bound (h : x.Accepted request sources) : x.Bound request sources where
  matched := exists_equiv_of_checkBindings h.bindings
  sorted := sorted_of_checkBindings h.bindings
  requested l hl := by
    cases hl
    exact existsUnique_of_checkSources h.sources
  tokens := h.plan.valid.tokens
  budget := h.plan.budget

/-- Whatever is answered, an accepted source plan binds its selections one to one, each to one requested source, within the budgets. -/
theorem bound_of_parse {raw : Bytes} (h : parse raw request sources = .ok x) : x.Bound request sources := (accepted_of_parse h).bound

theorem bound_short : ∃ raw x, parse raw SourceSample.request (some [SourceSample.source SourceSample.short]) = .ok x ∧
    x.bindings.length = 1 ∧ x.Bound SourceSample.request (some [SourceSample.source SourceSample.short]) := by
  obtain ⟨raw, x, hparse, hx⟩ := SourceSample.exists_short
  exact ⟨raw, x, hparse, by rw [hx.bindings]; rfl, bound_of_parse hparse⟩

end SourcePlan

/-! ### What is returned -/

/-- A document that is returned is written, and what is written is read as the same document with the same digests. -/
def IsFixed {α δ : Type} (parse : Bytes → Except InstanceError α) (toDict : α → Json) (digests : α → δ) (a : α) : Prop :=
  ∃ b, canonicalBytes? (toDict a) = some b ∧
    (b.length ≤ maxResponseBytes → ∃ a', parse b = .ok a' ∧ toDict a' = (toDict a).plain ∧ digests a' = digests a)

theorem ContextPlan.isFixed_of_parse {raw : Bytes} {request : Request} {p : Plan} (h : ContextPlan.parse raw request = .ok p) :
    IsFixed (ContextPlan.parse · request) resultDict (·.projectionDigest) p := by
  have hanswers := answers_of_parse h
  obtain ⟨b, hb⟩ := writable_result hanswers.valid
  refine ⟨b, hb, fun hlength => ?_⟩
  obtain ⟨stats, hstats, hresponse⟩ := response_canonical hanswers hb hlength
  obtain ⟨v, hv⟩ := hanswers.encodes
  refine ⟨p.plain stats, ?_, resultDict_plain hstats, rfl⟩
  simp only [ContextPlan.parse, bind_eq_ok]
  exact ⟨v, hv, hresponse⟩

theorem SourcePlan.isFixed_of_parse {raw : Bytes} {request : Request} {sources : Option (List Source)} {x : SourcePlan}
    (h : SourcePlan.parse raw request sources = .ok x) :
    IsFixed (SourcePlan.parse · request sources) SourcePlan.toDict (fun x => (x.plan.projectionDigest, x.bindingDigest)) x := by
  have haccepted := accepted_of_parse h
  obtain ⟨b, hb⟩ := haccepted.writable
  refine ⟨b, hb, fun hlength => ?_⟩
  obtain ⟨stats, hstats, hparse⟩ := parse_canonical haccepted hb hlength
  exact ⟨x.plain stats, hparse, toDict_plain hstats, rfl⟩

/-- What either reader returns, for any answer, is a fixed point of it. -/
theorem isFixed_returned (request : Request) (sources : Option (List Source)) (raw : Bytes) :
    (∀ p, ContextPlan.parse raw request = .ok p → IsFixed (ContextPlan.parse · request) resultDict (·.projectionDigest) p) ∧
    ∀ x, SourcePlan.parse raw request sources = .ok x →
      IsFixed (SourcePlan.parse · request sources) SourcePlan.toDict (fun x => (x.plan.projectionDigest, x.bindingDigest)) x :=
  ⟨fun _ h => ContextPlan.isFixed_of_parse h, fun _ h => SourcePlan.isFixed_of_parse h⟩

theorem isFixed_short : ∃ raw x, SourcePlan.parse raw SourceSample.request (some [SourceSample.source SourceSample.short]) = .ok x ∧
    IsFixed (SourcePlan.parse · SourceSample.request (some [SourceSample.source SourceSample.short])) SourcePlan.toDict
      (fun x => (x.plan.projectionDigest, x.bindingDigest)) x := by
  obtain ⟨raw, x, hparse, -⟩ := SourceSample.exists_short
  exact ⟨raw, x, hparse, (isFixed_returned _ _ raw).2 x hparse⟩

end LeanCtx.Planning
