import LeanCtx.Json.Fields
import LeanCtx.Workspace.Chaining
import LeanCtx.Workspace.Concurring

/-! What an admission stands for: by its digest it is one decision, of one workspace about one handoff, and nothing else is applied with
    it. -/

namespace LeanCtx
open Json

/-! ### Digests in a domain -/

/-- SHA-256 has one value for the different byte strings that the digests of two values in a domain are of. -/
def DigestCollision (domain : String) (v w : Json) : Prop := ∃ b b', v.canonicalBytes? = some b ∧ w.canonicalBytes? = some b' ∧
  domainBytes domain b ≠ domainBytes domain b' ∧ Sha256.hexdigest (domainBytes domain b) = Sha256.hexdigest (domainBytes domain b')

/-- Objects with one digest in a domain are the same but for the order of their keys, or they collide. -/
theorem plain_eq_or_collision {domain : String} {f g : List (String × Json)} {d : Digest} (hf : domainDigest domain (mkObj f) = .ok d)
    (hg : domainDigest domain (mkObj g) = .ok d) : (mkObj f).plain = (mkObj g).plain ∨ DigestCollision domain (mkObj f) (mkObj g) := by
  obtain ⟨b, hb, hd⟩ := domainDigest_eq_ok.mp hf
  obtain ⟨b', hb', hd'⟩ := domainDigest_eq_ok.mp hg
  by_cases heq : domainBytes domain b = domainBytes domain b'
  · obtain rfl : b = b' := List.cons.inj (List.append_cancel_left heq) |>.2
    exact .inl (canonicalBytes?_inj hb hb')
  · exact .inr ⟨b, b', hb, hb', heq, digestOf_inj (hd.trans hd'.symm)⟩

theorem mkObj_append {f g : List (String × Json)} (h : mkObj f = mkObj g) (l : List (String × Json)) :
    mkObj (f ++ l) = mkObj (g ++ l) := by
  have hagree : Agree (f.map fun p => (Str.lit p.1, p.2)) (g.map fun p => (Str.lit p.1, p.2)) := fun j => by
    rw [← find?_sortFields, Json.obj.inj h, find?_sortFields]
  refine congrArg Json.obj (sortFields_eq fun j => ?_)
  rw [List.map_append, List.map_append, List.find?_append, List.find?_append, hagree j]

/-! ### Handoffs and admissions -/

theorem ContextHandoff.digest_eq (h : ContextHandoff) :
    domainDigest "leanctx.context-handoff.v1" (mkObj h.unsignedFields) = .ok h.handoffDigest := by
  have hvalid := h.valid
  simp only [HandoffFields.check, bind_eq_ok, ensure_eq_ok, exists_const] at hvalid
  obtain ⟨-, -, -, entries, -, -, anchors, -, -, -, -, -, pins, -, -, -, -, expected, hexpected, heq⟩ := hvalid
  rw [heq]
  exact parallelDigest_eq_ok.mp hexpected

theorem HandoffAdmission.digest_eq (x : HandoffAdmission) :
    domainDigest "leanctx.handoff-admission.v1" (mkObj x.unsignedFields) = .ok x.admissionDigest := by
  have hvalid := x.valid
  simp only [AdmissionFields.check, bind_eq_ok, ensure_eq_ok, exists_const] at hvalid
  obtain ⟨-, -, -, expected, hexpected, heq⟩ := hvalid
  rw [heq]
  exact parallelDigest_eq_ok.mp hexpected

/-- Handoffs with one digest have the same document but for the order of its keys, or they collide. -/
theorem ContextHandoff.plain_eq_or_collision {g h : ContextHandoff} (hdigest : g.handoffDigest = h.handoffDigest) :
    g.toDict.plain = h.toDict.plain ∨
      DigestCollision "leanctx.context-handoff.v1" (mkObj g.unsignedFields) (mkObj h.unsignedFields) := by
  refine (LeanCtx.plain_eq_or_collision g.digest_eq (hdigest ▸ h.digest_eq)).imp_left fun heq => ?_
  rw [plain_mkObj, plain_mkObj] at heq
  rw [HandoffFields.toDict, HandoffFields.toDict, plain_mkObj, plain_mkObj, List.map_append, List.map_append, hdigest]
  exact mkObj_append heq _

/-- Admissions with one digest are the same decision of the same workspace about the same handoff, or they collide. -/
theorem HandoffAdmission.same_or_collision {x y : HandoffAdmission} (hdigest : y.admissionDigest = x.admissionDigest) :
    (y.handoffDigest = x.handoffDigest ∧ y.receiverWorkspaceId = x.receiverWorkspaceId ∧ y.decision = x.decision) ∨
      DigestCollision "leanctx.handoff-admission.v1" (mkObj y.unsignedFields) (mkObj x.unsignedFields) := by
  refine (plain_eq_or_collision y.digest_eq (hdigest ▸ x.digest_eq)).imp_left fun heq => ?_
  have hget : ∀ k, ((mkObj y.unsignedFields).get k).plain = ((mkObj x.unsignedFields).get k).plain := fun k => by
    rw [← get_plain, ← get_plain, heq]
  have hhandoff := hget "handoff_digest"
  have hreceiver := hget "receiver_workspace_id"
  have hdecision := hget "decision"
  simp only [AdmissionFields.unsignedFields, get_mkObj, List.find?, String.reduceEq, decide_false, decide_true, Option.map_some,
    Option.getD_some] at hhandoff hreceiver hdecision
  exact ⟨Subtype.ext (Json.str.inj hhandoff), Subtype.ext (Json.str.inj hreceiver),
    Decision.name_injective (Str.lit_injective (Json.str.inj hdecision))⟩

/-! ### Applied handoffs -/

/-- The handoffs that have been applied were applied to the workspace, in some state of it. -/
def State.Applies (t : State) : Prop := ∀ e ∈ t.events, e.kind = .handoffApplied →
  ∃ u v : State, u.identity = t.identity ∧ u.applyHandoff e.eventId e.payload = .ok v

theorem State.applies_of_accepts {s : Option State} {e : Event} {t : State} (hs : ∀ u ∈ s, u.Applies) (h : Accepts s e t) :
    t.Applies := by
  obtain ⟨allow, h⟩ := h
  have hrecords := applyEvent_records h
  intro e' he' hkind
  rw [hrecords.events] at he'
  cases s with
  | none =>
    obtain rfl : e' = e := List.mem_singleton.mp he'
    obtain ⟨-, hcreated, -⟩ := applyEvent_none.mp h
    exact absurd (hcreated.symm.trans hkind) (by decide)
  | some s =>
    have hidentity : t.identity = s.identity := hrecords.identity s rfl
    rcases List.mem_append.mp he' with he' | he'
    · obtain ⟨u, v, hu, hv⟩ := hs s rfl e' he' hkind
      exact ⟨u, v, hu.trans hidentity.symm, hv⟩
    · obtain rfl := List.mem_singleton.mp he'
      obtain ⟨-, -, -, v, hv, -⟩ := applyEvent_some.mp h
      rw [State.effect, hkind] at hv
      exact ⟨s, v, hidentity.symm, hv⟩

theorem applies_of_reaches {t : State} (h : Machine.Reaches Accepts (fun _ _ => True) t) : t.Applies :=
  h.invariant (fun _ _ _ h => State.applies_of_accepts (s := none) (by simp) h) fun s _ _ hs _ h =>
    State.applies_of_accepts (fun u hu => Option.some.inj hu ▸ hs) h

section
variable {s t : State} {sender : Option State} {bound : List SourceId} {h : ContextHandoff} {c : ContextCheckpoint} {x : HandoffAdmission}

/-- In every run, what is applied with the admission that `admit_handoff` has computed, told by its digest, is the handoff that it was
    computed for, in the workspace of the checkpoint, and not where it was rejected, unless SHA-256 collides. -/
theorem applied_is_admitted (hx : s.admitHandoff sender bound h c = .ok x) (hreach : Machine.Reaches Accepts (fun _ _ => True) t)
    {e : Event} (he : e ∈ t.events) (hkind : e.kind = .handoffApplied) {y : HandoffAdmission}
    (hy : HandoffAdmission.fromDict (e.payload.get "admission") = .ok y) (hdigest : y.admissionDigest = x.admissionDigest) :
    ∃ g, ContextHandoff.fromDict (e.payload.get "handoff") = .ok g ∧
      ((t.identity.workspaceId = c.workspaceId ∧ x.decision ≠ .rejected ∧ g.toDict.plain = h.toDict.plain) ∨
        DigestCollision "leanctx.handoff-admission.v1" (mkObj y.unsignedFields) (mkObj x.unsignedFields) ∨
        DigestCollision "leanctx.context-handoff.v1" (mkObj g.unsignedFields) (mkObj h.unsignedFields)) := by
  obtain ⟨u, v, hidentity, happly⟩ := applies_of_reaches hreach e he hkind
  simp only [State.applyHandoff, bind_eq_ok, projecting_eq_ok, ensure_eq_ok, exists_const] at happly
  obtain ⟨g, hg, y', hy', ⟨-, hhandoff, hreceiver, hdecision, -⟩, -⟩ := happly
  obtain rfl := Except.ok.inj (hy'.symm.trans hy)
  obtain ⟨-, -, hfor, hof⟩ := fields_of_admitHandoff hx
  refine ⟨g, hg, ?_⟩
  obtain ⟨hsame, hreceived, hdecided⟩ | hcollision := HandoffAdmission.same_or_collision hdigest
  · obtain hplain | hcollision := ContextHandoff.plain_eq_or_collision (hhandoff.symm.trans (hsame.trans hfor))
    · refine .inl ⟨?_, hdecided ▸ hdecision, hplain⟩
      rw [← hidentity, ← hreceiver, hreceived, hof]
    · exact .inr (.inr hcollision)
  · exact .inr (.inl hcollision)

end

/-- The admission of a sample handoff, and its application. -/
theorem exists_applied_is_admitted : ∃ (s t : State) (h : ContextHandoff) (c : ContextCheckpoint) (x y : HandoffAdmission) (e : Event),
    s.admitHandoff (s.senderOf (fun _ => none) h) [] h c = .ok x ∧ Machine.Reaches Accepts (fun _ _ => True) t ∧ e ∈ t.events ∧
      ∃ g, ContextHandoff.fromDict (e.payload.get "handoff") = .ok g ∧
        ((t.identity.workspaceId = c.workspaceId ∧ x.decision ≠ .rejected ∧ g.toDict.plain = h.toDict.plain) ∨
          DigestCollision "leanctx.handoff-admission.v1" (mkObj y.unsignedFields) (mkObj x.unsignedFields) ∨
          DigestCollision "leanctx.context-handoff.v1" (mkObj g.unsignedFields) (mkObj h.unsignedFields)) := by
  obtain ⟨s, c, h, x, e, t, files, hproject, -, -, hx, hdecision, hkind, hpayload, -, happly⟩ := exists_handed
  have hreach : Machine.Reaches Accepts (fun _ _ => True) s :=
    (reaches_of_foldlM (project_eq_ok.mp hproject).2.1 fun u hu => by cases hu).mono fun _ _ _ => trivial
  have hmem : e ∈ t.events := by
    rw [(applyEvent_records happly).events]
    exact List.mem_append_right _ (List.mem_singleton_self e)
  have hread : HandoffAdmission.fromDict (e.payload.get "admission") = .ok x := by
    rw [hpayload, plain_handoffPayload hdecision]
    simp only [get_mkObj, List.find?, String.reduceEq, decide_false, decide_true, Option.map_some, Option.getD_some]
    exact x.fromDict_toDict
  exact ⟨s, t, h, c, x, x, e, hx, .next hreach trivial ⟨_, happly⟩, hmem,
    applied_is_admitted hx (.next hreach trivial ⟨_, happly⟩) hmem hkind hread rfl⟩

end LeanCtx
