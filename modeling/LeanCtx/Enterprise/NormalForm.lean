import LeanCtx.Enterprise.SourcePlan
import LeanCtx.Json.Decoding
import LeanCtx.Json.Without

/-! The normal form of a plan. Reading drops nulls and empty collections, names every member of a descriptor and puts members in order;
    what it returns is read again as itself, extensions included, so both digests are those of the document that is returned. -/

namespace LeanCtx

namespace Json

/-- Dropping keys and putting fields in order commute. -/
theorem filter_sortFields (keys : List String) (f : List (Str × Json)) :
    (sortFields f).filter (fun p => keys.all fun k => p.1 ≠ Str.lit k) =
      sortFields (f.filter fun p => keys.all fun k => p.1 ≠ Str.lit k) := by
  refine Agree.eq_of_ordered (fun j => ?_) (ordered_without keys (ordered_sortFields f)) (ordered_sortFields _)
  rw [find?_without, find?_sortFields, find?_sortFields, find?_without]

/-- Fields that stand behind others may be put in order first. -/
theorem sortFields_append_sortFields (f g : List (Str × Json)) : sortFields (f ++ sortFields g) = sortFields (f ++ g) :=
  sortFields_eq fun j => by rw [List.find?_append, List.find?_append, find?_sortFields]

theorem plain_sorted (f : List (Str × Json)) :
    (Json.obj (sortFields f)).plain = .obj (sortFields (f.map fun p => (p.1, p.2.plain))) := by
  rw [plain_obj, plainFields_eq, map_sortFields, sortFields_eq_self (ordered_sortFields _)]

theorem get?_sorted (f : List (Str × Json)) (k : String) :
    (Json.obj (sortFields f)).plain.get? k = (f.find? fun p => p.1 = Str.lit k).map fun p => p.2.plain := by
  rw [get?_plain, get?, find?_sortFields, Option.map_map]
  rfl

theorem mem_plainFields {f : List (Str × Json)} {p : Str × Json} (h : p ∈ plainFields f) : ∃ q ∈ f, p = (q.1, q.2.plain) := by
  rw [plainFields_eq] at h
  obtain ⟨q, hq, rfl⟩ := List.mem_map.mp (mem_of_mem_sortFields h)
  exact ⟨q, hq, rfl⟩

theorem length_insertField_le (k : Str) (v : Json) (f : List (Str × Json)) : (insertField k v f).length ≤ f.length + 1 := by
  induction f with
  | nil => exact le_rfl
  | cons p f ih =>
    rw [insertField]
    split_ifs
    · exact le_rfl
    · exact Nat.le_succ _
    · exact Nat.succ_le_succ ih

theorem length_plainFields_le (f : List (Str × Json)) : (plainFields f).length ≤ f.length := by
  induction f with
  | nil => exact le_rfl
  | cons p f ih => exact (length_insertField_le _ _ _).trans (Nat.succ_le_succ ih)

/-- An object has the keys of the fields that it was made of. -/
theorem hasBetween_sorted {f : List (Str × Json)} {required allowed : List String}
    (hallowed : ∀ p ∈ f, ∃ k ∈ allowed, p.1 = Str.lit k) (hrequired : ∀ k ∈ required, ∃ p ∈ f, p.1 = Str.lit k) :
    (Json.obj (sortFields f)).hasBetween required allowed = true := by
  simp only [hasBetween, Bool.and_eq_true, List.all_eq_true]
  refine ⟨fun p hp => ?_, fun k hk => ?_⟩
  · obtain ⟨k, hk, heq⟩ := hallowed p (mem_of_mem_sortFields hp)
    exact List.any_eq_true.mpr ⟨k, hk, by simpa using heq.symm⟩
  · obtain ⟨p, hp, heq⟩ := hrequired k hk
    have hmem : Str.lit k ∈ (sortFields f).map (·.1) := mem_keys_sortFields.mpr (heq ▸ List.mem_map_of_mem hp)
    obtain ⟨q, hq, hkey⟩ := List.mem_map.mp hmem
    exact List.any_eq_true.mpr ⟨q, hq, by simpa using hkey⟩

end Json

namespace Planning
open Json

/-! ### Extensions -/

theorem extensionItems_eq_ok {depth : Nat} {l : List Json} {u : Unit} :
    extensionItems depth l = .ok u ↔ ∀ v ∈ l, extensionValue depth v = .ok () := by
  induction l with
  | nil => exact ⟨fun _ => nofun, fun _ => rfl⟩
  | cons v l ih => rw [extensionItems, bind_eq_ok, List.forall_mem_cons, ← ih]; exact ⟨fun ⟨_, hv, hl⟩ => ⟨hv, hl⟩, fun h => ⟨(), h⟩⟩

theorem extensionFields_eq_ok {depth : Nat} {f : List (Str × Json)} {u : Unit} : extensionFields depth f = .ok u ↔
    ∀ p ∈ f, (∃ k, identifier (.str p.1) "extension object key" = .ok k) ∧ extensionValue depth p.2 = .ok () := by
  induction f with
  | nil => exact ⟨fun _ => nofun, fun _ => rfl⟩
  | cons p f ih =>
    rw [List.forall_mem_cons, ← ih, extensionFields]
    simp only [bind_eq_ok]
    exact ⟨fun ⟨k, hk, (), hv, hf⟩ => ⟨⟨⟨k, hk⟩, hv⟩, hf⟩, fun ⟨⟨⟨k, hk⟩, hv⟩, hf⟩ => ⟨k, hk, (), hv, hf⟩⟩

theorem serialized_plain {v : Json} (h : serialized v = .ok ()) : serialized v.plain = .ok () := by
  rwa [serialized, canonical, canonicalBytes?_plain, ← canonical, ← serialized]

/-- An extension value stays one when its keys are put in order. -/
theorem extensionValue_plain (v : Json) : ∀ {depth : Nat}, extensionValue depth v = .ok () → extensionValue depth v.plain = .ok () := by
  refine induct (P := fun v => ∀ {depth : Nat}, extensionValue depth v = .ok () → extensionValue depth v.plain = .ok ())
    (fun h => h) (fun _ _ h => h) (fun _ _ h => h) (fun _ _ h => h) (fun _ _ h => h) (fun l ih depth h => ?_) (fun f ih depth h => ?_) v
  · have hplain := fun hs => serialized_plain (v := .arr l) hs
    rw [plain, plainList_eq] at hplain ⊢
    simp only [extensionValue, bind_eq_ok, ensure_eq_ok, exists_const, extensionItems_eq_ok, List.length_map] at h ⊢
    refine ⟨h.1, h.2.1, fun v hv => ?_, hplain h.2.2.2⟩
    obtain ⟨w, hw, rfl⟩ := List.mem_map.mp hv
    exact ih w hw (h.2.2.1 w hw)
  · have hplain := fun hs => serialized_plain (v := .obj f) hs
    rw [plain_obj] at hplain ⊢
    simp only [extensionValue, bind_eq_ok, ensure_eq_ok, exists_const, extensionFields_eq_ok] at h ⊢
    refine ⟨h.1, (length_plainFields_le f).trans h.2.1, fun p hp => ?_, hplain h.2.2.2⟩
    obtain ⟨q, hq, rfl⟩ := mem_plainFields hp
    exact ⟨(h.2.2.1 q hq).1, ih q hq (h.2.2.1 q hq).2⟩

/-- What is kept of an object beside its own members. -/
structure Extensible (f : List (Str × Json)) : Prop where
  key : ∀ p ∈ f, ∃ k, identifier (.str p.1) "extension key" = .ok k
  value : ∀ p ∈ f, extensionValue 0 p.2 = .ok ()
  length : f.length ≤ maxProtocolItems

theorem extensions_iff {v : Json} {reserved : List String} {f : List (Str × Json)} :
    extensions v reserved = .ok f ↔ f = unreserved v reserved ∧ Extensible f := by
  simp only [extensions, bind_eq_ok, ensure_eq_ok, exists_const, forM_eq_ok, Except.ok.injEq]
  constructor
  · rintro ⟨hf, hlength, rfl⟩
    exact ⟨rfl, fun p hp => ⟨(hf p hp).choose, (hf p hp).choose_spec.1⟩, fun p hp => (hf p hp).choose_spec.2, hlength⟩
  · rintro ⟨rfl, h⟩
    exact ⟨fun p hp => ⟨(h.key p hp).choose, (h.key p hp).choose_spec, h.value p hp⟩, h.length, rfl⟩

theorem Extensible.plain {f : List (Str × Json)} (h : Extensible f) : Extensible (plainFields f) where
  key p hp := by
    obtain ⟨q, hq, rfl⟩ := mem_plainFields hp
    exact h.key q hq
  value p hp := by
    obtain ⟨q, hq, rfl⟩ := mem_plainFields hp
    exact extensionValue_plain q.2 (h.value q hq)
  length := (length_plainFields_le f).trans h.length

/-- No extension has the key of a member. -/
theorem key_of_unreserved {v : Json} {reserved : List String} {p : Str × Json} (hp : p ∈ unreserved v reserved) :
    ∀ k ∈ reserved, p.1 ≠ Str.lit k := by
  cases v with
  | obj f =>
    have hall := (List.mem_filter.mp hp).2
    simpa [List.all_eq_true] using hall
  | _ => cases hp

/-- The members of an object that are its own, and those that extend it. -/
structure Extends (known ext : List (Str × Json)) (reserved : List String) : Prop where
  known : ∀ p ∈ known, ∃ k ∈ reserved, p.1 = Str.lit k
  ext : ∀ p ∈ ext, ∀ k ∈ reserved, p.1 ≠ Str.lit k

section
variable {known ext : List (Str × Json)} {reserved : List String}

/-- Beside its own members the normal form has the extensions, in order. -/
theorem Extends.unreserved (h : Extends known ext reserved) :
    Planning.unreserved (Json.obj (sortFields (known ++ ext))).plain reserved = plainFields ext := by
  have hnone : (known.map fun p => (p.1, p.2.plain)).filter (fun p => reserved.all fun k => p.1 ≠ Str.lit k) = [] := by
    refine List.filter_eq_nil_iff.mpr fun p hp => ?_
    obtain ⟨q, hq, rfl⟩ := List.mem_map.mp hp
    obtain ⟨k, hk, heq⟩ := h.known q hq
    simpa using ⟨k, hk, heq⟩
  have hall : (ext.map fun p => (p.1, p.2.plain)).filter (fun p => reserved.all fun k => p.1 ≠ Str.lit k)
      = ext.map fun p => (p.1, p.2.plain) := by
    refine List.filter_eq_self.mpr fun p hp => ?_
    obtain ⟨q, hq, rfl⟩ := List.mem_map.mp hp
    simpa using h.ext q hq
  rw [plain_sorted, Planning.unreserved, filter_sortFields, List.map_append, List.filter_append, hnone, hall, plainFields_eq]
  rfl

/-- A member is read where it stands. -/
theorem Extends.get? (h : Extends known ext reserved) {k : String} (hk : k ∈ reserved) :
    (Json.obj (sortFields (known ++ ext))).plain.get? k = (known.find? fun p => p.1 = Str.lit k).map fun p => p.2.plain := by
  have hnone : ext.find? (fun p => p.1 = Str.lit k) = none :=
    List.find?_eq_none.mpr fun p hp => by simpa using h.ext p hp k hk
  rw [get?_sorted, List.find?_append, hnone, Option.or_none]

end

/-! ### Optional members -/

theorem find?_field {α : Type} (key k : String) (f : α → Json) (o : Option α) :
    (field key f o).find? (fun q => q.1 = Str.lit k) = if key = k then o.map fun a => (Str.lit key, f a) else none := by
  cases o <;> simp [field, Str.lit_inj]

/-- A member that is left out where there is none is read again. -/
theorem optional_field {α : Type} {f : Json → Except InstanceError α} {g : α → Json} {v : Json} {key : String} {o : Option α}
    (hget : v.get? key = o.map g) (hf : ∀ a ∈ o, f (g a) = .ok a) (hnull : ∀ a, g a ≠ .null) : optional f v key = .ok o := by
  cases o with
  | none => rw [optional, hget]; rfl
  | some a =>
    rw [optional, hget, Option.map_some]
    split
    · next h => cases h
    · next h => exact absurd (Option.some.inj h) (hnull a)
    · next h =>
      cases h
      rw [hf a rfl]
      rfl

/-- A member that is null where there is none is read again. -/
theorem optional_null {α : Type} {f : Json → Except InstanceError α} {g : α → Json} {v : Json} {key : String} {o : Option α}
    (hget : v.get? key = some (LeanCtx.optional g o)) (hf : ∀ a, f (g a) = .ok a) (hnull : ∀ a, g a ≠ .null) :
    optional f v key = .ok o := by
  cases o with
  | none => rw [optional, hget]; rfl
  | some a =>
    rw [optional, hget, LeanCtx.optional]
    split
    · next h => cases h
    · next h => exact absurd (Option.some.inj h) (hnull a)
    · next h =>
      cases h
      rw [hf]
      rfl

theorem projectionDigest_eq_ok {v : Json} {field : String} {d : ProjectionDigest} : projectionDigest v field = .ok d ↔ v = d.json := by
  constructor
  · intro h
    unfold projectionDigest at h
    split at h
    · split_ifs at h
      cases h
      rfl
    · cases h
  · rintro rfl
    exact dif_pos d.2

/-! ### Descriptors -/

namespace Descriptor

theorem isPlain_toDict (d : Descriptor) : IsPlain d.toDict := by
  have hoptional : ∀ {α : Type} (g : α → Json) (o : Option α), (∀ a, IsPlain (g a)) → IsPlain (LeanCtx.optional g o) := by
    rintro α g (_ | a) hg
    · rfl
    · exact hg a
  refine isPlain_mkObj ?_
  simp only [List.mem_cons, List.not_mem_nil, or_false, forall_eq_or_imp, forall_eq]
  exact ⟨rfl, rfl, rfl, rfl, hoptional _ _ fun _ => rfl, hoptional _ _ fun _ => rfl, hoptional _ _ fun _ => rfl,
    hoptional _ _ fun _ => rfl, hoptional _ _ fun _ => rfl, rfl⟩

theorem ordered_of_parse {v : Json} {name : String} {d : Descriptor} (h : parse v name = .ok d) :
    Ordered d.observedAt d.validUntil := by
  simp only [parse, mapping, bind_eq_ok, ensure_eq_ok, exists_const, Except.ok.injEq] at h
  obtain ⟨-, -, -, _, -, _, -, _, -, _, -, _, -, _, -, _, -, _, -, _, -, _, -, h, rfl⟩ := h
  exact h

/-- A descriptor names every member, and is read again. -/
theorem parse_toDict {d : Descriptor} (h : Ordered d.observedAt d.validUntil) (name : String) : parse d.toDict name = .ok d := by
  have hget? : ∀ k, d.toDict.get? k = _ := fun k => Json.get?_mkObj _ k
  have hget : ∀ k, d.toDict.get k = _ := fun k => Json.get_mkObj _ k
  have hkeys : d.toDict.hasExactly keys = true := hasExactly_mkObj_self _
  have hpermission : (d.toDict.get? "permission").getD (.str Permission.unknown.name) = .str d.permission.name := by
    rw [hget?]
    rfl
  have htext : ∀ {max : Nat} {controls nul : Bool} (t : Text max controls nul), t.json ≠ .null := fun _ => Json.noConfusion
  simp only [parse, mapping, bind_eq_ok, ensure_eq_ok, exists_const]
  refine ⟨rfl, hasBetween_of_hasExactly hkeys (List.forall_mem_nil _), hasBetween_of_hasExactly hkeys (by decide), d.objectRef, text_eq_ok.mpr (hget _),
    d.sourceId, text_eq_ok.mpr (hget _), d.sourceType, ?_, d.contentDigest, Enterprise.validateDigest_eq_ok.mpr (hget _), d.revision,
    optional_null (hget? _) (fun _ => text_eq_ok.mpr rfl) htext, d.owner, optional_null (hget? _) (fun _ => text_eq_ok.mpr rfl) htext,
    d.observedAt, optional_null (hget? _) (fun _ => timestamp_eq_ok.mpr rfl) (fun _ => Json.noConfusion), d.validUntil,
    optional_null (hget? _) (fun _ => timestamp_eq_ok.mpr rfl) (fun _ => Json.noConfusion), d.permission, ?_, d.classification,
    optional_null (hget? _) (fun c => ?_) (fun _ => Json.noConfusion), h, rfl⟩
  · exact (enum_eq_ok (by rintro (_ | _ | _ | _) <;> decide) (by rintro (_ | _ | _ | _) (_ | _ | _ | _) <;> decide)).mpr (hget _)
  · rw [hpermission]
    exact (enum_eq_ok (by rintro (_ | _ | _) <;> decide) (by rintro (_ | _ | _) (_ | _ | _) <;> decide)).mpr rfl
  · exact (enum_eq_ok (by rintro (_ | _ | _ | _) <;> decide) (by rintro (_ | _ | _ | _) (_ | _ | _ | _) <;> decide)).mpr rfl

end Descriptor

/-! ### Selections -/

namespace Selection

theorem enum_reasonCode {v : Json} {c : ReasonCode} {name : String} (h : v = .str c.name) :
    enum ReasonCode.all ReasonCode.name v name = .ok c :=
  (enum_eq_ok (fun a => by cases a <;> decide) (fun a b => by cases a <;> cases b <;> decide)).mpr h

/-- What is checked of a selection beside the form of its members. -/
structure Valid (s : Selection) : Prop where
  tokens : s.tokenCount ≤ maxU64
  reasoned : s.reasonCodes ≠ []
  bounded : s.reasonCodes.length ≤ maxProtocolItems
  distinct : s.reasonCodes.Nodup

theorem reasons_eq_ok {v : Json} {name : String} {codes : List ReasonCode} (h : reasons v name = .ok codes) :
    codes ≠ [] ∧ codes.length ≤ maxProtocolItems ∧ codes.Nodup := by
  unfold reasons at h
  split at h
  · next l =>
    simp only [bind_eq_ok, ensure_eq_ok, exists_const, Except.ok.injEq] at h
    obtain ⟨⟨hne, hlength⟩, codes, hcodes, hnodup, rfl⟩ := h
    have heq := length_of_mapM hcodes
    refine ⟨fun hnil => hne (List.eq_nil_of_length_eq_zero ?_), heq ▸ hlength, hnodup⟩
    rw [← heq, hnil]
    rfl
  · cases h

theorem valid_of_parse {v : Json} {name : String} {s : Selection} (h : parse v name = .ok s) : s.Valid := by
  simp only [parse, mapping, bind_eq_ok, ensure_eq_ok, exists_const, Except.ok.injEq, integer_eq_ok] at h
  obtain ⟨-, -, codes, hcodes, _, -, _, -, _, -, count, ⟨-, -, hcount⟩, _, -, _, -, rfl⟩ := h
  obtain ⟨hne, hlength, hnodup⟩ := reasons_eq_ok hcodes
  exact ⟨hcount, hne, hlength, hnodup⟩

/-- The members that a selection is written with. -/
def fields (s : Selection) : List (Str × Json) :=
  [(Str.lit "source_ref", s.sourceRef.json), (Str.lit "provider", s.provider.json),
    (Str.lit "disposition", .str s.disposition.name), (Str.lit "token_count", .int s.tokenCount),
    (Str.lit "reason_codes", .arr (s.reasonCodes.map fun c => .str c.name))] ++
    field "sha256_digest" ProjectionDigest.json s.projection ++ field "reason_detail" Text.json s.reasonDetail

theorem isPlain_toDict (s : Selection) : IsPlain s.toDict := by
  refine isPlain_sortFields fun p hp => ?_
  simp only [field, List.mem_append, List.mem_cons, List.not_mem_nil, or_false, List.mem_map, Option.mem_toList] at hp
  obtain ((rfl | rfl | rfl | rfl | rfl) | ⟨_, -, rfl⟩) | ⟨_, -, rfl⟩ := hp
  · rfl
  · rfl
  · rfl
  · rfl
  · refine isPlain_arr fun v hv => ?_
    obtain ⟨c, -, rfl⟩ := List.mem_map.mp hv
    rfl
  · rfl
  · rfl

theorem get?_toDict (s : Selection) (k : String) :
    s.toDict.get? k = (s.fields.find? fun p => p.1 = Str.lit k).map (·.2) := by
  rw [toDict, Json.get?, find?_sortFields]
  rfl

theorem parse_toDict {s : Selection} (h : s.Valid) (name : String) : parse s.toDict name = .ok s := by
  have hreasons : reasons (s.toDict.get "reason_codes") name = .ok s.reasonCodes := by
    have hget : s.toDict.get "reason_codes" = .arr (s.reasonCodes.map fun c => .str c.name) := by
      rw [Json.get, get?_toDict]
      simp [fields, Str.lit_inj]
    have hmap : (s.reasonCodes.map fun c => Json.str c.name).mapM
        (fun c => enum ReasonCode.all ReasonCode.name c (name ++ ".reason_codes")) = .ok s.reasonCodes :=
      mapM_map (g := fun c : ReasonCode => Json.str c.name) (fun c => enum_reasonCode rfl) s.reasonCodes
    rw [hget, reasons]
    simp only [bind_eq_ok, ensure_eq_ok, exists_const]
    exact ⟨⟨by simpa using h.reasoned, by simpa using h.bounded⟩, _, hmap, h.distinct, rfl⟩
  have hget? := s.get?_toDict
  have hget : ∀ k, s.toDict.get k = _ := fun k => by rw [Json.get, hget?]
  simp only [parse, mapping, bind_eq_ok, ensure_eq_ok, exists_const]
  refine ⟨rfl, hasBetween_sorted (f := s.fields) ?_ ?_, s.reasonCodes, hreasons, s.sourceRef, text_eq_ok.mpr ?_, s.provider, text_eq_ok.mpr ?_,
    s.disposition, ?_, s.tokenCount, integer_eq_ok.mpr ⟨?_, Nat.zero_le _, h.tokens⟩, s.projection,
    optional_field ?_ (fun _ _ => projectionDigest_eq_ok.mpr rfl) fun _ => Json.noConfusion, s.reasonDetail,
    optional_field ?_ (fun _ _ => text_eq_ok.mpr rfl) fun _ => Json.noConfusion, rfl⟩
  · intro p hp
    simp only [fields, field, List.mem_append, List.mem_cons, List.not_mem_nil, or_false, List.mem_map, Option.mem_toList] at hp
    obtain ((rfl | rfl | rfl | rfl | rfl) | ⟨_, -, rfl⟩) | ⟨_, -, rfl⟩ := hp <;> exact ⟨_, by decide, rfl⟩
  · simp [required, fields]
  · rw [hget]; simp [fields]
  · rw [hget]; simp [fields, Str.lit_inj]
  · refine (enum_eq_ok (by rintro (_ | _ | _) <;> decide) (fun a b => by cases a <;> cases b <;> decide)).mpr ?_
    rw [hget]; simp [fields, Str.lit_inj]
  · rw [hget]; simp [fields, Str.lit_inj]
  · rw [hget?, fields, List.find?_append, List.find?_append, find?_field, find?_field]
    cases s.projection <;> simp [Str.lit_inj]
  · rw [hget?, fields, List.find?_append, List.find?_append, find?_field, find?_field]
    cases s.reasonDetail <;> simp [Str.lit_inj]

end Selection
/-! ### Evidence -/

namespace Evidence

/-- The members of evidence that are its own. -/
def known (e : Evidence) : List (Str × Json) :=
  (if e.versioned then [(Str.lit "schema_version", .int 1)] else []) ++
    [(Str.lit "kind", .str e.kind.name), (Str.lit "uri", e.uri.json), (Str.lit "digest", e.digest.json),
      (Str.lit "signature_status", .str e.signatureStatus.name)] ++ field "media_type" Text.json e.mediaType

/-- What is checked of evidence beside the form of its members. -/
structure Valid (e : Evidence) : Prop where
  digest : e.versioned = true → isHexDigest (Str.dropPrefix "blake3:" (Str.dropPrefix "sha256:" e.digest.1)) = true
  extensible : Extensible e.extensions
  reserved : ∀ p ∈ e.extensions, ∀ k ∈ keys, p.1 ≠ Str.lit k

/-- The evidence with the members of its extensions in order. -/
def plain (e : Evidence) : Evidence := { e with extensions := plainFields e.extensions }

theorem plain_known (e : Evidence) : (e.known.map fun p => (p.1, p.2.plain)) = e.known := by
  conv_rhs => rw [← List.map_id e.known]
  refine List.map_congr_left fun p hp => ?_
  simp only [known, field, List.mem_append, List.mem_cons, List.not_mem_nil, or_false, List.mem_map, Option.mem_toList] at hp
  obtain (hp | rfl | rfl | rfl | rfl) | ⟨_, -, rfl⟩ := hp
  · split_ifs at hp
    · rw [List.mem_singleton.mp hp]
      rfl
    · cases hp
  all_goals rfl

theorem toDict_plain (e : Evidence) : e.plain.toDict = e.toDict.plain := by
  change Json.obj (sortFields (e.known ++ plainFields e.extensions)) = (Json.obj (sortFields (e.known ++ e.extensions))).plain
  rw [plain_sorted, List.map_append, plain_known, plainFields_eq, sortFields_append_sortFields]

theorem Valid.extends {e : Evidence} (h : e.Valid) : Extends e.known e.extensions keys where
  ext := h.reserved
  known p hp := by
    simp only [known, field, List.mem_append, List.mem_cons, List.not_mem_nil, or_false, List.mem_map, Option.mem_toList] at hp
    obtain (hp | rfl | rfl | rfl | rfl) | ⟨_, -, rfl⟩ := hp
    · split_ifs at hp
      · exact ⟨"schema_version", by decide, by rw [List.mem_singleton.mp hp]⟩
      · cases hp
    all_goals exact ⟨_, by decide, rfl⟩

theorem valid_of_parse {v : Json} {name : String} {e : Evidence} (h : parse v name = .ok e) : e.Valid := by
  simp only [parse, mapping, bind_eq_ok, ensure_eq_ok, exists_const, Except.ok.injEq, extensions_iff] at h
  obtain ⟨-, ext, ⟨rfl, hext⟩, -, version, -, _, -, _, -, digest, -, hdigest, _, -, _, -, rfl⟩ := h
  exact ⟨hdigest, hext, fun p hp => key_of_unreserved hp⟩

/-- Evidence is read again, with its extensions in order. -/
theorem parse_toDict {e : Evidence} (h : e.Valid) (name : String) : parse e.toDict.plain name = .ok e.plain := by
  have hget? : ∀ k ∈ keys, e.toDict.plain.get? k = (e.known.find? fun p => p.1 = Str.lit k).map fun p => p.2.plain :=
    fun k hk => h.extends.get? hk
  have hversion : e.toDict.plain.get? "schema_version" = (if e.versioned then some 1 else none).map fun n : Nat => .int n := by
    rw [hget? _ (by decide), known, List.find?_append, find?_field]
    cases e.versioned <;> simp [Str.lit_inj, Json.plain]
  have hmedia : e.toDict.plain.get? "media_type" = e.mediaType.map Text.json := by
    rw [hget? _ (by decide), known, List.find?_append, find?_field]
    cases e.versioned <;> cases e.mediaType <;> simp [Str.lit_inj, Json.plain, Text.json]
  have hkind : e.toDict.plain.get? "kind" = some (.str e.kind.name) := by
    rw [hget? _ (by decide), known]
    cases e.versioned <;> simp [Str.lit_inj, Json.plain]
  have huri : e.toDict.plain.get? "uri" = some e.uri.json := by
    rw [hget? _ (by decide), known]
    cases e.versioned <;> simp [Str.lit_inj, Json.plain, Text.json]
  have hdigest : e.toDict.plain.get? "digest" = some e.digest.json := by
    rw [hget? _ (by decide), known]
    cases e.versioned <;> simp [Str.lit_inj, Json.plain, Text.json]
  have hstatus : e.toDict.plain.get? "signature_status" = some (.str e.signatureStatus.name) := by
    rw [hget? _ (by decide), known]
    cases e.versioned <;> simp [Str.lit_inj, Json.plain]
  simp only [parse, mapping, bind_eq_ok, ensure_eq_ok, exists_const, extensions_iff]
  refine ⟨rfl, plainFields e.extensions, ⟨h.extends.unreserved.symm, h.extensible.plain⟩, ?_, if e.versioned then some 1 else none,
    optional_field hversion (fun n hn => integer_eq_ok.mpr ⟨rfl, ?_⟩) fun _ => Json.noConfusion, e.kind, ?_, e.uri, text_eq_ok.mpr ?_, e.digest,
    text_eq_ok.mpr ?_, fun hsome => h.digest ?_, e.signatureStatus, ?_, e.mediaType,
    optional_field hmedia (fun _ _ => text_eq_ok.mpr rfl) fun _ => Json.noConfusion, ?_⟩
  · simp [hkind, huri, hdigest, hstatus]
  · cases hv : e.versioned with
    | true =>
      rw [hv] at hn
      cases hn
      exact ⟨le_rfl, le_rfl⟩
    | false =>
      rw [hv] at hn
      cases hn
  · refine (enum_eq_ok (by rintro (_ | _ | _ | _ | _) <;> decide) (fun a b => by cases a <;> cases b <;> decide)).mpr ?_
    rw [Json.get, hkind]
    rfl
  · rw [Json.get, huri]
    rfl
  · rw [Json.get, hdigest]
    rfl
  · cases hv : e.versioned with
    | true => rfl
    | false =>
      rw [hv] at hsome
      cases hsome
  · refine (enum_eq_ok (by rintro (_ | _ | _) <;> decide) (fun a b => by cases a <;> cases b <;> decide)).mpr ?_
    rw [Json.get, hstatus]
    rfl
  · cases hv : e.versioned <;> simp [plain, hv]

end Evidence

/-! ### Statistics -/

namespace Stats

/-- What is checked of the statistics of a provider. -/
structure Valid (s : Stats) : Prop where
  offered : s.offered ≤ maxU64
  selected : s.selected ≤ s.offered
  tokens : s.tokensUsed ≤ maxU64

theorem isPlain_toDict (s : Stats) : IsPlain s.toDict := by
  refine isPlain_mkObj ?_
  simp only [List.mem_cons, List.not_mem_nil, or_false, forall_eq_or_imp, forall_eq]
  exact ⟨rfl, rfl, rfl⟩

theorem valid_of_parse {v : Json} {s : Stats} (h : parse v = .ok s) : s.Valid := by
  simp only [parse, mapping, exactKeys, bind_eq_ok, ensure_eq_ok, exists_const, Except.ok.injEq, integer_eq_ok] at h
  obtain ⟨-, -, offered, ⟨-, -, hoffered⟩, selected, -, hselected, tokens, ⟨-, -, htokens⟩, rfl⟩ := h
  exact ⟨hoffered, hselected, htokens⟩

theorem parse_toDict {s : Stats} (h : s.Valid) : parse s.toDict = .ok s := by
  have hget : ∀ k, s.toDict.get k = _ := fun k => Json.get_mkObj _ k
  simp only [parse, mapping, exactKeys, bind_eq_ok, ensure_eq_ok, exists_const]
  exact ⟨rfl, hasExactly_mkObj_self _, s.offered, integer_eq_ok.mpr ⟨hget _, Nat.zero_le _, h.offered⟩, s.selected,
    integer_eq_ok.mpr ⟨hget _, Nat.zero_le _, h.selected.trans h.offered⟩, h.selected, s.tokensUsed,
    integer_eq_ok.mpr ⟨hget _, Nat.zero_le _, h.tokens⟩, rfl⟩

/-- The member that a provider's statistics are written as. -/
def entry (x : Identifier × Stats) : Str × Json := (x.1.1, x.2.toDict)

theorem valid_of_parseAll {v : Json} {l : List (Identifier × Stats)} (h : parseAll v = .ok l) :
    l.length ≤ maxProtocolItems ∧ ∀ x ∈ l, x.2.Valid := by
  unfold parseAll at h
  split at h
  · next f =>
    simp only [ensure_bind_eq_ok] at h
    obtain ⟨hlength, hmap⟩ := h
    refine ⟨(length_of_mapM hmap).trans_le hlength, fun x hx => ?_⟩
    obtain ⟨p, -, hp⟩ := mem_of_mapM hmap hx
    simp only [bind_eq_ok, pure_eq_ok] at hp
    obtain ⟨_, -, s, hs, rfl⟩ := hp
    exact valid_of_parse hs
  · cases h

/-- Statistics are read again, in the order of their providers. -/
theorem exists_parseAll {l : List (Identifier × Stats)} (hlength : l.length ≤ maxProtocolItems) (h : ∀ x ∈ l, x.2.Valid) :
    ∃ m, parseAll (.obj (sortFields (l.map entry))) = .ok m ∧ m.map entry = sortFields (l.map entry) := by
  have hentries : ∀ f : List (Str × Json), (∀ p ∈ f, ∃ x ∈ l, entry x = p) → ∃ m : List (Identifier × Stats), m.map entry = f ∧ ∀ x ∈ m, x ∈ l := by
    intro f
    induction f with
    | nil => exact fun _ => ⟨[], rfl, nofun⟩
    | cons p f ih =>
      intro hf
      rw [List.forall_mem_cons] at hf
      obtain ⟨⟨x, hx, rfl⟩, hf⟩ := hf
      obtain ⟨m, rfl, hm⟩ := ih hf
      exact ⟨x :: m, rfl, List.forall_mem_cons.mpr ⟨hx, hm⟩⟩
  obtain ⟨m, hm, hsub⟩ := hentries (sortFields (l.map entry)) fun p hp => by
    obtain ⟨x, hx, rfl⟩ := List.mem_map.mp (mem_of_mem_sortFields hp)
    exact ⟨x, hx, rfl⟩
  refine ⟨m, ?_, hm⟩
  have hbound : (sortFields (l.map entry)).length ≤ maxProtocolItems := by
    have hle := length_plainFields_le (l.map entry)
    have hplain : (l.map entry).map (fun p => (p.1, p.2.plain)) = l.map entry := by
      rw [List.map_map]
      exact List.map_congr_left fun x _ => Prod.ext rfl (isPlain_toDict x.2)
    rw [plainFields_eq, hplain, List.length_map] at hle
    exact hle.trans hlength
  rw [parseAll, ensure_bind_eq_ok]
  refine ⟨hbound, ?_⟩
  rw [← hm, Instance.mapM_eq_ok, List.forall₂_map_left_iff]
  refine List.forall₂_same.mpr fun x hx => ?_
  simp only [bind_eq_ok, pure_eq_ok]
  exact ⟨x.1, text_eq_ok.mpr rfl, x.2, parse_toDict (h x (hsub x hx)), rfl⟩

end Stats
/-! ### Plans -/

namespace Plan

theorem items_eq_ok {α : Type} {f : Json → String → Except InstanceError α} {v : Json} {name : String} {m : List α}
    (h : items f v name = .ok m) : m.length ≤ maxProtocolItems ∧ ∀ a ∈ m, ∃ w name, f w name = .ok a := by
  unfold items at h
  split at h
  · next l =>
    rw [ensure_bind_eq_ok] at h
    refine ⟨?_, fun a ha => ?_⟩
    · rw [length_of_mapM h.2, List.length_zipIdx]
      exact h.1
    · obtain ⟨p, -, hp⟩ := mem_of_mapM h.2 ha
      exact ⟨_, _, hp⟩
  · cases h

/-- Items that are each read again are read again together. -/
theorem items_map {α β : Type} {f : Json → String → Except InstanceError β} {g : α → Json} {n : α → β} {m : List α} (name : String)
    (hlength : m.length ≤ maxProtocolItems) (h : ∀ a ∈ m, ∀ name, f (g a) name = .ok (n a)) :
    items f (.arr (m.map g)) name = .ok (m.map n) := by
  have hall : ∀ i, ((m.map g).zipIdx i).mapM (fun p => f p.1 (name ++ "[" ++ toString p.2 ++ "]")) = .ok (m.map n) := by
    clear hlength
    induction m with
    | nil => exact fun _ => rfl
    | cons a m ih =>
      intro i
      rw [List.forall_mem_cons] at h
      rw [List.map_cons, List.zipIdx_cons, List.mapM_cons, h.1, ok_bind, ih h.2, ok_bind]
      rfl
  rw [items, ensure_bind_eq_ok]
  exact ⟨by simpa using hlength, hall 0⟩

/-- What is checked of a plan beside the form of its members. -/
structure Valid (p : Plan) : Prop where
  selections : ∀ s ∈ p.selections, s.Valid
  selectionsLength : p.selections.length ≤ maxProtocolItems
  distinct : (p.selections.map (·.sourceRef)).Nodup
  budget : p.budgetTokens ≤ maxU64
  tokens : selectedTokens p.selections ≤ p.budgetTokens
  stats : ∀ x ∈ p.providerStats, x.2.Valid
  statsLength : p.providerStats.length ≤ maxProtocolItems
  refsLength : p.policyDecisionRefs.length ≤ maxProtocolItems
  refs : p.policyDecisionRefs.Nodup
  evidence : ∀ e ∈ p.evidence, e.Valid
  evidenceLength : p.evidence.length ≤ maxProtocolItems
  extensible : Extensible p.extensions
  reserved : ∀ q ∈ p.extensions, ∀ k ∈ keys, q.1 ≠ Str.lit k
  digest : ∀ d ∈ p.projectionDigest, ∃ b, canonicalBytes? p.unsigned = some b ∧ d = digestOf b

theorem present_eq_ok {α : Type} {f : Json → Except InstanceError (List α)} {v : Json} {key : String} {l : List α} :
    present f v key = .ok l ↔ (v.get? key = none ∧ l = []) ∨ ∃ w, v.get? key = some w ∧ f w = .ok l := by
  unfold present
  cases hget : v.get? key with
  | none => simp [eq_comm]
  | some w => simp

theorem valid_of_parse {v : Json} {p : Plan} (h : parse v = .ok p) : p.Valid := by
  simp only [parse, mapping, bind_eq_ok, ensure_eq_ok, exists_const, integer_eq_ok, extensions_iff, present_eq_ok] at h
  obtain ⟨-, -, extra, ⟨hextra, hextensible⟩, -, -, selections, hselections, hdistinct, budget, ⟨-, -, hbudget⟩, htokens, contextPlanId, -, taskId, -,
    digest, -, stats, hstats, refs, hrefs, evidence, hevidence, h⟩ := h
  have hsel := items_eq_ok hselections
  have hstat : stats.length ≤ maxProtocolItems ∧ ∀ x ∈ stats, x.2.Valid := by
    obtain ⟨-, rfl⟩ | ⟨w, -, hw⟩ := hstats
    · exact ⟨Nat.zero_le _, nofun⟩
    · exact Stats.valid_of_parseAll hw
  have href : refs.length ≤ maxProtocolItems ∧ refs.Nodup := by
    obtain ⟨-, rfl⟩ | ⟨w, -, hw⟩ := hrefs
    · exact ⟨Nat.zero_le _, List.nodup_nil⟩
    · simp only [policyRefs, bind_eq_ok, ensure_eq_ok, exists_const, Except.ok.injEq] at hw
      obtain ⟨refs, hitems, hnodup, rfl⟩ := hw
      exact ⟨(items_eq_ok hitems).1, hnodup⟩
  have hevid : evidence.length ≤ maxProtocolItems ∧ ∀ e ∈ evidence, e.Valid := by
    obtain ⟨-, rfl⟩ | ⟨w, -, hw⟩ := hevidence
    · exact ⟨Nat.zero_le _, nofun⟩
    · obtain ⟨hlength, hitems⟩ := items_eq_ok hw
      refine ⟨hlength, fun e he => ?_⟩
      obtain ⟨_, _, hparse⟩ := hitems e he
      exact Evidence.valid_of_parse hparse
  have hselValid : ∀ s ∈ selections, s.Valid := fun s hs => by
    obtain ⟨_, _, hparse⟩ := hsel.2 s hs
    exact Selection.valid_of_parse hparse
  have hvalid : ∀ hd : ∀ d ∈ digest, ∃ b, canonicalBytes? (Plan.mk contextPlanId taskId budget selections digest stats refs evidence extra).unsigned
      = some b ∧ d = digestOf b, (Plan.mk contextPlanId taskId budget selections digest stats refs evidence extra).Valid := fun hd =>
    ⟨hselValid, hsel.1, hdistinct, hbudget, htokens, hstat.2, hstat.1, href.1, href.2, hevid.2, hevid.1, hextensible,
      fun q hq => key_of_unreserved (hextra ▸ hq), hd⟩
  cases digest with
  | none =>
    cases h
    exact hvalid nofun
  | some d =>
    simp only [bind_eq_ok, ensure_eq_ok, exists_const, Except.ok.injEq, canonical_eq_ok] at h
    obtain ⟨b, hb, hd, rfl⟩ := h
    exact hvalid fun d' hd' => ⟨b, hb, by cases hd'; exact hd⟩

/-- The members of a plan that are its own, its digest apart. -/
def members (p : Plan) : List (Str × Json) :=
  [(Str.lit "schema_version", .int schemaVersion), (Str.lit "context_plan_id", p.contextPlanId.json),
    (Str.lit "task_id", p.taskId.json), (Str.lit "budget_tokens", .int p.budgetTokens),
    (Str.lit "selections", .arr (p.selections.map Selection.toDict))] ++
    (if p.providerStats = [] then []
      else [(Str.lit "provider_stats", .obj (Json.sortFields (p.providerStats.map Stats.entry)))]) ++
    (if p.policyDecisionRefs = [] then []
      else [(Str.lit "policy_decision_refs", .arr (p.policyDecisionRefs.map Text.json))]) ++
    (if p.evidence = [] then [] else [(Str.lit "evidence", .arr (p.evidence.map Evidence.toDict))])

def known (p : Plan) : List (Str × Json) := field "projection_digest" Digest.json p.projectionDigest ++ p.members

theorem toDict_eq (p : Plan) : p.toDict = .obj (sortFields (p.known ++ p.extensions)) := by
  rw [known, List.append_assoc]
  rfl

theorem mem_members {p : Plan} {q : Str × Json} (hq : q ∈ p.members) : ∃ k ∈ keys, q.1 = Str.lit k := by
  simp only [members, List.mem_append, List.mem_cons, List.not_mem_nil, or_false] at hq
  rcases hq with (((rfl | rfl | rfl | rfl | rfl) | hq) | hq) | hq
  iterate 5 exact ⟨_, by decide, rfl⟩
  all_goals
    split_ifs at hq
    · cases hq
    · rw [List.mem_singleton.mp hq]
      exact ⟨_, by decide, rfl⟩

theorem Valid.extends {p : Plan} (h : p.Valid) : Extends p.known p.extensions keys where
  ext := h.reserved
  known q hq := by
    rcases List.mem_append.mp hq with hq | hq
    · obtain ⟨d, -, rfl⟩ := List.mem_map.mp hq
      exact ⟨"projection_digest", by decide, rfl⟩
    · exact mem_members hq

/-- The plan with all members in order, its statistics being read again as `stats`. -/
def plain (p : Plan) (stats : List (Identifier × Stats)) : Plan :=
  { p with providerStats := stats, evidence := p.evidence.map Evidence.plain, extensions := plainFields p.extensions }

/-- The statistics of a plan, in the order of their providers. -/
def Sorts (p : Plan) (stats : List (Identifier × Stats)) : Prop :=
  stats.map Stats.entry = sortFields (p.providerStats.map Stats.entry)

section
variable {p : Plan} {stats : List (Identifier × Stats)}

theorem Sorts.nil_iff (hstats : p.Sorts stats) : stats = [] ↔ p.providerStats = [] := by
  unfold Sorts at hstats
  constructor
  · intro h
    rw [h] at hstats
    cases hp : p.providerStats with
    | nil => rfl
    | cons x l =>
      have hmem : x.1.1 ∈ (sortFields (p.providerStats.map Stats.entry)).map (·.1) := mem_keys_sortFields.mpr (by simp [hp, Stats.entry])
      rw [← hstats] at hmem
      cases hmem
  · intro h
    rw [h] at hstats
    exact List.map_eq_nil_iff.mp hstats

theorem members_plain (hstats : p.Sorts stats) : (p.plain stats).members = p.members.map fun q => (q.1, q.2.plain) := by
  have hselections : (Json.arr (p.selections.map Selection.toDict)).plain = .arr (p.selections.map Selection.toDict) :=
    isPlain_arr fun v hv => by
      obtain ⟨s, -, rfl⟩ := List.mem_map.mp hv
      exact s.isPlain_toDict
  have hentries : (Json.obj (sortFields (p.providerStats.map Stats.entry))).plain = .obj (sortFields (stats.map Stats.entry)) := by
    rw [hstats, sortFields_eq_self (ordered_sortFields _)]
    refine isPlain_sortFields fun q hq => ?_
    obtain ⟨x, -, rfl⟩ := List.mem_map.mp hq
    exact x.2.isPlain_toDict
  have hrefs : (Json.arr (p.policyDecisionRefs.map Text.json)).plain = .arr (p.policyDecisionRefs.map Text.json) :=
    isPlain_arr fun v hv => by
      obtain ⟨s, -, rfl⟩ := List.mem_map.mp hv
      rfl
  have hevidence : (Json.arr (p.evidence.map Evidence.toDict)).plain = .arr ((p.evidence.map Evidence.plain).map Evidence.toDict) := by
    rw [Json.plain, plainList_eq, List.map_map, List.map_map]
    exact congrArg Json.arr (List.map_congr_left fun e _ => e.toDict_plain.symm)
  have hnil := hstats.nil_iff
  simp only [members, plain, List.map_append, List.map_cons, List.map_nil, hselections, hnil, List.map_eq_nil_iff,
    apply_ite (List.map fun q : Str × Json => (q.1, q.2.plain)), hentries, hrefs, hevidence]
  rfl

theorem unsigned_plain (hstats : p.Sorts stats) : (p.plain stats).unsigned = p.unsigned.plain := by
  change Json.obj (sortFields ((p.plain stats).members ++ plainFields p.extensions)) = (Json.obj (sortFields (p.members ++ p.extensions))).plain
  rw [plain_sorted, List.map_append, members_plain hstats, plainFields_eq, sortFields_append_sortFields]

theorem toDict_plain (hstats : p.Sorts stats) : (p.plain stats).toDict = p.toDict.plain := by
  have hdigest : (field "projection_digest" Digest.json p.projectionDigest).map (fun q => (q.1, q.2.plain)) =
      field "projection_digest" Digest.json p.projectionDigest := by
    cases p.projectionDigest <;> rfl
  rw [toDict_eq, toDict_eq, plain_sorted, List.map_append, known, known, List.map_append, hdigest, members_plain hstats]
  change _ = Json.obj (sortFields (_ ++ p.extensions.map _))
  rw [← sortFields_append_sortFields _ (p.extensions.map _), ← plainFields_eq]
  rfl

end

/-- A plan is read again, with all its members in order. -/
theorem exists_parse_toDict {p : Plan} (h : p.Valid) : ∃ stats, p.Sorts stats ∧ parse p.toDict.plain = .ok (p.plain stats) := by
  obtain ⟨stats, hparse, hstats⟩ := Stats.exists_parseAll h.statsLength h.stats
  have hnil := Sorts.nil_iff hstats
  refine ⟨stats, hstats, ?_⟩
  have hget? : ∀ k ∈ keys, p.toDict.plain.get? k = ((p.plain stats).known.find? fun q => q.1 = Str.lit k).map (·.2) := by
    intro k hk
    have hknown : (p.plain stats).known = p.known.map fun q => (q.1, q.2.plain) := by
      rw [known, members_plain hstats, known, List.map_append]
      simp only [plain]
      cases p.projectionDigest <;> rfl
    rw [toDict_eq, h.extends.get? hk, hknown, List.find?_map, Option.map_map]
    rfl
  have hschema : p.toDict.plain.get? "schema_version" = some (.int 1) := by
    rw [hget? _ (by decide)]
    simp [known, members, find?_field, schemaVersion]
  have hplanId : p.toDict.plain.get? "context_plan_id" = some p.contextPlanId.json := by
    rw [hget? _ (by decide)]
    simp [known, members, find?_field, Str.lit_inj, plain]
  have htask : p.toDict.plain.get? "task_id" = some p.taskId.json := by
    rw [hget? _ (by decide)]
    simp [known, members, find?_field, Str.lit_inj, plain]
  have hbudget : p.toDict.plain.get? "budget_tokens" = some (.int p.budgetTokens) := by
    rw [hget? _ (by decide)]
    simp [known, members, find?_field, Str.lit_inj, plain]
  have hselections : p.toDict.plain.get? "selections" = some (.arr (p.selections.map Selection.toDict)) := by
    rw [hget? _ (by decide)]
    simp [known, members, find?_field, Str.lit_inj, plain]
  have hdigest : p.toDict.plain.get? "projection_digest" = p.projectionDigest.map Digest.json := by
    rw [hget? _ (by decide)]
    have hmembers : (p.plain stats).members.find? (fun q => q.1 = Str.lit "projection_digest") = none := by
      refine List.find?_eq_none.mpr fun q hq => ?_
      simp only [members, List.mem_append, List.mem_cons, List.not_mem_nil, or_false] at hq
      rcases hq with (((rfl | rfl | rfl | rfl | rfl) | hq) | hq) | hq
      iterate 5 simp [Str.lit_inj]
      all_goals
        split_ifs at hq
        · cases hq
        · rw [List.mem_singleton.mp hq]
          simp [Str.lit_inj]
    rw [known, List.find?_append, hmembers, Option.or_none, find?_field, if_pos rfl, Option.map_map]
    rfl
  have hstatistics : p.toDict.plain.get? "provider_stats" = if p.providerStats = [] then none
      else some (.obj (sortFields (p.providerStats.map Stats.entry))) := by
    rw [hget? _ (by decide)]
    have hsorted : sortFields (stats.map Stats.entry) = sortFields (p.providerStats.map Stats.entry) := by
      rw [hstats, sortFields_eq_self (ordered_sortFields _)]
    by_cases h1 : p.providerStats = [] <;> by_cases h2 : p.policyDecisionRefs = [] <;> by_cases h3 : p.evidence = [] <;>
      simp [known, members, plain, hnil, hsorted, find?_field, h1, h2, h3, Str.lit_inj]
  have hrefs : p.toDict.plain.get? "policy_decision_refs" = if p.policyDecisionRefs = [] then none
      else some (.arr (p.policyDecisionRefs.map Text.json)) := by
    rw [hget? _ (by decide)]
    by_cases h1 : p.providerStats = [] <;> by_cases h2 : p.policyDecisionRefs = [] <;> by_cases h3 : p.evidence = [] <;>
      simp [known, members, plain, hnil, find?_field, h1, h2, h3, Str.lit_inj]
  have hevidence : p.toDict.plain.get? "evidence" = if p.evidence = [] then none
      else some (.arr ((p.evidence.map fun e => e.toDict.plain))) := by
    rw [hget? _ (by decide)]
    by_cases h1 : p.providerStats = [] <;> by_cases h2 : p.policyDecisionRefs = [] <;> by_cases h3 : p.evidence = [] <;>
      simp [known, members, plain, hnil, find?_field, h1, h2, h3, Str.lit_inj, Evidence.toDict_plain]
  simp only [parse, mapping, bind_eq_ok, ensure_eq_ok, exists_const, extensions_iff, integer_eq_ok]
  refine ⟨by rw [toDict_eq, plain_sorted]; rfl, ?_, plainFields p.extensions, ⟨?_, h.extensible.plain⟩, 1, ⟨?_, le_rfl, le_rfl⟩, p.selections, ?_,
    h.distinct, p.budgetTokens, ⟨?_, Nat.zero_le _, h.budget⟩, h.tokens, p.contextPlanId, text_eq_ok.mpr ?_, p.taskId, text_eq_ok.mpr ?_,
    p.projectionDigest, optional_field hdigest (fun _ _ => Enterprise.validateDigest_eq_ok.mpr rfl) fun _ => Json.noConfusion, stats, ?_,
    p.policyDecisionRefs, ?_, p.evidence.map Evidence.plain, ?_, ?_⟩
  · simp [required, hschema, hplanId, htask, hbudget, hselections]
  · rw [toDict_eq, h.extends.unreserved]
  · rw [Json.get, hschema]
    rfl
  · have hitems := items_map (f := Selection.parse) (n := id) "plan.selections" h.selectionsLength fun s hs name =>
      Selection.parse_toDict (h.selections s hs) name
    rw [List.map_id] at hitems
    rw [Json.get, hselections]
    exact hitems
  · rw [Json.get, hbudget]
    rfl
  · rw [Json.get, hplanId]
    rfl
  · rw [Json.get, htask]
    rfl
  · rw [present_eq_ok, hstatistics]
    split_ifs with hempty
    · exact .inl ⟨rfl, hnil.mpr hempty⟩
    · exact .inr ⟨_, rfl, hparse⟩
  · rw [present_eq_ok, hrefs]
    split_ifs with hempty
    · exact .inl ⟨rfl, hempty⟩
    · refine .inr ⟨_, rfl, ?_⟩
      have hitems := items_map (f := fun r _ => identifier r "plan.policy_decision_refs") (n := id) "plan.policy_decision_refs" h.refsLength
        fun r _ _ => text_eq_ok.mpr rfl
      rw [List.map_id] at hitems
      simp only [policyRefs, bind_eq_ok, ensure_eq_ok, exists_const]
      exact ⟨_, hitems, h.refs, rfl⟩
  · rw [present_eq_ok, hevidence]
    split_ifs with hempty
    · exact .inl ⟨rfl, by rw [hempty]; rfl⟩
    · exact .inr ⟨_, rfl, items_map "plan.evidence" h.evidenceLength fun e he name => Evidence.parse_toDict (h.evidence e he) name⟩
  · cases hd : p.projectionDigest with
    | none => simp [plain, hd]
    | some d =>
      obtain ⟨b, hb, heq⟩ := h.digest d hd
      have hplain : Plan.mk p.contextPlanId p.taskId p.budgetTokens p.selections (some d) stats p.policyDecisionRefs (p.evidence.map Evidence.plain)
          (plainFields p.extensions) = p.plain stats := by
        rw [plain, hd]
      simp only [bind_eq_ok, ensure_eq_ok, exists_const, canonical_eq_ok, hplain]
      exact ⟨b, by rw [unsigned_plain hstats, canonicalBytes?_plain, hb], heq, trivial⟩

end Plan
end Planning
end LeanCtx
