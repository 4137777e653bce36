import LeanCtx.Workspace.Branching
import LeanCtx.Workspace.Structure

/-! What was read from a value without secrets holds none: a record that equals its value, an entry, a pin. What was read as
    an anchor that equals its value has times that read back. -/

namespace LeanCtx
open Json

/-! ### Parts of values -/

theorem safe_get {v : Json} (h : Safe v) (k : String) : Safe (v.get k) := by
  cases v with
  | obj f =>
    rw [Json.get, Json.get?]
    cases hfind : f.find? fun p => p.1 = Str.lit k with
    | none => exact safe_null
    | some p => exact fun s hs => h s (mem_stringsFields.mpr ⟨p, List.mem_of_find?_eq_some hfind, Or.inr hs⟩)
  | _ => exact safe_null

theorem safe_items {l : List Json} (h : Safe (.arr l)) : ∀ v ∈ l, Safe v :=
  fun v hv s hs => h s (mem_stringsList.mpr ⟨v, hv, hs⟩)

/-- The fields of an object without secrets hold none. -/
theorem safe_of_mkObj {f : List (String × Json)} (hnodup : (f.map (·.1)).Nodup) (h : Safe (mkObj f)) : ∀ p ∈ f, Safe p.2 := by
  intro p hp s hs
  have hkeys : ((f.map fun p => (Str.lit p.1, p.2)).map (·.1)).Nodup := by
    have := hnodup.map Str.lit_injective
    rwa [List.map_map] at this ⊢
  refine h s (mem_stringsFields.mpr ⟨(Str.lit p.1, p.2), ?_, Or.inr hs⟩)
  rw [(perm_sortFields hkeys).mem_iff]
  exact List.mem_map.mpr ⟨p, hp, rfl⟩

theorem isPlain_get {v : Json} (h : IsPlain v) (k : String) : IsPlain (v.get k) := by
  cases v with
  | obj f =>
    rw [Json.get, Json.get?]
    cases hfind : f.find? fun p => p.1 = Str.lit k with
    | none => rfl
    | some p => exact (isPlain_obj h).2 p (List.mem_of_find?_eq_some hfind)
  | _ => rfl

theorem itemTexts?_mem {l : List Json} {ts : List Str} (h : itemTexts? l = some ts) {v : Json} (hv : v ∈ l) :
    ∃ t ∈ ts, v.text? = some t := by
  induction l generalizing ts with
  | nil => cases hv
  | cons w l ih =>
    obtain ⟨t, ht, h⟩ := Option.bind_eq_some_iff.mp h
    obtain ⟨us, hus, rfl⟩ := Option.map_eq_some_iff.mp h
    rcases List.mem_cons.mp hv with rfl | hv
    · exact ⟨t, List.mem_cons_self, ht⟩
    · obtain ⟨u, hu, hvu⟩ := ih hus hv
      exact ⟨u, List.mem_cons_of_mem _ hu, hvu⟩

/-- The items of an array that can be written can be written. -/
theorem writable_items {l : List Json} (h : Writable (.arr l)) : ∀ v ∈ l, Writable v := by
  intro v hv
  obtain ⟨t, ht, hscalar⟩ := writable_iff.mp h
  rw [plain, plainList_eq] at ht
  obtain ⟨ts, hts, rfl⟩ := Option.map_eq_some_iff.mp ht
  obtain ⟨u, hu, hvu⟩ := itemTexts?_mem hts (List.mem_map_of_mem hv)
  refine writable_iff.mpr ⟨u, hvu, List.all_eq_true.mpr fun c hc => List.all_eq_true.mp hscalar c ?_⟩
  rw [List.cons_append, List.mem_cons, List.mem_append]
  exact Or.inr (Or.inl (mem_joinComma hu hc))

theorem length_of_writable_int {n : Int} (h : Writable (.int n)) : (natText n.natAbs).length ≤ maxIntDigits := by
  obtain ⟨t, ht, -⟩ := writable_iff.mp h
  by_contra hlong
  rw [plain, text?, if_neg hlong] at ht
  cases ht

/-- Numbers hold no strings, so a value has the strings of its loose form. -/
theorem strings_loose (v : Json) : v.loose.strings = v.strings := by
  refine induct (P := fun v => v.loose.strings = v.strings) rfl (fun b => rfl) (fun _ => rfl) (fun x => ?_) (fun _ => rfl)
    (fun l ih => ?_) (fun f ih => ?_) v
  · rw [loose]
    cases x.toInt? <;> rfl
  · rw [loose, looseList_eq, strings, strings]
    induction l with
    | nil => rfl
    | cons v l hl =>
      rw [List.map_cons, stringsList_cons, stringsList_cons, ih v List.mem_cons_self, hl fun w hw => ih w (List.mem_cons_of_mem _ hw)]
  · rw [loose, looseFields_eq, strings, strings]
    induction f with
    | nil => rfl
    | cons p f hf =>
      rw [List.map_cons, stringsFields_cons, stringsFields_cons, ih p List.mem_cons_self,
        hf fun q hq => ih q (List.mem_cons_of_mem _ hq)]

/-- A plain value that equals one without secrets holds none. -/
theorem safe_of_pyEq {v w : Json} (hplain : IsPlain v) (heq : pyEq v w = true) (h : Safe w) : Safe v := by
  have hloose := pyEq_iff.mp heq
  rw [hplain] at hloose
  intro s hs
  refine safe_plain h s ?_
  rwa [← strings_loose, ← hloose, strings_loose]

/-! ### Entries and pins -/

theorem safe_sortedSet {α : Type} [LinearOrder α] {item : Json → Except Err α} {enc : α → Json} {notList tooMany repeated : Err}
    {max : Nat} {v : Json} {x : SortedSet α max} (hitem : ∀ v a, item v = .ok a → v = enc a)
    (hx : sortedSet item notList tooMany repeated max v = .ok x) (h : Safe v) : Safe (.arr (x.1.map enc)) := by
  unfold sortedSet at hx
  split at hx
  · next l =>
    split_ifs at hx
    obtain ⟨items, hitems, hx⟩ := bind_eq_ok.mp hx
    split_ifs at hx
    cases hx
    refine safe_map fun a ha => ?_
    obtain ⟨w, hw, ha⟩ := mem_of_mapM hitems ((List.perm_insertionSort (· ≤ ·) items).mem_iff.mp ha)
    exact hitem w a ha ▸ safe_items h w hw
  · cases hx

theorem ref_eq_ok {v : Json} {field : String} {max : Nat} {r : Ref max} (h : ref v field max = .ok r) : v = r.json := by
  obtain ⟨t, ht, h⟩ := bind_eq_ok.mp h
  split_ifs at h
  cases h
  exact text_eq_ok.mp ht

theorem optionalText_eq_ok {v : Json} {field : String} {max : Nat} {x : Option (Text max)}
    (h : optionalText v field max = .ok x) : v = optional Text.json x := by
  unfold optionalText at h
  split at h
  · cases h
    rfl
  · cases ht : text v field max with
    | error e =>
      rw [ht] at h
      cases h
    | ok t =>
      rw [ht] at h
      cases h
      exact text_eq_ok.mp ht

/-- What reads as an entry holds no secret that the value does not hold. -/
theorem ProjectContextEntry.safe_of_fromDict {v : Json} {x : ProjectContextEntry} (hx : fromDict v = .ok x) (h : Safe v) :
    Safe x.toDict := by
  simp only [fromDict, bind_eq_ok, ensure_eq_ok, catching_eq_ok, exists_const, pure_eq_ok] at hx
  obtain ⟨_, -, -, _, -, entryId, -, category, -, value, hvalue, sources, hsources, session, hsession, receipts, hreceipts,
    recovery, hrecovery, rfl⟩ := hx
  refine safe_mkObj ["schema_version", "entry_id", "category", "value", "source_ids", "session_id", "receipt_refs",
    "recovery_refs"] rfl (all_insensitive (by decide)) ?_
  simp only [List.mem_cons, List.not_mem_nil, or_false, forall_eq_or_imp, forall_eq]
  refine ⟨safe_name (by decide), safe_uuid _, safe_category _, text_eq_ok.mp hvalue ▸ safe_get h "value", ?_,
    optionalText_eq_ok hsession ▸ safe_get h "session_id", ?_, ?_⟩
  · exact safe_sortedSet (fun _ _ => text_eq_ok.mp) hsources (safe_get h _)
  · exact safe_sortedSet (fun _ _ => ref_eq_ok) hreceipts (safe_get h _)
  · exact safe_sortedSet (fun _ _ => ref_eq_ok) hrecovery (safe_get h _)

/-- What reads as a pin holds no secret that the value does not hold. -/
theorem PackagePin.safe_of_fromDict {v : Json} {x : PackagePin} (hx : fromDict v = .ok x) (h : Safe v) : Safe x.toDict := by
  simp only [fromDict, make, bind_eq_ok, ensure_eq_ok, catching_eq_ok, exists_const] at hx
  obtain ⟨_, -, name, hname, version, hversion, artifact, -, manifest, -, content, -, signature, -, trust, -, -, -, key, hkey, hx⟩ := hx
  split_ifs at hx
  cases hx
  refine safe_mkObj ["schema_version", "name", "version", "artifact_digest", "manifest_digest", "content_hash",
    "signature_state", "signer_public_key", "trust_state", "policy_decision"] rfl (all_insensitive (by decide)) ?_
  simp only [List.mem_cons, List.not_mem_nil, or_false, forall_eq_or_imp, forall_eq]
  refine ⟨safe_name (by decide), text_eq_ok.mp hname ▸ safe_get h "name", text_eq_ok.mp hversion ▸ safe_get h "version",
    safe_digest _, safe_digest _, safe_digest _, safe_str (by cases signature <;> decide), ?_,
    safe_str (by cases trust <;> decide), safe_str (by decide)⟩
  cases key with
  | none => exact safe_null
  | some k =>
    refine safe_of_not_telling fun c hc => ?_
    have hhex := k.2
    simp only [isSignerKey, Bool.and_eq_true, List.all_eq_true] at hhex
    exact not_telling_of_isHex (hhex.2 c hc)

/-! ### Times -/

theorem isDigit_of_scanTimestamp {s : Str} {t : DateTime} (h : scanTimestamp s = some t) : ∀ c ∈ s.take 4, isDigit c = true := by
  unfold scanTimestamp at h
  split at h
  · split_ifs at h with hdigits
    intro c hc
    refine List.all_eq_true.mp hdigits c ?_
    simp only [List.take_succ_cons, List.take_zero, List.mem_cons, List.not_mem_nil, or_false] at hc
    rcases hc with rfl | rfl | rfl | rfl <;> simp
  · cases h

/-- A normal form that spells a time is of a year with four digits. -/
theorem year_of_scanTimestamp {t u : DateTime} (h : scanTimestamp t.text = some u) : 1000 ≤ t.year := by
  by_contra hyear
  have hlength : (natText t.year).length ≤ 3 := by
    obtain ⟨⟨hy, -⟩, -⟩ := t.valid
    rw [natText, if_neg (by omega), digitsText, List.length_map, List.length_reverse]
    exact Nat.digits_length_le_iff (by decide) _ |>.mpr (by omega)
  have hmem : 45 ∈ t.text.take 4 := by
    refine List.mem_iff_getElem?.mpr ⟨(natText t.year).length, ?_⟩
    rw [List.getElem?_take_of_lt (by omega), DateTime.text]
    simp only [List.append_assoc]
    rw [List.getElem?_append_right le_rfl, Nat.sub_self]
    rfl
  exact absurd (isDigit_of_scanTimestamp h 45 hmem) (by decide)

/-- A time that equals the value it was read from reads back. -/
theorem year_of_parseTimestamp {v : Json} {field : String} {t : DateTime} (h : parseTimestamp v field = .ok t)
    (heq : pyEq t.json v = true) : 1000 ≤ t.year := by
  obtain rfl := eq_of_pyEq_str (pyEq_symm heq)
  obtain ⟨x, hx, h⟩ := bind_eq_ok.mp h
  split at h
  · next u hu =>
    have htext : t.text = x.1 := Json.str.inj (text_eq_ok.mp hx)
    exact year_of_scanTimestamp (htext ▸ hu)
  · cases h

theorem SourceFreshness.stable_of_make {v status : Json} {x : SourceFreshness}
    (h : make (v.get "observed_at") status (v.get "valid_until") = .ok x) (heq : pyEq x.toDict v = true) : x.Stable := by
  simp only [make, bind_eq_ok] at h
  obtain ⟨observed, hobserved, status, -, h⟩ := h
  have hget := pyEq_get heq "observed_at"
  have hlast := pyEq_get heq "valid_until"
  split at h
  · simp only [ok_bind] at h
    split_ifs at h with hvalid
    cases h
    simp only [toDict, Option.map_none, Option.toList_none, List.append_nil, get_mkObj, List.find?, decide_true, Option.map_some,
      Option.getD_some] at hget
    exact ⟨year_of_parseTimestamp hobserved hget, fun u hu => by cases hu⟩
  · cases huntil : parseTimestamp (v.get "valid_until") "freshness.valid_until" with
    | error e =>
      rw [huntil] at h
      cases h
    | ok t =>
      rw [huntil] at h
      simp only [Functor.map, Except.map, ok_bind] at h
      split_ifs at h with hvalid
      cases h
      simp only [toDict, Option.map_some, Option.toList_some, List.cons_append, List.nil_append, get_mkObj, List.find?,
        String.reduceEq, decide_false, decide_true, Option.getD_some] at hget hlast
      refine ⟨year_of_parseTimestamp hobserved hget, fun u hu => ?_⟩
      cases hu
      exact year_of_parseTimestamp huntil hlast

theorem SourceFreshness.stable_of_fromDict {v : Json} {x : SourceFreshness} (h : fromDict v = .ok x)
    (heq : pyEq x.toDict v = true) : x.Stable := by
  cases v with
  | obj f =>
    simp only [fromDict, bind_eq_ok, catching_eq_ok] at h
    obtain ⟨_, -, h⟩ := h
    exact stable_of_make h heq
  | _ => cases h

/-! ### Anchors -/

/-- What an anchor needs to be stored: times that read back, no secret, and a binding whose keys are in order. -/
structure SourceAnchor.Sound (a : SourceAnchor) : Prop where
  stable : a.freshness.Stable
  safe : Safe a.toDict
  plain : IsPlain a.toDict

theorem SourceAnchor.isPlain_toDict {a : SourceAnchor} (h : ∀ b ∈ a.engineBinding, IsPlain b.1) : IsPlain a.toDict := by
  have hpair : ∀ x : KindValue, IsPlain x.toDict := fun x => by
    refine isPlain_mkObj ?_
    simp only [List.mem_cons, List.not_mem_nil, or_false, forall_eq_or_imp, forall_eq]
    exact ⟨rfl, rfl⟩
  have hrecovery : ∀ x : SourceRecovery, IsPlain x.toDict := fun x => by
    refine isPlain_mkObj fun p hp => ?_
    simp only [List.mem_append, List.mem_cons, List.not_mem_nil, or_false, Option.mem_toList,
      Option.map_eq_some_iff] at hp
    obtain (rfl | rfl) | ⟨d, -, rfl⟩ := hp <;> rfl
  have hfreshness : IsPlain a.freshness.toDict := by
    refine isPlain_mkObj fun p hp => ?_
    simp only [List.mem_append, List.mem_cons, List.not_mem_nil, or_false, Option.mem_toList,
      Option.map_eq_some_iff] at hp
    obtain (rfl | rfl) | ⟨t, -, rfl⟩ := hp <;> rfl
  have htrust : IsPlain a.trust.toDict := by
    refine isPlain_mkObj ?_
    simp only [List.mem_cons, List.not_mem_nil, or_false, forall_eq_or_imp, forall_eq]
    refine ⟨rfl, isPlain_arr fun v hv => ?_⟩
    obtain ⟨r, -, rfl⟩ := List.mem_map.mp hv
    rfl
  refine isPlain_mkObj ?_
  simp only [List.mem_cons, List.not_mem_nil, or_false, forall_eq_or_imp, forall_eq]
  refine ⟨rfl, rfl, rfl, rfl, isPlain_optional hpair _, hfreshness, isPlain_optional hrecovery _, htrust, hpair _, ?_⟩
  cases hb : a.engineBinding with
  | none => rfl
  | some b => exact h b hb

namespace SourceAnchor
variable {v : Json} {a : SourceAnchor} {allow : Bool}

/-- The parts of an anchor that its value holds as they are. -/
theorem parts_of_fromDict (h : fromDict v allow = .ok a) : SourceFreshness.fromDict (v.get "freshness") = .ok a.freshness ∧
    ∀ b ∈ a.engineBinding, v.get "engine_binding" = b.1 := by
  simp only [fromDict, bind_eq_ok, catching_eq_ok] at h
  obtain ⟨_, -, _, -, revision, -, freshness, hfreshness, recovery, -, trust, -, scope, -, h⟩ := h
  simp only [make, bind_eq_ok] at h
  obtain ⟨sourceId, -, kind, -, canonicalId, -, h⟩ := h
  split_ifs at h
  obtain ⟨b, hb, h⟩ := bind_eq_ok.mp h
  split_ifs at h
  cases h
  refine ⟨hfreshness, fun b' hb' => ?_⟩
  unfold binding at hb
  split at hb
  · cases hb
    cases hb'
  · next f hf =>
    simp only [bind_eq_ok] at hb
    obtain ⟨_, -, _, -, _, -, hb⟩ := hb
    split_ifs at hb
    cases hb
    cases hb'
    exact hf
  · split_ifs at hb

/-- An anchor that equals the plain value it was read from, without secrets, is sound. -/
theorem sound_of_fromDict (h : fromDict v allow = .ok a) (heq : pyEq a.toDict v = true) (hsafe : Safe v) (hplain : IsPlain v) :
    a.Sound := by
  obtain ⟨hfreshness, hbinding⟩ := parts_of_fromDict h
  have hplain' : IsPlain a.toDict := isPlain_toDict fun b hb => hbinding b hb ▸ isPlain_get hplain _
  have hget := pyEq_get heq "freshness"
  simp only [toDict, get_mkObj, List.find?, String.reduceEq, decide_false, decide_true, Option.map_some, Option.getD_some] at hget
  exact ⟨SourceFreshness.stable_of_fromDict hfreshness hget, safe_of_pyEq hplain' heq hsafe, hplain'⟩

/-- An anchor without its local file is as sound as the anchor. -/
theorem Sound.portable (h : a.Sound) : a.portable.Sound := by
  have hall := safe_of_mkObj (by simp) h.safe
  simp only [List.mem_cons, List.not_mem_nil, or_false, forall_eq_or_imp, forall_eq] at hall
  obtain ⟨hschema, hid, hkind, hcanonical, hrevision, hfreshness, hrecovery, htrust, hscope, -⟩ := hall
  refine ⟨h.stable, ?_, isPlain_toDict (by rintro _ ⟨⟩)⟩
  refine safe_mkObj ["schema_version", "source_id", "kind", "canonical_id", "revision", "freshness", "recovery", "trust", "scope",
    "engine_binding"] rfl (all_insensitive (by decide)) ?_
  simp only [List.mem_cons, List.not_mem_nil, or_false, forall_eq_or_imp, forall_eq]
  exact ⟨hschema, hid, hkind, hcanonical, hrevision, hfreshness, hrecovery, htrust, hscope, safe_null⟩

end SourceAnchor
end LeanCtx
