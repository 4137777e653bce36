import LeanCtx.Machine.Difference
import LeanCtx.Workspace.Admitting
import LeanCtx.Workspace.Delta
import LeanCtx.Workspace.Inheriting
import LeanCtx.Workspace.Mirroring
import LeanCtx.Workspace.Taking

/-! What a delta says of two checkpoints: it leads from the contents of the one to those of the other. -/

namespace LeanCtx
open Json Machine NarrowReconciliation

namespace ContextDelta
open DeltaContent

/-! ### Contents -/

/-- The first item with a key. -/
def itemAt (l : List Json) (keyOf : Json → Option Str) (key : Str) : Option Json := l.find? fun v => keyOf v = some key

/-- The text of a field. -/
def textKey (field : String) (v : Json) : Option Str :=
  match v.get field with
  | .str s => some s
  | _ => none

/-- What a checkpoint holds of a category, without the local files of its sources. Every value is taken in canonical form. -/
def content (c : ContextCheckpoint) : DeltaCategory → Str → Option (Option Bytes)
  | .source => fun key => (itemAt (itemsOf (sourcesOf c)) (textKey "source_id") key).map canonicalBytes?
  | .projectContext => fun key => (itemAt (itemsOf (c.logicalState.plain.get "entries")) (textKey "entry_id") key).map canonicalBytes?
  | .package => fun key =>
    (itemAt (itemsOf (c.logicalState.plain.get "package_pins")) (fun v => some (packageKey v)) key).map canonicalBytes?
  | .policy => fun key => if key = Str.lit "workspace-policy" then some (c.logicalState.plain.get "policy").canonicalBytes? else none
  | .lineage => fun _ => none

/-- The value of a side of an item. -/
def sideValue (v : Json) : Option (Option Bytes) :=
  match v with
  | .null => none
  | v => some v.canonicalBytes?

end ContextDelta

/-- What an item changes. -/
def DeltaItem.change (x : DeltaItem) : Change Str (Option Bytes) :=
  ⟨x.stableKey.1, ContextDelta.sideValue x.before, ContextDelta.sideValue x.after⟩

/-- What a delta changes of a category. -/
def ContextDelta.changes (d : ContextDelta) (category : DeltaCategory) : List (Change Str (Option Bytes)) :=
  (d.items.filter fun x => x.category = category).map DeltaItem.change

/-! ### Items -/

namespace DeltaItem
variable {category : DeltaCategory} {action : DeltaAction} {key : Str} {b a : Json} {refs : List EvidenceRef} {x : DeltaItem}

/-- An item that is made holds what it is made of. -/
theorem of_make (h : make category action (.str key) b a refs = .ok x) :
    x.category = category ∧ x.stableKey.1 = key ∧ x.before = b ∧ x.after = a := by
  unfold make at h
  by_cases hallowed : action ∈ category.actions
  · rw [dif_pos hallowed] at h
    obtain ⟨text, htext, h⟩ := bind_eq_ok.mp h
    by_cases hrefs : refs ≠ []
    · rw [dif_pos hrefs] at h
      cases h
      rw [parallelText, catching_eq_ok, text_eq_ok] at htext
      exact ⟨rfl, (Json.str.inj htext).symm, rfl, rfl⟩
    · rw [dif_neg hrefs] at h
      cases h
  · rw [dif_neg hallowed] at h
    cases h

theorem keyedItem_eq_ok {k : (Str ×ₗ Str ×ₗ Str ×ₗ Str) × DeltaItem} :
    keyedItem x = .ok k ↔ ∃ d, parallelDigest "leanctx.delta-item.v1" x.toDict = .ok d ∧ (x.sortKey d, x) = k := by
  unfold keyedItem
  cases parallelDigest "leanctx.delta-item.v1" x.toDict with
  | error e => simp [Functor.map, Except.map]
  | ok d => simp [Functor.map, Except.map]

/-- Sorted items are the items, in another order. -/
theorem sort_perm {l l' : List DeltaItem} (h : sort l = .ok l') : l'.Perm l := by
  simp only [sort, bind_eq_ok, pure_eq_ok] at h
  obtain ⟨keyed, hkeyed, rfl⟩ := h
  have hitems : keyed.map (·.2) = l := by
    induction l generalizing keyed with
    | nil =>
      cases hkeyed
      rfl
    | cons x l ih =>
      simp only [List.mapM_cons, bind_eq_ok, pure_eq_ok] at hkeyed
      obtain ⟨k, hk, ks, hks, rfl⟩ := hkeyed
      obtain ⟨d, -, rfl⟩ := keyedItem_eq_ok.mp hk
      rw [List.map_cons, ih ks hks]
  exact ((List.perm_insertionSort _ keyed).map _).trans (List.Perm.of_eq hitems)

theorem sort_sort {l l' : List DeltaItem} (h : sort l = .ok l') : sort l' = .ok l' := by
  simp only [sort, bind_eq_ok, pure_eq_ok] at h ⊢
  obtain ⟨keyed, hkeyed, rfl⟩ := h
  refine ⟨_, mapM_map_of_forall (f := keyedItem) (g := fun k => k.2) fun k hk => ?_, ?_⟩
  · obtain ⟨x, -, hx⟩ := mem_of_mapM hkeyed ((List.perm_insertionSort _ keyed).mem_iff.mp hk)
    obtain ⟨d, hd, rfl⟩ := keyedItem_eq_ok.mp hx
    exact hx
  · exact congrArg (List.map _) (insertionSort_insertionSort (fun k => k.1) keyed)

theorem exists_make {category : DeltaCategory} {action : DeltaAction} (hallowed : action ∈ category.actions) {key : Text 512}
    (b a : Json) {refs : List EvidenceRef} (hrefs : refs ≠ []) :
    ∃ x, make category action key.json b a refs = .ok x ∧ x.category = category ∧ x.action = action ∧ x.stableKey = key ∧
      x.before = b ∧ x.after = a ∧ x.evidenceRefs = EvidenceRef.sort refs := by
  refine ⟨⟨category, action, key, b, a, _, hallowed, sort_ne_nil hrefs, (EvidenceRef.sort_sort refs).symm⟩, ?_, rfl, rfl, rfl, rfl,
    rfl, rfl⟩
  rw [make, dif_pos hallowed, parallelText_json, ok_bind, dif_pos hrefs]
  rfl

/-- Items that can be written are sorted. -/
theorem exists_sort {l : List DeltaItem} (h : ∀ x ∈ l, x.toDict.Writable) : ∃ l', sort l = .ok l' := by
  have hkeyed : ∃ ks, l.mapM keyedItem = .ok ks := by
    induction l with
    | nil => exact ⟨[], rfl⟩
    | cons x l ih =>
      obtain ⟨d, hd⟩ := domainDigest_of_writable "leanctx.delta-item.v1" (h x List.mem_cons_self)
      obtain ⟨ks, hks⟩ := ih fun y hy => h y (List.mem_cons_of_mem _ hy)
      refine ⟨(x.sortKey d, x) :: ks, ?_⟩
      rw [List.mapM_cons, keyedItem_eq_ok.mpr ⟨d, parallelDigest_eq_ok.mpr hd, rfl⟩, ok_bind, hks]
      rfl
  obtain ⟨ks, hks⟩ := hkeyed
  exact ⟨_, bind_eq_ok.mpr ⟨ks, hks, rfl⟩⟩

end DeltaItem

/-! ### Keyed collections -/

/-- An item with its key. -/
def IsKeyed (field : String) (raw : Json) (p : Str × Json) : Prop :=
  raw.isObj = true ∧ ContextDelta.textKey field raw = some p.1 ∧ p.2 = raw.plain

theorem entryAt_of_forall₂ {field : String} {l : List Json} {m : List (Str × Json)} (h : List.Forall₂ (IsKeyed field) l m) (key : Str) :
    entryAt m key = (ContextDelta.itemAt l (ContextDelta.textKey field) key).map plain := by
  induction h with
  | nil => rfl
  | @cons raw p l m hp _ ih =>
    obtain ⟨-, hkey, hvalue⟩ := hp
    unfold entryAt ContextDelta.itemAt at ih ⊢
    by_cases hp : p.1 = key
    · rw [List.find?_cons_of_pos (by simpa using hp), List.find?_cons_of_pos (by simp [hkey, hp]), Option.map_some, Option.map_some,
        hvalue]
    · rw [List.find?_cons_of_neg (by simpa using hp), List.find?_cons_of_neg (by simp [hkey, hp]), ih]

/-- A fold that adds one value for each item, under a key that is new, leaves the values in the order of the items. -/
theorem forall₂_of_foldlM {α β κ ε : Type} {step : List β → α → Except ε (List β)} {R : α → β → Prop} {k : β → κ}
    (hstep : ∀ acc a acc', step acc a = .ok acc' → ∃ b, R a b ∧ k b ∉ acc.map k ∧ acc' = acc ++ [b]) {l : List α}
    {acc m : List β} (h : l.foldlM step acc = .ok m) (hacc : (acc.map k).Nodup) :
    ∃ rest, m = acc ++ rest ∧ List.Forall₂ R l rest ∧ (m.map k).Nodup := by
  induction l generalizing acc with
  | nil =>
    cases h
    exact ⟨[], (List.append_nil _).symm, .nil, hacc⟩
  | cons a l ih =>
    rw [List.foldlM_cons] at h
    obtain ⟨acc', hacc', h⟩ := bind_eq_ok.mp h
    obtain ⟨b, hb, hnew, rfl⟩ := hstep acc a acc' hacc'
    have hnodup : ((acc ++ [b]).map k).Nodup := by
      rw [List.map_append]
      refine List.nodup_append.mpr ⟨hacc, List.nodup_singleton _, fun i hi j hj hij => hnew ?_⟩
      rw [List.map_singleton, List.mem_singleton] at hj
      rw [← hj, ← hij]
      exact hi
    obtain ⟨rest, rfl, hall, hm⟩ := ih h hnodup
    exact ⟨b :: rest, by rw [List.append_assoc]; rfl, .cons hb hall, hm⟩

/-- A collection that is keyed has the items that it is made of, in their order, each under a key of its own. -/
theorem keyed_eq_ok {v : Json} {field label : String} {l : List (Str × Json)} (h : keyed v field label = .ok l) :
    List.Forall₂ (IsKeyed field) (itemsOf v) l ∧ (l.map (·.1)).Nodup := by
  unfold keyed at h
  split at h
  · next items =>
    obtain ⟨rest, rfl, hall, hnodup⟩ := forall₂_of_foldlM (R := IsKeyed field) (k := Prod.fst) (fun acc raw acc' hacc => by
      split at hacc
      · next f key hkey =>
        split_ifs at hacc with hnew
        cases hacc
        exact ⟨_, ⟨rfl, by rw [ContextDelta.textKey, hkey], rfl⟩, hnew, rfl⟩
      · cases hacc) h List.nodup_nil
    exact ⟨hall, hnodup⟩
  · cases h

/-- A collection that is keyed has an object under each key, the first item with that key. -/
theorem keyed_spec {v : Json} {field label : String} {l : List (Str × Json)} (h : keyed v field label = .ok l) :
    (∀ p ∈ l, p.2.isObj = true) ∧ ∀ key, entryAt l key = (ContextDelta.itemAt (itemsOf v) (ContextDelta.textKey field) key).map plain := by
  obtain ⟨hall, -⟩ := keyed_eq_ok h
  refine ⟨fun p hp => ?_, entryAt_of_forall₂ hall⟩
  obtain ⟨raw, -, hobj, -, hvalue⟩ := exists_mem_of_forall₂ hall.flip hp
  rw [hvalue]
  cases raw with
  | obj f => rfl
  | _ => cases hobj

namespace ContextDelta

theorem keyedPins_spec {v : Json} {l : List (Str × Json)} (h : keyedPins v = .ok l) :
    (∀ p ∈ l, p.2.isObj = true) ∧ ∀ key, entryAt l key = itemAt (itemsOf v) (fun p => some (packageKey p)) key := by
  simp only [keyedPins, bind_eq_ok, ensure_eq_ok, exists_const, pure_eq_ok] at h
  obtain ⟨hobj, -, rfl⟩ := h
  refine ⟨fun p hp => ?_, fun key => ?_⟩
  · obtain ⟨q, hq, rfl⟩ := List.mem_map.mp hp
    exact List.all_eq_true.mp hobj q hq
  · rw [entryAt, itemAt, List.find?_map, Option.map_map]
    simp only [Function.comp_def, Option.some.injEq, Option.map_id']

/-! ### Turns -/

/-- What is found at a key: items that hold the values of both sides, where their canonical forms differ. -/
structure Found (category : DeltaCategory) (key : Str) (before after : Option Json) (D : Differences) : Prop where
  items : ∀ x ∈ D.items, x.category = category ∧ x.stableKey.1 = key ∧ x.before = before.getD .null ∧ x.after = after.getD .null ∧
    before.map canonicalBytes? ≠ after.map canonicalBytes?
  complete : before.map canonicalBytes? ≠ after.map canonicalBytes? → D.items ≠ []

/-- The items of a change of a value. -/
structure Changed (category : DeltaCategory) (key : Str) (b a : Json) (D : Differences) : Prop where
  items : ∀ x ∈ D.items, x.category = category ∧ x.stableKey.1 = key ∧ x.before = b ∧ x.after = a
  complete : D.items ≠ []

section
variable {category : DeltaCategory} {key : Str} {b a : Json} {refs : List EvidenceRef} {D : Differences}

theorem changed_singleton {action : DeltaAction} {x : DeltaItem} (h : DeltaItem.make category action (.str key) b a refs = .ok x)
    (conflicts : List ConflictEntry) : Changed category key b a ⟨[x], conflicts⟩ := by
  refine ⟨fun y hy => ?_, List.cons_ne_nil _ _⟩
  rw [List.mem_singleton.mp hy]
  exact DeltaItem.of_make h

theorem changed_source (h : changedSource key refs b a = .ok D) : Changed .source key b a D := by
  simp only [changedSource, bind_eq_ok, ensure_eq_ok, exists_const] at h
  obtain ⟨hactions, mine, -, theirs, -, -, items, hitems, h⟩ := h
  have hchanged : Changed .source key b a ⟨items, []⟩ := by
    refine ⟨fun x hx => ?_, fun hnil => hactions ?_⟩
    · obtain ⟨action, -, hmake⟩ := mem_of_mapM hitems hx
      exact DeltaItem.of_make hmake
    · obtain rfl := hnil
      exact List.length_eq_zero_iff.mp (length_of_mapM hitems).symm
  split_ifs at h
  · simp only [bind_eq_ok, pure_eq_ok] at h
    obtain ⟨conflict, -, rfl⟩ := h
    exact ⟨hchanged.items, hchanged.complete⟩
  · cases h
    exact hchanged

theorem changed_entry (h : changedEntry key refs b a = .ok D) : Changed .projectContext key b a D := by
  unfold changedEntry at h
  by_cases hsame : pyEq (b.get "category") (a.get "category") = true ∧ pyEq (b.get "value") (a.get "value") = true
  · rw [if_pos hsame] at h
    simp only [bind_eq_ok, pure_eq_ok] at h
    obtain ⟨x, hx, rfl⟩ := h
    exact changed_singleton hx _
  · rw [if_neg hsame] at h
    simp only [bind_eq_ok, pure_eq_ok] at h
    obtain ⟨x, hx, conflict, -, rfl⟩ := h
    exact changed_singleton hx _

theorem changed_pin (h : changedPin key refs b a = .ok D) : Changed .package key b a D := by
  simp only [changedPin, bind_eq_ok, pure_eq_ok] at h
  obtain ⟨x, hx, conflict, -, rfl⟩ := h
  exact changed_singleton hx _

theorem found_turn {onlyAfter onlyBefore : DeltaAction} {evidence : Option Json → Option Json → Except Err (List EvidenceRef)}
    {changed : List EvidenceRef → Json → Json → Except Err Differences}
    (hchanged : ∀ refs b a D, changed refs b a = .ok D → Changed category key b a D) {before after : Option Json}
    (h : turn category onlyAfter onlyBefore evidence changed key before after = .ok D) : Found category key before after D := by
  obtain ⟨refs, -, h⟩ := bind_eq_ok.mp h
  cases before with
  | none =>
    cases after with
    | none =>
      cases h
      exact ⟨fun x hx => absurd hx List.not_mem_nil, fun hne => absurd rfl hne⟩
    | some a =>
      simp only [bind_eq_ok, pure_eq_ok] at h
      obtain ⟨x, hx, rfl⟩ := h
      obtain ⟨hitems, hcomplete⟩ := changed_singleton hx []
      refine ⟨fun y hy => ?_, fun _ => hcomplete⟩
      obtain ⟨hcategory, hkey, hb, ha⟩ := hitems y hy
      exact ⟨hcategory, hkey, hb, ha, (Option.some_ne_none _).symm⟩
  | some b =>
    cases after with
    | none =>
      simp only [bind_eq_ok, pure_eq_ok] at h
      obtain ⟨x, hx, rfl⟩ := h
      obtain ⟨hitems, hcomplete⟩ := changed_singleton hx []
      refine ⟨fun y hy => ?_, fun _ => hcomplete⟩
      obtain ⟨hcategory, hkey, hb, ha⟩ := hitems y hy
      exact ⟨hcategory, hkey, hb, ha, Option.some_ne_none _⟩
    | some a =>
      simp only [bind_eq_ok] at h
      obtain ⟨mine, hmine, theirs, htheirs, h⟩ := h
      have hiff : (some b).map canonicalBytes? ≠ (some a).map canonicalBytes? ↔ mine ≠ theirs := by
        rw [Option.map_some, Option.map_some, parallelCanonical_eq_ok.mp hmine, parallelCanonical_eq_ok.mp htheirs, Ne,
          Option.some.injEq, Option.some.injEq]
      split_ifs at h with hsame
      · cases h
        exact ⟨fun x hx => absurd hx List.not_mem_nil, fun hne => absurd hsame (hiff.mp hne)⟩
      · obtain ⟨hitems, hcomplete⟩ := hchanged refs b a D h
        refine ⟨fun x hx => ?_, fun _ => hcomplete⟩
        obtain ⟨hcategory, hkey, hb, ha⟩ := hitems x hx
        exact ⟨hcategory, hkey, hb, ha, hiff.mpr hsame⟩

end

/-! ### Loops -/

/-- What a loop finds: items with the values of both sides of their key, and one for every key whose values differ. -/
structure Compared (category : DeltaCategory) (left right : Str → Option Json) (l : List DeltaItem) : Prop where
  items : ∀ x ∈ l, x.category = category ∧ x.before = (left x.stableKey.1).getD .null ∧ x.after = (right x.stableKey.1).getD .null ∧
    (left x.stableKey.1).map canonicalBytes? ≠ (right x.stableKey.1).map canonicalBytes?
  complete : ∀ key, (left key).map canonicalBytes? ≠ (right key).map canonicalBytes? → ∃ x ∈ l, x.stableKey.1 = key

theorem mem_keys_of_entryAt {l : List (Str × Json)} {key : Str} (h : entryAt l key ≠ none) : key ∈ l.map (·.1) := by
  obtain ⟨v, hv⟩ := Option.ne_none_iff_exists'.mp h
  exact List.mem_map_of_mem (mem_of_entryAt hv)

/-- A loop finds what its turns find. -/
theorem compared_compare {category : DeltaCategory} {left right : List (Str × Json)}
    {f : Str → Option Json → Option Json → Except Err Differences}
    (hf : ∀ key before after D, f key before after = .ok D → Found category key before after D) {D : Differences}
    (h : compare left right f = .ok D) : Compared category (entryAt left) (entryAt right) D.items := by
  simp only [compare, bind_eq_ok, pure_eq_ok] at h
  obtain ⟨l, hl, rfl⟩ := h
  refine ⟨fun x hx => ?_, fun key hne => ?_⟩
  · obtain ⟨D, hD, hx⟩ := List.mem_flatMap.mp hx
    obtain ⟨key, -, hturn⟩ := mem_of_mapM hl hD
    obtain ⟨hcategory, rfl, hb, ha, hne⟩ := (hf _ _ _ _ hturn).items x hx
    exact ⟨hcategory, hb, ha, hne⟩
  · have hkey : key ∈ sortedUnion (left.map (·.1) ++ right.map (·.1)) := by
      rw [mem_sortedUnion, List.mem_append]
      by_contra hno
      obtain ⟨hleft, hright⟩ := not_or.mp hno
      have hnone : entryAt left key = none := by
        by_contra hsome
        exact hleft (mem_keys_of_entryAt hsome)
      have hnone' : entryAt right key = none := by
        by_contra hsome
        exact hright (mem_keys_of_entryAt hsome)
      exact hne (by rw [hnone, hnone'])
    obtain ⟨D, hD, hturn⟩ := exists_mem_of_forall₂ (forall₂_of_mapM hl) hkey
    have hfound := hf _ _ _ _ hturn
    obtain ⟨x, hx⟩ := List.exists_mem_of_ne_nil _ (hfound.complete hne)
    exact ⟨x, List.mem_flatMap.mpr ⟨D, hD, hx⟩, (hfound.items x hx).2.1⟩

/-- The policy is compared as a collection of one value. -/
theorem compared_policy {p : Pair} {D : Differences} (h : comparePolicy p = .ok D) :
    Compared .policy (fun key => if key = Str.lit "workspace-policy" then some (p.base.logicalState.plain.get "policy") else none)
      (fun key => if key = Str.lit "workspace-policy" then some (p.target.logicalState.plain.get "policy") else none) D.items := by
  simp only [comparePolicy, bind_eq_ok] at h
  obtain ⟨mine, hmine, theirs, htheirs, h⟩ := h
  rw [parallelCanonical_eq_ok] at hmine htheirs
  split_ifs at h with hsame
  · cases h
    refine ⟨fun x hx => absurd hx List.not_mem_nil, fun key hne => absurd ?_ hne⟩
    split_ifs
    · rw [Option.map_some, Option.map_some, hmine, htheirs, hsame]
    · rfl
  · simp only [bind_eq_ok, pure_eq_ok] at h
    obtain ⟨refs, -, item, hitem, conflict, -, rfl⟩ := h
    obtain ⟨hcategory, hkey, hb, ha⟩ := DeltaItem.of_make hitem
    refine ⟨fun x hx => ?_, fun key hne => ⟨item, List.mem_singleton_self _, ?_⟩⟩
    · rw [List.mem_singleton.mp hx, hkey, if_pos rfl, if_pos rfl, Option.map_some, Option.map_some, hmine, htheirs]
      refine ⟨hcategory, hb, ha, fun heq => hsame ?_⟩
      exact Option.some.inj (Option.some.inj heq)
    · split_ifs at hne with hpolicy
      · rw [hkey, hpolicy]
      · exact absurd rfl hne

/-! ### What is found leads from one checkpoint to the other -/

theorem isObj_policy (c : ContextCheckpoint) : (c.logicalState.plain.get "policy").isObj = true := by
  obtain ⟨l, hl⟩ := c.reads
  have hpolicy := (logicalStateComponents_eq_ok hl).policy
  simp only [WorkspacePolicy.fromDict, LeanCtx.exact, bind_eq_ok, ensure_eq_ok] at hpolicy
  obtain ⟨_, hkeys, -⟩ := hpolicy
  rw [get_plain]
  cases hv : c.logicalState.get "policy" with
  | obj f => rfl
  | _ =>
    rw [hv] at hkeys
    cases hkeys

theorem sideValue_getD {o : Option Json} (h : ∀ v ∈ o, v.isObj = true) : sideValue (o.getD .null) = o.map canonicalBytes? := by
  cases o with
  | none => rfl
  | some v =>
    cases v with
    | obj f => rfl
    | _ => cases h _ rfl

theorem isObj_entryAt {l : List (Str × Json)} (h : ∀ p ∈ l, p.2.isObj = true) (key : Str) : ∀ v ∈ entryAt l key, v.isObj = true :=
  fun v hv => h (key, v) (mem_of_entryAt hv)

/-- Two collections that were compared, and the contents that they stand for. -/
structure Stands (c : ContextCheckpoint) (category : DeltaCategory) (m : Str → Option Json) : Prop where
  objects : ∀ key, ∀ v ∈ m key, v.isObj = true
  content : ∀ key, (m key).map canonicalBytes? = content c category key

theorem stands_sources {c : ContextCheckpoint} {l : List (Str × Json)} (h : keyed (sourcesOf c) "source_id" "sources" = .ok l) :
    Stands c .source (entryAt l) := by
  obtain ⟨hobj, hentry⟩ := keyed_spec h
  refine ⟨isObj_entryAt hobj, fun key => ?_⟩
  rw [hentry, Option.map_map]
  exact congrArg (Option.map · _) (funext canonicalBytes?_plain)

theorem stands_entries {c : ContextCheckpoint} {l : List (Str × Json)}
    (h : keyed (c.logicalState.plain.get "entries") "entry_id" "entries" = .ok l) : Stands c .projectContext (entryAt l) := by
  obtain ⟨hobj, hentry⟩ := keyed_spec h
  refine ⟨isObj_entryAt hobj, fun key => ?_⟩
  rw [hentry, Option.map_map]
  exact congrArg (Option.map · _) (funext canonicalBytes?_plain)

theorem stands_pins {c : ContextCheckpoint} {l : List (Str × Json)} (h : keyedPins (c.logicalState.plain.get "package_pins") = .ok l) :
    Stands c .package (entryAt l) := by
  obtain ⟨hobj, hentry⟩ := keyedPins_spec h
  exact ⟨isObj_entryAt hobj, fun key => by rw [hentry]; rfl⟩

theorem stands_policy (c : ContextCheckpoint) :
    Stands c .policy fun key => if key = Str.lit "workspace-policy" then some (c.logicalState.plain.get "policy") else none := by
  refine ⟨fun key v hv => ?_, fun key => ?_⟩
  · split_ifs at hv
    · rw [← Option.mem_some_iff.mp hv]
      exact isObj_policy c
    · cases hv
  · simp only [ContextDelta.content]
    split_ifs <;> rfl

/-- The items of a loop lead from the one content to the other, and each of them changes something. -/
theorem Compared.leads {p : Pair} {category : DeltaCategory} {left right : Str → Option Json} {l : List DeltaItem}
    (h : Compared category left right l) (hleft : Stands p.base category left) (hright : Stands p.target category right) :
    Leads (l.map DeltaItem.change) (content p.base category) (content p.target category) ∧
      ∀ x ∈ l, content p.base category x.stableKey.1 ≠ content p.target category x.stableKey.1 := by
  refine ⟨⟨fun c hc => ?_, fun c hc => ?_, fun key hne => ?_⟩, fun x hx => ?_⟩
  · obtain ⟨x, hx, rfl⟩ := List.mem_map.mp hc
    obtain ⟨-, hb, -, -⟩ := h.items x hx
    rw [DeltaItem.change, hb, sideValue_getD (hleft.objects _), hleft.content]
  · obtain ⟨x, hx, rfl⟩ := List.mem_map.mp hc
    obtain ⟨-, -, ha, -⟩ := h.items x hx
    rw [DeltaItem.change, ha, sideValue_getD (hright.objects _), hright.content]
  · rw [← hleft.content, ← hright.content] at hne
    obtain ⟨x, hx, rfl⟩ := h.complete key hne
    exact ⟨x.change, List.mem_map_of_mem hx, rfl⟩
  · rw [← hleft.content, ← hright.content]
    exact (h.items x hx).2.2.2

/-! ### Deltas -/

/-- The items of a category. -/
def Parts.part (x : Parts) : DeltaCategory → List DeltaItem
  | .source => x.sources.items
  | .projectContext => x.entries.items
  | .package => x.pins.items
  | .policy => x.policy.items
  | .lineage => [x.lineage]

section
variable {p : Pair} {found : Parts}

theorem compared_parts (h : parts p = .ok found) {category : DeltaCategory} (hc : category ≠ .lineage) : ∃ left right,
    Compared category left right (found.part category) ∧ Stands p.base category left ∧ Stands p.target category right := by
  simp only [parts, bind_eq_ok, pure_eq_ok] at h
  obtain ⟨ls, hls, rs, hrs, sources, hsources, le, hle, re, hre, entries, hentries, lp, hlp, rp, hrp, pins, hpins, policy, hpolicy,
    lineage, -, rfl⟩ := h
  cases category with
  | source =>
    exact ⟨_, _, compared_compare (fun _ _ _ _ h => found_turn (fun _ _ _ _ h => changed_source h) h) hsources, stands_sources hls,
      stands_sources hrs⟩
  | projectContext =>
    exact ⟨_, _, compared_compare (fun _ _ _ _ h => found_turn (fun _ _ _ _ h => changed_entry h) h) hentries, stands_entries hle,
      stands_entries hre⟩
  | package =>
    exact ⟨_, _, compared_compare (fun _ _ _ _ h => found_turn (fun _ _ _ _ h => changed_pin h) h) hpins, stands_pins hlp,
      stands_pins hrp⟩
  | policy => exact ⟨_, _, compared_policy hpolicy, stands_policy _, stands_policy _⟩
  | lineage => exact absurd rfl hc

theorem lineage_parts (h : parts p = .ok found) : found.lineage.category = .lineage := by
  simp only [parts, bind_eq_ok, pure_eq_ok] at h
  obtain ⟨_, -, _, -, _, -, _, -, _, -, _, -, _, -, _, -, _, -, _, -, lineage, hlineage, rfl⟩ := h
  simp only [lineageItem, bind_eq_ok] at hlineage
  obtain ⟨refs, -, hmake⟩ := hlineage
  exact (DeltaItem.of_make hmake).1

/-- The items of a category are those of its part. -/
theorem filter_items (h : parts p = .ok found) (category : DeltaCategory) :
    found.items.filter (fun x => x.category = category) = found.part category := by
  have hpart : ∀ c, ∀ x ∈ found.part c, x.category = c := by
    intro c x hx
    by_cases hc : c = .lineage
    · subst hc
      rw [List.mem_singleton.mp hx]
      exact lineage_parts h
    · obtain ⟨left, right, hcompared, -⟩ := compared_parts h hc
      exact (hcompared.items x hx).1
  have hfilter : ∀ c, (found.part c).filter (fun x => x.category = category) = if c = category then found.part c else [] := by
    intro c
    split_ifs with hc
    · exact List.filter_eq_self.mpr fun x hx => decide_eq_true ((hpart c x hx).trans hc)
    · exact List.filter_eq_nil_iff.mpr fun x hx => by rw [hpart c x hx]; simpa using hc
  have hitems : found.items = found.part .source ++ found.part .projectContext ++ found.part .package ++ found.part .policy ++
    found.part .lineage := rfl
  rw [hitems, List.filter_append, List.filter_append, List.filter_append, List.filter_append, hfilter, hfilter, hfilter, hfilter, hfilter]
  cases category <;> simp

/-- A loop whose turns find one item at most has no key twice. -/
theorem nodup_compare {left right : List (Str × Json)} {f : Str → Option Json → Option Json → Except Err Differences}
    (hf : ∀ key before after D, f key before after = .ok D → D.items.length ≤ 1 ∧ ∀ x ∈ D.items, x.stableKey.1 = key) {D : Differences}
    (h : compare left right f = .ok D) : (D.items.map fun x => x.stableKey.1).Nodup := by
  simp only [compare, bind_eq_ok, pure_eq_ok] at h
  obtain ⟨l, hl, rfl⟩ := h
  have hnodup : (sortedUnion (left.map (·.1) ++ right.map (·.1))).Nodup := (sorted_sortedUnion _).imp fun hlt => ne_of_lt hlt
  have hall := forall₂_of_mapM hl
  clear hl
  generalize sortedUnion (left.map (·.1) ++ right.map (·.1)) = keys at hnodup hall
  induction hall with
  | nil => exact List.nodup_nil
  | @cons key D keys l hD hall ih =>
    obtain ⟨hnew, hnodup⟩ := List.nodup_cons.mp hnodup
    obtain ⟨hlength, hkeys⟩ := hf _ _ _ _ hD
    rw [List.flatMap_cons, List.map_append]
    refine List.nodup_append.mpr ⟨?_, ih hnodup, fun i hi j hj hij => hnew ?_⟩
    · cases hitems : D.items with
      | nil => exact List.nodup_nil
      | cons x rest =>
        rw [hitems, List.length_cons, add_le_iff_nonpos_left, Nat.le_zero, List.length_eq_zero_iff] at hlength
        rw [hlength]
        exact List.nodup_singleton _
    · obtain ⟨x, hx, rfl⟩ := List.mem_map.mp hi
      obtain ⟨y, hy, rfl⟩ := List.mem_map.mp hj
      obtain ⟨D', hD', hy⟩ := List.mem_flatMap.mp hy
      obtain ⟨key', hkey', hturn⟩ := exists_mem_of_forall₂ hall.flip hD'
      rw [← hkeys x hx, hij, (hf _ _ _ _ hturn).2 y hy]
      exact hkey'

theorem length_turn {category : DeltaCategory} {onlyAfter onlyBefore : DeltaAction}
    {evidence : Option Json → Option Json → Except Err (List EvidenceRef)}
    {changed : List EvidenceRef → Json → Json → Except Err Differences}
    (hchanged : ∀ refs b a D, changed refs b a = .ok D → D.items.length = 1) {key : Str} {before after : Option Json} {D : Differences}
    (h : turn category onlyAfter onlyBefore evidence changed key before after = .ok D) : D.items.length ≤ 1 := by
  obtain ⟨refs, -, h⟩ := bind_eq_ok.mp h
  split at h
  · cases h
    exact Nat.zero_le 1
  · simp only [bind_eq_ok, pure_eq_ok] at h
    obtain ⟨x, -, rfl⟩ := h
    exact le_rfl
  · simp only [bind_eq_ok, pure_eq_ok] at h
    obtain ⟨x, -, rfl⟩ := h
    exact le_rfl
  · simp only [bind_eq_ok] at h
    obtain ⟨mine, -, theirs, -, h⟩ := h
    split_ifs at h
    · cases h
      exact Nat.zero_le 1
    · exact (hchanged _ _ _ _ h).le

theorem nodup_part (h : parts p = .ok found) {category : DeltaCategory} (hc : category ≠ .source) :
    ((found.part category).map fun x => x.stableKey.1).Nodup := by
  simp only [parts, bind_eq_ok, pure_eq_ok] at h
  obtain ⟨ls, -, rs, -, sources, -, le, -, re, -, entries, hentries, lp, -, rp, -, pins, hpins, policy, hpolicy, lineage, -, rfl⟩ := h
  cases category with
  | source => exact absurd rfl hc
  | projectContext =>
    refine nodup_compare (fun key b a D hD => ⟨length_turn (fun refs b a D hD => ?_) hD,
      fun x hx => ((found_turn (fun _ _ _ _ h => changed_entry h) hD).items x hx).2.1⟩) hentries
    unfold changedEntry at hD
    by_cases hsame : pyEq (b.get "category") (a.get "category") = true ∧ pyEq (b.get "value") (a.get "value") = true
    · rw [if_pos hsame] at hD
      simp only [bind_eq_ok, pure_eq_ok] at hD
      obtain ⟨x, -, rfl⟩ := hD
      rfl
    · rw [if_neg hsame] at hD
      simp only [bind_eq_ok, pure_eq_ok] at hD
      obtain ⟨x, -, conflict, -, rfl⟩ := hD
      rfl
  | package =>
    refine nodup_compare (fun key b a D hD => ⟨length_turn (fun refs b a D hD => ?_) hD,
      fun x hx => ((found_turn (fun _ _ _ _ h => changed_pin h) hD).items x hx).2.1⟩) hpins
    simp only [changedPin, bind_eq_ok, pure_eq_ok] at hD
    obtain ⟨x, -, conflict, -, rfl⟩ := hD
    rfl
  | policy =>
    simp only [comparePolicy, bind_eq_ok] at hpolicy
    obtain ⟨mine, -, theirs, -, hpolicy⟩ := hpolicy
    split_ifs at hpolicy
    · cases hpolicy
      exact List.nodup_nil
    · simp only [bind_eq_ok, pure_eq_ok] at hpolicy
      obtain ⟨refs, -, item, -, conflict, -, rfl⟩ := hpolicy
      exact List.nodup_singleton _
  | lineage => exact List.nodup_singleton _

end

/-- A delta determines its target: its changes make the sources (without their local files), the entries, the package pins and the policy of
    the target of those of the base, and the other way around. Every change is one, with the values of both sides, and only a source has
    several changes. -/
theorem betweenVerified_patches {p : Pair} {ancestry : Ancestry} {baseLineage targetLineage : Option ForkLineage} {d : ContextDelta}
    (h : betweenVerified p ancestry baseLineage targetLineage = .ok d) (category : DeltaCategory) (hc : category ≠ .lineage) :
    patch (content p.base category) (d.changes category) = content p.target category ∧
      patch (content p.target category) ((d.changes category).map Change.swap) = content p.base category ∧
      (∀ c ∈ d.changes category, c.before = content p.base category c.key ∧ c.after = content p.target category c.key ∧
        c.before ≠ c.after) ∧
      (category ≠ .source → ((d.changes category).map (·.key)).Nodup) := by
  simp only [betweenVerified, bind_eq_ok, ensure_eq_ok, exists_const, make_eq_ok] at h
  obtain ⟨baseRef, -, targetRef, -, found, hfound, selected, hselected, -, report, -, bytes, -, -, id, -, hd⟩ := h
  have hperm : (d.changes category).Perm ((found.part category).map DeltaItem.change) := by
    rw [changes, hd, ← filter_items hfound]
    exact ((DeltaItem.sort_perm hselected).filter _).map _
  obtain ⟨left, right, hcompared, hleft, hright⟩ := compared_parts hfound hc
  obtain ⟨hleads, hdiffer⟩ := hcompared.leads hleft hright
  have hleads' := hleads.perm hperm
  refine ⟨hleads'.patch_eq, hleads'.swap.patch_eq, fun c hchange => ?_, fun hsource => ?_⟩
  · have hb := hleads'.before c hchange
    have ha := hleads'.after c hchange
    refine ⟨hb, ha, ?_⟩
    obtain ⟨x, hx, rfl⟩ := List.mem_map.mp (hperm.mem_iff.mp hchange)
    rw [hb, ha]
    exact hdiffer x hx
  · refine (hperm.map _).nodup_iff.mpr ?_
    rw [List.map_map]
    exact nodup_part hfound hsource

/-! ### A delta of one entry -/

open DeltaContent

/-- A delta is made of what is found, where it can be written and is not too large. -/
theorem exists_betweenVerified {p : Pair} {ancestry : Ancestry} {baseLineage targetLineage : Option ForkLineage}
    {baseRef targetRef : WorkspaceStateRef} {found : Parts} {selected : List DeltaItem} {report : ConflictReport}
    (hbase : WorkspaceStateRef.fromCheckpoint p.base baseLineage = .ok baseRef)
    (htarget : WorkspaceStateRef.fromCheckpoint p.target targetLineage = .ok targetRef) (hfound : parts p = .ok found)
    (hselected : DeltaItem.sort found.items = .ok selected) (hlength : selected.length ≤ maxDeltaItems)
    (hreport : ConflictReport.create (some baseRef) baseRef targetRef ancestry found.conflicts = .ok report)
    (hwritable : (mkObj (unsignedFields ⟨baseRef, targetRef, selected, report⟩)).Writable)
    (hbytes : byteLength (mkObj (unsignedFields ⟨baseRef, targetRef, selected, report⟩)) ≤ maxDeltaBytes) :
    ∃ d, betweenVerified p ancestry baseLineage targetLineage = .ok d ∧ d.items = selected := by
  obtain ⟨bytes, hcanonical⟩ := hwritable
  have hlength' : bytes.length ≤ maxDeltaBytes := by rwa [length_canonicalBytes hcanonical]
  rw [← parallelCanonical_eq_ok] at hcanonical
  obtain ⟨d, hd⟩ := domainDigest_of_writable "leanctx.context-delta.v1" (writable_of_parallelCanonical hcanonical)
  rw [← parallelDigest_eq_ok] at hd
  obtain ⟨-, hreportBase, hreportLeft, hreportRight, -, -⟩ := ConflictReport.of_create hreport
  have hcheck : DeltaFields.check ⟨⟨baseRef, targetRef, selected, report⟩, d⟩ = .ok () := by
    simp only [DeltaFields.check, expectedId, bind_eq_ok, ensure_eq_ok, exists_const]
    exact ⟨d, ⟨hlength, selected, DeltaItem.sort_sort hselected, pyEq_refl _, ⟨hreportBase, hreportLeft, hreportRight⟩, bytes, hcanonical,
      hlength', hd⟩, rfl⟩
  refine ⟨⟨_, hcheck⟩, ?_, rfl⟩
  simp only [betweenVerified, bind_eq_ok, ensure_eq_ok, exists_const, make_eq_ok]
  exact ⟨baseRef, hbase, targetRef, htarget, found, hfound, selected, hselected, hlength, report, hreport, bytes, hcanonical, hlength', d,
    hd, rfl⟩

theorem exists_checkpoint_bare {l : List ProjectContextEntry} (h : SampleEntries l) (ws : Uuid) : ∃ c : ContextCheckpoint,
    c.logicalState = (LogicalState.bare openPolicy l).toDict ws := by
  obtain ⟨d, -⟩ := digest_of_writable writable_null
  obtain ⟨c, -, hws, -, -, hcontent⟩ := (h.storable ws).exists_checkpoint (numberedUuid 7) d.eventRef d.eventRef d.prefix_eventRef
  exact ⟨c, hws ▸ hcontent.logicalState⟩

/-- Evidence that names no texts. -/
def bareRef (c : ContextCheckpoint) : EvidenceRef := ⟨c.workspaceId, c.checkpointId, c.stateDigest, .nil, .nil, .nil⟩

theorem small_bareRef (c : ContextCheckpoint) : byteLength (bareRef c).toDict ≤ 981 := by
  have hschema : byteLength (.str (Str.lit EvidenceRef.schema)) ≤ 100 := by decide
  have hnil : Writable (.arr []) ∧ byteLength (.arr []) ≤ 100 := ⟨writable_arr fun _ h => absurd h List.not_mem_nil, by decide⟩
  refine (small_mkObj (m := 100) ["schema_version", "workspace_id", "checkpoint_id", "state_digest", "source_ids", "receipt_refs",
    "recovery_refs"] rfl (by decide) (by decide) (by simp) ?_).2.trans (show 1 + 7 * 140 ≤ 981 by decide)
  simp only [List.mem_cons, List.not_mem_nil, or_false, forall_eq_or_imp, forall_eq]
  exact ⟨⟨writable_lit _, hschema⟩, ⟨writable_uuid _, by rw [byteLength_uuid]; decide⟩, ⟨writable_uuid _, by rw [byteLength_uuid]; decide⟩,
    ⟨writable_digest _, by rw [byteLength_digest]; decide⟩, hnil, hnil, hnil⟩

/-- An item with short values and little evidence is short. -/
theorem small_item {x : DeltaItem} (hkey : byteLength x.stableKey.json ≤ 2000) (hbefore : x.before.Writable ∧ byteLength x.before ≤ 2000)
    (hafter : x.after.Writable ∧ byteLength x.after ≤ 2000) (hrefs : ∀ ref ∈ x.evidenceRefs, ∃ c, ref = bareRef c)
    (hlength : x.evidenceRefs.length ≤ 2) : x.toDict.Writable ∧ byteLength x.toDict ≤ 30000 := by
  have hevidence : byteLength (.arr (x.evidenceRefs.map EvidenceRef.toDict)) ≤ 2000 := by
    rw [byteLength_arr (List.forall_mem_map.mpr fun ref _ => ref.writable_toDict) (by simpa using x.evidenced)]
    have hle : ∀ n ∈ (x.evidenceRefs.map EvidenceRef.toDict).map fun v => byteLength v + 1, n ≤ 982 := by
      intro n hn
      obtain ⟨v, hv, rfl⟩ := List.mem_map.mp hn
      obtain ⟨ref, href, rfl⟩ := List.mem_map.mp hv
      obtain ⟨c, rfl⟩ := hrefs ref href
      exact Nat.succ_le_succ (small_bareRef c)
    have hsum := List.sum_le_card_nsmul _ _ hle
    rw [List.length_map, List.length_map, smul_eq_mul] at hsum
    omega
  have hnames : byteLength (.str (Str.lit x.category.name)) ≤ 2000 ∧ byteLength (.str (Str.lit x.action.name)) ≤ 2000 := by
    refine ⟨?_, ?_⟩
    · cases x.category <;> decide
    · cases x.action <;> decide
  refine (small_mkObj (m := 2000) ["schema_version", "category", "action", "stable_key", "before", "after", "evidence_refs"] rfl
    (by decide) (by decide) (by simp) ?_).imp_right fun h => h.trans (show 1 + 7 * 2040 ≤ 30000 by decide)
  simp only [List.mem_cons, List.not_mem_nil, or_false, forall_eq_or_imp, forall_eq]
  exact ⟨⟨writable_lit _, by decide⟩, ⟨writable_lit _, hnames.1⟩, ⟨writable_lit _, hnames.2⟩, ⟨writable_text _, hkey⟩, hbefore, hafter,
    writable_map EvidenceRef.writable_toDict _, hevidence⟩

/-- A checkpoint with an entry, compared with one without it. -/
theorem exists_parts : ∃ p found, parts p = .ok found ∧ found.conflicts = [] ∧ found.items.length = 2 ∧
    (∃ x ∈ found.items, x.category = .projectContext) ∧ ∀ x ∈ found.items, x.toDict.Writable ∧ byteLength x.toDict ≤ 30000 := by
  obtain ⟨b, hb⟩ := exists_checkpoint_bare .nil (numberedUuid 0)
  obtain ⟨t, ht⟩ := exists_checkpoint_bare .one (numberedUuid 0)
  have hfields (c : ContextCheckpoint) (l : List ProjectContextEntry)
      (hc : c.logicalState = (LogicalState.bare openPolicy l).toDict (numberedUuid 0)) : sourcesOf c = .arr [] ∧
      c.logicalState.plain.get "entries" = (entriesJson l).plain ∧ c.logicalState.plain.get "package_pins" = .arr [] ∧
      c.logicalState.plain.get "policy" = openPolicy.toDict.plain := by
    have hsources : c.logicalState.plain.get "sources" = .arr [] := by
      rw [get_plain, hc, LogicalState.toDict]
      simp [get_mkObj, LogicalState.bare]
      rfl
    refine ⟨by rw [sourcesOf, hsources]; rfl, ?_, ?_, ?_⟩
    · rw [get_plain, hc, LogicalState.toDict]
      simp [get_mkObj, LogicalState.bare]
    · rw [get_plain, hc, LogicalState.toDict]
      simp [get_mkObj, LogicalState.bare]
      rfl
    · rw [get_plain, hc, LogicalState.toDict]
      simp [get_mkObj, LogicalState.bare]
  obtain ⟨hbs, hbe, hbp, hbpolicy⟩ := hfields b [] hb
  obtain ⟨hts, hte, htp, htpolicy⟩ := hfields t [decision] ht
  have hvalue : keyed (entriesJson [decision]).plain "entry_id" "entries" = .ok [(decision.entryId.1, decision.toDict.plain)] := by rfl
  have href (c : ContextCheckpoint) (v : Json) (hv : v = .null ∨ v = decision.toDict.plain) : evidenceRef c v = .ok (bareRef c) := by
    obtain rfl | rfl := hv <;> rfl
  have hshort (u : Uuid) : byteLength (Text.json (⟨u.1, u.isText (by decide)⟩ : Text 512)) ≤ 2000 :=
    (byteLength_uuid u).trans_le (by decide)
  have hsort (refs : List EvidenceRef) (hrefs : ∀ ref ∈ refs, ∃ c, ref = bareRef c) : ∀ ref ∈ EvidenceRef.sort refs, ∃ c, ref = bareRef c :=
    fun ref h => hrefs ref ((EvidenceRef.sort_perm refs).mem_iff.mp h)
  -- the entry is added
  obtain ⟨item, hitem, hcategory, -, hitemKey, hitemBefore, hitemAfter, hitemRefs⟩ := @DeltaItem.exists_make .projectContext .added (by decide)
    ⟨decision.entryId.1, decision.entryId.isText (by decide)⟩ .null decision.toDict.plain [bareRef t] (List.cons_ne_nil _ _)
  have hentries : compare [] [(decision.entryId.1, decision.toDict.plain)] (fun key =>
      turn .projectContext .added .removed (Pair.evidence ⟨b, t⟩) (changedEntry key) key) = .ok ⟨[item], []⟩ := by
    have hturn : turn .projectContext .added .removed (Pair.evidence ⟨b, t⟩) (changedEntry decision.entryId.1) decision.entryId.1 none
        (some decision.toDict.plain) = .ok ⟨[item], []⟩ := by
      have hevidence : Pair.evidence ⟨b, t⟩ none (some decision.toDict.plain) = .ok [bareRef t] := by
        simp only [Pair.evidence, baseEvidence, href t decision.toDict.plain (.inr rfl)]
        rfl
      rw [turn, hevidence, ok_bind]
      exact bind_eq_ok.mpr ⟨item, hitem, rfl⟩
    rw [compare, show sortedUnion (([] : List (Str × Json)).map (·.1) ++ [(decision.entryId.1, decision.toDict.plain)].map (·.1)) =
      [decision.entryId.1] by rfl, List.mapM_cons]
    have hat : entryAt [(decision.entryId.1, decision.toDict.plain)] decision.entryId.1 = some decision.toDict.plain := by rfl
    rw [hat, show entryAt [] decision.entryId.1 = none from rfl, hturn]
    rfl
  have hpolicy : comparePolicy ⟨b, t⟩ = .ok ⟨[], []⟩ := by
    obtain ⟨bytes, hbytes⟩ := WorkspacePolicy.writable_toDict small_openPolicy
    have hcanonical : parallelCanonical openPolicy.toDict.plain = .ok bytes := by rwa [parallelCanonical_eq_ok, canonicalBytes?_plain]
    simp only [comparePolicy, hbpolicy, htpolicy, hcanonical, ok_bind, if_true]
    rfl
  -- and the lineage is recorded
  obtain ⟨lineage, hlineage, hlineageKey, hlineageBefore, hlineageAfter, hlineageRefs⟩ : ∃ x, lineageItem ⟨b, t⟩ = .ok x ∧
      x.stableKey = ⟨t.workspaceId.1, t.workspaceId.isText (by decide)⟩ ∧
      (x.before.Writable ∧ byteLength x.before ≤ 2000) ∧ (x.after.Writable ∧ byteLength x.after ≤ 2000) ∧
      x.evidenceRefs = EvidenceRef.sort [bareRef b, bareRef t] := by
    have hevidence : Pair.evidence ⟨b, t⟩ (some .null) (some .null) = .ok [bareRef b, bareRef t] := by
      simp only [Pair.evidence, baseEvidence, href b .null (.inl rfl), href t .null (.inl rfl)]
      rfl
    have hsmall (c : ContextCheckpoint) : (mkObj [("workspace_id", c.workspaceId.json), ("checkpoint_id", c.checkpointId.json)]).Writable ∧
        byteLength (mkObj [("workspace_id", c.workspaceId.json), ("checkpoint_id", c.checkpointId.json)]) ≤ 2000 := by
      refine (small_mkObj (m := 100) ["workspace_id", "checkpoint_id"] rfl (by decide) (by decide) (by simp) ?_).imp_right
        fun h => h.trans (show 1 + 2 * 140 ≤ 2000 by decide)
      simp only [List.mem_cons, List.not_mem_nil, or_false, forall_eq_or_imp, forall_eq]
      exact ⟨⟨writable_uuid _, by rw [byteLength_uuid]; decide⟩, writable_uuid _, by rw [byteLength_uuid]; decide⟩
    have hallowed : (if b.workspaceId ≠ t.workspaceId then DeltaAction.forkAncestry else .checkpointReference) ∈
        DeltaCategory.lineage.actions := by
      split_ifs <;> decide
    obtain ⟨x, hx, -, -, hkey, hbefore, hafter, hrefs⟩ := @DeltaItem.exists_make .lineage _ hallowed
      ⟨t.workspaceId.1, t.workspaceId.isText (by decide)⟩
      (mkObj [("workspace_id", b.workspaceId.json), ("checkpoint_id", b.checkpointId.json)])
      (mkObj [("workspace_id", t.workspaceId.json), ("checkpoint_id", t.checkpointId.json)]) [bareRef b, bareRef t] (List.cons_ne_nil _ _)
    exact ⟨x, bind_eq_ok.mpr ⟨_, hevidence, hx⟩, hkey, hbefore ▸ hsmall b, hafter ▸ hsmall t, hrefs⟩
  have hparts : parts ⟨b, t⟩ = .ok ⟨⟨[], []⟩, ⟨[item], []⟩, ⟨[], []⟩, ⟨[], []⟩, lineage⟩ := by
    have hempty : keyed (entriesJson []).plain "entry_id" "entries" = .ok [] := by rfl
    have hnil (label field : String) : keyed (.arr []) field label = .ok [] := rfl
    simp only [parts, hbs, hts, hbe, hte, hbp, htp, hnil, hempty, hvalue, ok_bind, hentries, hpolicy, hlineage]
    rfl
  have hdecision : decision.toDict.plain.Writable ∧ byteLength decision.toDict.plain ≤ 2000 := by
    obtain ⟨bytes, hbytes⟩ := decision.writable_toDict
    exact ⟨⟨bytes, by rw [canonicalBytes?_plain, hbytes]⟩, by rw [byteLength_plain]; decide +kernel⟩
  refine ⟨⟨b, t⟩, _, hparts, rfl, rfl, ⟨item, List.mem_cons_self, hcategory⟩, fun x hx => ?_⟩
  obtain rfl | hx := List.mem_cons.mp hx
  · refine small_item ?_ ?_ ?_ ?_ ?_
    · rw [hitemKey]
      exact hshort _
    · rw [hitemBefore]
      exact ⟨writable_null, show byteLength .null ≤ 2000 by decide⟩
    · rw [hitemAfter]
      exact hdecision
    · rw [hitemRefs]
      refine hsort _ fun ref href => ⟨t, List.mem_singleton.mp href⟩
    · rw [hitemRefs, (EvidenceRef.sort_perm _).length_eq]
      exact Nat.le_succ 1
  · rw [List.mem_singleton.mp hx]
    refine small_item ?_ hlineageBefore hlineageAfter ?_ ?_
    · rw [hlineageKey]
      exact hshort _
    · rw [hlineageRefs]
      refine hsort _ fun ref href => ?_
      obtain rfl | href := List.mem_cons.mp href
      · exact ⟨b, rfl⟩
      · exact ⟨t, List.mem_singleton.mp href⟩
    · rw [hlineageRefs, (EvidenceRef.sort_perm _).length_eq]
      exact le_rfl

theorem small_stateRef {r : WorkspaceStateRef} (h : r.forkLineage = none) : byteLength r.toDict ≤ 1000 := by
  have hschema : byteLength (.str (Str.lit WorkspaceStateRef.schema)) ≤ 100 := by decide
  have hnull : byteLength (optional ForkLineage.toDict r.forkLineage) ≤ 100 := by
    rw [h]
    exact show byteLength .null ≤ 100 by decide
  refine (small_mkObj (m := 100) ["schema_version", "workspace_id", "checkpoint_id", "state_digest", "checkpoint_envelope_digest",
    "fork_lineage"] rfl (by decide) (by decide) (by simp) ?_).2.trans (show 1 + 6 * 140 ≤ 1000 by decide)
  simp only [List.mem_cons, List.not_mem_nil, or_false, forall_eq_or_imp, forall_eq]
  exact ⟨⟨writable_lit _, hschema⟩, ⟨writable_uuid _, by rw [byteLength_uuid]; decide⟩, ⟨writable_uuid _, by rw [byteLength_uuid]; decide⟩,
    ⟨writable_digest _, by rw [byteLength_digest]; decide⟩, ⟨writable_digest _, by rw [byteLength_digest]; decide⟩,
    writable_optional ForkLineage.writable_toDict _, hnull⟩

theorem small_report {x : ConflictReport} {r : WorkspaceStateRef} (hbase : x.base = some r) (hentries : x.entries = [])
    (h : r.forkLineage = none) (hleft : x.left.forkLineage = none) (hright : x.right.forkLineage = none) :
    x.toDict.Writable ∧ byteLength x.toDict ≤ 30000 := by
  have hschema : byteLength (.str (Str.lit ReportFields.schema)) ≤ 1000 := by decide
  have hancestry : byteLength (.str (Str.lit x.ancestry.name)) ≤ 1000 := by cases x.ancestry <;> decide
  have hnil : (Json.arr (x.entries.map fun e => e.toDict)).Writable ∧ byteLength (.arr (x.entries.map fun e => e.toDict)) ≤ 1000 := by
    rw [hentries]
    exact ⟨writable_arr fun _ h => absurd h List.not_mem_nil, show byteLength (.arr []) ≤ 1000 by decide⟩
  have hsome : (optional WorkspaceStateRef.toDict x.base).Writable ∧ byteLength (optional WorkspaceStateRef.toDict x.base) ≤ 1000 := by
    rw [hbase]
    exact ⟨r.writable_toDict, small_stateRef h⟩
  refine (small_mkObj (m := 1000) ["schema_version", "base", "left", "right", "ancestry", "entries", "report_id"] rfl (by decide)
    (by decide) (by simp) ?_).imp_right fun h => h.trans (show 1 + 7 * 1040 ≤ 30000 by decide)
  simp only [ReportFields.unsignedFields, List.cons_append, List.nil_append, List.mem_cons, List.not_mem_nil, or_false, forall_eq_or_imp,
    forall_eq]
  exact ⟨⟨writable_lit _, hschema⟩, hsome, ⟨x.left.writable_toDict, small_stateRef hleft⟩, ⟨x.right.writable_toDict, small_stateRef hright⟩,
    ⟨writable_lit _, hancestry⟩, hnil, writable_digest _, by rw [byteLength_digest]; decide⟩

/-- A delta that adds an entry. -/
theorem exists_betweenVerified_patches : ∃ p d, betweenVerified p .unknown none none = .ok d ∧
    (∃ x ∈ d.items, x.category = .projectContext) ∧
    patch (content p.base .projectContext) (d.changes .projectContext) = content p.target .projectContext ∧
      patch (content p.target .projectContext) ((d.changes .projectContext).map Change.swap) = content p.base .projectContext ∧
      (∀ c ∈ d.changes .projectContext, c.before = content p.base .projectContext c.key ∧
        c.after = content p.target .projectContext c.key ∧ c.before ≠ c.after) ∧
      (DeltaCategory.projectContext ≠ .source → ((d.changes .projectContext).map (·.key)).Nodup) := by
  obtain ⟨p, found, hfound, hconflicts, hlength, ⟨x, hx, hcategory⟩, hsmall⟩ := exists_parts
  obtain ⟨selected, hselected⟩ := DeltaItem.exists_sort fun x hx => (hsmall x hx).1
  have hperm := DeltaItem.sort_perm hselected
  have hselected' : ∀ y ∈ selected, y.toDict.Writable ∧ byteLength y.toDict ≤ 30000 := fun y hy => hsmall y (hperm.mem_iff.mp hy)
  have hcount : selected.length = 2 := hperm.length_eq.trans hlength
  let ref (c : ContextCheckpoint) : WorkspaceStateRef := ⟨c.workspaceId, c.checkpointId, c.stateDigest, c.envelopeDigest, none, by simp⟩
  have href (c : ContextCheckpoint) : WorkspaceStateRef.fromCheckpoint c none = .ok (ref c) := rfl
  obtain ⟨report, hreport⟩ := @ConflictReport.exists_create found.conflicts (some (ref p.base)) (ref p.base) (ref p.target)
    .unknown (by rw [hconflicts]; exact Nat.zero_le _) (by rw [hconflicts]; exact fun _ h => absurd h List.not_mem_nil)
  obtain ⟨-, hbase, hleft, hright, -, hentries⟩ := ConflictReport.of_create hreport
  obtain ⟨hreportWritable, hreportLength⟩ := small_report hbase (by rw [hentries, hconflicts]; rfl) rfl (by rw [hleft]) (by rw [hright])
  have hitems : (Json.arr (selected.map DeltaItem.toDict)).Writable ∧ byteLength (.arr (selected.map DeltaItem.toDict)) ≤ 60003 := by
    have hwritable : ∀ v ∈ selected.map DeltaItem.toDict, v.Writable := List.forall_mem_map.mpr fun y hy => (hselected' y hy).1
    refine ⟨writable_arr hwritable, ?_⟩
    match selected, hcount, hselected', hwritable with
    | [y, z], _, hall, hwritable =>
      have hy := (hall y (by simp)).2
      have hz := (hall z (by simp)).2
      rw [byteLength_arr hwritable (by simp)]
      simp only [List.map_cons, List.map_nil, List.sum_cons, List.sum_nil]
      omega
  have hschema : byteLength (.str (Str.lit DeltaContent.schema)) ≤ 60003 := by decide
  have hbounds : DeltaContent.bounds.Writable ∧ byteLength DeltaContent.bounds ≤ 60003 :=
    ⟨Option.isSome_iff_exists.mp (by decide), by decide +kernel⟩
  have hpayload : (mkObj (unsignedFields ⟨ref p.base, ref p.target, selected, report⟩)).Writable ∧
      byteLength (mkObj (unsignedFields ⟨ref p.base, ref p.target, selected, report⟩)) ≤ maxDeltaBytes := by
    have hsmallRef (c : ContextCheckpoint) : byteLength (ref c).toDict ≤ 60003 := (small_stateRef rfl).trans (by decide)
    refine (small_mkObj (m := 60003) ["schema_version", "base", "target", "items", "conflicts", "bounds"] rfl (by decide) (by decide)
      (by simp [unsignedFields]) ?_).imp_right fun h => h.trans (show 1 + 6 * 60043 ≤ 512 * 1024 by decide)
    simp only [unsignedFields, List.mem_cons, List.not_mem_nil, or_false, forall_eq_or_imp, forall_eq]
    exact ⟨⟨writable_lit _, hschema⟩, ⟨(ref p.base).writable_toDict, hsmallRef _⟩, ⟨(ref p.target).writable_toDict, hsmallRef _⟩, hitems,
      ⟨hreportWritable, hreportLength.trans (by decide)⟩, hbounds⟩
  obtain ⟨d, hd, hditems⟩ := exists_betweenVerified (href p.base) (href p.target) hfound hselected (by rw [hcount]; decide) hreport
    hpayload.1 hpayload.2
  refine ⟨p, d, hd, ⟨x, ?_, hcategory⟩, betweenVerified_patches hd .projectContext (by decide)⟩
  rw [hditems]
  exact hperm.mem_iff.mpr hx

end ContextDelta
end LeanCtx
