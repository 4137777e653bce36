import LeanCtx.Workspace.Writing
import Mathlib.Data.List.Chain

/-! Reads without the lock: what a reader finds while clients append, stop and fail. -/

namespace LeanCtx
open Json Machine Reading EventDirectory

namespace Reading

/-! ### How a reader may be refused -/

/-- A program whose only failures are those of a directory that has changed under it. -/
def Refuses {α : Type} (p : Reading α) : Prop := ∀ ds e, p.Runs ds (.error e) → e = .io ∨ e = .corrupt

section
variable {α β : Type}

theorem refuses_pure (a : α) : Refuses (pure a : Reading α) := by
  intro ds e h
  obtain ⟨-, h⟩ := Observation.runs_done.mp h
  cases h

theorem refuses_require (c : Prop) [Decidable c] : Refuses (Observation.require c .corrupt) := by
  intro ds e h
  obtain ⟨-, h⟩ := Observation.runs_done.mp h
  split_ifs at h
  exact .inr (Except.error.inj h)

theorem Refuses.bind {p : Reading α} {f : α → Reading β} (hp : Refuses p) (hf : ∀ a, Refuses (f a)) : Refuses (p >>= f) := by
  intro ds e h
  obtain ⟨e', he, h⟩ | ⟨ds₁, ds₂, a, -, -, h⟩ := h.bind_cases
  · cases he
    exact hp ds e h
  · exact hf a ds₂ e h

theorem refuses_statName (name : Str) : Refuses (statName name) := by
  intro ds e h
  obtain ⟨d, -, h⟩ := runs_statName h
  cases hd : d.stat name with
  | none =>
    rw [hd] at h
    exact .inl (Except.error.inj h)
  | some item =>
    rw [hd] at h
    cases h

theorem refuses_finalFiles (l : List Str) : Refuses (finalFiles l) := by
  induction l with
  | nil => exact refuses_pure _
  | cons name l ih =>
    exact (refuses_statName name).bind fun item => (refuses_require _).bind fun _ => ih.bind fun _ => refuses_pure _

theorem refuses_checkTemporaries (finals : List Nat) (l : List Str) : Refuses (checkTemporaries finals l) := by
  induction l with
  | nil => exact refuses_pure _
  | cons name l ih => exact (refuses_statName name).bind fun item => (refuses_require _).bind fun _ => ih

theorem refuses_countNames (file : Nat) (l : List Str) : Refuses (countNames file l) := by
  induction l with
  | nil => exact refuses_pure _
  | cons name l ih => exact (refuses_statName name).bind fun item => ih.bind fun _ => refuses_pure _

theorem refuses_checkFinals (temporaries : List Str) (l : List Nat) : Refuses (checkFinals temporaries l) := by
  induction l with
  | nil => exact refuses_pure _
  | cons file l ih => exact (refuses_countNames file temporaries).bind fun n => (refuses_require _).bind fun _ => ih

/-- The published names of a listing are those that are neither the lock nor temporary, and each of them is an event's. -/
theorem runs_checkNames {l : List Str} {ds : List EventDirectory} {x : List Str × List Str} (h : (checkNames l).Runs ds (.ok x)) :
    x.1 = l.filter (fun n => n ≠ lockName ∧ ¬IsTemporary n) ∧ ∀ n ∈ x.1, (matchEventName n).isSome = true := by
  induction l generalizing ds x with
  | nil =>
    obtain ⟨-, h⟩ := Observation.runs_done.mp h
    cases h
    exact ⟨rfl, fun n hn => absurd hn List.not_mem_nil⟩
  | cons name l ih =>
    rw [checkNames] at h
    split_ifs at h with hlock ht
    · obtain ⟨e, he, -⟩ | ⟨ds₁, ds₂, item, -, -, h⟩ := h.bind_cases
      · cases he
      obtain ⟨e, he, -⟩ | ⟨ds₁, ds₂, _, -, -, h⟩ := h.bind_cases
      · cases he
      obtain ⟨hfilter, hall⟩ := ih h
      exact ⟨by rw [hfilter, List.filter_cons, if_neg (by simp [hlock])], hall⟩
    · obtain ⟨e, he, -⟩ | ⟨ds₁, ds₂, item, -, -, h⟩ := h.bind_cases
      · cases he
      obtain ⟨e, he, -⟩ | ⟨ds₁, ds₂, _, -, -, h⟩ := h.bind_cases
      · cases he
      obtain ⟨e, he, -⟩ | ⟨ds₁, ds₂, rest, -, hrest, h⟩ := h.bind_cases
      · cases he
      obtain ⟨-, h⟩ := Observation.runs_done.mp h
      cases h
      obtain ⟨hfilter, hall⟩ := ih hrest
      exact ⟨by rw [hfilter, List.filter_cons, if_neg (by simp [ht])], hall⟩
    · obtain ⟨e, he, -⟩ | ⟨ds₁, ds₂, _, -, hname, h⟩ := h.bind_cases
      · cases he
      obtain ⟨e, he, -⟩ | ⟨ds₃, ds₄, rest, -, hrest, h⟩ := h.bind_cases
      · cases he
      obtain ⟨-, h⟩ := Observation.runs_done.mp h
      cases h
      obtain ⟨-, hname⟩ := Observation.runs_done.mp hname
      split_ifs at hname with hmatch
      obtain ⟨hfilter, hall⟩ := ih hrest
      refine ⟨by rw [hfilter, List.filter_cons, if_pos (by simp [hlock, ht])], fun n hn => ?_⟩
      obtain rfl | hn := List.mem_cons.mp hn
      · exact hmatch.2
      · exact hall n hn

theorem refuses_checkNames (l : List Str) : Refuses (checkNames l) := by
  induction l with
  | nil => exact refuses_pure _
  | cons name l ih =>
    rw [checkNames]
    split_ifs
    · exact (refuses_statName name).bind fun item => (refuses_require _).bind fun _ => ih
    · exact (refuses_statName name).bind fun item => (refuses_require _).bind fun _ => ih.bind fun _ => refuses_pure _
    · exact (refuses_require _).bind fun _ => ih.bind fun _ => refuses_pure _

end
end Reading

/-! ### The published names in their order -/

namespace EventDirectory
variable {d D : EventDirectory}

/-- The published names that are events' come in their order. -/
theorem Tidy.pairwise_published (h : D.Tidy) : D.published.Pairwise fun e f =>
    (matchEventName e.1).isSome = true → (matchEventName f.1).isSome = true → e.1 < f.1 := by
  refine List.pairwise_iff_getElem.mpr fun i j hi hj hij he hf => ?_
  obtain ⟨⟨m, hexe⟩, he⟩ := Option.isSome_iff_exists.mp he
  obtain ⟨⟨n, hexf⟩, hf⟩ := Option.isSome_iff_exists.mp hf
  have hm := (h.named i _ (List.getElem?_eq_getElem hi)).sequence m hexe he
  have hn := (h.named j _ (List.getElem?_eq_getElem hj)).sequence n hexf hf
  obtain ⟨digits, rest, hname, hlen, hdigits, hvalue⟩ := matchEventName_eq_some he
  obtain ⟨digits', rest', hname', hlen', hdigits', hvalue'⟩ := matchEventName_eq_some hf
  rw [hname, hname']
  exact lt_of_decimalValue_lt rest rest' (hlen.trans hlen'.symm) hdigits hdigits' (by omega)

/-- Some of the published entries, all of which are events', are in the order of their names. -/
theorem Tidy.pairwise_filter (h : D.Tidy) {p : Str × Nat → Bool}
    (hall : ∀ e ∈ D.published.filter p, (matchEventName e.1).isSome = true) : (D.published.filter p).Pairwise fun e f => e.1 < f.1 :=
  (h.pairwise_published.filter p).imp_of_mem fun he hf hlt => hlt (hall _ he) (hall _ hf)

/-- A file that was left out of a replay stops it at the next one. -/
theorem Tidy.replay_filter (h : D.Tidy) {workspaceId : Uuid} {p : Str × Nat → Bool}
    (hall : ∀ e ∈ D.published.filter p, (matchEventName e.1).isSome = true) :
    let files := (D.published.takeWhile p).map D.eventFile
    let all := replay workspaceId ((D.published.filter p).map D.eventFile) .one none none
    all = replay workspaceId files .one none none ∨ all = .error .corrupt := by
  dsimp only
  have hreplay (l : List EventFile) := replay_eq_foldlM workspaceId l none
  simp only [show nextSequence none = Positive.one from rfl, show lastDigest none = none from rfl] at hreplay
  have hsplit : D.published.filter p = D.published.takeWhile p ++ (D.published.dropWhile p).filter p := by
    conv_lhs => rw [← List.takeWhile_append_dropWhile (p := p) (l := D.published), List.filter_append]
    rw [List.filter_eq_self.mpr fun e he => List.mem_takeWhile_imp he]
  rw [hsplit, hreplay, hreplay, List.map_append, List.foldlM_append]
  cases hfold : ((D.published.takeWhile p).map D.eventFile).foldlM (extend workspaceId) none with
  | error err => exact .inl rfl
  | ok u =>
    rw [ok_bind]
    cases hrest : (D.published.dropWhile p).filter p with
    | nil => exact .inl rfl
    | cons x rest =>
      -- the sequence of the next file is larger than the expected one
      have hx : x ∈ D.published.filter p := by
        rw [hsplit, hrest]
        exact List.mem_append_right _ List.mem_cons_self
      obtain ⟨⟨n, hex⟩, hmatch⟩ := Option.isSome_iff_exists.mp (hall x hx)
      have hexpected : (nextSequence u).1 = (D.published.takeWhile p).length + 1 := by
        rw [nextSequence_of_foldlM hfold, List.length_map]
        exact Nat.add_comm _ _
      have hsequence : n ≠ (nextSequence u).1 := by
        have hmem : x ∈ (D.published.dropWhile p).filter p := hrest ▸ List.mem_cons_self
        obtain ⟨hdrop, hp⟩ := List.mem_filter.mp hmem
        obtain ⟨j, hj⟩ := List.mem_iff_getElem?.mp hdrop
        have hindex : (D.published.takeWhile p ++ D.published.dropWhile p)[(D.published.takeWhile p).length + j]? = some x := by
          rw [List.getElem?_append_right (Nat.le_add_right _ _), Nat.add_sub_cancel_left, hj]
        rw [List.takeWhile_append_dropWhile] at hindex
        have hn := (h.named _ x hindex).sequence n hex hmatch
        have hne : j ≠ 0 := by
          rintro rfl
          have hhead := List.head?_dropWhile_not p D.published
          rw [List.head?_eq_getElem?, hj] at hhead
          exact absurd (hp.symm.trans hhead) (by decide)
        omega
      refine .inr ?_
      have hread : readEvent workspaceId (D.eventFile x) (nextSequence u) (lastDigest u) = .error .corrupt := by
        rw [readEvent, show matchEventName (D.eventFile x).name = _ from hmatch]
        dsimp only
        rw [LeanCtx.ensure, if_neg hsequence]
        rfl
      rw [List.map_cons, List.foldlM_cons, extend, hread]
      rfl

/-! ### A read while the directory changes -/

/-- The journal of files that are in their order is replayed as it is. -/
theorem project_of_pairwise {workspaceId : Uuid} {l : List (Str × Nat)} (hall : ∀ e ∈ l, (matchEventName e.1).isSome = true)
    (hsorted : l.Pairwise fun e f => e.1 < f.1) :
    project workspaceId (l.map D.eventFile) = replay workspaceId (l.map D.eventFile) .one none none >>= checkState workspaceId := by
  have hnames : ∀ f ∈ l.map D.eventFile, (matchEventName f.name).isSome = true := by
    intro f hf
    obtain ⟨e, he, rfl⟩ := List.mem_map.mp hf
    exact hall e he
  have hsort : sortEntries l = l := (hsorted.imp le_of_lt).insertionSort_eq
  rw [project, ensure_true hnames, ok_bind, sortFiles_map, hsort]
  refine bind_congr fun s => ?_
  cases s <;> rfl

/-- What a listing found of the published names, after which some directories follow: all names that were published before it, and no
    others than those that stay published. -/
structure Found (d D : EventDirectory) (names : List Str) (ds : List EventDirectory) : Prop where
  kept : ∀ e ∈ d.published, e.1 ∈ names
  seen : ∀ n ∈ names, ¬IsTemporary n → ∃ e ∈ D.published, e.1 = n ∧ ∀ x ∈ ds, e ∈ x.published

theorem found_of_lists {l ds : List EventDirectory} {names : List Str} (hl : Observation.Lists l names) (hfirst : ∀ x ∈ l, d.Later x)
    (hordered : ∀ x ∈ l, ∀ y ∈ ds, x.Later y) (hlast : ∀ x ∈ l, x.Later D) : Found d D names ds where
  kept := by
    intro e he
    refine hl.kept e.1 fun x hx => ?_
    exact List.mem_map_of_mem (mem_published.mp ((hfirst x hx).published.subset he)).1
  seen := by
    intro n hn ht
    obtain ⟨x, hx, hmem⟩ := hl.seen n hn
    obtain ⟨e, he, rfl⟩ := List.mem_map.mp hmem
    have hpublished := mem_published.mpr ⟨he, ht⟩
    exact ⟨e, (hlast x hx).published.subset hpublished, rfl, fun y hy => (hordered x hx y hy).published.subset hpublished⟩

theorem takeWhile_sublist_filter {α : Type} (p : α → Bool) (l : List α) : (l.takeWhile p).Sublist (l.filter p) := by
  rw [← List.filter_eq_self.mpr fun a (ha : a ∈ l.takeWhile p) => List.mem_takeWhile_imp ha]
  exact (List.takeWhile_sublist p).filter p

section
variable {names published : List Str} {ds : List EventDirectory}

theorem mem_names_of_published (hpublished : published = names.filter fun n => n ≠ lockName ∧ ¬IsTemporary n) {n : Str}
    (hn : n ∈ published) : n ∈ names ∧ ¬IsTemporary n := by
  rw [hpublished] at hn
  obtain ⟨hmem, hcond⟩ := List.mem_filter.mp hn
  exact ⟨hmem, (of_decide_eq_true hcond).2⟩

/-- The published names in their order are those of some of the published entries. -/
theorem sortNames_published (hD : D.Tidy) (hfound : Found d D names ds)
    (hpublished : published = names.filter fun n => n ≠ lockName ∧ ¬IsTemporary n)
    (hall : ∀ n ∈ published, (matchEventName n).isSome = true) (hnodup : names.Nodup) :
    sortNames published = (D.published.filter fun e => e.1 ∈ published).map (·.1) := by
  have hsorted : (D.published.filter fun e => e.1 ∈ published).Pairwise fun e f => e.1 < f.1 :=
    hD.pairwise_filter fun e he => hall e.1 (of_decide_eq_true (List.mem_filter.mp he).2)
  have hleft : (sortNames published).Pairwise (· < ·) := sorted_insertionSort (hpublished ▸ hnodup.filter _)
  refine hleft.eq_of_mem_iff (List.pairwise_map.mpr hsorted) fun n => ?_
  rw [sortNames, (List.perm_insertionSort _ published).mem_iff, List.mem_map]
  constructor
  · intro hn
    obtain ⟨hmem, ht⟩ := mem_names_of_published hpublished hn
    obtain ⟨e, he, rfl, -⟩ := hfound.seen n hmem ht
    exact ⟨e, List.mem_filter.mpr ⟨he, decide_eq_true hn⟩, rfl⟩
  · rintro ⟨e, he, rfl⟩
    exact of_decide_eq_true (List.mem_filter.mp he).2

/-- The published files stay as they are while they are read. -/
theorem fixed_published (hD : D.Tidy) (hfound : Found d D names ds)
    (hpublished : published = names.filter fun n => n ≠ lockName ∧ ¬IsTemporary n) (htidy : ∀ x ∈ ds, x.Tidy)
    (hlast : ∀ x ∈ ds, x.Later D) : ∀ e ∈ D.published.filter (fun e => e.1 ∈ published), Fixed ds e (D.contents e.2) := by
  intro e he
  obtain ⟨hmem, hp⟩ := List.mem_filter.mp he
  obtain ⟨hname, ht⟩ := mem_names_of_published hpublished (of_decide_eq_true hp)
  obtain ⟨e', he', heq, hseen⟩ := hfound.seen e.1 hname ht
  obtain rfl := List.inj_on_of_nodup_map hD.names (mem_published.mp he').1 (mem_published.mp hmem).1 heq
  have hentry : ∀ x ∈ ds, e' ∈ x.entries := fun x hx => (mem_published.mp (hseen x hx)).1
  exact ⟨fun x hx => (htidy x hx).file? (hentry x hx), fun x hx => (htidy x hx).isLinked (hentry x hx),
    fun x hx => ((hlast x hx).contents e' (hseen x hx)).symm⟩

/-- The files up to the first one that the listing has not found are a journal that contains what had been published before. -/
theorem isPrefix_takeWhile (hd : d.Tidy) (hlater : d.Later D) (hfound : Found d D names ds)
    (hpublished : published = names.filter fun n => n ≠ lockName ∧ ¬IsTemporary n) :
    d.journal <+: (D.published.takeWhile fun e => e.1 ∈ published).map D.eventFile ∧
      (D.published.takeWhile fun e => e.1 ∈ published).map D.eventFile <+: D.journal := by
  refine ⟨?_, (List.takeWhile_prefix _).map _⟩
  obtain ⟨rest, hrest⟩ := hlater.published
  have hin : ∀ e ∈ d.published, decide (e.1 ∈ published) = true := by
    intro e he
    rw [hpublished]
    refine decide_eq_true (List.mem_filter.mpr ⟨hfound.kept e he, decide_eq_true ⟨?_, (mem_published.mp he).2⟩⟩)
    exact ne_lockName (.inr (hd.digit he))
  rw [EventDirectory.journal, ← hlater.map_eventFile fun e he => he, ← hrest, List.takeWhile_append_of_pos hin, List.map_append]
  exact List.prefix_append _ _

end

/-- A read of a directory that changes, where every directory that it sees is later than the one before: it is refused, or it comes to
    what the journal was at some time of the read. -/
theorem runs_projectDirectory {workspaceId : Uuid} {ds : List EventDirectory} {r : Except Failure State} (htidy : ∀ x ∈ ds, x.Tidy)
    (hd : d.Tidy) (hD : D.Tidy) (hfirst : ∀ x ∈ ds, d.Later x) (hordered : ds.Pairwise Later) (hlast : ∀ x ∈ ds, x.Later D)
    (h : (projectDirectory workspaceId).Runs ds r) :
    r = .error .io ∨ r = .error .corrupt ∨ ∃ files, d.journal <+: files ∧ files <+: D.journal ∧ r = project workspaceId files := by
  have hrefused {ds : List EventDirectory} {α : Type} {p : Reading α} (hp : Refuses p) {e : Failure} (h : p.Runs ds (.error e)) :
      (Except.error e : Except Failure State) = .error .io ∨ (Except.error e : Except Failure State) = .error .corrupt ∨
        ∃ files, d.journal <+: files ∧ files <+: D.journal ∧ .error e = project workspaceId files := by
    obtain rfl | rfl := hp _ _ h
    · exact .inl rfl
    · exact .inr (.inl rfl)
  -- the names
  rw [projectDirectory] at h
  cases h with
  | @list _ l ds names _ hl h =>
  replace h : (checkNames names >>= _).Runs ds r := h
  obtain ⟨hleft, hright, hacross⟩ := List.pairwise_append.mp hordered
  have hfound : Found d D names ds := found_of_lists hl (fun x hx => hfirst x (List.mem_append_left _ hx)) hacross fun x hx =>
    hlast x (List.mem_append_left _ hx)
  have hlater : d.Later D := by
    obtain ⟨x, hx⟩ := List.exists_mem_of_ne_nil l hl.started
    exact (hfirst x (List.mem_append_left _ hx)).trans (hlast x (List.mem_append_left _ hx))
  obtain ⟨e, rfl, hfailed⟩ | ⟨ds₁, ds₂, ⟨published, temporaries⟩, rfl, hnames, h⟩ := h.bind_cases
  · exact hrefused (refuses_checkNames names) hfailed
  obtain ⟨hpublished, hall⟩ := runs_checkNames hnames
  dsimp only at hpublished hall h
  have hsuffix : ∀ x ∈ ds₂, x ∈ l ++ (ds₁ ++ ds₂) := fun x hx => by simp [hx]
  replace hfound : Found d D names ds₂ := ⟨hfound.kept, fun n hn ht => by
    obtain ⟨e, he, hname, hseen⟩ := hfound.seen n hn ht
    exact ⟨e, he, hname, fun x hx => hseen x (List.mem_append_right _ hx)⟩⟩
  rw [sortNames_published hD hfound hpublished hall hl.nodup] at h
  have hmatch : ∀ e ∈ D.published.filter (fun e => e.1 ∈ published), (matchEventName e.1).isSome = true :=
    fun e he => hall e.1 (of_decide_eq_true (List.mem_filter.mp he).2)
  have hfixed := fixed_published hD hfound hpublished (fun x hx => htidy x (hsuffix x hx)) fun x hx => hlast x (hsuffix x hx)
  -- the files up to the first one that is missing, and what the replay makes of them
  obtain ⟨hbefore, hafter⟩ := isPrefix_takeWhile hd hlater hfound hpublished
  have htake : ∀ e ∈ D.published.takeWhile (fun e => e.1 ∈ published), e ∈ D.published.filter fun e => e.1 ∈ published :=
    fun e he => (takeWhile_sublist_filter _ _).subset he
  have hproject : project workspaceId ((D.published.takeWhile fun e => e.1 ∈ published).map D.eventFile) = _ :=
    project_of_pairwise (fun e he => hmatch e (htake e he))
      ((hD.pairwise_filter hmatch).sublist (takeWhile_sublist_filter _ _))
  have hreplay := @Tidy.replay_filter _ hD workspaceId _ hmatch
  dsimp only at hreplay
  obtain ⟨e, rfl, hfailed⟩ | ⟨ds₃, ds₄, s, rfl, hs, h⟩ := h.bind_cases
  · have hr := runs_replayNames hfixed hfailed
    obtain hsame | hcorrupt := hreplay
    · refine .inr (.inr ⟨_, hbefore, hafter, ?_⟩)
      rw [hproject, hsame.symm.trans hr.symm]
      rfl
    · cases hr.trans hcorrupt
      exact .inr (.inl rfl)
  · have hr := runs_replayNames (fun e he => (hfixed e he).left) hs
    obtain ⟨e, rfl, hfailed⟩ | ⟨ds₅, ds₆, finals, rfl, -, h⟩ := h.bind_cases
    · exact hrefused (refuses_finalFiles _) hfailed
    obtain ⟨e, rfl, hfailed⟩ | ⟨ds₇, ds₈, _, rfl, -, h⟩ := h.bind_cases
    · exact hrefused (refuses_checkTemporaries finals temporaries) hfailed
    obtain ⟨e, rfl, hfailed⟩ | ⟨ds₉, ds₁₀, _, rfl, -, h⟩ := h.bind_cases
    · exact hrefused (refuses_checkFinals temporaries finals) hfailed
    obtain ⟨-, rfl⟩ := Observation.runs_done.mp h
    obtain hsame | hcorrupt := hreplay
    · refine .inr (.inr ⟨_, hbefore, hafter, ?_⟩)
      rw [hproject, hsame.symm.trans hr.symm]
      rfl
    · cases hr.trans hcorrupt

end EventDirectory

namespace Store
variable {workspaceId : Uuid} {σ₀ σ₁ σ₂ : Store}

instance : IsTrans Store (Reaches workspaceId) := ⟨fun _ _ _ => Runs.trans⟩

/-- A read without the lock, whose calls find the store as it is at some times between two others, while any clients append, stop and fail:
    where it succeeds it has the state of a journal that contains every event that had been published when it began, and none that had not
    been published when it ended. Else it raises an input or output error, or takes the directory for corrupt, or fails as a reader of such
    a journal does. -/
theorem reads_prefix_of_journal (hidle : σ₀.IsIdle) (h : Reaches workspaceId σ₀ σ₁) {σs : List Store}
    (hcalls : List.IsChain (Reaches workspaceId) (σ₁ :: σs ++ [σ₂])) {r : Except Failure State}
    (hr : (projectDirectory workspaceId).Runs (σs.map (·.directory)) r) :
    r = .error .io ∨ r = .error .corrupt ∨ ∃ files, σ₁.directory.journal <+: files ∧ files <+: σ₂.directory.journal ∧
      r = project workspaceId files := by
  have hpairwise : (σ₁ :: (σs ++ [σ₂])).Pairwise (Reaches workspaceId) := List.isChain_iff_pairwise.mp hcalls
  obtain ⟨hfirst, hpairwise⟩ := List.pairwise_cons.mp hpairwise
  obtain ⟨hordered, -, hlast⟩ := List.pairwise_append.mp hpairwise
  obtain ⟨hinv, -⟩ := hidle.inv.of_reaches h
  have hinv' : ∀ σ ∈ σs ++ [σ₂], Inv workspaceId σ₀.directory.journal σ ∧ σ₁.directory.Later σ.directory :=
    fun σ hσ => hinv.of_reaches (hfirst σ hσ)
  have hlater : ∀ σ ∈ σs, ∀ σ', Reaches workspaceId σ σ' → σ.directory.Later σ'.directory :=
    fun σ hσ σ' hreach => ((hinv' σ (List.mem_append_left _ hσ)).1.of_reaches hreach).2
  refine runs_projectDirectory ?_ hinv.tidy (hinv' σ₂ (by simp)).1.tidy ?_ ?_ ?_ hr
  · intro x hx
    obtain ⟨σ, hσ, rfl⟩ := List.mem_map.mp hx
    exact (hinv' σ (List.mem_append_left _ hσ)).1.tidy
  · intro x hx
    obtain ⟨σ, hσ, rfl⟩ := List.mem_map.mp hx
    exact (hinv' σ (List.mem_append_left _ hσ)).2
  · exact List.pairwise_map.mpr (hordered.imp_of_mem fun hσ _ hreach => hlater _ hσ _ hreach)
  · intro x hx
    obtain ⟨σ, hσ, rfl⟩ := List.mem_map.mp hx
    exact hlater σ hσ σ₂ (hlast σ hσ σ₂ (List.mem_singleton_self _))

/-- A read of a sample workspace that nobody works on. -/
theorem exists_reads_prefix_of_journal : ∃ (σ₀ : Store) (σs : List Store) (s : State), IsIdle σ₀ ∧
    (projectDirectory (numberedUuid 0)).Runs (σs.map (·.directory)) (.ok s) ∧
      ((.ok s : Except Failure State) = .error .io ∨ (.ok s : Except Failure State) = .error .corrupt ∨ ∃ files,
        σ₀.directory.journal <+: files ∧ files <+: σ₀.directory.journal ∧ .ok s = project (numberedUuid 0) files) := by
  obtain ⟨σ₀, s, hidle, hs, -⟩ := exists_idle
  obtain ⟨n, hn⟩ := Observation.exists_runs hidle.tidy.names (projectDirectory (numberedUuid 0))
  rw [hidle.tidy.eval_projectDirectory, hs, ← List.map_replicate] at hn
  have hcalls : List.IsChain (Reaches (numberedUuid 0)) (σ₀ :: List.replicate n σ₀ ++ [σ₀]) := by
    refine List.isChain_iff_pairwise.mpr (List.pairwise_of_forall_mem_list fun a ha b hb => ?_)
    have hall : ∀ x ∈ σ₀ :: List.replicate n σ₀ ++ [σ₀], x = σ₀ := by
      intro x hx
      rcases List.mem_append.mp hx with hx | hx
      · rcases List.mem_cons.mp hx with rfl | hx
        · rfl
        · exact List.eq_of_mem_replicate hx
      · exact List.mem_singleton.mp hx
    rw [hall a ha, hall b hb]
    exact .refl
  exact ⟨σ₀, _, s, hidle, hn, reads_prefix_of_journal hidle .refl hcalls hn⟩

end Store
end LeanCtx
