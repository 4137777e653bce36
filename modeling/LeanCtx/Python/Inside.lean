import LeanCtx.Python.Path
import Mathlib.Data.List.Basic

/-! Normal forms of POSIX paths, as lists of names from the root: what a path is in its normal form, which paths lie inside a directory,
    and which relative path leads to them from there. -/

namespace LeanCtx.Path

/-- A name between slashes: not empty, and neither of the two that consist of dots alone. -/
structure IsName (c : Str) : Prop where
  nonempty : c ≠ []
  dot : c ≠ [46]
  dots : c ≠ [46, 46]
  slash : 47 ∉ c

/-- A part of a path: not empty, and without a slash. -/
def IsPart (c : Str) : Prop := c ≠ [] ∧ 47 ∉ c

theorem IsName.isPart {c : Str} (h : IsName c) : IsPart c := ⟨h.nonempty, h.slash⟩

/-- The path of names from the root. -/
def absolute (l : List Str) : Str := 47 :: joinParts l

/-- A path from the root that is in its normal form: POSIX keeps a second slash. -/
inductive Normal (l : List Str) : Str → Prop
  | root : Normal l (absolute l)
  | double : Normal l (47 :: absolute l)

/-! ### Splitting and joining -/

theorem split_slash (r : Str) : split (47 :: r) = [] :: split r := by simp [split]

theorem split_append {p : Str} (h : 47 ∉ p) (r : Str) : split (p ++ 47 :: r) = p :: split r := by
  induction p with
  | nil => exact split_slash r
  | cons c p ih =>
    obtain ⟨hc, hp⟩ := not_or.mp (List.mem_cons.not.mp h)
    rw [List.cons_append, split, if_neg (Ne.symm hc), ih hp]

theorem split_of_not_mem {p : Str} (h : 47 ∉ p) : split p = [p] := by
  induction p with
  | nil => rfl
  | cons c p ih =>
    obtain ⟨hc, hp⟩ := not_or.mp (List.mem_cons.not.mp h)
    rw [split, if_neg (Ne.symm hc), ih hp]

theorem split_joinParts {l : List Str} (hne : l ≠ []) (h : ∀ c ∈ l, 47 ∉ c) : split (joinParts l) = l := by
  induction l with
  | nil => exact absurd rfl hne
  | cons p l ih =>
    obtain ⟨hp, hl⟩ := List.forall_mem_cons.mp h
    cases l with
    | nil => exact split_of_not_mem hp
    | cons q l => rw [joinParts, split_append hp, ih (List.cons_ne_nil _ _) hl]

theorem split_joinParts_append {l : List Str} (hne : l ≠ []) (h : ∀ c ∈ l, 47 ∉ c) (q : Str) :
    split (joinParts l ++ 47 :: q) = l ++ split q := by
  induction l with
  | nil => exact absurd rfl hne
  | cons p l ih =>
    obtain ⟨hp, hl⟩ := List.forall_mem_cons.mp h
    cases l with
    | nil => exact split_append hp q
    | cons p' l =>
      rw [joinParts, List.append_assoc, List.cons_append, split_append hp, ih (List.cons_ne_nil _ _) hl]
      rfl

/-- What stands between slashes has no slash, and nothing that the path has not. -/
theorem mem_split {s c : Str} (hc : c ∈ split s) : 47 ∉ c ∧ c ⊆ s := by
  induction s generalizing c with
  | nil =>
    rw [split, List.mem_singleton] at hc
    rw [hc]
    exact ⟨List.not_mem_nil, List.nil_subset _⟩
  | cons d s ih =>
    rw [split] at hc
    split_ifs at hc with hd
    · rcases List.mem_cons.mp hc with rfl | hc
      · exact ⟨List.not_mem_nil, List.nil_subset _⟩
      · exact ⟨(ih hc).1, List.subset_cons_of_subset _ (ih hc).2⟩
    · split at hc
      · rw [List.mem_singleton.mp hc]
        exact ⟨fun h => hd (List.mem_singleton.mp h).symm, by simp⟩
      · next p l hs =>
        rcases List.mem_cons.mp hc with rfl | hc
        · obtain ⟨hslash, hsub⟩ := ih (hs ▸ List.mem_cons_self)
          exact ⟨fun h => (List.mem_cons.mp h).elim (fun h => hd h.symm) hslash, List.cons_subset_cons _ hsub⟩
        · obtain ⟨hslash, hsub⟩ := ih (hs ▸ List.mem_cons_of_mem _ hc)
          exact ⟨hslash, List.subset_cons_of_subset _ hsub⟩

theorem joinParts_append {r t : List Str} (hr : r ≠ []) (ht : t ≠ []) : joinParts r ++ 47 :: joinParts t = joinParts (r ++ t) := by
  induction r with
  | nil => exact absurd rfl hr
  | cons p r ih =>
    cases r with
    | nil =>
      cases t with
      | nil => exact absurd rfl ht
      | cons q t => rfl
    | cons q r =>
      have hrest := ih (List.cons_ne_nil _ _)
      simp only [List.cons_append, joinParts, List.append_assoc] at hrest ⊢
      rw [hrest]

theorem mem_joinParts {l : List Str} {x : Nat} (hx : x ∈ joinParts l) : x = 47 ∨ ∃ c ∈ l, x ∈ c := by
  induction l with
  | nil => cases hx
  | cons p l ih =>
    cases l with
    | nil => exact .inr ⟨p, List.mem_cons_self, hx⟩
    | cons q l =>
      rw [joinParts, List.mem_append, List.mem_cons] at hx
      rcases hx with hx | rfl | hx
      · exact .inr ⟨p, List.mem_cons_self, hx⟩
      · exact .inl rfl
      · obtain h | ⟨c, hc, hxc⟩ := ih hx
        · exact .inl h
        · exact .inr ⟨c, List.mem_cons_of_mem _ hc, hxc⟩

section
variable {l r p t : List Str}

/-- The names of a path are a final part of it. -/
theorem joinParts_isSuffix (r : List Str) (ht : t ≠ []) : joinParts t <:+ absolute (r ++ t) := by
  by_cases hr : r = []
  · rw [hr]
    exact List.suffix_cons _ _
  · rw [absolute, ← joinParts_append hr ht]
    exact ⟨47 :: (joinParts r ++ [47]), by simp⟩

theorem head_joinParts (h : ∀ c ∈ l, IsPart c) : (joinParts l).head? ≠ some 47 := by
  cases l with
  | nil => nofun
  | cons p l =>
    obtain ⟨⟨hne, hslash⟩, -⟩ := List.forall_mem_cons.mp h
    cases p with
    | nil => exact absurd rfl hne
    | cons c p =>
      have hhead : (joinParts ((c :: p) :: l)).head? = some c := by cases l <;> rfl
      rw [hhead]
      rintro ⟨⟩
      exact hslash List.mem_cons_self

theorem last_joinParts (hne : l ≠ []) (h : ∀ c ∈ l, IsPart c) : (joinParts l).getLast? ≠ some 47 ∧ joinParts l ≠ [] := by
  induction l with
  | nil => exact absurd rfl hne
  | cons p l ih =>
    obtain ⟨⟨hp, hslash⟩, hl⟩ := List.forall_mem_cons.mp h
    cases l with
    | nil => exact ⟨fun hlast => hslash (List.mem_of_getLast? hlast), hp⟩
    | cons q l =>
      obtain ⟨hlast, hnil⟩ := ih (List.cons_ne_nil _ _) hl
      refine ⟨?_, by simp [joinParts]⟩
      rw [joinParts, List.getLast?_append_of_ne_nil _ (List.cons_ne_nil _ _), List.getLast?_cons]
      cases hj : (joinParts (q :: l)).getLast? with
      | none => exact absurd (List.getLast?_eq_none_iff.mp hj) hnil
      | some x =>
        rw [hj] at hlast
        simpa using hlast

theorem isAbs_eq_false {q : Str} : isAbs q = false ↔ q.head? ≠ some 47 := by simp [isAbs]

theorem isAbs_joinParts (h : ∀ c ∈ l, IsPart c) : isAbs (joinParts l) = false := isAbs_eq_false.mpr (head_joinParts h)

/-- The parts of an absolute path that are not empty are its names. -/
theorem parts_absolute (h : ∀ c ∈ l, IsPart c) : (split (absolute l)).filter (fun c => !c.isEmpty) = l := by
  have hparts : l.filter (fun c => !c.isEmpty) = l := by
    rw [List.filter_eq_self]
    intro c hc
    simpa using (h c hc).1
  rw [absolute, split_slash, List.filter_cons_of_neg (by simp)]
  by_cases hl : l = []
  · rw [hl]
    rfl
  · rw [split_joinParts hl fun c hc => (h c hc).2, hparts]

theorem Normal.parts {q : Str} (hq : Normal l q) (h : ∀ c ∈ l, IsPart c) : (split q).filter (fun c => !c.isEmpty) = l := by
  cases hq with
  | root => exact parts_absolute h
  | double =>
    rw [split_slash, List.filter_cons_of_neg (by simp)]
    exact parts_absolute h

theorem Normal.names {q : Str} (hq : Normal l q) (h : ∀ c ∈ l, IsName c) : Path.names q = l := by
  have hparts := hq.parts fun c hc => (h c hc).isPart
  have hfilter : Path.names q = ((split q).filter fun c => !c.isEmpty).filter fun c => c != [46] := by
    rw [Path.names, List.filter_filter]
    exact List.filter_congr fun c _ => Bool.and_comm _ _
  rw [hfilter, hparts, List.filter_eq_self]
  intro c hc
  simpa using (h c hc).dot

/-! ### Normal parts -/

theorem normParts_append (abs : Bool) (l k : List Str) : ∀ acc, normParts abs acc (l ++ k) = normParts abs (normParts abs acc l) k := by
  induction l with
  | nil => exact fun acc => rfl
  | cons c l ih =>
    intro acc
    simp only [List.cons_append, normParts]
    split_ifs <;> exact ih _

/-- A name is kept. -/
theorem normParts_name {abs : Bool} {c : Str} (h : IsName c) (acc : List Str) : normParts abs acc [c] = c :: acc := by
  rw [normParts, if_neg (not_or.mpr ⟨h.nonempty, h.dot⟩), if_pos (.inl h.dots)]
  rfl

/-- Names are kept, the last one first. -/
theorem normParts_names {abs : Bool} (h : ∀ c ∈ l, IsName c) : ∀ acc, normParts abs acc l = l.reverse ++ acc := by
  induction l with
  | nil => exact fun acc => rfl
  | cons c l ih =>
    intro acc
    obtain ⟨hc, hl⟩ := List.forall_mem_cons.mp h
    rw [← List.singleton_append, normParts_append, normParts_name hc, ih hl, List.reverse_append]
    simp

/-- From the root on, every part that is kept is a name: a parent never is. -/
theorem isName_normParts {acc : List Str} (hacc : ∀ c ∈ acc, IsName c) (h : ∀ c ∈ l, 47 ∉ c) : ∀ c ∈ normParts true acc l, IsName c := by
  induction l generalizing acc with
  | nil => exact hacc
  | cons d l ih =>
    obtain ⟨hd, hl⟩ := List.forall_mem_cons.mp h
    rw [normParts]
    split_ifs with hskip hkeep
    · exact ih hacc hl
    · refine ih (List.forall_mem_cons.mpr ⟨?_, hacc⟩) hl
      obtain ⟨hnil, hdot⟩ := not_or.mp hskip
      rcases hkeep with hdots | ⟨habs, -⟩ | hhead
      · exact ⟨hnil, hdot, hdots, hd⟩
      · cases habs
      · exact absurd rfl (hacc _ (List.mem_of_head? hhead)).dots
    · exact ih (fun c hc => hacc c (List.mem_of_mem_tail hc)) hl

/-- Whatever is kept was there. -/
theorem mem_normParts {abs : Bool} {acc : List Str} {c : Str} (hc : c ∈ normParts abs acc l) : c ∈ acc ∨ c ∈ l ∧ c ≠ [] ∧ c ≠ [46] := by
  induction l generalizing acc with
  | nil => exact .inl hc
  | cons d l ih =>
    rw [normParts] at hc
    split_ifs at hc with hskip hkeep
    · exact (ih hc).imp_right fun h => ⟨List.mem_cons_of_mem _ h.1, h.2⟩
    · rcases ih hc with h | h
      · rcases List.mem_cons.mp h with rfl | h
        · exact .inr ⟨List.mem_cons_self, not_or.mp hskip⟩
        · exact .inl h
      · exact .inr ⟨List.mem_cons_of_mem _ h.1, h.2⟩
    · rcases ih hc with h | h
      · exact .inl (List.mem_of_mem_tail h)
      · exact .inr ⟨List.mem_cons_of_mem _ h.1, h.2⟩

/-- To normalize a relative path before it is followed from some directory changes nothing: a parent that is taken back there would be
    taken back here. -/
theorem normParts_normParts (acc : List Str) {k : List Str} (hk : ∀ c ∈ k, c ≠ [] ∧ c ≠ [46]) :
    normParts true acc (normParts false k l).reverse = normParts true (normParts true acc k.reverse) l := by
  induction l generalizing k with
  | nil => rfl
  | cons d l ih =>
    have hkept : normParts true (normParts true acc k.reverse) (d :: l) = normParts true (normParts true acc (d :: k).reverse) l := by
      rw [List.reverse_cons, normParts_append true k.reverse [d], ← normParts_append true [d]]
      rfl
    rw [normParts]
    split_ifs with hskip hkeep
    · rw [ih hk, normParts, if_pos hskip]
    · rw [ih (List.forall_mem_cons.mpr ⟨not_or.mp hskip, hk⟩), hkept]
    · obtain ⟨hdots, hrest⟩ := not_or.mp hkeep
      obtain ⟨hnil, hhead⟩ := not_or.mp hrest
      cases k with
      | nil => exact absurd ⟨rfl, rfl⟩ hnil
      | cons e k =>
        obtain ⟨⟨he, hdot⟩, hk⟩ := List.forall_mem_cons.mp hk
        have hparent : normParts true acc (e :: k).reverse = e :: normParts true acc k.reverse := by
          rw [List.reverse_cons, normParts_append, normParts, if_neg (not_or.mpr ⟨he, hdot⟩),
            if_pos (.inl fun h => hhead (congrArg some h))]
          rfl
        have hback : ¬(d ≠ [46, 46] ∨ (!true ∧ e :: normParts true acc k.reverse = []) ∨
            (e :: normParts true acc k.reverse).head? = some [46, 46]) := by
          rintro (h | ⟨h, -⟩ | h)
          · exact hdots h
          · cases h
          · exact hhead h
        rw [List.tail_cons, ih hk, hparent, normParts, if_neg hskip, if_neg hback, List.tail_cons]

/-! ### Normal forms -/

theorem initialSlashes_single {q : Str} (h : q.head? ≠ some 47) : initialSlashes (47 :: q) = [47] := by
  cases q with
  | nil => rfl
  | cons c q =>
    have hc : c ≠ 47 := fun hc => h (congrArg some hc)
    simp [initialSlashes, isAbs, hc.symm]

theorem initialSlashes_double {q : Str} (h : q.head? ≠ some 47) : initialSlashes (47 :: 47 :: q) = [47, 47] := by
  cases q with
  | nil => rfl
  | cons c q =>
    have hc : c ≠ 47 := fun hc => h (congrArg some hc)
    simp [initialSlashes, isAbs, hc.symm]

theorem initialSlashes_eq {q : Str} (h : isAbs q = true) : initialSlashes q = [47] ∨ initialSlashes q = [47, 47] := by
  unfold initialSlashes
  rw [if_pos h]
  split_ifs
  · exact .inr rfl
  · exact .inl rfl

/-- An absolute path has a normal form that consists of names. -/
theorem exists_normal {q : Str} (h : isAbs q = true) : ∃ l, (∀ c ∈ l, IsName c) ∧ Normal l (normpath q) := by
  have hnames : ∀ c ∈ normParts true [] (split q), IsName c := isName_normParts nofun fun c hc => (mem_split hc).1
  refine ⟨(normParts true [] (split q)).reverse, fun c hc => hnames c (List.mem_reverse.mp hc), ?_⟩
  rw [normpath, h]
  rcases initialSlashes_eq h with hs | hs <;> rw [hs]
  · exact .root
  · exact .double

theorem split_joinParts_getD (h : ∀ c ∈ l, 47 ∉ c) : split (joinParts l) = if l = [] then [[]] else l := by
  split_ifs with hl
  · rw [hl]
    rfl
  · exact split_joinParts hl h

/-- A normal form is its own. -/
theorem Normal.normpath_eq {q : Str} (hq : Normal l q) (h : ∀ c ∈ l, IsName c) : normpath q = q := by
  have hhead := head_joinParts fun c hc => (h c hc).isPart
  have hjoined : normParts true [] (split (joinParts l)) = l.reverse := by
    rw [split_joinParts_getD fun c hc => (h c hc).slash]
    split_ifs with hl
    · rw [hl]
      rfl
    · rw [normParts_names h, List.append_nil]
  have hparts : normParts true [] (split q) = l.reverse := by
    cases hq with
    | root =>
      rw [absolute, split_slash, normParts, if_pos (.inl rfl), hjoined]
    | double =>
      rw [absolute, split_slash, split_slash, normParts, if_pos (.inl rfl), normParts, if_pos (.inl rfl), hjoined]
  have habs : isAbs q = true := by cases hq <;> rfl
  rw [normpath, habs, hparts, List.reverse_reverse]
  cases hq with
  | root =>
    rw [absolute, initialSlashes_single hhead]
    rfl
  | double =>
    rw [absolute, initialSlashes_double hhead]
    rfl

theorem normpath_normpath {q : Str} (h : isAbs q = true) : normpath (normpath q) = normpath q := by
  obtain ⟨l, hl, hnormal⟩ := exists_normal h
  exact hnormal.normpath_eq hl

theorem isAbs_normpath {q : Str} (h : isAbs q = true) : isAbs (normpath q) = true := by
  obtain ⟨l, hl, hnormal⟩ := exists_normal h
  revert hnormal
  generalize normpath q = n
  rintro (_ | _) <;> rfl

/-- A path of names is a normal form. -/
theorem normpath_joinParts (hne : l ≠ []) (h : ∀ c ∈ l, IsName c) : normpath (joinParts l) = joinParts l := by
  have habs := isAbs_joinParts fun c hc => (h c hc).isPart
  have hslashes : initialSlashes (joinParts l) = [] := by
    rw [initialSlashes, habs]
    exact if_neg Bool.false_ne_true
  rw [normpath, habs, hslashes, split_joinParts hne fun c hc => (h c hc).slash, normParts_names h, List.append_nil, List.reverse_reverse]
  exact if_neg (last_joinParts hne fun c hc => (h c hc).isPart).2

/-- Nothing comes up in a normal form but slashes, dots and what the path has. -/
theorem mem_normpath {q : Str} {x : Nat} (hx : x ∈ normpath q) : x = 47 ∨ x = 46 ∨ x ∈ q := by
  have hbody : x ∈ initialSlashes q ++ joinParts (normParts (isAbs q) [] (split q)).reverse → x = 47 ∨ x ∈ q := by
    intro hx
    rcases List.mem_append.mp hx with hx | hx
    · unfold initialSlashes at hx
      split_ifs at hx <;> simp_all
    · obtain h | ⟨c, hc, hxc⟩ := mem_joinParts hx
      · exact .inl h
      · obtain h | h := mem_normParts (List.mem_reverse.mp hc)
        · cases h
        · exact .inr ((mem_split h.1).2 hxc)
  unfold normpath at hx
  simp only at hx
  split_ifs at hx
  · exact .inr (.inl (List.mem_singleton.mp hx))
  · exact (hbody hx).imp_right .inr

theorem mem_join {a b : Str} {x : Nat} (hx : x ∈ join a b) : x = 47 ∨ x ∈ a ∨ x ∈ b := by
  unfold join at hx
  split_ifs at hx
  · exact .inr (.inr hx)
  · exact .inr (List.mem_append.mp hx)
  · simp only [List.mem_append, List.mem_cons] at hx
    tauto

/-! ### What lies inside a directory -/

theorem join_root {q : Str} (hq : isAbs q = false) : join (absolute []) q = 47 :: q := by
  rw [join, hq, if_neg Bool.false_ne_true]
  exact if_pos (.inr rfl)

theorem join_absolute {q : Str} (hnil : r ≠ []) (hr : ∀ c ∈ r, IsName c) (hq : isAbs q = false) :
    join (absolute r) q = absolute r ++ 47 :: q := by
  obtain ⟨hlast, hjoined⟩ := last_joinParts hnil fun c hc => (hr c hc).isPart
  have hend : ¬(absolute r = [] ∨ (absolute r).getLast? = some 47) := by
    rintro (h | h)
    · cases h
    · obtain ⟨c, k, hc⟩ := List.exists_cons_of_ne_nil hjoined
      rw [absolute, hc, List.getLast?_cons_cons, ← hc] at h
      exact hlast h
  rw [join, hq, if_neg Bool.false_ne_true, if_neg hend]

/-- A relative path is followed from a directory: its parts come after the names of the directory. -/
theorem normpath_join {q : Str} (hr : ∀ c ∈ r, IsName c) (hq : isAbs q = false) :
    normpath (join (absolute r) q) = absolute (normParts true r.reverse (split q)).reverse := by
  have hjoin : ∃ k, join (absolute r) q = 47 :: k ∧ k.head? ≠ some 47 ∧ normParts true [] (split (47 :: k)) =
      normParts true r.reverse (split q) := by
    by_cases hnil : r = []
    · subst hnil
      refine ⟨q, join_root hq, isAbs_eq_false.mp hq, ?_⟩
      rw [split_slash, normParts, if_pos (.inl rfl)]
      rfl
    · have hhead := head_joinParts fun c hc => (hr c hc).isPart
      have hjoined := (last_joinParts hnil fun c hc => (hr c hc).isPart).2
      refine ⟨joinParts r ++ 47 :: q, join_absolute hnil hr hq, ?_, ?_⟩
      · rwa [List.head?_append_of_ne_nil _ hjoined]
      · rw [split_slash, normParts, if_pos (.inl rfl), split_joinParts_append hnil fun c hc => (hr c hc).slash, normParts_append,
          normParts_names hr, List.append_nil]
  obtain ⟨k, hk, hslash, hparts⟩ := hjoin
  rw [hk, normpath, show isAbs (47 :: k) = true from rfl, hparts, initialSlashes_single hslash]
  exact if_neg (List.cons_ne_nil _ _)

/-- It makes no difference to normalize the relative path before. -/
theorem normpath_join_normpath {q : Str} (hr : ∀ c ∈ r, IsName c) (hq : isAbs q = false) :
    normpath (join (absolute r) (normpath q)) = normpath (join (absolute r) q) := by
  have hslashes : initialSlashes q = [] := by
    rw [initialSlashes, hq]
    exact if_neg Bool.false_ne_true
  have hparts : ∀ c ∈ normParts false [] (split q), IsPart c ∧ c ≠ [46] := by
    intro c hc
    rcases mem_normParts hc with h | ⟨hc, hnil, hdot⟩
    · cases h
    · exact ⟨⟨hnil, (mem_split hc).1⟩, hdot⟩
  have hreverse : ∀ c ∈ (normParts false [] (split q)).reverse, IsPart c := fun c hc => (hparts c (List.mem_reverse.mp hc)).1
  have hfollowed := normParts_normParts (l := split q) r.reverse (k := []) nofun
  rw [normpath_join hr hq]
  have hnormal : normpath q = if (normParts false [] (split q)).reverse = [] then [46] else joinParts (normParts false [] (split q)).reverse := by
    rw [normpath, hq, hslashes, List.nil_append]
    split_ifs with hjoined hnil hnil
    · rfl
    · exact absurd hjoined (last_joinParts hnil hreverse).2
    · rw [hnil] at hjoined
      exact absurd rfl hjoined
    · rfl
  rw [hnormal]
  split_ifs with hnil
  · rw [hnil] at hfollowed
    rw [normpath_join hr rfl]
    exact congrArg (fun l => absolute l.reverse) hfollowed
  · rw [normpath_join hr (isAbs_joinParts hreverse), split_joinParts hnil fun c hc => (hreverse c hc).2, hfollowed]
    rfl

/-- Names are followed from a directory without any change. -/
theorem join_joinParts (hr : ∀ c ∈ r, IsName c) (hne : t ≠ []) (ht : ∀ c ∈ t, IsPart c) :
    join (absolute r) (joinParts t) = absolute (r ++ t) := by
  by_cases hnil : r = []
  · rw [hnil]
    exact join_root (isAbs_joinParts ht)
  · rw [join_absolute hnil hr (isAbs_joinParts ht), absolute, List.cons_append, joinParts_append hnil hne]
    rfl

theorem commonPrefix_isPrefix (r p : List Str) : commonPrefix r p <+: r ∧ commonPrefix r p <+: p := by
  induction r generalizing p with
  | nil => cases p <;> exact ⟨List.nil_prefix, List.nil_prefix⟩
  | cons c r ih =>
    cases p with
    | nil => exact ⟨List.nil_prefix, List.nil_prefix⟩
    | cons d p =>
      rw [commonPrefix]
      split_ifs with hcd
      · rw [← hcd, List.prefix_cons_inj, List.prefix_cons_inj]
        exact ih p
      · exact ⟨List.nil_prefix, List.nil_prefix⟩

theorem commonPrefix_append (r t : List Str) : commonPrefix r (r ++ t) = r := by
  induction r with
  | nil => cases t <;> rfl
  | cons c r ih => rw [List.cons_append, commonPrefix, if_pos rfl, ih]

/-- A path in its normal form that is contained in a directory has the names of the directory and then its own. -/
theorem Normal.exists_of_commonpath {q root : Str} (hq : Normal l q) (hl : ∀ c ∈ l, IsName c) (h : commonpath q root = root) :
    ∃ r t, l = r ++ t ∧ root = absolute r := by
  obtain ⟨t, ht⟩ := (commonPrefix_isPrefix (Path.names q) (Path.names root)).1
  rw [hq.names hl] at ht
  refine ⟨commonPrefix l (Path.names root), t, ht.symm, ?_⟩
  rw [commonpath, hq.names hl] at h
  exact h.symm

/-- The relative path to what lies inside a directory consists of the names that follow. -/
theorem Normal.relpath_eq {q : Str} (hq : Normal (r ++ t) q) (hr : ∀ c ∈ r, IsName c) (ht : ∀ c ∈ t, IsName c) :
    relpath q (absolute r) = if t = [] then [46] else joinParts t := by
  have hl : ∀ c ∈ r ++ t, IsName c := fun c hc => (List.mem_append.mp hc).elim (hr c) (ht c)
  rw [relpath, Normal.root.normpath_eq hr, hq.normpath_eq hl, parts_absolute fun c hc => (hr c hc).isPart,
    hq.parts fun c hc => (hl c hc).isPart]
  simp only [commonPrefix_append, Nat.sub_self, List.replicate_zero, List.nil_append, List.drop_left]

end
end LeanCtx.Path
