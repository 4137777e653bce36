import LeanCtx.Python.Inside
import LeanCtx.Session.Instance

/-! Local files stay under their root: the path of a source relative to its root consists of names only, and the check of `recover` gives
    back that path. -/

namespace LeanCtx

open LeanCtx.Path (IsName absolute)

/-- The working directory of the process: an absolute path, as POSIX has it. -/
abbrev WorkingDirectory := {p : Str // Path.isAbs p = true}

/-- `os.path.abspath(path)`. -/
def Path.abspath (cwd : WorkingDirectory) (p : Str) : Str := normpath (if isAbs p then p else join cwd.1 p)

theorem Path.abspath_of_isAbs {cwd : WorkingDirectory} {p : Str} (h : isAbs p = true) : abspath cwd p = normpath p := by rw [abspath, if_pos h]

theorem Path.isAbs_join {p : Str} (h : isAbs p = true) (q : Str) : isAbs (join p q) = true := by
  unfold join
  split_ifs with hq hend
  · exact hq
  all_goals
    cases p with
    | nil => cases h
    | cons c p => exact h

/-- `_safe_relative_path(path)`. -/
def safeRelativePath (path : Str) : Except InstanceError Str := do
  ensure (path.all Str.isScalar = true) (.protocol "path is not valid UTF-8")
  ensure (path ≠ [] ∧ path.utf8Length ≤ ContextSource.maxPathBytes ∧ 0 ∉ path) (.protocol "path violates the bound")
  ensure (Path.isAbs path = false ∧ ∀ c ∈ path, 32 ≤ c) (.protocol "path must be a rooted relative path")
  let normalized := Path.normpath path
  ensure (normalized ≠ [] ∧ normalized ≠ [46] ∧ normalized ≠ [46, 46] ∧ ¬[46, 46, 47] <+: normalized)
    (.protocol "path escapes project root")
  return normalized

theorem safeRelativePath_eq_ok {p q : Str} :
    safeRelativePath p = .ok q ↔ p.all Str.isScalar = true ∧ (p ≠ [] ∧ p.utf8Length ≤ ContextSource.maxPathBytes ∧ 0 ∉ p) ∧
      (Path.isAbs p = false ∧ ∀ c ∈ p, 32 ≤ c) ∧ (Path.normpath p ≠ [] ∧ Path.normpath p ≠ [46] ∧ Path.normpath p ≠ [46, 46] ∧
        ¬[46, 46, 47] <+: Path.normpath p) ∧ Path.normpath p = q := by
  simp only [safeRelativePath, bind_eq_ok, ensure_eq_ok, exists_const, pure_eq_ok]

namespace ContextSource

/-- The absolute path of a source that is being constructed. -/
def suppliedPath (cwd : WorkingDirectory) (path root : Str) : Str :=
  if Path.isAbs path then Path.abspath cwd (Path.normpath path) else Path.abspath cwd (Path.normpath (Path.join root path))

/-- `ContextSource(path, project_root, media_type, source_ref, source_digest)`, none where the constructor raises. -/
def construct (cwd : WorkingDirectory) (path : Str) (projectRoot : Option Str) (mediaType : Str) (sourceRef sourceDigest : Option Str) :
    Option ContextSource :=
  let given := projectRoot.getD cwd.1
  let root := Path.abspath cwd (Path.normpath given)
  let absolute := suppliedPath cwd path root
  if isText maxPathBytes path && isTask maxPathBytes given && root.all Str.isScalar && root.utf8Length ≤ maxPathBytes &&
      Path.commonpath absolute root == root && absolute.all Str.isScalar && absolute.utf8Length ≤ maxPathBytes &&
      isText 512 mediaType && sourceRef.all (isRef 512) && sourceDigest.all isDigest then
    some ⟨if Path.isAbs path then absolute else Path.normpath path, root, mediaType, sourceRef, sourceDigest⟩
  else none

/-- A path that leads from a root to what lies strictly inside it, by names only. -/
structure IsRooted (root r : Str) : Prop where
  rooted : Path.isAbs root = true
  names : ∀ c ∈ Path.split r, IsName c
  normal : Path.normpath r = r
  joined : Path.names (Path.join root r) = Path.names root ++ Path.split r
  canonical : Path.normpath (Path.join root r) = Path.join root r

variable {cwd : WorkingDirectory} {path mediaType r : Str} {projectRoot sourceRef sourceDigest : Option Str} {s : ContextSource}

/-- Where there is a relative path, the names of the file are those of the root and then those of the relative path. -/
theorem exists_names_of_relativePath (h : s.relativePath = some r) :
    ∃ l t, (∀ c ∈ l, IsName c) ∧ (∀ c ∈ t, IsName c) ∧ t ≠ [] ∧ s.projectRoot = absolute l ∧ r = Path.joinParts t ∧
      Path.Normal (l ++ t) (absolutePath s.path s.projectRoot) ∧ ∀ c ∈ r, 32 ≤ c := by
  unfold relativePath at h
  simp only at h
  split_ifs at h with hrefused
  cases h
  simp only [Bool.or_eq_true, not_or, bne_iff_ne, ne_eq, Decidable.not_not, beq_iff_eq, decide_eq_true_eq] at hrefused
  obtain ⟨⟨⟨⟨⟨hcontained, hnil⟩, hdot⟩, -⟩, -⟩, hcontrol⟩ := hrefused
  have habs : Path.isAbs (Path.join s.projectRoot s.path) = true := by
    refine Path.isAbs_join ?_ _
    rw [← hcontained]
    rfl
  obtain ⟨k, hk, hnormal⟩ := Path.exists_normal habs
  obtain ⟨l, t, rfl, hroot⟩ := hnormal.exists_of_commonpath hk hcontained
  obtain ⟨hl, ht⟩ := List.forall_mem_append.mp hk
  have hrelative : Path.relpath (absolutePath s.path s.projectRoot) s.projectRoot = if t = [] then [46] else Path.joinParts t := by
    rw [hroot] at hnormal ⊢
    exact hnormal.relpath_eq hl ht
  have hne : t ≠ [] := by
    intro hne
    rw [hrelative, if_pos hne] at hdot
    exact hdot rfl
  refine ⟨l, t, hl, ht, hne, hroot, ?_, hnormal, ?_⟩
  · rw [hrelative, if_neg hne]
  · simpa using hcontrol

/-- The relative path of a source stays under the root. -/
theorem isRooted_relativePath (h : s.relativePath = some r) : IsRooted s.projectRoot r := by
  obtain ⟨l, t, hl, ht, hne, hroot, rfl, -, -⟩ := exists_names_of_relativePath h
  have hall : ∀ c ∈ l ++ t, IsName c := List.forall_mem_append.mpr ⟨hl, ht⟩
  have hsplit := Path.split_joinParts hne fun c hc => (ht c hc).slash
  have hjoin := Path.join_joinParts hl hne fun c hc => (ht c hc).isPart
  refine ⟨?_, ?_, Path.normpath_joinParts hne ht, ?_, ?_⟩
  · rw [hroot]
    rfl
  · rwa [hsplit]
  · rw [hsplit, hroot, hjoin, Path.Normal.root.names hall, Path.Normal.root.names hl]
  · rw [hroot, hjoin]
    exact Path.Normal.root.normpath_eq hall

/-- The file of a source is the file that was supplied. -/
theorem absolutePath_of_construct (h : construct cwd path projectRoot mediaType sourceRef sourceDigest = some s) :
    absolutePath s.path s.projectRoot = suppliedPath cwd path s.projectRoot ∧
      (suppliedPath cwd path s.projectRoot).all Str.isScalar = true ∧
      (suppliedPath cwd path s.projectRoot).utf8Length ≤ maxPathBytes := by
  obtain ⟨hchecks, hs⟩ := Option.ite_none_right_eq_some.mp h
  obtain rfl := (Option.some.inj hs).symm
  simp only [Bool.and_eq_true, decide_eq_true_eq, beq_iff_eq] at hchecks
  obtain ⟨⟨⟨⟨⟨⟨-, hcontained⟩, hscalar⟩, hlength⟩, -⟩, -⟩, -⟩ := hchecks
  refine ⟨?_, hscalar, hlength⟩
  clear hscalar hlength h hs
  revert hcontained
  simp only
  generalize Path.abspath cwd (Path.normpath (projectRoot.getD cwd.1)) = root
  intro hcontained
  have habs : Path.isAbs root = true := by
    rw [← hcontained]
    rfl
  by_cases hpath : Path.isAbs path = true
  · have hnormal := Path.isAbs_normpath hpath
    have hsupplied : suppliedPath cwd path root = Path.normpath path := by
      rw [suppliedPath, if_pos hpath, Path.abspath_of_isAbs hnormal, Path.normpath_normpath hpath]
    rw [if_pos hpath, hsupplied, absolutePath, Path.join, if_pos hnormal, Path.normpath_normpath hpath]
  · have hjoined := Path.isAbs_join habs path
    have hsupplied : suppliedPath cwd path root = Path.normpath (Path.join root path) := by
      rw [suppliedPath, if_neg hpath, Path.abspath_of_isAbs (Path.isAbs_normpath hjoined), Path.normpath_normpath hjoined]
    rw [hsupplied] at hcontained ⊢
    obtain ⟨k, hk, hnormal⟩ := Path.exists_normal hjoined
    obtain ⟨l, t, rfl, hroot⟩ := hnormal.exists_of_commonpath hk hcontained
    rw [if_neg hpath, absolutePath, hroot]
    exact Path.normpath_join_normpath (List.forall_mem_append.mp hk).1 (by simpa using hpath)

theorem isScalar_normpath {q : Str} (h : q.all Str.isScalar = true) : (Path.normpath q).all Str.isScalar = true := by
  rw [List.all_eq_true] at h ⊢
  intro x hx
  rcases Path.mem_normpath hx with rfl | rfl | hx
  · rfl
  · rfl
  · exact h x hx

/-- Under an absolute root a source is constructed as a descriptor's is. -/
theorem construct_eq_make {root : Str} (hroot : Path.isAbs root = true) :
    construct cwd path (some root) mediaType sourceRef sourceDigest = make path root mediaType sourceRef sourceDigest := by
  have hnormal := Path.isAbs_normpath hroot
  have hgiven : Path.abspath cwd (Path.normpath root) = Path.normpath root := by
    rw [Path.abspath_of_isAbs hnormal, Path.normpath_normpath hroot]
  have hsupplied : suppliedPath cwd path (Path.normpath root) = absolutePath path (Path.normpath root) := by
    unfold suppliedPath absolutePath
    split_ifs with hpath
    · rw [Path.abspath_of_isAbs (Path.isAbs_normpath hpath), Path.normpath_normpath hpath, Path.join, if_pos hpath]
    · have hjoined := Path.isAbs_join hnormal path
      rw [Path.abspath_of_isAbs (Path.isAbs_normpath hjoined), Path.normpath_normpath hjoined]
  have hscalar : isText maxPathBytes path = true → isTask maxPathBytes root = true →
      (Path.normpath root).all Str.isScalar = true ∧ (absolutePath path (Path.normpath root)).all Str.isScalar = true := by
    intro hp hr
    simp only [isText, isTask, Bool.and_eq_true] at hp hr
    have hr := isScalar_normpath hr.1.1.1
    refine ⟨hr, isScalar_normpath (List.all_eq_true.mpr fun x hx => ?_)⟩
    rcases Path.mem_join hx with rfl | hx | hx
    · rfl
    · exact List.all_eq_true.mp hr x hx
    · exact List.all_eq_true.mp hp.1.1.1 x hx
  simp only [construct, make, Option.getD_some, hgiven, hsupplied, hroot]
  by_cases hp : isText maxPathBytes path = true
  · by_cases hr : isTask maxPathBytes root = true
    · simp [hscalar hp hr]
    · simp [hr]
  · simp [hp]

theorem utf8Length_le_of_isSuffix {x y : Str} (h : x <:+ y) : x.utf8Length ≤ y.utf8Length := by
  obtain ⟨z, rfl⟩ := h
  rw [Str.utf8Length_append]
  exact Nat.le_add_left _ _

/-- The path that `recover` checks is the path that the source was viewed by, and the check gives it back: it leads from the root to what
    lies strictly inside it. -/
theorem safeRelativePath_relativePath (h : construct cwd path projectRoot mediaType sourceRef sourceDigest = some s)
    (hr : s.relativePath = some r) : IsRooted s.projectRoot r ∧ safeRelativePath r = .ok r := by
  have hrooted := isRooted_relativePath hr
  obtain ⟨l, t, hl, ht, hne, hroot, hjoined, hnormal, hcontrol⟩ := exists_names_of_relativePath hr
  obtain ⟨habsolute, hscalar, hlength⟩ := absolutePath_of_construct h
  rw [← habsolute] at hscalar hlength
  have hsuffix : r <:+ absolutePath s.path s.projectRoot := by
    have hnames := Path.joinParts_isSuffix l hne
    rw [← hjoined] at hnames
    revert hnormal
    generalize absolutePath s.path s.projectRoot = a
    rintro (_ | _)
    · exact hnames
    · exact hnames.trans (List.suffix_cons _ _)
  have hparts : ∀ c ∈ t, Path.IsPart c := fun c hc => (ht c hc).isPart
  have hnil : r ≠ [] := hjoined ▸ (Path.last_joinParts hne hparts).2
  have hname : ∀ q : Str, Path.split q = [q] → ¬IsName q → r ≠ q := by
    rintro q hq hnot rfl
    exact hnot (hrooted.names r (hq ▸ List.mem_singleton_self _))
  have hparent : ¬[46, 46, 47] <+: r := by
    rintro ⟨q, rfl⟩
    refine (hrooted.names [46, 46] ?_).dots rfl
    exact List.mem_cons_self
  refine ⟨hrooted, safeRelativePath_eq_ok.mpr ⟨?_, ?_, ?_, ?_, hrooted.normal⟩⟩
  · exact List.all_eq_true.mpr fun c hc => List.all_eq_true.mp hscalar c (hsuffix.subset hc)
  · exact ⟨hnil, (utf8Length_le_of_isSuffix hsuffix).trans hlength, fun h0 => absurd (hcontrol 0 h0) (by decide)⟩
  · exact ⟨hjoined ▸ Path.isAbs_joinParts hparts, hcontrol⟩
  · rw [hrooted.normal]
    exact ⟨hnil, hname [46] rfl fun h => h.dot rfl, hname [46, 46] rfl fun h => h.dots rfl, hparent⟩

/-- A file that is given from the working directory, on a way with a detour. -/
theorem safeRelativePath_detour : ∃ s, construct ⟨"/w", rfl⟩ "a/.//b/../c" none "text/plain" none none = some s ∧
    IsRooted s.projectRoot "a/c" ∧ safeRelativePath "a/c" = .ok "a/c" := by
  have h : construct ⟨"/w", rfl⟩ "a/.//b/../c" none "text/plain" none none = some ⟨"a/c", "/w", "text/plain", none, none⟩ := by decide
  have hr : relativePath ⟨"a/c", "/w", "text/plain", none, none⟩ = some "a/c" := by decide
  exact ⟨_, h, safeRelativePath_relativePath h hr⟩

end ContextSource
end LeanCtx
