import LeanCtx.Machine.Directory
import LeanCtx.Workspace.Agreement

/-! The directory of a journal: `_project` as the calls that it makes, one after another. Beside the files of the events the directory
    may hold temporary files, which an append that was cut off has left, and second names of published files. -/

namespace LeanCtx
open Json Machine

/-- The directory of the events of a workspace. -/
abbrev EventDirectory : Type := Directory Str Bytes

/-- A program that reads it. -/
abbrev Reading (α : Type) : Type := Observation Str Bytes Failure α

namespace Reading
open Observation

/-! ### One file -/

/-- The file of a name, and the number of names that it has. -/
def statName (name : Str) : Reading (Nat × Nat) := Observation.stat name (orFail .io)

/-- One name or two: a file that is being published has its temporary name still. -/
def IsLinked (links : Nat) : Prop := links = 1 ∨ links = 2

instance (links : Nat) : Decidable (IsLinked links) := inferInstanceAs (Decidable (_ ∨ _))

/-- `_read_regular_file(path)`. -/
def readRegularFile (name : Str) : Reading Bytes := do
  let before ← statName name
  require (IsLinked before.2) .corrupt
  let file ← Observation.lookup name (orFail .io)
  let opened ← Observation.links file pure
  require (file = before.1 ∧ IsLinked opened) .corrupt
  let data ← Observation.read file pure
  let after ← Observation.links file pure
  require (data.length ≤ maxEventBytes ∧ IsLinked after) .corrupt
  return data

/-- `_read_event(path, …)`: the name is checked before the file is read. -/
def readEventFile (workspaceId : Uuid) (name : Str) (expected : Positive) (previous : Option Digest) : Reading Event := do
  let sequence ← orFail .corrupt ((matchEventName name).map (·.1))
  require (sequence = expected.1) .corrupt
  let data ← readRegularFile name
  .done (readEvent workspaceId ⟨name, data⟩ expected previous)

/-- Read and apply the events of some names. -/
def replayNames (workspaceId : Uuid) : List Str → Positive → Option Digest → Option State → Reading (Option State)
  | [], _, _, s => return s
  | name :: l, n, previous, s => do
    let e ← readEventFile workspaceId name n previous
    let s' ← .done (applyEvent true s e)
    replayNames workspaceId l n.succ (some e.eventDigest) (some s')

/-! ### The names -/

def lockName : Str := Str.lit ".workspace.lock"

/-- The beginning of the name of a temporary file. -/
def temporaryMark : Str := Str.lit ".event-"

def IsTemporary (name : Str) : Prop := temporaryMark <+: name

instance (name : Str) : Decidable (IsTemporary name) := inferInstanceAs (Decidable (_ <+: _))

/-- The published names and the temporary ones. -/
def checkNames : List Str → Reading (List Str × List Str)
  | [] => return ([], [])
  | name :: l =>
    if name = lockName then do
      let item ← statName name
      require (item.2 = 1) .corrupt
      checkNames l
    else if IsTemporary name then do
      let item ← statName name
      require (IsLinked item.2) .corrupt
      let rest ← checkNames l
      return (rest.1, name :: rest.2)
    else do
      require (name.head? ≠ some 46 ∧ (matchEventName name).isSome = true) .corrupt
      let rest ← checkNames l
      return (name :: rest.1, rest.2)

/-- The published files that have a second name. -/
def finalFiles : List Str → Reading (List Nat)
  | [] => return []
  | name :: l => do
    let item ← statName name
    require (IsLinked item.2) .corrupt
    let rest ← finalFiles l
    return if item.2 = 2 then item.1 :: rest else rest

/-- Every temporary name with two links is the second name of one published file. -/
def checkTemporaries (finals : List Nat) : List Str → Reading Unit
  | [] => return ()
  | name :: l => do
    let item ← statName name
    require (item.2 = 1 ∨ item.2 = 2 ∧ finals.count item.1 = 1) .corrupt
    checkTemporaries finals l

/-- The number of temporary names that a file has. -/
def countNames (file : Nat) : List Str → Reading Nat
  | [] => return 0
  | name :: l => do
    let item ← statName name
    let rest ← countNames file l
    return if item.1 = file then rest + 1 else rest

/-- Every published file with two links has one temporary name. -/
def checkFinals (temporaries : List Str) : List Nat → Reading Unit
  | [] => return ()
  | file :: l => do
    let n ← countNames file temporaries
    require (n = 1) .corrupt
    checkFinals temporaries l

/-- Names in their order. -/
def sortNames (names : List Str) : List Str := names.insertionSort (· ≤ ·)

/-- The state of a workspace that names its identifier. -/
def checkState (workspaceId : Uuid) : Option State → Except Failure State
  | none => .error .corrupt
  | some s => do
    ensure (s.identity.workspaceId = workspaceId) .corrupt
    return s

/-- `_project(workspace_path, workspace_id)`. -/
def projectDirectory (workspaceId : Uuid) : Reading State := do
  let names ← Observation.list pure
  let (published, temporaries) ← checkNames names
  let published := sortNames published
  let s ← replayNames workspaceId published .one none none
  let finals ← finalFiles published
  checkTemporaries finals temporaries
  checkFinals temporaries finals
  .done (checkState workspaceId s)

end Reading

/-! ### Journals in directories -/

namespace EventDirectory
open Reading

/-- The entries of a directory that are no temporary names. -/
def published (d : EventDirectory) : List (Str × Nat) := d.entries.filter fun e => ¬IsTemporary e.1

def temporaries (d : EventDirectory) : List (Str × Nat) := d.entries.filter fun e => IsTemporary e.1

/-- The file of a journal that an entry stands for. -/
def eventFile (d : EventDirectory) (e : Str × Nat) : EventFile := ⟨e.1, d.contents e.2⟩

/-- The journal that a directory holds. -/
def journal (d : EventDirectory) : List EventFile := d.published.map d.eventFile

/-- The name of the event of some position of a journal: it begins with a digit, and where it is the name of an event at all it has
    the sequence of the position. -/
structure IsNamed (position : Nat) (name : Str) : Prop where
  digit : ∃ c ∈ name.head?, isDigit c = true
  sequence : ∀ k hex, matchEventName name = some (k, hex) → k = position + 1

/-- A directory of published files, each under the name of its position and none twice, and of temporary names, each of a file of its
    own or of a published one. -/
structure Tidy (d : EventDirectory) : Prop where
  names : d.names.Nodup
  named : ∀ k e, d.published[k]? = some e → IsNamed k e.1
  published : (d.published.map (·.2)).Nodup
  temporaries : (d.temporaries.map (·.2)).Nodup

variable {d : EventDirectory} {name : Str} {file : Nat} {e : Str × Nat}

/-! ### The names of a file -/

theorem mem_published : e ∈ d.published ↔ e ∈ d.entries ∧ ¬IsTemporary e.1 := by simp [published]

theorem mem_temporaries : e ∈ d.temporaries ↔ e ∈ d.entries ∧ IsTemporary e.1 := by simp [temporaries]

theorem links_eq (d : EventDirectory) (file : Nat) :
    d.links file = (d.published.map (·.2)).count file + (d.temporaries.map (·.2)).count file := by
  obtain ⟨entries, contents⟩ := d
  induction entries with
  | nil => rfl
  | cons e l ih =>
    simp only [Directory.links, published, temporaries, List.countP_cons, List.filter_cons] at ih ⊢
    by_cases h : IsTemporary e.1
    · simp only [h, not_true_eq_false, decide_true, decide_false, if_true, Bool.false_eq_true, if_false, List.map_cons, List.count_cons,
        beq_iff_eq, decide_eq_true_eq]
      omega
    · simp only [h, not_false_eq_true, decide_true, decide_false, if_true, Bool.false_eq_true, if_false, List.map_cons, List.count_cons,
        beq_iff_eq, decide_eq_true_eq]
      omega

namespace Tidy
variable (h : d.Tidy)
include h

theorem isLinked (hmem : e ∈ d.entries) : IsLinked (d.links e.2) := by
  have hpublished := List.nodup_iff_count_le_one.mp h.published e.2
  have htemporary := List.nodup_iff_count_le_one.mp h.temporaries e.2
  have hpos : 0 < d.links e.2 := List.countP_pos_iff.mpr ⟨e, hmem, by simp⟩
  rw [links_eq] at hpos ⊢
  unfold IsLinked
  omega

/-- A published file with two names has a temporary one. -/
theorem count_published (hmem : e ∈ d.published) : d.links e.2 = 1 + (d.temporaries.map (·.2)).count e.2 := by
  rw [links_eq, List.count_eq_one_of_mem h.published (List.mem_map_of_mem hmem)]

theorem count_temporaries (hmem : e ∈ d.temporaries) : d.links e.2 = (d.published.map (·.2)).count e.2 + 1 := by
  rw [links_eq, List.count_eq_one_of_mem h.temporaries (List.mem_map_of_mem hmem)]

theorem file? (hmem : e ∈ d.entries) : d.file? e.1 = some e.2 := (Directory.file?_eq_some h.names).mpr hmem

theorem stat (hmem : e ∈ d.entries) : d.stat e.1 = some (e.2, d.links e.2) := by
  rw [Directory.stat, h.file? hmem]
  rfl

theorem digit (hmem : e ∈ d.published) : ∃ c ∈ e.1.head?, isDigit c = true := by
  obtain ⟨k, hk⟩ := List.mem_iff_getElem?.mp hmem
  exact (h.named k e hk).digit

end Tidy

theorem not_isTemporary_of_digit (h : ∃ c ∈ name.head?, isDigit c = true) : ¬IsTemporary name := by
  rintro ⟨t, rfl⟩
  obtain ⟨c, hc, hdigit⟩ := h
  rw [temporaryMark, show Str.lit ".event-" = 46 :: [101, 118, 101, 110, 116, 45] from rfl, List.cons_append] at hc
  cases hc
  cases hdigit

theorem ne_lockName (h : IsTemporary name ∨ ∃ c ∈ name.head?, isDigit c = true) : name ≠ lockName := by
  rintro rfl
  obtain h | ⟨c, hc, hdigit⟩ := h
  · exact absurd h (by decide)
  · cases hc
    cases hdigit

theorem head?_ne_of_digit (h : ∃ c ∈ name.head?, isDigit c = true) : name.head? ≠ some 46 := by
  intro hhead
  obtain ⟨c, hc, hdigit⟩ := h
  rw [hhead] at hc
  cases hc
  cases hdigit

/-! ### Without interference -/

section
variable (h : d.Tidy)
include h

theorem eval_statName (hmem : e ∈ d.entries) : (statName e.1).eval d = .ok (e.2, d.links e.2) := by
  rw [statName, Observation.eval, h.stat hmem]
  rfl

theorem eval_checkNames {l : List (Str × Nat)} (hl : ∀ e ∈ l, e ∈ d.entries)
    (hall : ∀ e ∈ l, ¬IsTemporary e.1 → (matchEventName e.1).isSome = true) :
    (checkNames (l.map (·.1))).eval d =
      .ok ((l.filter fun e => ¬IsTemporary e.1).map (·.1), (l.filter fun e => IsTemporary e.1).map (·.1)) := by
  induction l with
  | nil => rfl
  | cons e l ih =>
    have hmem := hl e (by simp)
    have ih := ih (fun e he => hl e (by simp [he])) fun e he => hall e (by simp [he])
    by_cases ht : IsTemporary e.1
    · rw [List.map_cons, checkNames, if_neg (ne_lockName (.inl ht)), if_pos ht, Observation.eval_bind, eval_statName h hmem, ok_bind,
        Observation.eval_bind, Observation.require, if_pos (h.isLinked hmem), Observation.eval, ok_bind, Observation.eval_bind, ih]
      simp [ht, Observation.eval, pure]
    · have hdigit := h.digit (mem_published.mpr ⟨hmem, ht⟩)
      rw [List.map_cons, checkNames, if_neg (ne_lockName (.inr hdigit)), if_neg ht, Observation.eval_bind, Observation.require,
        if_pos ⟨head?_ne_of_digit hdigit, hall e (by simp) ht⟩, Observation.eval, ok_bind, Observation.eval_bind, ih]
      simp [ht, Observation.eval, pure]

/-- A name that is no event's is corrupt. -/
theorem eval_checkNames_of_badName {l : List (Str × Nat)} (hl : ∀ e ∈ l, e ∈ d.entries)
    (hbad : ∃ e ∈ l, ¬IsTemporary e.1 ∧ (matchEventName e.1).isSome ≠ true) :
    (checkNames (l.map (·.1))).eval d = .error .corrupt := by
  induction l with
  | nil =>
    obtain ⟨e, he, -⟩ := hbad
    cases he
  | cons e l ih =>
    have hmem := hl e (by simp)
    by_cases ht : IsTemporary e.1
    · have hbad : ∃ e ∈ l, ¬IsTemporary e.1 ∧ (matchEventName e.1).isSome ≠ true := by
        obtain ⟨x, hx, hnot, hname⟩ := hbad
        obtain rfl | hx := List.mem_cons.mp hx
        · exact absurd ht hnot
        · exact ⟨x, hx, hnot, hname⟩
      rw [List.map_cons, checkNames, if_neg (ne_lockName (.inl ht)), if_pos ht, Observation.eval_bind, eval_statName h hmem, ok_bind,
        Observation.eval_bind, Observation.require, if_pos (h.isLinked hmem), Observation.eval, ok_bind, Observation.eval_bind,
        ih (fun e he => hl e (by simp [he])) hbad]
      rfl
    · have hdigit := h.digit (mem_published.mpr ⟨hmem, ht⟩)
      rw [List.map_cons, checkNames, if_neg (ne_lockName (.inr hdigit)), if_neg ht, Observation.eval_bind, Observation.require]
      by_cases hname : (matchEventName e.1).isSome = true
      · have hbad : ∃ e ∈ l, ¬IsTemporary e.1 ∧ (matchEventName e.1).isSome ≠ true := by
          obtain ⟨x, hx, hnot, hbad⟩ := hbad
          obtain rfl | hx := List.mem_cons.mp hx
          · exact absurd hname hbad
          · exact ⟨x, hx, hnot, hbad⟩
        rw [if_pos ⟨head?_ne_of_digit hdigit, hname⟩, Observation.eval, ok_bind, Observation.eval_bind,
          ih (fun e he => hl e (by simp [he])) hbad]
        rfl
      · rw [if_neg fun hc => hname hc.2]
        rfl

theorem eval_finalFiles {l : List (Str × Nat)} (hl : ∀ e ∈ l, e ∈ d.entries) :
    (finalFiles (l.map (·.1))).eval d = .ok ((l.filter fun e => d.links e.2 = 2).map (·.2)) := by
  induction l with
  | nil => rfl
  | cons e l ih =>
    have hmem := hl e (by simp)
    rw [List.map_cons, finalFiles, Observation.eval_bind, eval_statName h hmem, ok_bind, Observation.eval_bind, Observation.require,
      if_pos (h.isLinked hmem), Observation.eval, ok_bind, Observation.eval_bind, ih fun e he => hl e (by simp [he]), ok_bind,
      List.filter_cons]
    by_cases hlinks : d.links e.2 = 2
    · simp [hlinks, Observation.eval, pure]
    · simp [hlinks, Observation.eval, pure]

theorem eval_countNames {l : List (Str × Nat)} (hl : ∀ e ∈ l, e ∈ d.entries) :
    (countNames file (l.map (·.1))).eval d = .ok ((l.map (·.2)).count file) := by
  induction l with
  | nil => rfl
  | cons e l ih =>
    rw [List.map_cons, countNames, Observation.eval_bind, eval_statName h (hl e (by simp)), ok_bind, Observation.eval_bind,
      ih fun e he => hl e (by simp [he]), ok_bind, List.map_cons, List.count_cons]
    by_cases hfile : e.2 = file
    · simp [hfile, Observation.eval, pure]
    · simp [hfile, Observation.eval, pure]

theorem eval_checkTemporaries {finals : List Nat} {l : List (Str × Nat)} (hl : ∀ e ∈ l, e ∈ d.temporaries)
    (hfinals : ∀ file, finals.count file = if d.links file = 2 then (d.published.map (·.2)).count file else 0) :
    (checkTemporaries finals (l.map (·.1))).eval d = .ok () := by
  induction l with
  | nil => rfl
  | cons e l ih =>
    have hmem := hl e (by simp)
    have hentry := (mem_temporaries.mp hmem).1
    have hcheck : d.links e.2 = 1 ∨ d.links e.2 = 2 ∧ finals.count e.2 = 1 := by
      obtain hone | htwo := h.isLinked hentry
      · exact .inl hone
      · have hcount := h.count_temporaries hmem
        rw [hfinals, if_pos htwo]
        exact .inr ⟨htwo, by omega⟩
    rw [List.map_cons, checkTemporaries, Observation.eval_bind, eval_statName h hentry, ok_bind, Observation.eval_bind,
      Observation.require, if_pos hcheck]
    exact ih fun e he => hl e (by simp [he])

theorem eval_checkFinals {finals : List Nat} (hfinals : ∀ file ∈ finals, (d.temporaries.map (·.2)).count file = 1) :
    (checkFinals (d.temporaries.map (·.1)) finals).eval d = .ok () := by
  induction finals with
  | nil => rfl
  | cons file l ih =>
    rw [checkFinals, Observation.eval_bind, eval_countNames h fun e he => (mem_temporaries.mp he).1, ok_bind, Observation.eval_bind,
      Observation.require, if_pos (hfinals file (by simp))]
    exact ih fun file hfile => hfinals file (by simp [hfile])

end

end EventDirectory

namespace Reading
open EventDirectory
variable {ds : List EventDirectory} {name : Str} {file : Nat}

/-! ### Replay, with or without interference -/

theorem runs_statName {r : Except Failure (Nat × Nat)} (h : (statName name).Runs ds r) :
    ∃ d ∈ ds, r = (d.stat name).elim (.error .io) .ok := by
  cases h with
  | @stat _ _ d _ _ hr =>
    refine ⟨d, List.mem_cons_self, ?_⟩
    cases hd : d.stat name with
    | none =>
      rw [hd] at hr
      exact (Observation.runs_done.mp hr).2
    | some item =>
      rw [hd] at hr
      exact (Observation.runs_done.mp hr).2

theorem runs_lookup {r : Except Failure Nat} (h : (Observation.lookup name (Observation.orFail .io) : Reading Nat).Runs ds r) :
    ∃ d ∈ ds, r = (d.file? name).elim (.error .io) .ok := by
  cases h with
  | @lookup _ _ d _ _ hr =>
    refine ⟨d, List.mem_cons_self, ?_⟩
    cases hd : d.file? name with
    | none =>
      rw [hd] at hr
      exact (Observation.runs_done.mp hr).2
    | some item =>
      rw [hd] at hr
      exact (Observation.runs_done.mp hr).2

theorem runs_links {r : Except Failure Nat} (h : (Observation.links file pure : Reading Nat).Runs ds r) :
    ∃ d ∈ ds, r = .ok (d.links file) := by
  cases h with
  | @links _ _ d _ _ hr => exact ⟨d, List.mem_cons_self, (Observation.runs_done.mp hr).2⟩

theorem runs_read {r : Except Failure Bytes} (h : (Observation.read file pure : Reading Bytes).Runs ds r) :
    ∃ d ∈ ds, r = .ok (d.contents file) := by
  cases h with
  | @read _ _ d _ _ hr => exact ⟨d, List.mem_cons_self, (Observation.runs_done.mp hr).2⟩

/-- A file is the same for all calls of a reader: its name is linked to it, and it holds the same. -/
structure Fixed (ds : List EventDirectory) (e : Str × Nat) (data : Bytes) : Prop where
  file : ∀ d ∈ ds, d.file? e.1 = some e.2
  linked : ∀ d ∈ ds, IsLinked (d.links e.2)
  contents : ∀ d ∈ ds, d.contents e.2 = data

theorem Fixed.left {ds₁ ds₂ : List EventDirectory} {e : Str × Nat} {data : Bytes} (h : Fixed (ds₁ ++ ds₂) e data) : Fixed ds₁ e data :=
  ⟨fun d hd => h.file d (by simp [hd]), fun d hd => h.linked d (by simp [hd]), fun d hd => h.contents d (by simp [hd])⟩

theorem Fixed.right {ds₁ ds₂ : List EventDirectory} {e : Str × Nat} {data : Bytes} (h : Fixed (ds₁ ++ ds₂) e data) : Fixed ds₂ e data :=
  ⟨fun d hd => h.file d (by simp [hd]), fun d hd => h.linked d (by simp [hd]), fun d hd => h.contents d (by simp [hd])⟩

theorem runs_readRegularFile {e : Str × Nat} {data : Bytes} (hfixed : Fixed ds e data) {r : Except Failure Bytes}
    (h : (readRegularFile e.1).Runs ds r) : r = if data.length ≤ maxEventBytes then .ok data else .error .corrupt := by
  have hstat {ds : List EventDirectory} (hfixed : Fixed ds e data) {r : Except Failure (Nat × Nat)} (h : (statName e.1).Runs ds r) :
      ∃ n, IsLinked n ∧ r = .ok (e.2, n) := by
    obtain ⟨d, hd, rfl⟩ := runs_statName h
    refine ⟨d.links e.2, hfixed.linked d hd, ?_⟩
    rw [Directory.stat, hfixed.file d hd]
    rfl
  obtain ⟨err, -, h⟩ | ⟨ds₁, ds₂, before, rfl, hbefore, h⟩ := h.bind_cases
  · obtain ⟨n, -, hn⟩ := hstat hfixed h
    cases hn
  obtain ⟨n, hlinked, hn⟩ := hstat hfixed.left hbefore
  cases hn
  have hfixed := hfixed.right
  rw [Observation.require, if_pos hlinked] at h
  change Observation.Runs (Observation.lookup _ (Observation.orFail _) >>= _) _ _ at h
  obtain ⟨err, -, h⟩ | ⟨ds₁, ds₂, i, rfl, hfile, h⟩ := h.bind_cases
  · obtain ⟨d, hd, hr⟩ := runs_lookup h
    rw [hfixed.file d hd] at hr
    cases hr
  obtain ⟨d, hd, hr⟩ := runs_lookup hfile
  rw [hfixed.left.file d hd] at hr
  cases hr
  have hfixed := hfixed.right
  obtain ⟨err, -, h⟩ | ⟨ds₁, ds₂, opened, rfl, hopened, h⟩ := h.bind_cases
  · obtain ⟨d, hd, hr⟩ := runs_links h
    cases hr
  obtain ⟨d, hd, hr⟩ := runs_links hopened
  cases hr
  rw [Observation.require, if_pos ⟨rfl, hfixed.left.linked d hd⟩] at h
  have hfixed := hfixed.right
  change Observation.Runs (Observation.read _ pure >>= _) _ _ at h
  obtain ⟨err, -, h⟩ | ⟨ds₁, ds₂, found, rfl, hfound, h⟩ := h.bind_cases
  · obtain ⟨d, hd, hr⟩ := runs_read h
    cases hr
  obtain ⟨d, hd, hr⟩ := runs_read hfound
  cases hr
  rw [hfixed.left.contents d hd] at h
  have hfixed := hfixed.right
  obtain ⟨err, -, h⟩ | ⟨ds₁, ds₂, after, rfl, hafter, h⟩ := h.bind_cases
  · obtain ⟨d, hd, hr⟩ := runs_links h
    cases hr
  obtain ⟨d, hd, hr⟩ := runs_links hafter
  cases hr
  rw [Observation.require] at h
  by_cases hlength : data.length ≤ maxEventBytes
  · rw [if_pos ⟨hlength, hfixed.left.linked d hd⟩] at h
    rw [if_pos hlength]
    exact (Observation.runs_done.mp h).2
  · rw [if_neg fun hc => hlength hc.1] at h
    rw [if_neg hlength]
    exact (Observation.runs_done.mp h).2

theorem runs_readEventFile {workspaceId : Uuid} {e : Str × Nat} {data : Bytes} {n : Positive} {previous : Option Digest}
    (hfixed : Fixed ds e data) {r : Except Failure Event} (h : (readEventFile workspaceId e.1 n previous).Runs ds r) :
    r = readEvent workspaceId ⟨e.1, data⟩ n previous := by
  unfold readEventFile at h
  cases hname : matchEventName e.1 with
  | none =>
    rw [hname] at h
    obtain ⟨-, rfl⟩ := Observation.runs_done.mp h
    rw [readEvent, hname]
  | some p =>
    obtain ⟨sequence, hex⟩ := p
    rw [hname] at h
    change Observation.Runs (Observation.require (sequence = n.1) Failure.corrupt >>= _) _ _ at h
    rw [Observation.require] at h
    by_cases hsequence : sequence = n.1
    · rw [if_pos hsequence] at h
      change Observation.Runs (readRegularFile _ >>= _) _ _ at h
      obtain ⟨err, rfl, hfailed⟩ | ⟨ds₁, ds₂, found, rfl, hfound, h⟩ := h.bind_cases
      · have hr := runs_readRegularFile hfixed hfailed
        split_ifs at hr with hlength
        cases hr
        rw [readEvent_of_large (not_le.mp hlength)]
      · have hr := runs_readRegularFile hfixed.left hfound
        split_ifs at hr
        cases hr
        exact (Observation.runs_done.mp h).2
    · rw [if_neg hsequence] at h
      obtain ⟨-, rfl⟩ := Observation.runs_done.mp h
      rw [readEvent, hname]
      dsimp only
      rw [LeanCtx.ensure, if_neg hsequence]
      rfl

/-- The replay of names whose files are the same for all calls is the replay of the files. -/
theorem runs_replayNames {workspaceId : Uuid} {l : List (Str × Nat)} {contents : Nat → Bytes} {n : Positive} {previous : Option Digest}
    {s : Option State} (hfixed : ∀ e ∈ l, Fixed ds e (contents e.2)) {r : Except Failure (Option State)}
    (h : (replayNames workspaceId (l.map (·.1)) n previous s).Runs ds r) :
    r = replay workspaceId (l.map fun e => ⟨e.1, contents e.2⟩) n previous s := by
  induction l generalizing ds n previous s with
  | nil => exact (Observation.runs_done.mp h).2
  | cons e l ih =>
    rw [List.map_cons, replayNames] at h
    rw [List.map_cons, replay]
    have hfile := hfixed e (by simp)
    obtain ⟨err, rfl, hfailed⟩ | ⟨ds₁, ds₂, event, rfl, hevent, h⟩ := h.bind_cases
    · rw [← runs_readEventFile hfile hfailed, error_bind]
    · rw [← runs_readEventFile hfile.left hevent, ok_bind]
      cases happly : applyEvent true s event with
      | error err =>
        rw [happly] at h
        rw [error_bind]
        exact (Observation.runs_done.mp h).2
      | ok s' =>
        rw [happly] at h
        rw [ok_bind]
        exact ih (fun x hx => (hfixed x (by simp [hx])).right) h

end Reading

namespace EventDirectory
open Reading
variable {d : EventDirectory}

theorem Tidy.fixed (h : d.Tidy) {e : Str × Nat} (hmem : e ∈ d.entries) (n : Nat) : Fixed (List.replicate n d) e (d.contents e.2) := by
  refine ⟨fun x hx => ?_, fun x hx => ?_, fun x hx => ?_⟩
  · rw [List.eq_of_mem_replicate hx, h.file? hmem]
  · rw [List.eq_of_mem_replicate hx]
    exact h.isLinked hmem
  · rw [List.eq_of_mem_replicate hx]

theorem eval_replayNames (h : d.Tidy) {workspaceId : Uuid} {l : List (Str × Nat)} (hl : ∀ e ∈ l, e ∈ d.entries) :
    (replayNames workspaceId (l.map (·.1)) .one none none).eval d = replay workspaceId (l.map d.eventFile) .one none none := by
  obtain ⟨n, hn⟩ := Observation.exists_runs h.names (replayNames workspaceId (l.map (·.1)) .one none none)
  exact runs_replayNames (fun e he => h.fixed (hl e he) n) hn

/-- The entries of published files in the order of their names. -/
def sortEntries (l : List (Str × Nat)) : List (Str × Nat) := l.insertionSort fun e f => e.1 ≤ f.1

theorem mem_sortEntries {l : List (Str × Nat)} {e : Str × Nat} : e ∈ sortEntries l ↔ e ∈ l := (List.perm_insertionSort _ l).mem_iff

theorem sortNames_map (l : List (Str × Nat)) : sortNames (l.map (·.1)) = (sortEntries l).map (·.1) :=
  (List.map_insertionSort (fun e f : Str × Nat => e.1 ≤ f.1) (· ≤ ·) (·.1) l fun _ _ _ _ => Iff.rfl).symm

theorem sortFiles_map (d : EventDirectory) (l : List (Str × Nat)) : sortFiles (l.map d.eventFile) = (sortEntries l).map d.eventFile :=
  (List.map_insertionSort (fun e f : Str × Nat => e.1 ≤ f.1) (fun f g : EventFile => f.name ≤ g.name) d.eventFile l fun _ _ _ _ =>
    Iff.rfl).symm

/-- Without interference a reader finds the state of the journal, whatever temporary files there are beside it. -/
theorem Tidy.eval_projectDirectory (h : d.Tidy) (workspaceId : Uuid) :
    (projectDirectory workspaceId).eval d = project workspaceId d.journal := by
  have hpublished : ∀ e ∈ sortEntries d.published, e ∈ d.published := fun e he => mem_sortEntries.mp he
  have hentries : ∀ e ∈ sortEntries d.published, e ∈ d.entries := fun e he => (mem_published.mp (hpublished e he)).1
  rw [projectDirectory, Observation.eval_bind]
  change (checkNames (d.entries.map (·.1)) >>= _).eval d = _
  rw [Observation.eval_bind, project]
  by_cases hall : ∀ f ∈ d.journal, (matchEventName f.name).isSome = true
  · have hchecked := eval_checkNames h (fun e he => he) fun e he ht =>
      hall (d.eventFile e) (List.mem_map_of_mem (mem_published.mpr ⟨he, ht⟩))
    rw [ensure_true hall, ok_bind, hchecked, ok_bind]
    dsimp only
    rw [show d.entries.filter (fun e => ¬IsTemporary e.1) = d.published from rfl,
      show d.entries.filter (fun e => IsTemporary e.1) = d.temporaries from rfl, sortNames_map, Observation.eval_bind,
      eval_replayNames h hentries, journal, sortFiles_map]
    cases replay workspaceId ((sortEntries d.published).map d.eventFile) .one none none with
    | error err => rfl
    | ok s =>
      have hperm : (sortEntries d.published).Perm d.published := List.perm_insertionSort _ _
      have hfinals : ∀ file, (((sortEntries d.published).filter fun e => d.links e.2 = 2).map (·.2)).count file =
          if d.links file = 2 then (d.published.map (·.2)).count file else 0 := by
        intro file
        rw [List.count_eq_countP, List.countP_map, List.countP_filter, List.count_eq_countP, List.countP_map, hperm.countP_eq]
        split_ifs with hlinks
        · refine List.countP_congr fun e _ => ?_
          simp only [Function.comp_apply, Bool.and_eq_true, beq_iff_eq, decide_eq_true_eq, and_iff_left_iff_imp]
          rintro rfl
          exact hlinks
        · refine List.countP_eq_zero.mpr fun e _ hc => ?_
          simp only [Function.comp_apply, Bool.and_eq_true, beq_iff_eq, decide_eq_true_eq] at hc
          obtain ⟨rfl, hc⟩ := hc
          exact hlinks hc
      have hsecond : ∀ file ∈ ((sortEntries d.published).filter fun e => d.links e.2 = 2).map (·.2),
          (d.temporaries.map (·.2)).count file = 1 := by
        intro file hfile
        obtain ⟨e, he, rfl⟩ := List.mem_map.mp hfile
        obtain ⟨hmem, hlinks⟩ := List.mem_filter.mp he
        have hcount := h.count_published (hpublished e hmem)
        have hlinks := of_decide_eq_true hlinks
        omega
      rw [ok_bind, Observation.eval_bind, eval_finalFiles h hentries, ok_bind, Observation.eval_bind,
        eval_checkTemporaries h (fun e he => he) hfinals, ok_bind, Observation.eval_bind, eval_checkFinals h hsecond, ok_bind]
      cases s <;> rfl
  · have hbad : ∃ e ∈ d.entries, ¬IsTemporary e.1 ∧ (matchEventName e.1).isSome ≠ true := by
      by_contra hnone
      refine hall fun f hf => ?_
      obtain ⟨e, he, rfl⟩ := List.mem_map.mp hf
      obtain ⟨hentry, ht⟩ := mem_published.mp he
      by_contra hname
      exact hnone ⟨e, hentry, ht, hname⟩
    rw [eval_checkNames_of_badName h (fun e he => he) hbad, LeanCtx.ensure, if_neg hall]
    rfl

variable {name : Str} {file : Nat} {data : Bytes}

/-! ### Changes of a directory -/

theorem published_create (ht : IsTemporary name) : published (d.create name file data) = d.published := by
  simp [published, Directory.create, ht]

theorem temporaries_create (ht : IsTemporary name) : temporaries (d.create name file data) = d.temporaries ++ [(name, file)] := by
  simp [temporaries, Directory.create, ht]

theorem published_link (ht : ¬IsTemporary name) : published (d.link name file) = d.published ++ [(name, file)] := by
  simp [published, Directory.link, ht]

theorem temporaries_link (ht : ¬IsTemporary name) : temporaries (d.link name file) = d.temporaries := by
  simp [temporaries, Directory.link, ht]

theorem published_unlink (ht : IsTemporary name) : published (d.unlink name) = d.published := by
  rw [published, published, Directory.unlink, List.filter_filter]
  refine List.filter_congr fun e _ => ?_
  by_cases he : e.1 = name
  · simp [he, ht]
  · simp [he]

theorem temporaries_unlink : temporaries (d.unlink name) = d.temporaries.filter fun e => e.1 ≠ name := by
  rw [temporaries, temporaries, Directory.unlink, List.filter_filter, List.filter_filter]
  exact List.filter_congr fun e _ => Bool.and_comm _ _

theorem not_mem_of_links (h : d.links file = 0) : (∀ e ∈ d.published, e.2 ≠ file) ∧ ∀ e ∈ d.temporaries, e.2 ≠ file := by
  have hentries : ∀ e ∈ d.entries, e.2 ≠ file := fun e he => by simpa using List.countP_eq_zero.mp h e he
  exact ⟨fun e he => hentries e (mem_published.mp he).1, fun e he => hentries e (mem_temporaries.mp he).1⟩

/-- One directory later than another: what had been published still is, under the same name and with the same content. -/
structure Later (d d' : EventDirectory) : Prop where
  published : d.published <+: d'.published
  contents : ∀ e ∈ d.published, d'.contents e.2 = d.contents e.2

namespace Later
variable {d' d'' : EventDirectory}

theorem refl (d : EventDirectory) : d.Later d := ⟨List.prefix_refl _, fun _ _ => rfl⟩

theorem trans (h : d.Later d') (h' : d'.Later d'') : d.Later d'' :=
  ⟨h.published.trans h'.published, fun e he => (h'.contents e (h.published.subset he)).trans (h.contents e he)⟩

theorem map_eventFile (h : d.Later d') {l : List (Str × Nat)} (hl : ∀ e ∈ l, e ∈ d.published) :
    l.map d'.eventFile = l.map d.eventFile :=
  List.map_congr_left fun e he => by rw [eventFile, eventFile, h.contents e (hl e he)]

theorem journal (h : d.Later d') : d.journal <+: d'.journal := by
  obtain ⟨l, hl⟩ := h.published
  rw [EventDirectory.journal, EventDirectory.journal, ← hl, List.map_append, h.map_eventFile fun e he => he]
  exact List.prefix_append _ _

/-- Where nothing has been published since, the journal is the same. -/
theorem journal_eq (h : d.Later d') (hpublished : d'.published = d.published) : d'.journal = d.journal := by
  rw [EventDirectory.journal, EventDirectory.journal, hpublished, h.map_eventFile fun e he => he]

end Later

theorem later_create (ht : IsTemporary name) (hfile : d.links file = 0) : d.Later (d.create name file data) :=
  ⟨by rw [published_create ht], fun e he => Function.update_of_ne ((not_mem_of_links hfile).1 e he) _ _⟩

theorem later_write (hfile : file ∉ d.published.map (·.2)) : d.Later (d.write file data) := by
  refine ⟨List.prefix_refl _, fun e he => Function.update_of_ne ?_ _ _⟩
  rintro rfl
  exact hfile (List.mem_map_of_mem he)

theorem later_link (ht : ¬IsTemporary name) : d.Later (d.link name file) :=
  ⟨by rw [published_link ht]; exact List.prefix_append _ _, fun _ _ => rfl⟩

theorem later_unlink (ht : IsTemporary name) : d.Later (d.unlink name) :=
  ⟨by rw [published_unlink ht], fun _ _ => rfl⟩

namespace Tidy

theorem create (h : d.Tidy) (ht : IsTemporary name) (hname : name ∉ d.names) (hfile : d.links file = 0) :
    Tidy (d.create name file data) where
  names := by
    rw [Directory.names, Directory.create, List.map_append]
    refine List.nodup_append.mpr ⟨h.names, List.nodup_singleton _, fun a ha b hb => ?_⟩
    rw [List.mem_singleton.mp hb]
    rintro rfl
    exact hname ha
  named := by
    rw [published_create ht]
    exact h.named
  published := by
    rw [published_create ht]
    exact h.published
  temporaries := by
    rw [temporaries_create ht, List.map_append]
    refine List.nodup_append.mpr ⟨h.temporaries, List.nodup_singleton _, fun a ha b hb => ?_⟩
    rw [List.mem_singleton.mp hb]
    obtain ⟨e, he, rfl⟩ := List.mem_map.mp ha
    exact (not_mem_of_links hfile).2 e he

theorem write (h : d.Tidy) : Tidy (d.write file data) := ⟨h.names, h.named, h.published, h.temporaries⟩

theorem link (h : d.Tidy) (ht : ¬IsTemporary name) (hname : name ∉ d.names) (hnamed : IsNamed d.published.length name)
    (hfile : file ∉ d.published.map (·.2)) : Tidy (d.link name file) where
  names := by
    rw [Directory.names, Directory.link, List.map_append]
    refine List.nodup_append.mpr ⟨h.names, List.nodup_singleton _, fun a ha b hb => ?_⟩
    rw [List.mem_singleton.mp hb]
    rintro rfl
    exact hname ha
  named := by
    intro k e he
    rw [published_link ht] at he
    by_cases hk : k < d.published.length
    · rw [List.getElem?_append_left hk] at he
      exact h.named k e he
    · rw [List.getElem?_append_right (not_lt.mp hk), List.getElem?_singleton] at he
      split_ifs at he with hzero
      cases he
      rw [show k = d.published.length by omega]
      exact hnamed
  published := by
    rw [published_link ht, List.map_append]
    refine List.nodup_append.mpr ⟨h.published, List.nodup_singleton _, fun a ha b hb => ?_⟩
    rw [List.mem_singleton.mp hb]
    rintro rfl
    exact hfile ha
  temporaries := by
    rw [temporaries_link ht]
    exact h.temporaries

theorem unlink (h : d.Tidy) (ht : IsTemporary name) : Tidy (d.unlink name) where
  names := h.names.sublist (List.Sublist.map _ List.filter_sublist)
  named := by
    rw [published_unlink ht]
    exact h.named
  published := by
    rw [published_unlink ht]
    exact h.published
  temporaries := by
    rw [temporaries_unlink]
    exact h.temporaries.sublist (List.Sublist.map _ List.filter_sublist)

end Tidy

/-! ### The names of events -/

theorem le_length_paddedText (w n : Nat) : w ≤ (paddedText w n).length := by
  rw [paddedText, List.length_append, List.length_replicate]
  omega

theorem isNamed_eventFileName {e : Event} {k : Nat} (h : e.sequence.1 = k + 1) : IsNamed k (eventFileName e) where
  digit := by
    have hdigits := isDigit_paddedText sequenceWidth e.sequence.1
    have hlength : paddedText sequenceWidth e.sequence.1 ≠ [] := by
      intro hnil
      have := le_length_paddedText sequenceWidth e.sequence.1
      rw [hnil] at this
      exact absurd this (by decide)
    obtain ⟨c, t, ht⟩ := List.exists_cons_of_ne_nil hlength
    rw [ht, List.all_cons, Bool.and_eq_true] at hdigits
    exact ⟨c, by rw [eventFileName, ht]; rfl, hdigits.1⟩
  sequence := by
    intro n hex hname
    by_cases hsequence : e.sequence.1 < 10 ^ sequenceWidth
    · rw [matchEventName_eventFileName hsequence] at hname
      cases hname
      exact h
    · rw [matchEventName_eq_none (not_lt.mp hsequence)] at hname
      cases hname

end EventDirectory

/-- Every file that is replayed adds one to the sequence. -/
theorem nextSequence_of_foldlM {workspaceId : Uuid} {l : List EventFile} {u v : Option State}
    (h : l.foldlM (extend workspaceId) u = .ok v) : (nextSequence v).1 = (nextSequence u).1 + l.length := by
  induction l generalizing u with
  | nil =>
    cases h
    rfl
  | cons f l ih =>
    rw [List.foldlM_cons] at h
    obtain ⟨w, hw, hv⟩ := bind_eq_ok.mp h
    obtain ⟨e, -, hw⟩ := bind_eq_ok.mp hw
    obtain ⟨s', hs', hw⟩ := bind_eq_ok.mp hw
    cases hw
    rw [ih hv, (applyEvent_records hs').next.1, List.length_cons]
    exact Nat.add_right_comm _ 1 _

/-- The files that were replayed have the sequences from the first one on. -/
theorem matchEventName_of_foldlM {workspaceId : Uuid} {l : List EventFile} {u v : Option State}
    (h : l.foldlM (extend workspaceId) u = .ok v) {k : Nat} {f : EventFile} (hf : l[k]? = some f) :
    ∃ hex, matchEventName f.name = some ((nextSequence u).1 + k, hex) := by
  induction l generalizing u k with
  | nil => cases hf
  | cons g l ih =>
    rw [List.foldlM_cons] at h
    obtain ⟨w, hw, hv⟩ := bind_eq_ok.mp h
    obtain ⟨e, he, hw⟩ := bind_eq_ok.mp hw
    obtain ⟨s', hs', hw⟩ := bind_eq_ok.mp hw
    cases hw
    cases k with
    | zero =>
      cases hf
      exact matchEventName_of_readEvent he
    | succ k =>
      obtain ⟨hex, hname⟩ := ih hv hf
      rw [(applyEvent_records hs').next.1, show (nextSequence u).succ.1 = (nextSequence u).1 + 1 from rfl, Nat.add_right_comm] at hname
      exact ⟨hex, hname⟩

/-- A journal has as many files as the state that it projects to has events. -/
theorem length_of_project {workspaceId : Uuid} {files : List EventFile} {s : State} (h : project workspaceId files = .ok s) :
    s.events.length = files.length := by
  have hlength := nextSequence_of_foldlM (project_eq_ok.mp h).2.1
  rw [sortFiles, (List.perm_insertionSort _ files).length_eq] at hlength
  simp only [nextSequence, Option.elim_some, Option.elim_none] at hlength
  omega

/-! ### The directory of a journal -/

/-- The directory that holds the files of a journal and nothing else. -/
def journalDirectory (files : List EventFile) : EventDirectory :=
  ⟨files.zipIdx.map fun p => (p.1.name, p.2), fun i => (files[i]?.map (·.data)).getD []⟩

/-- The directory of a workspace that can be read is tidy, has no temporary files, and its journal is that of the workspace. -/
theorem tidy_journalDirectory {workspaceId : Uuid} {files : List EventFile} {s : State} (h : project workspaceId files = .ok s)
    (hsorted : sortFiles files = files) :
    (journalDirectory files).Tidy ∧ (journalDirectory files).temporaries = [] ∧ (journalDirectory files).journal = files := by
  have hfold := (project_eq_ok.mp h).2.1
  rw [hsorted] at hfold
  have hname (k : Nat) (f : EventFile) (hf : files[k]? = some f) : ∃ hex, matchEventName f.name = some (k + 1, hex) := by
    obtain ⟨hex, hname⟩ := matchEventName_of_foldlM hfold hf
    exact ⟨hex, hname.trans (by rw [Nat.add_comm]; rfl)⟩
  have hnamed (k : Nat) (f : EventFile) (hf : files[k]? = some f) : EventDirectory.IsNamed k f.name := by
    obtain ⟨hex, hmatch⟩ := hname k f hf
    refine ⟨?_, fun n hex' hn => ?_⟩
    · obtain ⟨digits, rest, heq, hlength, hdigits, -⟩ := matchEventName_eq_some hmatch
      obtain ⟨c, t, rfl⟩ := List.exists_cons_of_ne_nil (List.ne_nil_of_length_pos (hlength ▸ (by decide : 0 < sequenceWidth)))
      rw [List.all_cons, Bool.and_eq_true] at hdigits
      exact ⟨c, by rw [heq]; rfl, hdigits.1⟩
    · rw [hmatch] at hn
      cases hn
      rfl
  have hentries (k : Nat) : (journalDirectory files).entries[k]? = files[k]?.map fun f => (f.name, k) := by
    rw [journalDirectory, List.getElem?_map, List.getElem?_zipIdx, Option.map_map]
    simp only [Nat.zero_add, Function.comp_def]
  have hall : ∀ e ∈ (journalDirectory files).entries, ¬Reading.IsTemporary e.1 := by
    intro e he
    obtain ⟨k, hk⟩ := List.mem_iff_getElem?.mp he
    rw [hentries] at hk
    obtain ⟨f, hf, rfl⟩ := Option.map_eq_some_iff.mp hk
    exact EventDirectory.not_isTemporary_of_digit (hnamed k f hf).digit
  have hpublished : (journalDirectory files).published = (journalDirectory files).entries :=
    List.filter_eq_self.mpr fun e he => decide_eq_true (hall e he)
  have htemporaries : (journalDirectory files).temporaries = [] :=
    List.filter_eq_nil_iff.mpr fun e he => by simpa using hall e he
  have hfiles : ((journalDirectory files).published.map (·.2)).Nodup := by
    rw [hpublished, journalDirectory, List.map_map]
    exact List.nodup_zipIdx_map_snd files
  refine ⟨⟨?_, fun k e he => ?_, hfiles, by rw [htemporaries]; exact List.nodup_nil⟩, htemporaries, ?_⟩
  · -- the sequences of two names differ where their positions do
    refine List.pairwise_map.mpr (List.pairwise_iff_getElem.mpr fun i j hi hj hij heq => ?_)
    have hi' := (List.getElem?_eq_getElem hi).symm.trans (hentries i)
    have hj' := (List.getElem?_eq_getElem hj).symm.trans (hentries j)
    obtain ⟨f, hf, hfe⟩ := Option.map_eq_some_iff.mp hi'.symm
    obtain ⟨g, hg, hge⟩ := Option.map_eq_some_iff.mp hj'.symm
    obtain ⟨hexf, hf⟩ := hname i f hf
    obtain ⟨hexg, hg⟩ := hname j g hg
    rw [← hfe, ← hge] at heq
    rw [show f.name = g.name from heq, hg, Option.some.injEq, Prod.mk.injEq] at hf
    omega
  · rw [hpublished, hentries] at he
    obtain ⟨f, hf, rfl⟩ := Option.map_eq_some_iff.mp he
    exact hnamed k f hf
  · rw [EventDirectory.journal, hpublished]
    refine List.ext_getElem? fun k => ?_
    rw [List.getElem?_map, hentries]
    cases hf : files[k]? with
    | none => rfl
    | some f =>
      have hdata : (journalDirectory files).contents k = f.data := by
        simp only [journalDirectory, hf]
        rfl
      rw [Option.map_some, Option.map_some, EventDirectory.eventFile, hdata]

end LeanCtx
