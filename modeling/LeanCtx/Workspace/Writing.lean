import LeanCtx.Workspace.Directory
import LeanCtx.Workspace.Sampling

/-! Appends on a directory: `_append` and `_write_event` under the lock, as the steps of the clients that hold it one after another.
    A file operation may fail, and a client may stop at any step; the lock is then free, and the directory is as it was left. -/

namespace LeanCtx
open Json Machine Reading EventDirectory

/-- An event that is to be published. -/
structure Publication where
  event : Event
  candidate : State
  file : EventFile

/-- Where the client that holds the lock is in its append. -/
inductive Phase
  | projecting
  | creating (p : Publication) (tries : Nat)
  | writing (p : Publication) (temporary : Str) (file : Nat) (written : Nat)
  | unlinking (p : Publication) (temporary : Str) (file : Nat)
  | checking (p : Publication) (file : Nat)
  | releasing (result : Except Err WorkspaceReceipt)

/-- The client that holds the lock: what it appends and where it is. Beside that, the journal that it found, and whether a file
    operation of it has failed. -/
structure Holder where
  request : Request
  before : List EventFile
  faulted : Bool
  phase : Phase

/-- An append that has ended: its result, and the journals that it found and left. -/
structure Answer where
  request : Request
  before : List EventFile
  after : List EventFile
  faulted : Bool
  result : Except Err WorkspaceReceipt

/-- A workspace that clients share: its directory, the client that holds the lock, and the appends that have ended so far. -/
structure Store where
  directory : EventDirectory
  holder : Option Holder
  answers : List Answer

/-- `_append` from the projection up to the point where the temporary file is created. The last check is the first one of
    `_write_event`. -/
def prepareFrom (workspaceId : Uuid) (projected : Except Err State) (names : List Str) (r : Request) : Except Err Prepared := do
  let s ← projected
  match s.receipts.get? r.eventId with
  | some previous => do
    let receipt ← retryReceipt s previous r.eventId r.kind r.payload
    return .retried s receipt
  | none => do
    ensure (s.lifecycle = .active) .lifecycle
    ensure (s.events.length + 1 ≤ s.policy.maxEvents.1) .policy
    let event ← Event.record workspaceId (nextSequence (some s)) r.eventId r.kind r.payload s.lastEventDigest
    let candidate ← catching (applyEvent r.verified (some s) event) rejection
    r.prePublish
    let data ← canonical event.toDict
    ensure (eventFileName event ∉ names) .conflict
    return .publish event candidate ⟨eventFileName event, data ++ [10]⟩

theorem prepare_eq (workspaceId : Uuid) (files : List EventFile) (r : Request) :
    prepare workspaceId files r = prepareFrom workspaceId (readState workspaceId files) (files.map (·.name)) r := rfl

namespace Store

/-- How often a name for the temporary file is tried. -/
def maxTries : Nat := 8

inductive Action
  | acquire (r : Request)
  | project
  | create (temporary : Str) (file : Nat)
  | write (count : Nat)
  | link
  | unlink
  | check
  | release
  | fail (cleaned : Bool)
  | stop

variable (workspaceId : Uuid) (σ : Store)

/-- The directory after the handler of an exception has tried to remove a temporary file. -/
def cleanUp (d : EventDirectory) (cleaned : Bool) (temporary : Str) : EventDirectory := if cleaned = true then d.unlink temporary else d

/-- The holder and the directory after a file operation of it has failed. -/
def failed (h : Holder) (cleaned : Bool) : Store :=
  let ended (d : EventDirectory) (err : Err) : Store := { σ with directory := d, holder := some { h with faulted := true, phase := .releasing (.error err) } }
  match h.phase with
  | .projecting => ended σ.directory .io
  | .creating _ _ => ended σ.directory .io
  | .writing _ temporary _ _ => ended (cleanUp σ.directory cleaned temporary) .io
  | .unlinking _ temporary _ => ended (cleanUp σ.directory cleaned temporary) .io
  | .checking _ _ => ended σ.directory .io
  | .releasing _ => ended σ.directory .lock

/-- The step of a holder that goes on. -/
def advance (h : Holder) : Action → Option Store
  | .project =>
    match h.phase with
    | .projecting =>
      let projected := catching ((projectDirectory workspaceId).eval σ.directory) raiseProjection
      let phase := match prepareFrom workspaceId projected σ.directory.names h.request with
        | .error err => .releasing (.error err)
        | .ok (.retried _ receipt) => .releasing (.ok receipt)
        | .ok (.publish event candidate file) => .creating ⟨event, candidate, file⟩ 0
      some { σ with holder := some { h with phase } }
    | _ => none
  | .create temporary file =>
    match h.phase with
    | .creating p tries =>
      if IsTemporary temporary then
        if temporary ∈ σ.directory.names then
          if tries + 1 = maxTries then some (σ.failed h false) else some { σ with holder := some { h with phase := .creating p (tries + 1) } }
        -- the number of a new file is no other file's
        else if σ.directory.links file = 0 then
          some { σ with directory := σ.directory.create temporary file [], holder := some { h with phase := .writing p temporary file 0 } }
        else none
      else none
    | _ => none
  | .write count =>
    match h.phase with
    | .writing p temporary file written =>
      if written < p.file.data.length then
        let written := min (written + count) p.file.data.length
        some { σ with
          directory := σ.directory.write file (p.file.data.take written)
          holder := some { h with phase := .writing p temporary file written } }
      else none
    | _ => none
  | .link =>
    match h.phase with
    | .writing p temporary file written =>
      if written = p.file.data.length then
        if σ.directory.links file = 1 then
          if p.file.name ∈ σ.directory.names then
            some { σ with directory := σ.directory.unlink temporary, holder := some { h with phase := .releasing (.error .conflict) } }
          else
            some { σ with directory := σ.directory.link p.file.name file, holder := some { h with phase := .unlinking p temporary file } }
        else some (σ.failed h true)
      else none
    | _ => none
  | .unlink =>
    match h.phase with
    | .unlinking p temporary file =>
      some { σ with directory := σ.directory.unlink temporary, holder := some { h with phase := .checking p file } }
    | _ => none
  | .check =>
    match h.phase with
    | .checking p file =>
      let result := if σ.directory.stat p.file.name = some (file, 1) then receiptForEvent p.candidate p.event else .error .io
      some { σ with holder := some { h with phase := .releasing result } }
    | _ => none
  | .release =>
    match h.phase with
    | .releasing result =>
      some { σ with
        holder := none
        answers := σ.answers ++ [⟨h.request, h.before, σ.directory.journal, h.faulted, result⟩] }
    | _ => none
  | .fail cleaned => some (σ.failed h cleaned)
  | .stop => some { σ with holder := none }
  | .acquire _ => none

/-- The store after an action, where it can be done. -/
def next (a : Action) : Option Store :=
  match σ.holder, a with
  | none, .acquire r => some { σ with holder := some ⟨r, σ.directory.journal, false, .projecting⟩ }
  | none, _ => none
  | some h, a => σ.advance workspaceId h a

/-- The steps of a store. -/
def Steps : Option Store → Action → Store → Prop
  | some σ, a, σ' => σ.next workspaceId a = some σ'
  | none, _, _ => False

end Store

/-! ### One append after another -/

/-- The steps of a journal that is a list: each one is an append. -/
def AppendSteps (workspaceId : Uuid) : Option (List EventFile) → Request → List EventFile → Prop
  | some files, r, files' => (append workspaceId files r).1 = files'
  | none, _, _ => False

/-- A journal that several appends make of another. -/
def AppendRuns (workspaceId : Uuid) : List EventFile → List EventFile → Prop := Runs (AppendSteps workspaceId) fun _ _ => True

/-- An append that found one journal and left another is the append of the sequential journal: it has its result, or else a file
    operation has failed, and it raises; then it may have been published or not. -/
def Appends (workspaceId : Uuid) (r : Request) (before after : List EventFile) (faulted : Bool) (result : Except Err WorkspaceReceipt) :
    Prop :=
  (after = (append workspaceId before r).1 ∧ result = (·.receipt) <$> (append workspaceId before r).2) ∨
    faulted = true ∧ (∃ err, result = .error err) ∧ (after = before ∨ after = (append workspaceId before r).1)

section
variable {workspaceId : Uuid} {files before after : List EventFile} {r : Request} {d : EventDirectory}

theorem prefix_append (files : List EventFile) : files <+: (append workspaceId files r).1 := by
  unfold append
  split
  · exact List.prefix_refl _
  · exact List.prefix_refl _
  · exact List.prefix_append _ _

theorem Appends.isPrefix {faulted : Bool} {result : Except Err WorkspaceReceipt}
    (h : Appends workspaceId r before after faulted result) : before <+: after := by
  obtain ⟨rfl, -⟩ | ⟨-, -, rfl | rfl⟩ := h
  · exact prefix_append _
  · exact List.prefix_refl _
  · exact prefix_append _

theorem not_isTemporary_eventFileName (e : Event) : ¬IsTemporary (eventFileName e) :=
  not_isTemporary_of_digit (isNamed_eventFileName (k := e.sequence.1 - 1) (Nat.sub_add_cancel e.sequence.2).symm).digit

theorem prepareFrom_congr {projected : Except Err State} {names names' : List Str}
    (h : ∀ e : Event, eventFileName e ∈ names ↔ eventFileName e ∈ names') :
    prepareFrom workspaceId projected names r = prepareFrom workspaceId projected names' r := by
  unfold prepareFrom
  simp only [h]

/-- In a tidy directory an append is prepared as in its journal. -/
theorem prepareFrom_eq (h : d.Tidy) :
    prepareFrom workspaceId (catching ((projectDirectory workspaceId).eval d) raiseProjection) d.names r =
      prepare workspaceId d.journal r := by
  rw [prepare_eq, h.eval_projectDirectory, readState]
  refine prepareFrom_congr fun e => ?_
  simp only [Directory.names, journal, List.map_map, List.mem_map, Function.comp_apply]
  constructor
  · rintro ⟨x, hx, hname⟩
    exact ⟨x, mem_published.mpr ⟨hx, hname ▸ not_isTemporary_eventFileName e⟩, hname⟩
  · rintro ⟨x, hx, hname⟩
    exact ⟨x, (mem_published.mp hx).1, hname⟩

/-- An append that publishes: the file is named after the event, which has the next sequence. -/
theorem append_of_publish {event : Event} {candidate : State} {file : EventFile}
    (h : prepare workspaceId files r = .ok (.publish event candidate file)) :
    file.name = eventFileName event ∧ event.sequence.1 = files.length + 1 ∧ (append workspaceId files r).1 = files ++ [file] ∧
      (·.receipt) <$> (append workspaceId files r).2 = receiptForEvent candidate event := by
  have happend : append workspaceId files r =
      (files ++ [file], (fun receipt => ⟨files ++ [file], candidate, receipt⟩) <$> receiptForEvent candidate event) := by
    rw [append, h]
  simp only [prepare, readState, bind_eq_ok, catching_eq_ok] at h
  obtain ⟨s, hs, h⟩ := h
  split at h
  · simp only [bind_eq_ok, pure_eq_ok, reduceCtorEq, and_false, exists_false] at h
  · simp only [bind_eq_ok, ensure_eq_ok, catching_eq_ok, exists_const, pure_eq_ok, Prepared.publish.injEq] at h
    obtain ⟨-, -, e, he, t, -, _, -, data, -, -, rfl, -, rfl⟩ := h
    refine ⟨rfl, ?_, by rw [happend], ?_⟩
    · rw [(Event.sealed_record he).2.2.1, ← length_of_project hs]
    · rw [happend]
      cases receiptForEvent candidate e <;> rfl

/-- The name of a file that is to be published is free. -/
theorem not_mem_of_publish {projected : Except Err State} {names : List Str} {event : Event} {candidate : State} {file : EventFile}
    (h : prepareFrom workspaceId projected names r = .ok (.publish event candidate file)) : file.name ∉ names := by
  simp only [prepareFrom, bind_eq_ok] at h
  obtain ⟨s, -, h⟩ := h
  split at h
  · simp only [bind_eq_ok, pure_eq_ok, reduceCtorEq, and_false, exists_false] at h
  · simp only [bind_eq_ok, ensure_eq_ok, exists_const, pure_eq_ok, Prepared.publish.injEq] at h
    obtain ⟨-, -, e, -, t, -, _, -, data, -, hname, -, -, rfl⟩ := h
    exact hname

theorem data_of_publish {projected : Except Err State} {names : List Str} {event : Event} {candidate : State} {file : EventFile}
    (h : prepareFrom workspaceId projected names r = .ok (.publish event candidate file)) : 0 < file.data.length := by
  simp only [prepareFrom, bind_eq_ok] at h
  obtain ⟨s, -, h⟩ := h
  split at h
  · simp only [bind_eq_ok, pure_eq_ok, reduceCtorEq, and_false, exists_false] at h
  · simp only [bind_eq_ok, ensure_eq_ok, exists_const, pure_eq_ok, Prepared.publish.injEq] at h
    obtain ⟨-, -, e, -, t, -, _, -, data, -, -, -, -, rfl⟩ := h
    simp

theorem append_of_retried {s : State} {receipt : WorkspaceReceipt} (h : prepare workspaceId files r = .ok (.retried s receipt)) :
    append workspaceId files r = (files, .ok ⟨files, s, receipt⟩) := by
  rw [append, h]

theorem append_of_error {err : Err} (h : prepare workspaceId files r = .error err) :
    append workspaceId files r = (files, .error err) := by
  rw [append, h]

end

namespace Store
variable {workspaceId : Uuid} {start : List EventFile} {σ₀ σ σ' σ'' : Store}

/-! ### The invariant -/

/-- The event that a holder publishes is the one that the sequential append publishes. -/
def Publishes (workspaceId : Uuid) (h : Holder) (p : Publication) : Prop :=
  prepare workspaceId h.before h.request = .ok (.publish p.event p.candidate p.file)

/-- What a directory holds for a client at some place of its append: nothing is published before the link, and after it the one file that
    is to be published, with all of its content. -/
def Follows (workspaceId : Uuid) (d : EventDirectory) (h : Holder) : Phase → Prop
  | .projecting => d.journal = h.before
  | .creating p _ => d.journal = h.before ∧ Publishes workspaceId h p
  | .writing p temporary file written => d.journal = h.before ∧ Publishes workspaceId h p ∧ (temporary, file) ∈ d.temporaries ∧
      file ∉ d.published.map (·.2) ∧ d.contents file = p.file.data.take written
  | .unlinking p temporary file => d.journal = h.before ++ [p.file] ∧ Publishes workspaceId h p ∧ (temporary, file) ∈ d.temporaries ∧
      (p.file.name, file) ∈ d.published
  | .checking p file => d.journal = h.before ++ [p.file] ∧ Publishes workspaceId h p ∧ (p.file.name, file) ∈ d.published ∧
      file ∉ d.temporaries.map (·.2)
  | .releasing result => Appends workspaceId h.request h.before d.journal h.faulted result

structure Inv (workspaceId : Uuid) (start : List EventFile) (σ : Store) : Prop where
  tidy : σ.directory.Tidy
  runs : AppendRuns workspaceId start σ.directory.journal
  follows : ∀ h ∈ σ.holder, Follows workspaceId σ.directory h h.phase
  appends : ∀ a ∈ σ.answers, Appends workspaceId a.request a.before a.after a.faulted a.result
  past : ∀ a ∈ σ.answers, a.after <+: σ.directory.journal ∧ ∀ h ∈ σ.holder, a.after <+: h.before
  ordered : σ.answers.Pairwise fun a b => a.after <+: b.before

/-- A change of the directory and of the phase of the holder that keeps the invariant: it publishes nothing, or what the sequential append
    publishes. -/
theorem Inv.change (hinv : Inv workspaceId start σ) {d : EventDirectory} {h h' : Holder} (hholder : σ.holder = some h)
    (hrequest : h'.before = h.before) (htidy : d.Tidy)
    (hjournal : d.journal = σ.directory.journal ∨ d.journal = (append workspaceId σ.directory.journal h.request).1)
    (hfollows : Follows workspaceId d h' h'.phase) : Inv workspaceId start { σ with directory := d, holder := some h' } where
  tidy := htidy
  runs := by
    obtain hsame | happend := hjournal
    · rw [hsame]
      exact hinv.runs
    · exact .next hinv.runs trivial happend.symm
  follows := by
    rintro _ ⟨⟩
    exact hfollows
  appends := hinv.appends
  past := by
    intro a ha
    obtain ⟨hafter, hbefore⟩ := hinv.past a ha
    refine ⟨?_, ?_⟩
    · obtain hsame | happend := hjournal
      · rw [hsame]
        exact hafter
      · rw [happend]
        exact hafter.trans (prefix_append _)
    · rintro _ ⟨⟩
      rw [hrequest]
      exact hbefore h hholder
  ordered := hinv.ordered

/-- A holder that has failed raises, and the directory has the journal that it had. -/
theorem Inv.failed (hinv : Inv workspaceId start σ) {h : Holder} (hholder : σ.holder = some h) (cleaned : Bool) :
    Inv workspaceId start (σ.failed h cleaned) ∧ σ.directory.Later (σ.failed h cleaned).directory := by
  have hfollows := hinv.follows h hholder
  have hclean {temporary : Str} (ht : IsTemporary temporary) : Tidy (cleanUp σ.directory cleaned temporary) ∧
      σ.directory.Later (cleanUp σ.directory cleaned temporary) ∧
      journal (cleanUp σ.directory cleaned temporary) = σ.directory.journal := by
    unfold cleanUp
    split_ifs
    · exact ⟨hinv.tidy.unlink ht, later_unlink ht, (later_unlink ht).journal_eq (published_unlink ht)⟩
    · exact ⟨hinv.tidy, .refl _, rfl⟩
  have hended {d : EventDirectory} (htidy : d.Tidy) (hlater : σ.directory.Later d) (hjournal : d.journal = σ.directory.journal) (err : Err)
      (hafter : σ.directory.journal = h.before ∨ σ.directory.journal = (append workspaceId h.before h.request).1) :
      Inv workspaceId start { σ with directory := d, holder := some { h with faulted := true, phase := .releasing (.error err) } } ∧
        σ.directory.Later d := by
    refine ⟨hinv.change hholder rfl htidy (.inl hjournal) (.inr ⟨rfl, ⟨err, rfl⟩, ?_⟩), hlater⟩
    rw [hjournal]
    exact hafter
  cases hphase : h.phase with
  | projecting =>
    rw [hphase] at hfollows
    rw [Store.failed, hphase]
    exact hended hinv.tidy (.refl _) rfl _ (.inl hfollows)
  | creating p tries =>
    rw [hphase] at hfollows
    rw [Store.failed, hphase]
    exact hended hinv.tidy (.refl _) rfl _ (.inl hfollows.1)
  | writing p temporary file written =>
    rw [hphase] at hfollows
    obtain ⟨hjournal, -, htemporary, -⟩ := hfollows
    obtain ⟨htidy, hlater, hsame⟩ := hclean (mem_temporaries.mp htemporary).2
    rw [Store.failed, hphase]
    exact hended htidy hlater hsame _ (.inl hjournal)
  | unlinking p temporary file =>
    rw [hphase] at hfollows
    obtain ⟨hjournal, hpublishes, htemporary, -⟩ := hfollows
    obtain ⟨htidy, hlater, hsame⟩ := hclean (mem_temporaries.mp htemporary).2
    rw [Store.failed, hphase]
    exact hended htidy hlater hsame _ (.inr (by rw [hjournal, (append_of_publish hpublishes).2.2.1]))
  | checking p file =>
    rw [hphase] at hfollows
    rw [Store.failed, hphase]
    exact hended hinv.tidy (.refl _) rfl _ (.inr (by rw [hfollows.1, (append_of_publish hfollows.2.1).2.2.1]))
  | releasing result =>
    rw [hphase] at hfollows
    rw [Store.failed, hphase]
    refine hended hinv.tidy (.refl _) rfl _ ?_
    obtain ⟨hafter, -⟩ | ⟨-, -, hafter⟩ := hfollows
    · exact .inr hafter
    · exact hafter

/-- The first step of a holder: the journal is projected. -/
theorem follows_project {h : Holder} (htidy : σ.directory.Tidy) (hbefore : σ.directory.journal = h.before) {phase : Phase}
    (hphase : (match prepareFrom workspaceId (catching ((projectDirectory workspaceId).eval σ.directory) raiseProjection)
        σ.directory.names h.request with
      | .error err => .releasing (.error err)
      | .ok (.retried _ receipt) => .releasing (.ok receipt)
      | .ok (.publish event candidate file) => .creating ⟨event, candidate, file⟩ 0) = phase) :
    Follows workspaceId σ.directory { h with phase } phase := by
  rw [prepareFrom_eq htidy, hbefore] at hphase
  subst hphase
  cases hprepare : prepare workspaceId h.before h.request with
  | error err =>
    refine .inl ?_
    rw [hbefore, append_of_error hprepare]
    exact ⟨rfl, rfl⟩
  | ok x =>
    cases x with
    | retried s receipt =>
      refine .inl ?_
      rw [hbefore, append_of_retried hprepare]
      exact ⟨rfl, rfl⟩
    | publish event candidate file => exact ⟨hbefore, hprepare⟩

theorem Inv.create (hinv : Inv workspaceId start σ) {h : Holder} (hholder : σ.holder = some h) {p : Publication} {tries : Nat}
    (hphase : h.phase = .creating p tries) {temporary : Str} {file : Nat} (ht : IsTemporary temporary)
    (hname : temporary ∉ σ.directory.names) (hfile : σ.directory.links file = 0) :
    Inv workspaceId start { σ with
      directory := σ.directory.create temporary file [], holder := some { h with phase := .writing p temporary file 0 } } := by
  have hfollows := hinv.follows h hholder
  rw [hphase] at hfollows
  obtain ⟨hjournal, hpublishes⟩ := hfollows
  have hlater : σ.directory.Later (σ.directory.create temporary file []) := later_create ht hfile
  have hsame := hlater.journal_eq (published_create ht)
  refine hinv.change hholder rfl (hinv.tidy.create ht hname hfile) (.inl hsame) ⟨hsame.trans hjournal, hpublishes, ?_, ?_, ?_⟩
  · rw [temporaries_create ht]
    exact List.mem_append_right _ (List.mem_singleton_self _)
  · rw [published_create ht]
    intro hmem
    obtain ⟨e, he, hfile'⟩ := List.mem_map.mp hmem
    exact (not_mem_of_links hfile).1 e he hfile'
  · rw [List.take_zero]
    exact Function.update_self _ _ _

theorem Inv.write (hinv : Inv workspaceId start σ) {h : Holder} (hholder : σ.holder = some h) {p : Publication} {temporary : Str}
    {file written : Nat} (hphase : h.phase = .writing p temporary file written) (n : Nat) :
    Inv workspaceId start { σ with
      directory := σ.directory.write file (p.file.data.take n), holder := some { h with phase := .writing p temporary file n } } ∧
      σ.directory.Later (σ.directory.write file (p.file.data.take n)) := by
  have hfollows := hinv.follows h hholder
  rw [hphase] at hfollows
  obtain ⟨hjournal, hpublishes, htemporary, hfile, -⟩ := hfollows
  have hlater : σ.directory.Later (σ.directory.write file (p.file.data.take n)) := later_write hfile
  have hsame := hlater.journal_eq rfl
  exact ⟨hinv.change hholder rfl hinv.tidy.write (.inl hsame)
    ⟨hsame.trans hjournal, hpublishes, htemporary, hfile, Function.update_self _ _ _⟩, hlater⟩

/-- The link publishes the whole file, under the name that the sequential append gives it. -/
theorem Inv.link (hinv : Inv workspaceId start σ) {h : Holder} (hholder : σ.holder = some h) {p : Publication} {temporary : Str}
    {file : Nat} (hphase : h.phase = .writing p temporary file p.file.data.length) (hname : p.file.name ∉ σ.directory.names) :
    Inv workspaceId start { σ with
      directory := σ.directory.link p.file.name file, holder := some { h with phase := .unlinking p temporary file } } ∧
      σ.directory.Later (σ.directory.link p.file.name file) := by
  have hfollows := hinv.follows h hholder
  rw [hphase] at hfollows
  obtain ⟨hjournal, hpublishes, htemporary, hfile, hcontents⟩ := hfollows
  obtain ⟨hfilename, hsequence, happend, -⟩ := append_of_publish hpublishes
  have ht : ¬IsTemporary p.file.name := hfilename ▸ not_isTemporary_eventFileName p.event
  have hlater : σ.directory.Later (σ.directory.link p.file.name file) := later_link ht
  have hlength : σ.directory.published.length = h.before.length := by rw [← hjournal, journal, List.length_map]
  have hnamed : IsNamed σ.directory.published.length p.file.name := by
    rw [hfilename, hlength]
    exact isNamed_eventFileName hsequence
  have hlinked : journal (σ.directory.link p.file.name file) = h.before ++ [p.file] := by
    have hdata : σ.directory.contents file = p.file.data := by rw [hcontents, List.take_length]
    have hsame : EventDirectory.eventFile (σ.directory.link p.file.name file) = σ.directory.eventFile := rfl
    rw [journal, published_link ht, List.map_append, hsame, ← hjournal, journal, List.map_singleton, EventDirectory.eventFile, hdata]
  refine ⟨hinv.change hholder rfl (hinv.tidy.link ht hname hnamed hfile) (.inr (by rw [hlinked, hjournal, happend]))
    ⟨hlinked, hpublishes, ?_, ?_⟩, hlater⟩
  · rw [temporaries_link ht]
    exact htemporary
  · rw [published_link ht]
    exact List.mem_append_right _ (List.mem_singleton_self _)

theorem Inv.unlink (hinv : Inv workspaceId start σ) {h : Holder} (hholder : σ.holder = some h) {p : Publication} {temporary : Str}
    {file : Nat} (hphase : h.phase = .unlinking p temporary file) :
    Inv workspaceId start { σ with directory := σ.directory.unlink temporary, holder := some { h with phase := .checking p file } } ∧
      σ.directory.Later (σ.directory.unlink temporary) := by
  have hfollows := hinv.follows h hholder
  rw [hphase] at hfollows
  obtain ⟨hjournal, hpublishes, htemporary, hpublished⟩ := hfollows
  have ht := (mem_temporaries.mp htemporary).2
  have hlater : σ.directory.Later (σ.directory.unlink temporary) := later_unlink ht
  have hsame := hlater.journal_eq (published_unlink ht)
  refine ⟨hinv.change hholder rfl (hinv.tidy.unlink ht) (.inl hsame) ⟨hsame.trans hjournal, hpublishes, ?_, ?_⟩, hlater⟩
  · rw [published_unlink ht]
    exact hpublished
  · rw [temporaries_unlink]
    intro hmem
    obtain ⟨e, he, hfile⟩ := List.mem_map.mp hmem
    obtain ⟨he, hne⟩ := List.mem_filter.mp he
    obtain rfl := List.inj_on_of_nodup_map hinv.tidy.temporaries he htemporary hfile
    simp at hne

/-- The last check finds the one name that is left, and the result is that of the sequential append. -/
theorem follows_check {h : Holder} (htidy : σ.directory.Tidy) {p : Publication} {file : Nat}
    (hfollows : Follows workspaceId σ.directory h (.checking p file)) {result : Except Err WorkspaceReceipt}
    (hresult : (if σ.directory.stat p.file.name = some (file, 1) then receiptForEvent p.candidate p.event else .error .io) = result) :
    Follows workspaceId σ.directory { h with phase := .releasing result } (.releasing result) := by
  obtain ⟨hjournal, hpublishes, hpublished, htemporary⟩ := hfollows
  obtain ⟨-, -, happend, hreceipt⟩ := append_of_publish hpublishes
  have hlinks : σ.directory.links file = 1 := by
    rw [htidy.count_published hpublished, List.count_eq_zero_of_not_mem htemporary]
  have hstat : σ.directory.stat p.file.name = some (file, 1) := by
    rw [htidy.stat (mem_published.mp hpublished).1, hlinks]
  rw [if_pos hstat] at hresult
  exact .inl ⟨by rw [hjournal, happend], by rw [← hresult, hreceipt]⟩

theorem Inv.release (hinv : Inv workspaceId start σ) {h : Holder} (hholder : σ.holder = some h) {result : Except Err WorkspaceReceipt}
    (hphase : h.phase = .releasing result) :
    Inv workspaceId start { σ with
      holder := none, answers := σ.answers ++ [⟨h.request, h.before, σ.directory.journal, h.faulted, result⟩] } := by
  have hfollows := hinv.follows h hholder
  rw [hphase] at hfollows
  refine ⟨hinv.tidy, hinv.runs, fun h hh => absurd hh (Option.not_mem_none h), fun a ha => ?_,
    fun a ha => ⟨?_, fun h hh => absurd hh (Option.not_mem_none h)⟩, ?_⟩
  · obtain ha | ha := List.mem_append.mp ha
    · exact hinv.appends a ha
    · rw [List.mem_singleton.mp ha]
      exact hfollows
  · obtain ha | ha := List.mem_append.mp ha
    · exact (hinv.past a ha).1
    · rw [List.mem_singleton.mp ha]
  · refine List.pairwise_append.mpr ⟨hinv.ordered, List.pairwise_singleton _ _, fun a ha b hb => ?_⟩
    rw [List.mem_singleton.mp hb]
    exact (hinv.past a ha).2 h hholder

/-- A step keeps the invariant, and what has been published. -/
theorem Inv.next (hinv : Inv workspaceId start σ) {a : Action} (hs : σ.next workspaceId a = some σ') :
    Inv workspaceId start σ' ∧ σ.directory.Later σ'.directory := by
  unfold Store.next at hs
  cases hholder : σ.holder with
  | none =>
    rw [hholder] at hs
    cases a with
    | acquire r =>
      -- the lock is free, and a client takes it
      cases hs
      refine ⟨⟨hinv.tidy, hinv.runs, ?_, hinv.appends, fun a ha => ⟨(hinv.past a ha).1, ?_⟩, hinv.ordered⟩, .refl _⟩
      · rintro _ ⟨⟩
        rfl
      · rintro _ ⟨⟩
        exact (hinv.past a ha).1
    | _ => cases hs
  | some h =>
    rw [hholder] at hs
    replace hs : σ.advance workspaceId h a = some σ' := hs
    have hfollows := hinv.follows h hholder
    cases a with
    | acquire r => cases hs
    | project =>
      simp only [advance] at hs
      split at hs
      · next hphase =>
        cases hs
        rw [hphase] at hfollows
        exact ⟨hinv.change hholder rfl hinv.tidy (.inl rfl) (follows_project hinv.tidy hfollows rfl), .refl _⟩
      · cases hs
    | create temporary file =>
      simp only [advance] at hs
      split at hs
      · next p tries hphase =>
        split_ifs at hs with ht hname htries hfile
        · cases hs
          exact hinv.failed hholder false
        · cases hs
          rw [hphase] at hfollows
          exact ⟨hinv.change hholder rfl hinv.tidy (.inl rfl) hfollows, .refl _⟩
        · cases hs
          exact ⟨hinv.create hholder hphase ht hname hfile, later_create ht hfile⟩
      · cases hs
    | write count =>
      simp only [advance] at hs
      split at hs
      · next p temporary file written hphase =>
        split_ifs at hs with hwritten
        cases hs
        exact hinv.write hholder hphase _
      · cases hs
    | link =>
      simp only [advance] at hs
      split at hs
      · next p temporary file written hphase =>
        split_ifs at hs with hwritten hlinks hname
        · -- the name was free when the append was prepared, and nobody else has written since
          rw [hphase] at hfollows
          obtain ⟨hjournal, hpublishes, -⟩ := hfollows
          have hprepare : prepare workspaceId σ.directory.journal h.request = .ok (.publish p.event p.candidate p.file) := by
            rw [hjournal]
            exact hpublishes
          exact absurd hname (not_mem_of_publish ((prepareFrom_eq hinv.tidy).trans hprepare))
        · cases hs
          rw [hwritten] at hphase
          exact hinv.link hholder hphase hname
        · cases hs
          exact hinv.failed hholder true
      · cases hs
    | unlink =>
      simp only [advance] at hs
      split at hs
      · next p temporary file hphase =>
        cases hs
        exact hinv.unlink hholder hphase
      · cases hs
    | check =>
      simp only [advance] at hs
      split at hs
      · next p file hphase =>
        cases hs
        rw [hphase] at hfollows
        exact ⟨hinv.change hholder rfl hinv.tidy (.inl rfl) (follows_check hinv.tidy hfollows rfl), .refl _⟩
      · cases hs
    | release =>
      simp only [advance] at hs
      split at hs
      · next result hphase =>
        cases hs
        exact ⟨hinv.release hholder hphase, .refl _⟩
      · cases hs
    | fail cleaned =>
      cases hs
      exact hinv.failed hholder cleaned
    | stop =>
      cases hs
      exact ⟨⟨hinv.tidy, hinv.runs, fun h hh => absurd hh (Option.not_mem_none h), hinv.appends,
        fun a ha => ⟨(hinv.past a ha).1, fun h hh => absurd hh (Option.not_mem_none h)⟩, hinv.ordered⟩, .refl _⟩

/-! ### Runs -/

/-- A tidy store that nobody works on, and that nobody has worked on yet. -/
structure IsIdle (σ : Store) : Prop where
  tidy : σ.directory.Tidy
  holder : σ.holder = none
  answers : σ.answers = []

/-- The stores that follow a store, by the steps of any clients. -/
def Reaches (workspaceId : Uuid) : Store → Store → Prop := Runs (Steps workspaceId) fun _ _ => True

theorem IsIdle.inv (h : σ.IsIdle) : Inv workspaceId σ.directory.journal σ where
  tidy := h.tidy
  runs := .refl
  follows := by simp [h.holder]
  appends := by simp [h.answers]
  past := by simp [h.answers]
  ordered := by simp [h.answers]

theorem Inv.of_reaches (hinv : Inv workspaceId start σ) (h : Reaches workspaceId σ σ') :
    Inv workspaceId start σ' ∧ σ.directory.Later σ'.directory := by
  induction h with
  | refl => exact ⟨hinv, .refl _⟩
  | next _ _ hs ih =>
    obtain ⟨hinv, hlater⟩ := ih
    obtain ⟨hinv', hlater'⟩ := hinv.next hs
    exact ⟨hinv', hlater.trans hlater'⟩

/-! ### No client is in the way of the next one -/

theorem Reaches.step {a : Action} (h : Reaches workspaceId σ σ') (hs : σ'.next workspaceId a = some σ'') : Reaches workspaceId σ σ'' :=
  .next h trivial hs

theorem exists_links_eq_zero (d : EventDirectory) : ∃ file, d.links file = 0 := by
  obtain ⟨file, hfile⟩ := Infinite.exists_notMem_finset (d.entries.map (·.2)).toFinset
  refine ⟨file, List.countP_eq_zero.mpr fun e he hc => hfile ?_⟩
  rw [List.mem_toFinset]
  exact List.mem_map.mpr ⟨e, he, by simpa using hc⟩

/-- From the place where the temporary file is written an append goes through. -/
theorem exists_reaches_of_writing (hinv : Inv workspaceId start σ) {h : Holder} (hholder : σ.holder = some h) {p : Publication}
    {temporary : Str} {file : Nat} (hphase : h.phase = .writing p temporary file 0) (hdata : 0 < p.file.data.length) :
    ∃ σ', Reaches workspaceId σ σ' ∧ σ'.holder = some { h with phase := .releasing (receiptForEvent p.candidate p.event) } ∧
      σ'.answers = σ.answers := by
  have hwrite : σ.next workspaceId (.write p.file.data.length) = some { σ with
      directory := σ.directory.write file (p.file.data.take p.file.data.length)
      holder := some { h with phase := .writing p temporary file p.file.data.length } } := by
    simp only [next, hholder, advance, hphase, hdata, if_true, Nat.zero_add, min_self]
  set σ₁ : Store := { σ with
    directory := σ.directory.write file (p.file.data.take p.file.data.length)
    holder := some { h with phase := .writing p temporary file p.file.data.length } } with hσ₁
  have hinv₁ : Inv workspaceId start σ₁ := (hinv.next hwrite).1
  obtain ⟨hjournal, hpublishes, htemporary, hfile, -⟩ := hinv₁.follows _ rfl
  have hlinks : σ₁.directory.links file = 1 := by
    rw [hinv₁.tidy.count_temporaries htemporary, List.count_eq_zero_of_not_mem hfile]
  have hname : p.file.name ∉ σ₁.directory.names := by
    have hprepare : prepare workspaceId σ₁.directory.journal h.request = .ok (.publish p.event p.candidate p.file) := by
      rw [hjournal]
      exact hpublishes
    exact not_mem_of_publish ((prepareFrom_eq hinv₁.tidy).trans hprepare)
  have hlink : σ₁.next workspaceId .link = some { σ₁ with
      directory := σ₁.directory.link p.file.name file, holder := some { h with phase := .unlinking p temporary file } } := by
    simp only [next, hσ₁, advance, if_true]
    rw [if_pos hlinks, if_neg hname]
  set σ₂ : Store := { σ₁ with
    directory := σ₁.directory.link p.file.name file, holder := some { h with phase := .unlinking p temporary file } } with hσ₂
  have hinv₂ : Inv workspaceId start σ₂ := (hinv₁.next hlink).1
  have hunlink : σ₂.next workspaceId .unlink = some { σ₂ with
      directory := σ₂.directory.unlink temporary, holder := some { h with phase := .checking p file } } := rfl
  set σ₃ : Store := { σ₂ with
    directory := σ₂.directory.unlink temporary, holder := some { h with phase := .checking p file } } with hσ₃
  have hinv₃ : Inv workspaceId start σ₃ := (hinv₂.next hunlink).1
  obtain ⟨-, -, hpublished, hnone⟩ := hinv₃.follows _ rfl
  have hstat : σ₃.directory.stat p.file.name = some (file, 1) := by
    rw [hinv₃.tidy.stat (mem_published.mp hpublished).1, hinv₃.tidy.count_published hpublished, List.count_eq_zero_of_not_mem hnone]
  have hcheck : σ₃.next workspaceId .check = some { σ₃ with
      holder := some { h with phase := .releasing (receiptForEvent p.candidate p.event) } } := by
    simp only [next, hσ₃, advance]
    rw [if_pos hstat]
  exact ⟨_, (((Reaches.step .refl hwrite).step hlink).step hunlink).step hcheck, rfl, rfl⟩

/-- From a free lock an append goes through as if it were the only one. -/
theorem Inv.exists_append (hinv : Inv workspaceId start σ) (hfree : σ.holder = none) (r : Request) {temporary : Str} (ht : IsTemporary temporary)
    (hname : temporary ∉ σ.directory.names) :
    ∃ σ', Reaches workspaceId σ σ' ∧ σ'.holder = none ∧ σ'.directory.journal = (append workspaceId σ.directory.journal r).1 ∧
      σ'.answers = σ.answers ++ [⟨r, σ.directory.journal, σ'.directory.journal, false,
        (·.receipt) <$> (append workspaceId σ.directory.journal r).2⟩] := by
  -- an append that is about to release the lock without a failed operation has done what the sequential one does
  have hrelease {σ₁ : Store} {result : Except Err WorkspaceReceipt} (hreaches : Reaches workspaceId σ σ₁)
      (hholder : σ₁.holder = some ⟨r, σ.directory.journal, false, .releasing result⟩) (hanswers : σ₁.answers = σ.answers) :
      ∃ σ', Reaches workspaceId σ σ' ∧ σ'.holder = none ∧ σ'.directory.journal = (append workspaceId σ.directory.journal r).1 ∧
        σ'.answers = σ.answers ++ [⟨r, σ.directory.journal, σ'.directory.journal, false,
          (·.receipt) <$> (append workspaceId σ.directory.journal r).2⟩] := by
    obtain ⟨hinv₁, -⟩ := hinv.of_reaches hreaches
    have hnext : σ₁.next workspaceId .release = some { σ₁ with
        holder := none, answers := σ₁.answers ++ [⟨r, σ.directory.journal, σ₁.directory.journal, false, result⟩] } := by
      simp only [Store.next, hholder, advance]
    obtain ⟨hafter, hresult⟩ | ⟨hfaulted, -⟩ := hinv₁.follows _ hholder
    · refine ⟨_, hreaches.step hnext, rfl, hafter, ?_⟩
      dsimp only at hresult ⊢
      rw [hanswers, hresult]
    · cases hfaulted
  have hacquire : σ.next workspaceId (.acquire r) = some { σ with holder := some ⟨r, σ.directory.journal, false, .projecting⟩ } := by
    simp only [Store.next, hfree]
  have hprojected := @prepareFrom_eq workspaceId r _ hinv.tidy
  cases hprepare : prepare workspaceId σ.directory.journal r with
  | error err =>
    have hproject : Store.next workspaceId { σ with holder := some ⟨r, σ.directory.journal, false, .projecting⟩ } .project =
        some { σ with holder := some ⟨r, σ.directory.journal, false, .releasing (.error err)⟩ } := by
      simp only [Store.next, advance, hprojected, hprepare]
    exact hrelease ((Reaches.step .refl hacquire).step hproject) rfl rfl
  | ok x =>
    cases x with
    | retried s receipt =>
      have hproject : Store.next workspaceId { σ with holder := some ⟨r, σ.directory.journal, false, .projecting⟩ } .project =
          some { σ with holder := some ⟨r, σ.directory.journal, false, .releasing (.ok receipt)⟩ } := by
        simp only [Store.next, advance, hprojected, hprepare]
      exact hrelease ((Reaches.step .refl hacquire).step hproject) rfl rfl
    | publish event candidate file =>
      have hproject : Store.next workspaceId { σ with holder := some ⟨r, σ.directory.journal, false, .projecting⟩ } .project =
          some { σ with holder := some ⟨r, σ.directory.journal, false, .creating ⟨event, candidate, file⟩ 0⟩ } := by
        simp only [Store.next, advance, hprojected, hprepare]
      obtain ⟨i, hi⟩ := exists_links_eq_zero σ.directory
      have hcreate : Store.next workspaceId { σ with holder := some ⟨r, σ.directory.journal, false, .creating ⟨event, candidate, file⟩ 0⟩ }
          (.create temporary i) = some { σ with
            directory := σ.directory.create temporary i []
            holder := some ⟨r, σ.directory.journal, false, .writing ⟨event, candidate, file⟩ temporary i 0⟩ } := by
        simp only [Store.next, advance, ht, if_true, hname, if_false, hi]
      have hreaches := ((Reaches.step .refl hacquire).step hproject).step hcreate
      have hdata : 0 < file.data.length := data_of_publish hprepare
      obtain ⟨σ', hσ', hholder, hanswers⟩ := exists_reaches_of_writing (hinv.of_reaches hreaches).1 rfl rfl hdata
      exact hrelease (Runs.trans hreaches hσ') hholder hanswers

/-! ### What clients make of a store -/

/-- Whatever clients append to a directory, in whatever order they hold the lock, wherever they stop and whatever file operations fail: the
    journal in the directory is one that the same appends make one after another. Every append that has ended has found a journal and left
    one as the sequential append does, with its result, or raises after a failed file operation, with its event published once or not at all;
    it comes after those that had ended before it began, and what it left is still there. -/
theorem refines_appends (hidle : σ₀.IsIdle) (h : Reaches workspaceId σ₀ σ) :
    AppendRuns workspaceId σ₀.directory.journal σ.directory.journal ∧
      (∀ a ∈ σ.answers, Appends workspaceId a.request a.before a.after a.faulted a.result ∧ a.after <+: σ.directory.journal) ∧
      σ.answers.Pairwise fun a b => a.after <+: b.before := by
  obtain ⟨hinv, -⟩ := hidle.inv.of_reaches h
  exact ⟨hinv.runs, fun a ha => ⟨hinv.appends a ha, (hinv.past a ha).1⟩, hinv.ordered⟩

/-- A sample workspace in a directory of its own, with a commit that it takes. -/
theorem exists_idle : ∃ σ s, IsIdle σ ∧ project (numberedUuid 0) σ.directory.journal = .ok s ∧
    (∀ n ∈ σ.directory.names, ¬IsTemporary n) ∧ ∃ r event candidate file receipt t,
      prepare (numberedUuid 0) σ.directory.journal r = .ok (.publish event candidate file) ∧
      receiptForEvent candidate event = .ok receipt ∧ project (numberedUuid 0) (append (numberedUuid 0) σ.directory.journal r).1 = .ok t := by
  obtain ⟨files, s, hs, hsample, -⟩ := exists_sample
  have hsorted : sortFiles files = files := by
    have hlength : files.length = 1 := (length_of_project hs).symm.trans hsample.events
    obtain ⟨f, rfl⟩ := List.length_eq_one_iff.mp hlength
    rfl
  obtain ⟨htidy, htemporaries, hjournal⟩ := tidy_journalDirectory hs hsorted
  have hfree : ∀ n ∈ (journalDirectory files).names, ¬IsTemporary n := by
    intro n hn ht
    obtain ⟨e, he, rfl⟩ := List.mem_map.mp hn
    have hmem : e ∈ (journalDirectory files).temporaries := mem_temporaries.mpr ⟨he, ht⟩
    rw [htemporaries] at hmem
    cases hmem
  obtain ⟨e, receipt, a, -, -, hnext, happend, hstate, hproject⟩ := (hsample.step_commit (by decide)).append hsample (by decide) hs
  refine ⟨⟨journalDirectory files, none, []⟩, s, ⟨htidy, rfl, rfl⟩, by rw [hjournal, hs], hfree,
    ⟨.contextCommitted, commitPayload [decision], numberedUuid 2, false, .ok ()⟩, ?_⟩
  rw [hjournal]
  cases hprepare : prepare (numberedUuid 0) files ⟨.contextCommitted, commitPayload [decision], numberedUuid 2, false, .ok ()⟩ with
  | error err =>
    rw [append_of_error hprepare] at happend
    cases happend
  | ok x =>
    cases x with
    | retried s' receipt' =>
      -- the commit adds an event
      obtain ⟨t, ht, ⟨-, hsame, -⟩ | ⟨-, e', data, -, -, -, hfiles, -⟩⟩ := append_eq_ok (append_of_retried hprepare)
      · rw [append_of_retried hprepare] at happend
        cases happend
        cases hs.symm.trans ht
        have hevents := hnext.events
        rw [← hstate, hsame, hsample.events] at hevents
        cases hevents
      · simp at hfiles
    | publish event candidate file =>
      obtain ⟨-, -, -, hreceipt⟩ := append_of_publish hprepare
      rw [happend] at hreceipt
      have hfiles : (append (numberedUuid 0) files
          ⟨.contextCommitted, commitPayload [decision], numberedUuid 2, false, .ok ()⟩).1 = a.files := by
        rw [append, hprepare] at happend ⊢
        dsimp only at happend ⊢
        cases hr : receiptForEvent candidate event with
        | error err =>
          rw [hr] at happend
          cases happend
        | ok receipt' =>
          rw [hr] at happend
          cases happend
          rfl
      exact ⟨event, candidate, file, a.receipt, _, rfl, hreceipt.symm, hfiles ▸ hproject⟩

/-- A client appends a commit to a sample workspace. -/
theorem exists_refines_appends : ∃ σ₀ σ, IsIdle σ₀ ∧ Reaches (numberedUuid 0) σ₀ σ ∧ (∃ a ∈ σ.answers, ∃ receipt, a.result = .ok receipt) ∧
    AppendRuns (numberedUuid 0) σ₀.directory.journal σ.directory.journal ∧
      (∀ a ∈ σ.answers, Appends (numberedUuid 0) a.request a.before a.after a.faulted a.result ∧ a.after <+: σ.directory.journal) ∧
      σ.answers.Pairwise fun a b => a.after <+: b.before := by
  obtain ⟨σ₀, s, hidle, hs, hname, r, event, candidate, file, receipt, t, hprepare, hreceipt, -⟩ := exists_idle
  have hinv : Inv (numberedUuid 0) σ₀.directory.journal σ₀ := hidle.inv
  obtain ⟨σ, hreach, -, -, hanswers⟩ := hinv.exists_append hidle.holder r (List.prefix_refl _)
    fun hmem => hname _ hmem (List.prefix_refl temporaryMark)
  refine ⟨σ₀, σ, hidle, hreach, ⟨_, by rw [hanswers]; exact List.mem_append_right _ (List.mem_singleton_self _), receipt, ?_⟩,
    refines_appends hidle hreach⟩
  exact (append_of_publish hprepare).2.2.2.trans hreceipt

/-- A store that clients have left in any state is as good as one that nobody has worked on: a reader of the directory finds what a reader of
    the sequential journal finds, and where no client holds the lock, the next one can append as if it were the only one, as long as a name
    for its temporary file is free. -/
theorem recovers (hidle : σ₀.IsIdle) (h : Reaches workspaceId σ₀ σ) :
    (projectDirectory workspaceId).eval σ.directory = project workspaceId σ.directory.journal ∧
      (σ.holder = none → ∀ (r : Request) (temporary : Str), IsTemporary temporary → temporary ∉ σ.directory.names →
        ∃ σ', Reaches workspaceId σ σ' ∧ σ'.holder = none ∧ σ'.directory.journal = (append workspaceId σ.directory.journal r).1 ∧
          σ'.answers = σ.answers ++ [⟨r, σ.directory.journal, σ'.directory.journal, false,
            (·.receipt) <$> (append workspaceId σ.directory.journal r).2⟩]) := by
  obtain ⟨hinv, -⟩ := hidle.inv.of_reaches h
  exact ⟨hinv.tidy.eval_projectDirectory workspaceId, fun hfree r temporary ht hname => hinv.exists_append hfree r ht hname⟩

/-- A client stops when it has created its temporary file, and the next one appends. -/
theorem exists_recovers : ∃ σ₀ σ σ' : Store, IsIdle σ₀ ∧ Reaches (numberedUuid 0) σ₀ σ ∧ σ.directory.temporaries ≠ [] ∧
    (projectDirectory (numberedUuid 0)).eval σ.directory = project (numberedUuid 0) σ.directory.journal ∧
      Reaches (numberedUuid 0) σ σ' ∧ ∃ receipt, σ'.answers.map (·.result) = [.ok receipt] := by
  obtain ⟨σ₀, s, hidle, hs, hname, r, event, candidate, file, receipt, t, hprepare, hreceipt, -⟩ := exists_idle
  obtain ⟨i, hi⟩ := exists_links_eq_zero σ₀.directory
  have ht : IsTemporary temporaryMark := List.prefix_refl _
  have hname' : temporaryMark ∉ σ₀.directory.names := fun hmem => hname _ hmem ht
  have hacquire : σ₀.next (numberedUuid 0) (.acquire r) =
      some { σ₀ with holder := some ⟨r, σ₀.directory.journal, false, .projecting⟩ } := by
    simp only [next, hidle.holder]
  have hprojected := @prepareFrom_eq (numberedUuid 0) r _ hidle.tidy
  have hproject : Store.next (numberedUuid 0) { σ₀ with holder := some ⟨r, σ₀.directory.journal, false, .projecting⟩ } .project =
      some { σ₀ with holder := some ⟨r, σ₀.directory.journal, false, .creating ⟨event, candidate, file⟩ 0⟩ } := by
    simp only [next, advance, hprojected, hprepare]
  have hcreate : Store.next (numberedUuid 0)
      { σ₀ with holder := some ⟨r, σ₀.directory.journal, false, .creating ⟨event, candidate, file⟩ 0⟩ } (.create temporaryMark i) =
        some { σ₀ with
          directory := σ₀.directory.create temporaryMark i []
          holder := some ⟨r, σ₀.directory.journal, false, .writing ⟨event, candidate, file⟩ temporaryMark i 0⟩ } := by
    simp only [next, advance, ht, if_true, hname', if_false, hi]
  have hstop : Store.next (numberedUuid 0) { σ₀ with
      directory := σ₀.directory.create temporaryMark i []
      holder := some ⟨r, σ₀.directory.journal, false, .writing ⟨event, candidate, file⟩ temporaryMark i 0⟩ } .stop =
        some { σ₀ with directory := σ₀.directory.create temporaryMark i [], holder := none } := rfl
  have hreach := (((Reaches.step .refl hacquire).step hproject).step hcreate).step hstop
  have hsecond : temporaryMark ++ [97] ∉ (σ₀.directory.create temporaryMark i []).names := by
    intro hmem
    obtain ⟨e, he, hname'⟩ := List.mem_map.mp hmem
    obtain he | he := List.mem_append.mp he
    · exact hname _ (List.mem_map_of_mem he) (hname' ▸ List.prefix_append _ _)
    · rw [List.mem_singleton.mp he] at hname'
      exact absurd (show temporaryMark = temporaryMark ++ [97] from hname') (by decide)
  obtain ⟨heval, happend⟩ := recovers hidle hreach
  obtain ⟨σ', hσ', -, -, hanswers⟩ := happend rfl r (temporaryMark ++ [97]) (List.prefix_append _ _) hsecond
  refine ⟨σ₀, _, σ', hidle, hreach, ?_, heval, hσ', receipt, ?_⟩
  · dsimp only
    rw [temporaries_create ht]
    exact List.append_ne_nil_of_right_ne_nil _ (List.cons_ne_nil _ _)
  · have hsame : journal (σ₀.directory.create temporaryMark i []) = σ₀.directory.journal :=
      (later_create ht hi).journal_eq (published_create ht)
    rw [hanswers]
    dsimp only
    rw [hidle.answers, hsame, (append_of_publish hprepare).2.2.2, hreceipt]
    rfl

end Store

end LeanCtx
