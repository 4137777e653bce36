import LeanCtx.Workspace.Forking
import LeanCtx.Workspace.Writing

/-! Publishing: how `create` and `fork` bring a workspace into the directory of the workspaces. The events of the workspace are written
    in a temporary directory, which is then renamed under a lock. Any number of calls and appends run at the same time; an operation
    may fail, and a client may stop at any step. -/

namespace LeanCtx
open Json Machine Reading EventDirectory

/-! ### What is published -/

/-- A workspace that is to be published: the files of its events, and the state after them. -/
structure Newborn where
  workspaceId : Uuid
  files : List EventFile
  state : State

/-- What `create` asks for. -/
structure CreateArguments where
  workspaceId : Uuid
  name : Text 128
  policy : WorkspacePolicy
  eventId : Uuid
  now : DateTime

namespace Newborn

/-- `ContextWorkspace.create(…)` up to the temporary directory. -/
def create (a : CreateArguments) : Except Err Newborn := do
  rejectSensitive a.name.json "name"
  let identity ← WorkspaceIdentity.make a.workspaceId a.name a.now
  let event ← Event.record a.workspaceId .one a.eventId .workspaceCreated (createdPayload identity a.policy) none
  let s ← catching (applyEvent false none event) raiseProjection
  let data ← canonical event.toDict
  return ⟨a.workspaceId, [eventFile event data], s⟩

/-- `ContextWorkspace.fork(…)` up to the temporary directory, with the bytes that are written there. -/
def fork (s : State) (c : ContextCheckpoint) (a : ForkArguments) : Except Err Newborn := do
  let b ← s.forkFrom c a
  let first ← canonical b.first.toDict
  let second ← canonical b.second.toDict
  return ⟨a.workspaceId, [eventFile b.first first, eventFile b.second second], b.child⟩

/-- What one of the two calls has made. -/
def IsMade (n : Newborn) : Prop := (∃ a, create a = .ok n) ∨ ∃ s c a, fork s c a = .ok n

end Newborn

/-- Where a call is. The temporary directory is named from where it is made. -/
inductive Place
  | looking
  | making
  | nesting (temporary : Str)
  | writing (temporary : Str) (written : Nat)
  | locking (temporary : Str)
  | checking (temporary : Str)
  | moving (temporary : Str)
  | unlocking (temporary : Str) (raised : Option Err)
  | settling
  | cleaning (temporary : Str) (err : Err)
  | ended (result : Except Err Unit)
  | stopped

/-- A call: what it publishes and where it is. -/
structure Call where
  newborn : Newborn
  place : Place

/-- The directory of the workspaces: what its names are, directories without events yet or with them; the names that were ever given to
    temporary directories; the call that holds its lock; all calls; and those that have renamed, in their order. -/
structure Workspaces where
  entries : Str → Option (Option Store)
  used : List Str
  lock : Option Nat
  calls : Nat → Option Call
  births : List Nat

/-- The beginning of the name of a temporary directory. -/
def privateMark : Str := Str.lit ".workspace-"

def IsPrivate (name : Str) : Prop := privateMark <+: name

instance (name : Str) : Decidable (IsPrivate name) := inferInstanceAs (Decidable (_ <+: _))

namespace Workspaces

/-- Actions of a call. Nobody else looks into a temporary directory: a write of an event there is one action, and what a write or a
    removal leaves that is cut off may be anything. -/
inductive Action
  | call (n : Newborn)
  | look
  | make (temporary : Str)
  | nest
  | write (name : Str) (file : Nat)
  | lock
  | check
  | rename
  | unlock
  | settle
  | clean (rest : Option (Option Store))
  | fail (err : Err) (kept : Bool) (rest : Option (Option Store))
  | stop (rest : Option (Option Store))

/-- An action of a call, or one of a client of a workspace. -/
inductive Move
  | act (i : Nat) (a : Action)
  | append (workspaceId : Uuid) (a : Store.Action)

/-- The directory of events that a write of an event leaves: the temporary file is written, linked and unlinked. -/
def written (d : EventDirectory) (f : EventFile) (name : Str) (file : Nat) : EventDirectory :=
  (((d.create name file []).write file f.data).link f.name file).unlink name

/-- A store that nobody has worked on. -/
def idle (d : EventDirectory) : Store := ⟨d, none, []⟩

def emptyDirectory : EventDirectory := ⟨[], fun _ => []⟩

variable (σ : Workspaces)

/-- The call goes on at another place. -/
def goes (i : Nat) (c : Call) (place : Place) : Workspaces := { σ with calls := Function.update σ.calls i (some { c with place }) }

/-- What is left of a temporary directory, where it is there. -/
def leave (temporary : Str) (rest : Option (Option Store)) : Workspaces :=
  if σ.entries temporary = none then σ else { σ with entries := Function.update σ.entries temporary rest }

/-- The lock of a call that stops is free. -/
def release (i : Nat) : Workspaces := if σ.lock = some i then { σ with lock := none } else σ

/-- A call after an operation has failed. Where that is the release of the lock, it may be kept. -/
def failed (i : Nat) (c : Call) (err : Err) (kept : Bool) (rest : Option (Option Store)) : Option Workspaces :=
  match c.place with
  | .looking => some (σ.goes i c (.ended (.error err)))
  | .making => some (σ.goes i c (.ended (.error err)))
  | .nesting temporary => some ((σ.leave temporary rest).goes i c (.cleaning temporary err))
  | .writing temporary _ => some ((σ.leave temporary rest).goes i c (.cleaning temporary err))
  | .locking temporary => some ((σ.leave temporary rest).goes i c (.cleaning temporary err))
  | .checking temporary => some (σ.goes i c (.unlocking temporary (some err)))
  | .moving temporary => some (σ.goes i c (.unlocking temporary (some err)))
  | .unlocking temporary _ => some ((if kept = true then σ else σ.release i).goes i c (.cleaning temporary err))
  | .settling => some (σ.goes i c (.ended (.error err)))
  | _ => none

/-- A call after its client has stopped. -/
def stopped (i : Nat) (c : Call) (rest : Option (Option Store)) : Option Workspaces :=
  let halt (σ : Workspaces) : Option Workspaces := some ((σ.release i).goes i c .stopped)
  match c.place with
  | .nesting temporary => halt (σ.leave temporary rest)
  | .writing temporary _ => halt (σ.leave temporary rest)
  | .locking temporary => halt (σ.leave temporary rest)
  | .cleaning temporary _ => halt (σ.leave temporary rest)
  | .ended _ => some (σ.release i)
  | .stopped => none
  | _ => halt σ

/-- The step of a call that goes on. -/
def advance (i : Nat) (c : Call) : Action → Option Workspaces
  | .look =>
    match c.place with
    | .looking =>
      some (σ.goes i c (if σ.entries c.newborn.workspaceId.1 = none then .making else .ended (.error .alreadyExists)))
    | _ => none
  | .make temporary =>
    match c.place with
    | .making =>
      if IsPrivate temporary ∧ temporary ∉ σ.used ∧ σ.entries temporary = none then
        some ({ σ with entries := Function.update σ.entries temporary (some none), used := temporary :: σ.used }.goes i c
          (.nesting temporary))
      else none
    | _ => none
  | .nest =>
    match c.place with
    | .nesting temporary =>
      some ({ σ with entries := Function.update σ.entries temporary (some (some (idle emptyDirectory))) }.goes i c
        (.writing temporary 0))
    | _ => none
  | .write name file =>
    match c.place with
    | .writing temporary k =>
      match c.newborn.files[k]?, σ.entries temporary with
      | some f, some (some τ) =>
        if IsTemporary name ∧ name ∉ τ.directory.names ∧ τ.directory.links file = 0 ∧ f.name ∉ τ.directory.names then
          some ({ σ with entries := Function.update σ.entries temporary (some (some (idle (written τ.directory f name file)))) }.goes i c
            (if k + 1 = c.newborn.files.length then .locking temporary else .writing temporary (k + 1)))
        else none
      | _, _ => none
    | _ => none
  | .lock =>
    match c.place with
    | .locking temporary => if σ.lock = none then some ({ σ with lock := some i }.goes i c (.checking temporary)) else none
    | _ => none
  | .check =>
    match c.place with
    | .checking temporary =>
      some (σ.goes i c (if σ.entries c.newborn.workspaceId.1 = none then .moving temporary
        else .unlocking temporary (some .alreadyExists)))
    | _ => none
  | .rename =>
    match c.place with
    | .moving temporary =>
      if σ.entries c.newborn.workspaceId.1 = none then
        some ({ σ with
          entries := Function.update (Function.update σ.entries temporary none) c.newborn.workspaceId.1 (σ.entries temporary)
          births := σ.births ++ [i] }.goes i c (.unlocking temporary none))
      else some (σ.goes i c (.unlocking temporary (some .alreadyExists)))
    | _ => none
  | .unlock =>
    match c.place with
    | .unlocking _ none => some ((σ.release i).goes i c .settling)
    | .unlocking temporary (some err) => some ((σ.release i).goes i c (.cleaning temporary err))
    | _ => none
  | .settle =>
    match c.place with
    | .settling => some (σ.goes i c (.ended (.ok ())))
    | _ => none
  | .clean rest =>
    match c.place with
    | .cleaning temporary err => some ((σ.leave temporary rest).goes i c (.ended (.error err)))
    | _ => none
  | .fail err kept rest => if err = .alreadyExists then none else σ.failed i c err kept rest
  | .stop rest => σ.stopped i c rest
  | .call _ => none

/-- The directory after a move, where it can be made. -/
def next : Move → Option Workspaces
  | .act i a =>
    match σ.calls i, a with
    | none, .call n => some { σ with calls := Function.update σ.calls i (some ⟨n, .looking⟩) }
    | none, _ => none
    | some c, a => σ.advance i c a
  | .append workspaceId a =>
    match σ.entries workspaceId.1 with
    | some (some τ) =>
      (τ.next workspaceId a).map fun τ' => { σ with entries := Function.update σ.entries workspaceId.1 (some (some τ')) }
    | _ => none

/-- The moves of a directory of workspaces. -/
def Steps : Option Workspaces → Move → Workspaces → Prop
  | some σ, m, σ' => σ.next m = some σ'
  | none, _, _ => False

/-- What is published is what one of the two calls makes. -/
def Made (_ : Option Workspaces) (m : Move) : Prop := ∀ i n, m = .act i (.call n) → n.IsMade

/-- The directories that follow one, by the moves of any calls and clients. -/
def Reaches : Workspaces → Workspaces → Prop := Runs Steps Made

/-- A directory that holds nothing and that nobody has worked on. -/
def fresh : Workspaces := ⟨fun _ => none, [], none, fun _ => none, []⟩

end Workspaces

/-! ### Files of a newborn -/

/-- What is known of the files that are published: each has the name of its position, and none is empty or has the name of another. -/
structure Newborn.Shaped (n : Newborn) : Prop where
  named : ∀ k f, n.files[k]? = some f → IsNamed k f.name
  nodup : (n.files.map (·.name)).Nodup
  started : n.files ≠ []

theorem eventFileName_ne {e e' : Event} {j k : Nat} (hj : e.sequence.1 = j) (hk : e'.sequence.1 = k) (hjk : j ≠ k)
    (hsmall : j < 10 ^ sequenceWidth ∧ k < 10 ^ sequenceWidth) : eventFileName e ≠ eventFileName e' := by
  intro heq
  have hname := matchEventName_eventFileName (e := e) (by rw [hj]; exact hsmall.1)
  rw [heq, matchEventName_eventFileName (by rw [hk]; exact hsmall.2), Option.some.injEq, Prod.mk.injEq, hj, hk] at hname
  exact hjk hname.1.symm

theorem Newborn.IsMade.shaped {n : Newborn} (h : n.IsMade) : n.Shaped := by
  obtain ⟨a, ha⟩ | ⟨s, c, a, ha⟩ := h
  · simp only [create, bind_eq_ok, pure_eq_ok, catching_eq_ok] at ha
    obtain ⟨_, -, identity, -, event, hevent, _, -, data, -, rfl⟩ := ha
    obtain ⟨-, -, hsequence, -⟩ := Event.sealed_record hevent
    refine ⟨fun k f hf => ?_, List.nodup_singleton _, List.cons_ne_nil _ _⟩
    cases k with
    | zero =>
      cases hf
      exact isNamed_eventFileName (by rw [hsequence]; rfl)
    | succ k => cases hf
  · simp only [fork, State.forkFrom, bind_eq_ok, pure_eq_ok, catching_eq_ok] at ha
    obtain ⟨b, hb, first, -, second, -, rfl⟩ := ha
    obtain ⟨_, -, _, -, _, -, identity, -, f, -, e, he, e', he', _, -, _, -, rfl⟩ := hb
    obtain ⟨-, -, hone, -⟩ := Event.sealed_record he
    obtain ⟨-, -, htwo, -⟩ := Event.sealed_record he'
    have hone' : e.sequence.1 = 1 := by rw [hone]; rfl
    have htwo' : e'.sequence.1 = 2 := by rw [htwo]; rfl
    refine ⟨fun k f hf => ?_, ?_, List.cons_ne_nil _ _⟩
    · cases k with
      | zero =>
        cases hf
        exact isNamed_eventFileName hone'
      | succ k =>
        cases k with
        | zero =>
          cases hf
          exact isNamed_eventFileName htwo'
        | succ k => cases hf
    · refine List.nodup_cons.mpr ⟨fun hmem => ?_, List.nodup_singleton _⟩
      exact eventFileName_ne hone' htwo' (by decide) (by decide) (List.mem_singleton.mp hmem)

/-- The file of an event that follows a journal extends its projection. -/
theorem project_eventFile {workspaceId : Uuid} {files : List EventFile} {s t : State} {e : Event} {data : Bytes} {allow : Bool}
    (hs : project workspaceId files = .ok s) (hsealed : e.Sealed) (hws : e.workspaceId = workspaceId)
    (hsequence : e.sequence = nextSequence (some s)) (hprevious : e.previousDigest = s.lastEventDigest) (hdata : canonical e.toDict = .ok data)
    (hlength : (eventFile e data).data.length ≤ maxEventBytes) (hsmall : e.sequence.1 < 10 ^ sequenceWidth)
    (ht : applyEvent allow (some s) e = .ok t) : project workspaceId (files ++ [eventFile e data]) = .ok t := by
  obtain ⟨hobj, hsafe⟩ := checkPayload_of_applyEvent ht
  obtain ⟨-, -, hidentity⟩ := project_eq_ok.mp hs
  obtain ⟨hevents, hlast⟩ := lastEventDigest_of_project hs
  have hfollows : e.Follows := by
    refine iff_of_false ?_ (by rwa [hprevious])
    rw [hsequence]
    exact fun h1 => hevents (List.eq_nil_of_length_eq_zero (Nat.succ.inj h1))
  have hname := matchEventName_eventFileName hsmall
  rw [hsequence] at hname
  refine (project_concat (f := eventFile e data) hs hname).1 ?_ ?_
  · have hread := readEvent_eventFile hsealed hobj hsafe hfollows hdata hlength hsmall
    rw [hws, hsequence, hprevious] at hread
    rw [extend, show lastDigest (some s) = s.lastEventDigest from rfl, hread, ok_bind, applyEvent_mono ht, ok_bind]
    rfl
  · rw [(applyEvent_records ht).identity s rfl, hidentity]

/-- What is published reads as the state that was computed, where a reader takes files of these lengths. -/
theorem Newborn.IsMade.project {n : Newborn} (h : n.IsMade) (hfits : ∀ f ∈ n.files, f.data.length ≤ maxEventBytes) :
    project n.workspaceId n.files = .ok n.state := by
  obtain ⟨a, ha⟩ | ⟨s, c, a, ha⟩ := h
  · simp only [create, bind_eq_ok, pure_eq_ok, catching_eq_ok] at ha
    obtain ⟨_, -, identity, -, event, hevent, s, hs, data, hdata, rfl⟩ := ha
    obtain ⟨hsealed, hws, hsequence, -, -, -, hprevious⟩ := Event.sealed_record hevent
    exact hws ▸ project_singleton hsealed hsequence hprevious hdata (hfits _ (List.mem_singleton_self _)) (applyEvent_mono hs)
  · simp only [fork, State.forkFrom, bind_eq_ok, pure_eq_ok, catching_eq_ok] at ha
    obtain ⟨b, hb, first, hfirst, second, hsecond, rfl⟩ := ha
    obtain ⟨_, -, _, -, _, -, identity, -, f, -, e, he, e', he', created, hcreated, child, hchild, rfl⟩ := hb
    obtain ⟨hsealed, hws, hsequence, -, -, -, hprevious⟩ := Event.sealed_record he
    obtain ⟨hsealed', hws', hsequence', -, -, -, hprevious'⟩ := Event.sealed_record he'
    have hone := project_singleton hsealed hsequence hprevious hfirst (hfits _ List.mem_cons_self) (applyEvent_mono hcreated)
    rw [hws] at hone
    have hrecords := applyEvent_records hcreated
    have hnext : nextSequence (some created) = Positive.one.succ := by
      refine Subtype.ext (show created.events.length + 1 = 2 from ?_)
      rw [hrecords.events]
      rfl
    exact project_eventFile hone hsealed' hws' (hsequence'.trans hnext.symm) (hprevious'.trans hrecords.last.symm) hsecond
      (hfits _ (List.mem_cons_of_mem _ (List.mem_singleton_self _))) (by rw [hsequence']; decide) hchild

namespace Workspaces

/-! ### Temporary directories -/

/-- A directory that nobody works on and that holds the files of a journal and nothing else. -/
structure Holds (d : EventDirectory) (files : List EventFile) : Prop where
  tidy : d.Tidy
  temporaries : d.temporaries = []
  journal : d.journal = files

theorem holds_emptyDirectory : Holds emptyDirectory [] :=
  ⟨⟨List.nodup_nil, fun _ _ h => absurd h (by simp [EventDirectory.published, emptyDirectory]), List.nodup_nil, List.nodup_nil⟩,
    rfl, rfl⟩

/-- A write of an event adds its file. -/
theorem Holds.written {d : EventDirectory} {files : List EventFile} {f : EventFile} {name : Str} {file : Nat} (h : Holds d files)
    (ht : IsTemporary name) (hname : name ∉ d.names) (hfile : d.links file = 0) (hnamed : IsNamed files.length f.name)
    (hnew : f.name ∉ d.names) : Holds (written d f name file) (files ++ [f]) := by
  have hlength : d.published.length = files.length := by rw [← h.journal, EventDirectory.journal, List.length_map]
  have hfinal : ¬IsTemporary f.name := not_isTemporary_of_digit hnamed.digit
  have hne : name ≠ f.name := fun heq => hfinal (heq ▸ ht)
  -- the temporary file is not published before the link
  have hfree : file ∉ (EventDirectory.published (d.create name file [])).map (·.2) := by
    rw [published_create ht]
    intro hmem
    obtain ⟨e, he, heq⟩ := List.mem_map.mp hmem
    exact (not_mem_of_links hfile).1 e he heq
  have hwritten : Tidy ((d.create name file []).write file f.data) := (h.tidy.create ht hname hfile).write
  have hnames : f.name ∉ ((d.create name file []).write file f.data).names := by
    intro hmem
    obtain ⟨e, he, heq⟩ := List.mem_map.mp hmem
    obtain he | he := List.mem_append.mp he
    · exact hnew (heq ▸ List.mem_map_of_mem he)
    · rw [List.mem_singleton.mp he] at heq
      exact hne heq
  have hpublished : EventDirectory.published ((d.create name file []).write file f.data) = d.published :=
    @published_create d name file [] ht
  have hlinked : Tidy (((d.create name file []).write file f.data).link f.name file) := by
    refine hwritten.link hfinal hnames ?_ hfree
    rw [hpublished, hlength]
    exact hnamed
  refine ⟨hlinked.unlink ht, ?_, ?_⟩
  · have htemporaries : EventDirectory.temporaries ((d.create name file []).write file f.data) = [(name, file)] :=
      (@temporaries_create d name file [] ht).trans (by rw [h.temporaries, List.nil_append])
    rw [Workspaces.written, temporaries_unlink, temporaries_link hfinal, htemporaries]
    simp
  · have hlater : d.Later ((d.create name file []).write file f.data) := (later_create ht hfile).trans (later_write hfree)
    have hcontents : ((d.create name file []).write file f.data).contents file = f.data := Function.update_self _ _ _
    have hsame : EventDirectory.eventFile (Workspaces.written d f name file) =
      EventDirectory.eventFile ((d.create name file []).write file f.data) := rfl
    rw [EventDirectory.journal, hsame, Workspaces.written, published_unlink ht, published_link hfinal, hpublished, List.map_append,
      List.map_singleton, hlater.map_eventFile fun e he => he, EventDirectory.eventFile, hcontents, ← h.journal, EventDirectory.journal]

/-! ### The invariant -/

/-- The name of the temporary directory of a call, which it may have renamed already. -/
def temporary? : Place → Option Str
  | .nesting temporary => some temporary
  | .writing temporary _ => some temporary
  | .locking temporary => some temporary
  | .checking temporary => some temporary
  | .moving temporary => some temporary
  | .unlocking temporary _ => some temporary
  | .cleaning temporary _ => some temporary
  | _ => none

/-- A temporary directory holds the files of some events. -/
def Whole (σ : Workspaces) (temporary : Str) (files : List EventFile) : Prop :=
  ∃ d, σ.entries temporary = some (some (idle d)) ∧ Holds d files

/-- What holds for a call at some place: before the rename its temporary directory has the files that are written so far, and the name of
    its workspace is free from the check on. -/
def Follows (σ : Workspaces) (i : Nat) (n : Newborn) : Place → Prop
  | .looking => i ∉ σ.births
  | .making => i ∉ σ.births
  | .nesting temporary => i ∉ σ.births ∧ σ.entries temporary = some none
  | .writing temporary k => i ∉ σ.births ∧ k < n.files.length ∧ σ.Whole temporary (n.files.take k)
  | .locking temporary => i ∉ σ.births ∧ σ.Whole temporary n.files
  | .checking temporary => i ∉ σ.births ∧ σ.Whole temporary n.files ∧ σ.lock = some i
  | .moving temporary => i ∉ σ.births ∧ σ.Whole temporary n.files ∧ σ.lock = some i ∧ σ.entries n.workspaceId.1 = none
  | .unlocking _ none => i ∈ σ.births
  | .unlocking _ (some err) => i ∉ σ.births ∧ (err = .alreadyExists → σ.entries n.workspaceId.1 ≠ none)
  | .settling => i ∈ σ.births
  | .cleaning _ err => err = .alreadyExists → i ∉ σ.births ∧ σ.entries n.workspaceId.1 ≠ none
  | .ended result => (result = .ok () → i ∈ σ.births) ∧
      (result = .error .alreadyExists → i ∉ σ.births ∧ σ.entries n.workspaceId.1 ≠ none)
  | .stopped => True

structure Inv (σ : Workspaces) : Prop where
  made : ∀ i c, σ.calls i = some c → c.newborn.IsMade
  follows : ∀ i c, σ.calls i = some c → σ.Follows i c.newborn c.place
  temporary : ∀ i c t, σ.calls i = some c → temporary? c.place = some t → IsPrivate t ∧ t ∈ σ.used
  distinct : ∀ i j c d t, σ.calls i = some c → σ.calls j = some d → temporary? c.place = some t → temporary? d.place = some t →
    i = j
  born : ∀ (u : Uuid) x, σ.entries u.1 = some x → ∃ i ∈ σ.births, ∃ c τ, σ.calls i = some c ∧ c.newborn.workspaceId = u ∧
    x = some τ ∧ Store.Inv u c.newborn.files τ
  lasting : ∀ i ∈ σ.births, ∃ c, σ.calls i = some c ∧ σ.entries c.newborn.workspaceId.1 ≠ none
  once : σ.births.Pairwise fun i j => ∀ c d, σ.calls i = some c → σ.calls j = some d → c.newborn.workspaceId ≠ d.newborn.workspaceId

theorem not_isPrivate_uuid (u : Uuid) : ¬IsPrivate u.1 := by
  rintro ⟨l, hl⟩
  obtain ⟨t, ht⟩ := u
  simp only [isUuid, Bool.and_eq_true, List.all_eq_true] at ht
  have hfirst := ht.2 (46, 0) (List.mem_zipIdx_iff_getElem?.mpr (by rw [← show privateMark ++ l = t from hl]; rfl))
  exact absurd hfirst (by decide)

variable {σ σ' : Workspaces} {i : Nat} {c : Call} {temporary : Str} {rest : Option (Option Store)}

/-- What a call relies on is not changed by others. -/
theorem Follows.frame {n : Newborn} {place : Place} (h : σ.Follows i n place) (hbirths : i ∈ σ'.births ↔ i ∈ σ.births)
    (hkept : σ.entries n.workspaceId.1 ≠ none → σ'.entries n.workspaceId.1 ≠ none)
    (hfree : σ.lock = some i → σ.entries n.workspaceId.1 = none → σ'.entries n.workspaceId.1 = none)
    (htemporary : ∀ t, temporary? place = some t → σ'.entries t = σ.entries t) (hlock : σ.lock = some i → σ'.lock = some i) :
    σ'.Follows i n place := by
  cases place with
  | looking => exact fun hmem => h (hbirths.mp hmem)
  | making => exact fun hmem => h (hbirths.mp hmem)
  | nesting t => exact ⟨fun hmem => h.1 (hbirths.mp hmem), (htemporary t rfl).trans h.2⟩
  | writing t k => exact ⟨fun hmem => h.1 (hbirths.mp hmem), h.2.1, by rw [Whole, htemporary t rfl]; exact h.2.2⟩
  | locking t => exact ⟨fun hmem => h.1 (hbirths.mp hmem), by rw [Whole, htemporary t rfl]; exact h.2⟩
  | checking t => exact ⟨fun hmem => h.1 (hbirths.mp hmem), by rw [Whole, htemporary t rfl]; exact h.2.1, hlock h.2.2⟩
  | moving t =>
    obtain ⟨hbirth, hwhole, hheld, hnone⟩ := h
    exact ⟨fun hmem => hbirth (hbirths.mp hmem), by rw [Whole, htemporary t rfl]; exact hwhole, hlock hheld, hfree hheld hnone⟩
  | unlocking t raised =>
    cases raised with
    | none => exact hbirths.mpr h
    | some err => exact ⟨fun hmem => h.1 (hbirths.mp hmem), fun herr => hkept (h.2 herr)⟩
  | settling => exact hbirths.mpr h
  | cleaning t err => exact fun herr => ⟨fun hmem => (h herr).1 (hbirths.mp hmem), hkept (h herr).2⟩
  | ended result =>
    exact ⟨fun hok => hbirths.mpr (h.1 hok), fun herr => ⟨fun hmem => (h.2 herr).1 (hbirths.mp hmem), hkept (h.2 herr).2⟩⟩
  | stopped => trivial

/-- A move of a call that publishes nothing keeps the invariant, where the call is as its place says and the others are left alone. -/
theorem Inv.change (hinv : Inv σ) {place : Place} (hcall : σ.calls i = some c)
    (hcalls : σ'.calls = Function.update σ.calls i (some { c with place })) (hbirths : σ'.births = σ.births) (hused : σ.used ⊆ σ'.used)
    (hentries : ∀ name, σ'.entries name ≠ σ.entries name → temporary? place = some name ∨ temporary? c.place = some name)
    (hlock : ∀ j, j ≠ i → σ.lock = some j → σ'.lock = some j)
    (hnew : ∀ t, temporary? place = some t → temporary? c.place = some t ∨ IsPrivate t ∧ t ∈ σ'.used ∧ t ∉ σ.used)
    (hfollows : σ'.Follows i c.newborn place) : Inv σ' := by
  have hself : σ'.calls i = some { c with place } := by rw [hcalls, Function.update_self]
  have hother : ∀ j, j ≠ i → σ'.calls j = σ.calls j := fun j hj => by rw [hcalls, Function.update_of_ne hj]
  -- every call publishes what it did
  have hsame : ∀ j d, σ.calls j = some d → ∃ d', σ'.calls j = some d' ∧ d'.newborn = d.newborn := fun j d hd => by
    by_cases hj : j = i
    · subst hj
      obtain rfl := Option.some.inj (hcall.symm.trans hd)
      exact ⟨_, hself, rfl⟩
    · exact ⟨d, (hother j hj).trans hd, rfl⟩
  have hback : ∀ j d, σ'.calls j = some d → ∃ d', σ.calls j = some d' ∧ d'.newborn = d.newborn := fun j d hd => by
    by_cases hj : j = i
    · subst hj
      obtain rfl := Option.some.inj (hself.symm.trans hd)
      exact ⟨c, hcall, rfl⟩
    · exact ⟨d, (hother j hj).symm.trans hd, rfl⟩
  have htemporary : ∀ t, temporary? place = some t → IsPrivate t ∧ t ∈ σ'.used := fun t ht => by
    obtain hold | ⟨hprivate, hmem, -⟩ := hnew t ht
    · exact ⟨(hinv.temporary i c t hcall hold).1, hused (hinv.temporary i c t hcall hold).2⟩
    · exact ⟨hprivate, hmem⟩
  have hpublic : ∀ u : Uuid, σ'.entries u.1 = σ.entries u.1 := fun u => by
    by_contra hne
    obtain hmem | hmem := hentries _ hne
    · exact not_isPrivate_uuid u (htemporary _ hmem).1
    · exact not_isPrivate_uuid u (hinv.temporary i c _ hcall hmem).1
  have hdistinct : ∀ j d t, j ≠ i → σ.calls j = some d → temporary? d.place = some t → temporary? place ≠ some t := by
    intro j d t hj hd ht heq
    obtain hold | ⟨-, -, hfresh⟩ := hnew t heq
    · exact hj (hinv.distinct j i d c t hd hcall ht hold)
    · exact hfresh (hinv.temporary j d t hd ht).2
  refine ⟨fun j d hd => ?_, fun j d hd => ?_, fun j d t hd ht => ?_, fun j k d e t hd he ht ht' => ?_, fun u x hx => ?_, fun j hj => ?_, ?_⟩
  · obtain ⟨d', hd', heq⟩ := hback j d hd
    exact heq ▸ hinv.made j d' hd'
  · by_cases hj : j = i
    · subst hj
      obtain rfl := Option.some.inj (hself.symm.trans hd)
      exact hfollows
    · rw [hother j hj] at hd
      refine (hinv.follows j d hd).frame (by rw [hbirths]) (by rw [hpublic]; exact id) (fun _ => by rw [hpublic]; exact id) (fun t ht => ?_)
        (hlock j hj)
      by_contra hne
      obtain hmem | hmem := hentries t hne
      · exact hdistinct j d t hj hd ht hmem
      · exact hj (hinv.distinct j i d c t hd hcall ht hmem)
  · by_cases hj : j = i
    · subst hj
      obtain rfl := Option.some.inj (hself.symm.trans hd)
      exact htemporary t ht
    · rw [hother j hj] at hd
      exact ⟨(hinv.temporary j d t hd ht).1, hused (hinv.temporary j d t hd ht).2⟩
  · by_cases hj : j = i
    · by_cases hk : k = i
      · exact hj.trans hk.symm
      · subst hj
        obtain rfl := Option.some.inj (hself.symm.trans hd)
        rw [hother k hk] at he
        exact absurd ht (hdistinct k e t hk he ht')
    · rw [hother j hj] at hd
      by_cases hk : k = i
      · subst hk
        obtain rfl := Option.some.inj (hself.symm.trans he)
        exact absurd ht' (hdistinct j d t hj hd ht)
      · rw [hother k hk] at he
        exact hinv.distinct j k d e t hd he ht ht'
  · rw [hpublic] at hx
    obtain ⟨j, hj, d, τ, hd, hid, hτ, hstore⟩ := hinv.born u x hx
    obtain ⟨d', hd', heq⟩ := hsame j d hd
    exact ⟨j, hbirths ▸ hj, d', τ, hd', heq ▸ hid, hτ, heq ▸ hstore⟩
  · rw [hbirths] at hj
    obtain ⟨d, hd, hmem⟩ := hinv.lasting j hj
    obtain ⟨d', hd', heq⟩ := hsame j d hd
    exact ⟨d', hd', by rw [heq, hpublic]; exact hmem⟩
  · rw [hbirths]
    refine hinv.once.imp fun {j k} honce d e hd he => ?_
    obtain ⟨d', hd', heq⟩ := hback j d hd
    obtain ⟨e', he', heq'⟩ := hback k e he
    rw [← heq, ← heq']
    exact honce d' e' hd' he'

/-! ### Moves -/

/-- A removal that is cut off changes the temporary directory and nothing else. -/
structure SameBut (σ σ' : Workspaces) (names : List Str) : Prop where
  calls : σ'.calls = σ.calls
  births : σ'.births = σ.births
  used : σ'.used = σ.used
  entries : ∀ name, σ'.entries name ≠ σ.entries name → name ∈ names

theorem sameBut_leave (σ : Workspaces) (temporary : Str) (rest : Option (Option Store)) :
    SameBut σ (σ.leave temporary rest) [temporary] ∧ (σ.leave temporary rest).lock = σ.lock := by
  unfold leave
  split_ifs
  · exact ⟨⟨rfl, rfl, rfl, fun _ h => absurd rfl h⟩, rfl⟩
  · refine ⟨⟨rfl, rfl, rfl, fun name hne => List.mem_singleton.mpr ?_⟩, rfl⟩
    by_contra hname
    exact hne (Function.update_of_ne hname _ _)

theorem sameBut_release (σ : Workspaces) (i : Nat) :
    SameBut σ (σ.release i) [] ∧ ∀ j, j ≠ i → σ.lock = some j → (σ.release i).lock = some j := by
  unfold release
  split_ifs with hi
  · exact ⟨⟨rfl, rfl, rfl, fun _ h => absurd rfl h⟩, fun j hj hlock => absurd (Option.some.inj (hi.symm.trans hlock)).symm hj⟩
  · exact ⟨⟨rfl, rfl, rfl, fun _ h => absurd rfl h⟩, fun _ _ h => h⟩

theorem SameBut.trans {σ'' : Workspaces} {names : List Str} (h : SameBut σ σ' names) (h' : SameBut σ' σ'' []) : SameBut σ σ'' names :=
  ⟨h'.calls.trans h.calls, h'.births.trans h.births, h'.used.trans h.used, fun name hne => h.entries name fun heq => hne (by
    by_contra hne'
    exact absurd (h'.entries name fun h'' => hne' (h''.trans heq)) List.not_mem_nil)⟩

/-- A call that goes on at a place without a new temporary directory keeps the invariant. -/
theorem Inv.goes (hinv : Inv σ) (hcall : σ.calls i = some c) {place : Place} {names : List Str} (hsame : SameBut σ σ' names)
    (hnames : ∀ t ∈ names, temporary? c.place = some t) (hlock : ∀ j, j ≠ i → σ.lock = some j → σ'.lock = some j)
    (htemporary : ∀ t, temporary? place = some t → temporary? c.place = some t)
    (hfollows : (σ'.goes i c place).Follows i c.newborn place) : Inv (σ'.goes i c place) :=
  hinv.change hcall (by rw [Workspaces.goes, hsame.calls]) hsame.births (by rw [Workspaces.goes, hsame.used]; exact List.Subset.refl _)
    (fun name hne => .inr (hnames name (hsame.entries name hne))) hlock (fun t ht => .inl (htemporary t ht)) hfollows

theorem SameBut.refl (σ : Workspaces) : SameBut σ σ [] := ⟨rfl, rfl, rfl, fun _ h => absurd rfl h⟩

theorem Inv.failed (hinv : Inv σ) (hcall : σ.calls i = some c) {err : Err} {kept : Bool} (herr : err ≠ .alreadyExists)
    (h : σ.failed i c err kept rest = some σ') : Inv σ' := by
  have hfollows := hinv.follows i c hcall
  unfold Workspaces.failed at h
  have hended : (σ.goes i c (.ended (.error err))).Follows i c.newborn (.ended (.error err)) :=
    ⟨fun hok => (by cases hok), fun heq => absurd (Except.error.inj heq) herr⟩
  have hunlocking : ∀ t, i ∉ σ.births → (σ.goes i c (.unlocking t (some err))).Follows i c.newborn (.unlocking t (some err)) :=
    fun _ hbirth => ⟨hbirth, fun heq => absurd heq herr⟩
  have hleft : ∀ t, temporary? c.place = some t → Inv ((σ.leave t rest).goes i c (.cleaning t err)) := fun t ht => by
    obtain ⟨hsame, hlock⟩ := sameBut_leave σ t rest
    refine hinv.goes hcall hsame (fun t' ht' => List.mem_singleton.mp ht' ▸ ht) (fun j _ h => hlock.trans h) (fun t' ht' => ?_)
      fun heq => absurd heq herr
    obtain rfl := Option.some.inj ht'
    exact ht
  cases hplace : c.place with
  | looking =>
    rw [hplace] at h
    cases h
    exact hinv.goes hcall (.refl σ) (fun _ h => absurd h List.not_mem_nil) (fun _ _ h => h) (fun _ h => by cases h) hended
  | making =>
    rw [hplace] at h
    cases h
    exact hinv.goes hcall (.refl σ) (fun _ h => absurd h List.not_mem_nil) (fun _ _ h => h) (fun _ h => by cases h) hended
  | nesting t =>
    rw [hplace] at h
    cases h
    exact hleft t (by rw [hplace]; rfl)
  | writing t k =>
    rw [hplace] at h
    cases h
    exact hleft t (by rw [hplace]; rfl)
  | locking t =>
    rw [hplace] at h
    cases h
    exact hleft t (by rw [hplace]; rfl)
  | checking t =>
    rw [hplace] at h hfollows
    cases h
    exact hinv.goes hcall (.refl σ) (fun _ h => absurd h List.not_mem_nil) (fun _ _ h => h) (fun _ h => by rw [hplace]; exact h)
      (hunlocking t hfollows.1)
  | moving t =>
    rw [hplace] at h hfollows
    cases h
    exact hinv.goes hcall (.refl σ) (fun _ h => absurd h List.not_mem_nil) (fun _ _ h => h) (fun _ h => by rw [hplace]; exact h)
      (hunlocking t hfollows.1)
  | unlocking t raised =>
    rw [hplace] at h
    cases h
    split_ifs
    · exact hinv.goes hcall (.refl σ) (fun _ h => absurd h List.not_mem_nil) (fun _ _ h => h) (fun _ h => by rw [hplace]; exact h)
        fun heq => absurd heq herr
    · exact hinv.goes hcall (sameBut_release σ i).1 (fun _ h => absurd h List.not_mem_nil) (sameBut_release σ i).2
        (fun _ h => by rw [hplace]; exact h) fun heq => absurd heq herr
  | settling =>
    rw [hplace] at h
    cases h
    exact hinv.goes hcall (.refl σ) (fun _ h => absurd h List.not_mem_nil) (fun _ _ h => h) (fun _ h => by cases h) hended
  | cleaning t err' =>
    rw [hplace] at h
    cases h
  | ended result =>
    rw [hplace] at h
    cases h
  | stopped =>
    rw [hplace] at h
    cases h

theorem Inv.stopped (hinv : Inv σ) (hcall : σ.calls i = some c) (h : σ.stopped i c rest = some σ') : Inv σ' := by
  unfold Workspaces.stopped at h
  have hhalt : ∀ {τ names}, SameBut σ τ names → (∀ t ∈ names, temporary? c.place = some t) → τ.lock = σ.lock →
      Inv ((τ.release i).goes i c .stopped) := fun {τ names} hsame hnames hlock => by
    obtain ⟨hrelease, hothers⟩ := sameBut_release τ i
    exact hinv.goes hcall (hsame.trans hrelease) hnames (fun j hj h => hothers j hj (hlock.trans h)) (fun _ h => by cases h) trivial
  have hkept : Inv ((σ.release i).goes i c .stopped) := hhalt (.refl σ) (fun _ h => absurd h List.not_mem_nil) rfl
  have hleft : ∀ t, temporary? c.place = some t → Inv (((σ.leave t rest).release i).goes i c .stopped) := fun t ht =>
    hhalt (sameBut_leave σ t rest).1 (fun t' ht' => List.mem_singleton.mp ht' ▸ ht) (sameBut_leave σ t rest).2
  cases hplace : c.place with
  | nesting t =>
    rw [hplace] at h
    cases h
    exact hleft t (by rw [hplace]; rfl)
  | writing t k =>
    rw [hplace] at h
    cases h
    exact hleft t (by rw [hplace]; rfl)
  | locking t =>
    rw [hplace] at h
    cases h
    exact hleft t (by rw [hplace]; rfl)
  | cleaning t err =>
    rw [hplace] at h
    cases h
    exact hleft t (by rw [hplace]; rfl)
  | ended result =>
    -- the lock may have been kept
    have hfollows := hinv.follows i c hcall
    rw [hplace] at h hfollows
    cases h
    obtain ⟨hsame, hothers⟩ := sameBut_release σ i
    have hentries : (σ.release i).entries = σ.entries := funext fun name => by
      by_contra hne
      exact absurd (hsame.entries name hne) List.not_mem_nil
    refine hinv.change hcall ?_ hsame.births (by rw [hsame.used]; exact List.Subset.refl _)
      (fun name hne => absurd (congrFun hentries name) hne) hothers (fun t ht => .inl ht) ?_
    · rw [hsame.calls, Function.update_eq_self_iff.mpr hcall.symm]
    · rw [hplace, Follows, hsame.births, hentries]
      exact hfollows
  | stopped =>
    rw [hplace] at h
    cases h
  | _ =>
    rw [hplace] at h
    cases h
    exact hkept

/-- The rename publishes the whole directory, under a name that was free. -/
theorem Inv.rename (hinv : Inv σ) (hcall : σ.calls i = some c) {temporary : Str} (hplace : c.place = .moving temporary) :
    Inv ({ σ with
      entries := Function.update (Function.update σ.entries temporary none) c.newborn.workspaceId.1 (σ.entries temporary)
      births := σ.births ++ [i] }.goes i c (.unlocking temporary none)) := by
  have hfollows := hinv.follows i c hcall
  rw [hplace] at hfollows
  obtain ⟨hbirth, ⟨d, hd, hholds⟩, hlock, hnone⟩ := hfollows
  have hprivate := (hinv.temporary i c temporary hcall (by rw [hplace]; rfl)).1
  have hself : Function.update σ.calls i (some { c with place := .unlocking temporary none }) i =
      some { c with place := .unlocking temporary none } := Function.update_self _ _ _
  have hother : ∀ j, j ≠ i → Function.update σ.calls i (some { c with place := .unlocking temporary none }) j = σ.calls j :=
    fun j hj => Function.update_of_ne hj _ _
  set entries := Function.update (Function.update σ.entries temporary none) c.newborn.workspaceId.1 (σ.entries temporary) with hentries
  have hat : entries c.newborn.workspaceId.1 = some (some (idle d)) := by rw [hentries, Function.update_self, hd]
  have hpublic : ∀ u : Uuid, u ≠ c.newborn.workspaceId → entries u.1 = σ.entries u.1 := fun u hu => by
    rw [hentries, Function.update_of_ne fun heq => hu (Subtype.ext heq),
      Function.update_of_ne fun heq : u.1 = temporary => not_isPrivate_uuid u (by rw [heq]; exact hprivate)]
  have hkept : ∀ u : Uuid, σ.entries u.1 ≠ none → entries u.1 ≠ none := fun u hu => by
    by_cases heq : u = c.newborn.workspaceId
    · rw [heq, hat]
      exact Option.some_ne_none _
    · rw [hpublic u heq]
      exact hu
  refine ⟨fun j e he => ?_, fun j e he => ?_, fun j e t he ht => ?_, fun j k e f t he hf ht ht' => ?_, fun u x hx => ?_, fun j hj => ?_, ?_⟩
  · by_cases hj : j = i
    · subst hj
      obtain rfl := Option.some.inj (hself.symm.trans he)
      exact hinv.made j c hcall
    · exact hinv.made j e ((hother j hj).symm.trans he)
  · by_cases hj : j = i
    · subst hj
      obtain rfl := Option.some.inj (hself.symm.trans he)
      exact List.mem_append_right _ (List.mem_singleton_self _)
    · replace he := (hother j hj).symm.trans he
      refine (hinv.follows j e he).frame ?_ (hkept _) (fun hheld => absurd (Option.some.inj (hlock.symm.trans hheld)).symm hj) (fun t ht => ?_)
        fun h => h
      · show j ∈ σ.births ++ [i] ↔ j ∈ σ.births
        simp [hj]
      · have hne : t ≠ temporary := by
          rintro rfl
          exact hj (hinv.distinct j i e c t he hcall ht (by rw [hplace]; rfl))
        show entries t = σ.entries t
        rw [hentries, Function.update_of_ne fun heq => not_isPrivate_uuid _ (heq ▸ (hinv.temporary j e t he ht).1),
          Function.update_of_ne hne]
  · by_cases hj : j = i
    · subst hj
      obtain rfl := Option.some.inj (hself.symm.trans he)
      exact hinv.temporary j c t hcall (by rw [hplace]; exact ht)
    · exact hinv.temporary j e t ((hother j hj).symm.trans he) ht
  · by_cases hj : j = i
    · by_cases hk : k = i
      · exact hj.trans hk.symm
      · subst hj
        obtain rfl := Option.some.inj (hself.symm.trans he)
        exact hinv.distinct j k c f t hcall ((hother k hk).symm.trans hf) (by rw [hplace]; exact ht) ht'
    · by_cases hk : k = i
      · subst hk
        obtain rfl := Option.some.inj (hself.symm.trans hf)
        exact hinv.distinct j k e c t ((hother j hj).symm.trans he) hcall ht (by rw [hplace]; exact ht')
      · exact hinv.distinct j k e f t ((hother j hj).symm.trans he) ((hother k hk).symm.trans hf) ht ht'
  · by_cases hu : u = c.newborn.workspaceId
    · subst hu
      obtain rfl := Option.some.inj (hat.symm.trans hx)
      refine ⟨i, List.mem_append_right _ (List.mem_singleton_self _), _, idle d, hself, rfl, rfl, ?_⟩
      have hidle : Store.IsIdle (idle d) := ⟨hholds.tidy, rfl, rfl⟩
      exact hholds.journal ▸ hidle.inv
    · obtain ⟨j, hj, e, τ, he, hid, hτ, hstore⟩ := hinv.born u x ((hpublic u hu).symm.trans hx)
      have hne : j ≠ i := fun heq => hbirth (heq ▸ hj)
      exact ⟨j, List.mem_append_left _ hj, e, τ, (hother j hne).trans he, hid, hτ, hstore⟩
  · obtain hj | hj := List.mem_append.mp hj
    · obtain ⟨e, he, hmem⟩ := hinv.lasting j hj
      exact ⟨e, (hother j fun heq => hbirth (heq ▸ hj)).trans he, hkept _ hmem⟩
    · rw [List.mem_singleton.mp hj]
      refine ⟨_, hself, ?_⟩
      show entries c.newborn.workspaceId.1 ≠ none
      rw [hat]
      exact Option.some_ne_none _
  · have hback : ∀ j e, j ≠ i → Function.update σ.calls i (some { c with place := .unlocking temporary none }) j = some e →
        σ.calls j = some e := fun j e hj he => (hother j hj).symm.trans he
    refine List.pairwise_append.mpr ⟨hinv.once.imp_of_mem fun {j k} hj hk honce e f he hf =>
      honce e f (hback j e (fun heq => hbirth (heq ▸ hj)) he) (hback k f (fun heq => hbirth (heq ▸ hk)) hf), List.pairwise_singleton _ _,
      fun j hj k hk e f he hf hsame => ?_⟩
    -- the name was free, and those of the others were not
    obtain rfl := List.mem_singleton.mp hk
    obtain rfl := Option.some.inj (hself.symm.trans hf)
    obtain ⟨e', he', hmem⟩ := hinv.lasting j hj
    obtain rfl := Option.some.inj (he'.symm.trans (hback j e (fun heq => hbirth (heq ▸ hj)) he))
    exact hmem (by rw [hsame]; exact hnone)

/-- A write in a temporary directory changes that directory alone. -/
theorem ne_update {entries : Str → Option (Option Store)} {x : Option (Option Store)} {name : Str}
    (h : Function.update entries temporary x name ≠ entries name) : name = temporary := by
  by_contra hname
  exact h (Function.update_of_ne hname _ _)

theorem Inv.make (hinv : Inv σ) (hcall : σ.calls i = some c) (hplace : c.place = .making) (hprivate : IsPrivate temporary)
    (hnew : temporary ∉ σ.used) : Inv ({ σ with
      entries := Function.update σ.entries temporary (some none), used := temporary :: σ.used }.goes i c (.nesting temporary)) := by
  have hfollows := hinv.follows i c hcall
  rw [hplace] at hfollows
  refine hinv.change hcall rfl rfl (List.subset_cons_self _ _) (fun name hne => .inl (congrArg some (ne_update hne)).symm)
    (fun _ _ h => h) (fun t ht => ?_) ⟨hfollows, Function.update_self _ _ _⟩
  obtain rfl := Option.some.inj ht
  exact .inr ⟨hprivate, List.mem_cons_self, hnew⟩

theorem Inv.nest (hinv : Inv σ) (hcall : σ.calls i = some c) (hplace : c.place = .nesting temporary) :
    Inv ({ σ with entries := Function.update σ.entries temporary (some (some (idle emptyDirectory))) }.goes i c (.writing temporary 0)) := by
  have hfollows := hinv.follows i c hcall
  rw [hplace] at hfollows
  refine hinv.change hcall rfl rfl (List.Subset.refl _) (fun name hne => .inl (congrArg some (ne_update hne)).symm) (fun _ _ h => h)
    (fun t ht => .inl ?_) ⟨hfollows.1, List.length_pos_of_ne_nil (hinv.made i c hcall).shaped.started, _, Function.update_self _ _ _, ?_⟩
  · rw [hplace]
    exact ht
  · rw [List.take_zero]
    exact holds_emptyDirectory

theorem Inv.write (hinv : Inv σ) (hcall : σ.calls i = some c) {k : Nat} (hplace : c.place = .writing temporary k) {f : EventFile} {τ : Store}
    (hf : c.newborn.files[k]? = some f) (hτ : σ.entries temporary = some (some τ)) {name : Str} {file : Nat} (ht : IsTemporary name)
    (hname : name ∉ τ.directory.names) (hfile : τ.directory.links file = 0) (hnew : f.name ∉ τ.directory.names) :
    Inv ({ σ with entries := Function.update σ.entries temporary (some (some (idle (written τ.directory f name file)))) }.goes i c
      (if k + 1 = c.newborn.files.length then .locking temporary else .writing temporary (k + 1))) := by
  have hfollows := hinv.follows i c hcall
  rw [hplace] at hfollows
  obtain ⟨hbirth, hk, d, hd, hholds⟩ := hfollows
  obtain rfl : τ = idle d := Option.some.inj (Option.some.inj (hτ.symm.trans hd))
  have hlength : (c.newborn.files.take k).length = k := List.length_take_of_le hk.le
  have hnext : Holds (written d f name file) (c.newborn.files.take (k + 1)) := by
    rw [List.take_add_one, hf]
    exact hholds.written ht hname hfile (by rw [hlength]; exact (hinv.made i c hcall).shaped.named k f hf) hnew
  refine hinv.change hcall rfl rfl (List.Subset.refl _) (fun n hne => ?_) (fun _ _ h => h) (fun t ht => .inl ?_) ?_
  · exact .inr (by rw [hplace]; exact (congrArg some (ne_update hne)).symm)
  · rw [hplace]
    split_ifs at ht
    · exact ht
    · exact ht
  · split_ifs with hlast
    · exact ⟨hbirth, _, Function.update_self _ _ _, by rwa [List.take_of_length_le hlast.ge] at hnext⟩
    · exact ⟨hbirth, by omega, _, Function.update_self _ _ _, hnext⟩

/-- A move of a call keeps the invariant. -/
theorem Inv.advance (hinv : Inv σ) (hcall : σ.calls i = some c) {a : Action} (h : σ.advance i c a = some σ') : Inv σ' := by
  have hfollows := hinv.follows i c hcall
  have hsome : ∀ t : Str, ∀ names : List Str, t ∈ names → names = [] → temporary? c.place = some t := fun t names ht hnil => by
    rw [hnil] at ht
    cases ht
  cases a with
  | call n => cases h
  | look =>
    simp only [Workspaces.advance] at h
    split at h
    · next hplace =>
      cases h
      rw [hplace] at hfollows
      refine hinv.goes hcall (.refl σ) (fun t ht => hsome t _ ht rfl) (fun _ _ h => h) (fun t ht => ?_) ?_
      · split_ifs at ht <;> cases ht
      · split_ifs with hnone
        · exact hfollows
        · exact ⟨fun hok => (by cases hok), fun _ => ⟨hfollows, hnone⟩⟩
    · cases h
  | make temporary =>
    simp only [Workspaces.advance] at h
    split at h
    · next hplace =>
      split_ifs at h with hname
      cases h
      exact hinv.make hcall hplace hname.1 hname.2.1
    · cases h
  | nest =>
    simp only [Workspaces.advance] at h
    split at h
    · next hplace =>
      cases h
      exact hinv.nest hcall hplace
    · cases h
  | write name file =>
    simp only [Workspaces.advance] at h
    split at h
    · next hplace =>
      split at h
      · next hf hτ =>
        split at h
        · next hname =>
          cases h
          exact hinv.write hcall hplace hf hτ hname.1 hname.2.1 hname.2.2.1 hname.2.2.2
        · cases h
      · cases h
    · cases h
  | lock =>
    simp only [Workspaces.advance] at h
    split at h
    · next temporary hplace =>
      split_ifs at h with hfree
      cases h
      rw [hplace] at hfollows
      exact hinv.change hcall rfl rfl (List.Subset.refl _) (fun _ hne => absurd rfl hne)
        (fun j _ hheld => by rw [hfree] at hheld; cases hheld) (fun t ht => .inl (by rw [hplace]; exact ht)) ⟨hfollows.1, hfollows.2, rfl⟩
    · cases h
  | check =>
    simp only [Workspaces.advance] at h
    split at h
    · next temporary hplace =>
      cases h
      rw [hplace] at hfollows
      refine hinv.goes hcall (.refl σ) (fun t ht => hsome t _ ht rfl) (fun _ _ h => h) (fun t ht => ?_) ?_
      · rw [hplace]
        split_ifs at ht
        · exact ht
        · exact ht
      · split_ifs with hnone
        · exact ⟨hfollows.1, hfollows.2.1, hfollows.2.2, hnone⟩
        · exact ⟨hfollows.1, fun _ => hnone⟩
    · cases h
  | rename =>
    simp only [Workspaces.advance] at h
    split at h
    · next temporary hplace =>
      split_ifs at h with hnone
      · cases h
        exact hinv.rename hcall hplace
      · -- the lock keeps the name free since the check
        rw [hplace] at hfollows
        exact absurd hfollows.2.2.2 hnone
    · cases h
  | unlock =>
    simp only [Workspaces.advance] at h
    obtain ⟨hrelease, hothers⟩ := sameBut_release σ i
    split at h
    · next temporary hplace =>
      cases h
      rw [hplace] at hfollows
      refine hinv.goes hcall hrelease (fun t ht => hsome t _ ht rfl) hothers (fun t ht => by cases ht) ?_
      show i ∈ (σ.release i).births
      rw [hrelease.births]
      exact hfollows
    · next temporary err hplace =>
      cases h
      rw [hplace] at hfollows
      refine hinv.goes hcall hrelease (fun t ht => hsome t _ ht rfl) hothers (fun t ht => by rw [hplace]; exact ht) fun heq => ?_
      have hentries : (σ.release i).entries c.newborn.workspaceId.1 = σ.entries c.newborn.workspaceId.1 := by
        by_contra hne
        exact absurd (hrelease.entries _ hne) List.not_mem_nil
      refine ⟨?_, fun hnone => hfollows.2 heq (hentries.symm.trans hnone)⟩
      show i ∉ (σ.release i).births
      rw [hrelease.births]
      exact hfollows.1
    · cases h
  | settle =>
    simp only [Workspaces.advance] at h
    split at h
    · next hplace =>
      cases h
      rw [hplace] at hfollows
      exact hinv.goes hcall (.refl σ) (fun t ht => hsome t _ ht rfl) (fun _ _ h => h) (fun t ht => by cases ht)
        ⟨fun _ => hfollows, fun herr => by cases herr⟩
    · cases h
  | clean rest =>
    simp only [Workspaces.advance] at h
    split at h
    · next temporary err hplace =>
      cases h
      rw [hplace] at hfollows
      obtain ⟨hsame, hlock⟩ := sameBut_leave σ temporary rest
      refine hinv.goes hcall hsame (fun t ht => by rw [List.mem_singleton.mp ht, hplace]; rfl) (fun j _ h => hlock.trans h)
        (fun t ht => by cases ht) ⟨fun hok => (by cases hok), fun heq => ?_⟩
      obtain ⟨hbirth, hkept⟩ := hfollows (Except.error.inj heq)
      have hprivate := (hinv.temporary i c temporary hcall (by rw [hplace]; rfl)).1
      refine ⟨?_, fun hnone => hkept ?_⟩
      · show i ∉ (σ.leave temporary rest).births
        rw [hsame.births]
        exact hbirth
      · by_contra hne
        have hmem : c.newborn.workspaceId.1 ∈ [temporary] := hsame.entries _ fun heq' => hne (heq'.symm.trans hnone)
        exact not_isPrivate_uuid c.newborn.workspaceId (List.mem_singleton.mp hmem ▸ hprivate)
    · cases h
  | fail err kept rest =>
    simp only [Workspaces.advance] at h
    split_ifs at h with herr
    exact hinv.failed hcall herr h
  | stop rest => exact hinv.stopped hcall h

theorem Inv.next (hinv : Inv σ) {m : Move} (hmade : ∀ i n, m = .act i (.call n) → n.IsMade) (h : σ.next m = some σ') : Inv σ' := by
  cases m with
  | act i a =>
    cases hcall : σ.calls i with
    | some c =>
      have hnext : σ.next (.act i a) = σ.advance i c a := by
        simp only [Workspaces.next, hcall]
      exact hinv.advance hcall (hnext.symm.trans h)
    | none =>
      simp only [Workspaces.next, hcall] at h
      cases a with
      | call n =>
        cases h
        -- a call begins
        have hself : Function.update σ.calls i (some ⟨n, .looking⟩) i = some ⟨n, .looking⟩ := Function.update_self _ _ _
        have hother : ∀ j, j ≠ i → Function.update σ.calls i (some ⟨n, .looking⟩) j = σ.calls j :=
          fun j hj => Function.update_of_ne hj _ _
        have hbirth : i ∉ σ.births := fun hmem => by
          obtain ⟨c, hc, -⟩ := hinv.lasting i hmem
          exact absurd (hcall.symm.trans hc) (Option.some_ne_none _).symm
        have hne : ∀ {j}, j ∈ σ.births → j ≠ i := fun hj heq => hbirth (heq ▸ hj)
        refine ⟨fun j d hd => ?_, fun j d hd => ?_, fun j d t hd ht => ?_, fun j k d e t hd he ht ht' => ?_, fun u x hx => ?_,
          fun j hj => ?_, ?_⟩
        · by_cases hj : j = i
          · subst hj
            obtain rfl := Option.some.inj (hself.symm.trans hd)
            exact hmade j n rfl
          · exact hinv.made j d ((hother j hj).symm.trans hd)
        · by_cases hj : j = i
          · subst hj
            obtain rfl := Option.some.inj (hself.symm.trans hd)
            exact hbirth
          · exact hinv.follows j d ((hother j hj).symm.trans hd)
        · by_cases hj : j = i
          · subst hj
            obtain rfl := Option.some.inj (hself.symm.trans hd)
            cases ht
          · exact hinv.temporary j d t ((hother j hj).symm.trans hd) ht
        · by_cases hj : j = i
          · subst hj
            obtain rfl := Option.some.inj (hself.symm.trans hd)
            cases ht
          · by_cases hk : k = i
            · subst hk
              obtain rfl := Option.some.inj (hself.symm.trans he)
              cases ht'
            · exact hinv.distinct j k d e t ((hother j hj).symm.trans hd) ((hother k hk).symm.trans he) ht ht'
        · obtain ⟨j, hj, d, τ, hd, hid, hτ, hstore⟩ := hinv.born u x hx
          exact ⟨j, hj, d, τ, (hother j (hne hj)).trans hd, hid, hτ, hstore⟩
        · obtain ⟨d, hd, hmem⟩ := hinv.lasting j hj
          exact ⟨d, (hother j (hne hj)).trans hd, hmem⟩
        · exact hinv.once.imp_of_mem fun {j k} hj hk honce d e hd he =>
            honce d e ((hother j (hne hj)).symm.trans hd) ((hother k (hne hk)).symm.trans he)
      | _ => cases h
  | append u a =>
    rw [Workspaces.next] at h
    split at h
    · next τ hτ =>
      obtain ⟨τ', hτ', rfl⟩ := Option.map_eq_some_iff.mp h
      have hself : Function.update σ.entries u.1 (some (some τ')) u.1 = some (some τ') := Function.update_self _ _ _
      have hother : ∀ name, name ≠ u.1 → Function.update σ.entries u.1 (some (some τ')) name = σ.entries name :=
        fun name hname => Function.update_of_ne hname _ _
      have hkept : ∀ name, σ.entries name ≠ none → Function.update σ.entries u.1 (some (some τ')) name ≠ none := by
        intro name hname
        by_cases heq : name = u.1
        · rw [heq, hself]
          exact Option.some_ne_none _
        · rw [hother name heq]
          exact hname
      refine ⟨hinv.made, fun j d hd => ?_, hinv.temporary, hinv.distinct, fun v x hx => ?_, fun j hj => ?_, hinv.once⟩
      · refine (hinv.follows j d hd).frame Iff.rfl (hkept _) (fun _ hnone => ?_) (fun t ht => ?_) fun h => h
        · refine (hother _ fun heq => ?_).trans hnone
          rw [heq, hτ] at hnone
          cases hnone
        · exact hother t fun heq => not_isPrivate_uuid u (heq ▸ (hinv.temporary j d t hd ht).1)
      · by_cases hv : v = u
        · subst hv
          obtain rfl := Option.some.inj (hself.symm.trans hx)
          obtain ⟨j, hj, d, τ₀, hd, hid, hτ₀, hstore⟩ := hinv.born v _ hτ
          cases hτ₀
          exact ⟨j, hj, d, τ', hd, hid, rfl, (hstore.next hτ').1⟩
        · exact hinv.born v x ((hother _ fun heq => hv (Subtype.ext heq)).symm.trans hx)
      · obtain ⟨d, hd, hmem⟩ := hinv.lasting j hj
        exact ⟨d, hd, hkept _ hmem⟩
    · cases h

theorem inv_fresh : Inv fresh where
  made := fun _ _ h => by cases h
  follows := fun _ _ h => by cases h
  temporary := fun _ _ _ h => by cases h
  distinct := fun _ _ _ _ _ h => by cases h
  born := fun _ _ h => by cases h
  lasting := fun _ h => absurd h List.not_mem_nil
  once := List.Pairwise.nil

theorem inv_of_reaches (h : Reaches fresh σ) : Inv σ := by
  induction h with
  | refl => exact inv_fresh
  | next _ hmade hs ih => exact ih.next hmade hs

/-! ### No call is in the way of the next one -/

theorem Reaches.step {σ₀ : Workspaces} {m : Move} (h : Reaches σ₀ σ) (hmade : ∀ i n, m = .act i (.call n) → n.IsMade)
    (hs : σ.next m = some σ') : Reaches σ₀ σ' := .next h hmade hs

theorem Holds.names {d : EventDirectory} {files : List EventFile} (h : Holds d files) : d.names = files.map (·.name) := by
  have hentries : d.published = d.entries := List.filter_eq_self.mpr fun e he => by
    by_contra ht
    have hmem : e ∈ d.temporaries := mem_temporaries.mpr ⟨he, by simpa using ht⟩
    rw [h.temporaries] at hmem
    cases hmem
  rw [← h.journal, EventDirectory.journal, hentries, List.map_map]
  rfl

/-- The next event of a call can be written. -/
theorem Inv.exists_write (hinv : Inv σ) {n : Newborn} {k : Nat} (hcall : σ.calls i = some ⟨n, .writing temporary k⟩) :
    ∃ name file σ', σ.next (.act i (.write name file)) = some σ' ∧
      σ'.calls i = some ⟨n, if k + 1 = n.files.length then .locking temporary else .writing temporary (k + 1)⟩ ∧ σ'.lock = σ.lock ∧
      ∀ name, name ≠ temporary → σ'.entries name = σ.entries name := by
  obtain ⟨-, hk, d, hd, hholds⟩ := hinv.follows i _ hcall
  have hk : k < n.files.length := hk
  have hshaped : n.Shaped := (hinv.made i _ hcall).shaped
  obtain ⟨file, hfile⟩ := Store.exists_links_eq_zero d
  have hf : n.files[k]? = some n.files[k] := List.getElem?_eq_getElem hk
  -- the names of the directory are those of the events before this one
  have hnames : d.names = (n.files.take k).map (·.name) := hholds.names
  have htemporary : temporaryMark ∉ d.names := fun hmem => by
    rw [hnames] at hmem
    obtain ⟨f, hf, heq⟩ := List.mem_map.mp hmem
    obtain ⟨j, hj⟩ := List.mem_iff_getElem?.mp (List.mem_of_mem_take hf)
    exact not_isTemporary_of_digit (hshaped.named j f hj).digit (heq ▸ List.prefix_refl temporaryMark)
  have hnew : n.files[k].name ∉ d.names := fun hmem => by
    rw [hnames] at hmem
    have hsplit : (n.files.take k).map (·.name) ++ (n.files.drop k).map (·.name) = n.files.map (·.name) := by
      rw [← List.map_append, List.take_append_drop]
    have hdrop : n.files[k].name ∈ (n.files.drop k).map (·.name) :=
      List.mem_map_of_mem (List.mem_iff_getElem?.mpr ⟨0, by rw [List.getElem?_drop]; exact hf⟩)
    exact (List.nodup_append.mp (hsplit ▸ hshaped.nodup)).2.2 _ hmem _ hdrop rfl
  have hcond : IsTemporary temporaryMark ∧ temporaryMark ∉ (idle d).directory.names ∧ (idle d).directory.links file = 0 ∧
      n.files[k].name ∉ (idle d).directory.names := ⟨List.prefix_refl _, htemporary, hfile, hnew⟩
  refine ⟨temporaryMark, file, { σ with
      entries := Function.update σ.entries temporary (some (some (idle (written d n.files[k] temporaryMark file)))) }.goes i
        ⟨n, .writing temporary k⟩ (if k + 1 = n.files.length then .locking temporary else .writing temporary (k + 1)), ?_,
    Function.update_self _ _ _, rfl, fun name hname => Function.update_of_ne hname _ _⟩
  simp only [Workspaces.next, hcall, Workspaces.advance, hf, hd]
  exact if_pos hcond

/-- From the place where its events are written a call gets to the lock. -/
theorem Inv.exists_locking (hinv : Inv σ) {n : Newborn} {k : Nat} (hcall : σ.calls i = some ⟨n, .writing temporary k⟩) :
    ∃ σ', Reaches σ σ' ∧ σ'.calls i = some ⟨n, .locking temporary⟩ ∧ σ'.lock = σ.lock ∧
      ∀ name, name ≠ temporary → σ'.entries name = σ.entries name := by
  have hk : k < n.files.length := (hinv.follows i _ hcall).2.1
  obtain ⟨m, hm⟩ : ∃ m, n.files.length = k + 1 + m := ⟨n.files.length - (k + 1), by omega⟩
  induction m generalizing σ k with
  | zero =>
    obtain ⟨name, file, σ₁, hnext, hcall₁, hlock, hentries⟩ := hinv.exists_write hcall
    rw [if_pos (by omega)] at hcall₁
    exact ⟨σ₁, Reaches.step .refl (fun _ _ h => by cases h) hnext, hcall₁, hlock, hentries⟩
  | succ m ih =>
    obtain ⟨name, file, σ₁, hnext, hcall₁, hlock, hentries⟩ := hinv.exists_write hcall
    rw [if_neg (by omega)] at hcall₁
    have hmade : ∀ j n', Move.act i (.write name file) = .act j (.call n') → n'.IsMade := fun _ _ h => by cases h
    obtain ⟨σ', hreach, hcall', hlock', hentries'⟩ := ih (hinv.next hmade hnext) hcall₁ (by omega) (by omega)
    exact ⟨σ', Runs.trans (Reaches.step .refl hmade hnext) hreach, hcall', hlock'.trans hlock,
      fun name hname => (hentries' name hname).trans (hentries name hname)⟩

/-- Where no call holds the lock, a new call gets to the lock with the name of its workspace still free. -/
theorem Inv.exists_called (hinv : Inv σ) {n : Newborn} (hmade : n.IsMade) (hi : σ.calls i = none)
    (hname : σ.entries n.workspaceId.1 = none) (ht : IsPrivate temporary) (hused : temporary ∉ σ.used)
    (hnone : σ.entries temporary = none) : ∃ σ', Reaches σ σ' ∧ σ'.calls i = some ⟨n, .locking temporary⟩ ∧ σ'.lock = σ.lock ∧
      ∀ name, name ≠ temporary → σ'.entries name = σ.entries name := by
  let σ₁ : Workspaces := { σ with calls := Function.update σ.calls i (some ⟨n, .looking⟩) }
  have h₁ : σ.next (.act i (.call n)) = some σ₁ := by
    simp only [Workspaces.next, hi, σ₁]
  have hcall₁ : σ₁.calls i = some ⟨n, .looking⟩ := Function.update_self _ _ _
  let σ₂ : Workspaces := σ₁.goes i ⟨n, .looking⟩ .making
  have h₂ : σ₁.next (.act i .look) = some σ₂ := by
    simp only [Workspaces.next, hcall₁, Workspaces.advance]
    exact congrArg (fun place => some (σ₁.goes i ⟨n, .looking⟩ place)) (if_pos hname)
  have hcall₂ : σ₂.calls i = some ⟨n, .making⟩ := Function.update_self _ _ _
  let σ₃ : Workspaces := { σ₂ with
    entries := Function.update σ₂.entries temporary (some none), used := temporary :: σ₂.used }.goes i ⟨n, .making⟩ (.nesting temporary)
  have h₃ : σ₂.next (.act i (.make temporary)) = some σ₃ := by
    simp only [Workspaces.next, hcall₂, Workspaces.advance]
    exact if_pos ⟨ht, hused, hnone⟩
  have hcall₃ : σ₃.calls i = some ⟨n, .nesting temporary⟩ := Function.update_self _ _ _
  let σ₄ : Workspaces := { σ₃ with
    entries := Function.update σ₃.entries temporary (some (some (idle emptyDirectory))) }.goes i ⟨n, .nesting temporary⟩
      (.writing temporary 0)
  have h₄ : σ₃.next (.act i .nest) = some σ₄ := by
    simp only [Workspaces.next, hcall₃, Workspaces.advance, σ₄]
  have hcall₄ : σ₄.calls i = some ⟨n, .writing temporary 0⟩ := Function.update_self _ _ _
  have hmade₁ : ∀ j n', Move.act i (.call n) = .act j (.call n') → n'.IsMade := fun j n' heq => by
    cases heq
    exact hmade
  have hreach : Reaches σ σ₄ := (((Reaches.step .refl hmade₁ h₁).step (fun _ _ h => by cases h) h₂).step
    (fun _ _ h => by cases h) h₃).step (fun _ _ h => by cases h) h₄
  have hinv₄ : Inv σ₄ := by
    refine hreach.invariant (fun τ m τ' hτ hm hs => hτ.next hm hs) hinv
  obtain ⟨σ', hreach', hcall', hlock', hentries'⟩ := hinv₄.exists_locking hcall₄
  refine ⟨σ', hreach.trans hreach', hcall', hlock', fun name hne => (hentries' name hne).trans ?_⟩
  exact (Function.update_of_ne hne _ _).trans (Function.update_of_ne hne _ _)

/-- From a free lock a call publishes its workspace as if it were the only one. -/
theorem Inv.exists_published (hinv : Inv σ) {n : Newborn} (hcall : σ.calls i = some ⟨n, .locking temporary⟩) (hfree : σ.lock = none)
    (hname : σ.entries n.workspaceId.1 = none) : ∃ σ', Reaches σ σ' ∧ σ'.calls i = some ⟨n, .ended (.ok ())⟩ ∧ σ'.lock = none ∧
      (∃ τ, σ'.entries n.workspaceId.1 = some (some τ) ∧ τ.IsIdle ∧ τ.directory.journal = n.files) ∧ σ'.entries temporary = none ∧
      ∀ name, name ≠ n.workspaceId.1 → name ≠ temporary → σ'.entries name = σ.entries name := by
  obtain ⟨-, d, hd, hholds⟩ := hinv.follows i _ hcall
  have hprivate : IsPrivate temporary := (hinv.temporary i _ temporary hcall rfl).1
  let σ₁ : Workspaces := { σ with lock := some i }.goes i ⟨n, .locking temporary⟩ (.checking temporary)
  have h₁ : σ.next (.act i .lock) = some σ₁ := by
    simp only [Workspaces.next, hcall, Workspaces.advance]
    exact if_pos hfree
  have hcall₁ : σ₁.calls i = some ⟨n, .checking temporary⟩ := Function.update_self _ _ _
  let σ₂ : Workspaces := σ₁.goes i ⟨n, .checking temporary⟩ (.moving temporary)
  have h₂ : σ₁.next (.act i .check) = some σ₂ := by
    simp only [Workspaces.next, hcall₁, Workspaces.advance]
    exact congrArg (fun place => some (σ₁.goes i ⟨n, .checking temporary⟩ place)) (if_pos hname)
  have hcall₂ : σ₂.calls i = some ⟨n, .moving temporary⟩ := Function.update_self _ _ _
  let σ₃ : Workspaces := { σ₂ with
    entries := Function.update (Function.update σ₂.entries temporary none) n.workspaceId.1 (σ₂.entries temporary)
    births := σ₂.births ++ [i] }.goes i ⟨n, .moving temporary⟩ (.unlocking temporary none)
  have h₃ : σ₂.next (.act i .rename) = some σ₃ := by
    simp only [Workspaces.next, hcall₂, Workspaces.advance]
    exact if_pos hname
  have hcall₃ : σ₃.calls i = some ⟨n, .unlocking temporary none⟩ := Function.update_self _ _ _
  let σ₄ : Workspaces := { σ₃ with lock := none }.goes i ⟨n, .unlocking temporary none⟩ .settling
  have h₄ : σ₃.next (.act i .unlock) = some σ₄ := by
    simp only [Workspaces.next, hcall₃, Workspaces.advance, Workspaces.release]
    exact congrArg (fun τ : Workspaces => some (τ.goes i ⟨n, .unlocking temporary none⟩ .settling)) (if_pos rfl)
  have hcall₄ : σ₄.calls i = some ⟨n, .settling⟩ := Function.update_self _ _ _
  let σ₅ : Workspaces := σ₄.goes i ⟨n, .settling⟩ (.ended (.ok ()))
  have h₅ : σ₄.next (.act i .settle) = some σ₅ := by
    simp only [Workspaces.next, hcall₄, Workspaces.advance, σ₅]
  have hreach : Reaches σ σ₅ := ((((Reaches.step .refl (fun _ _ h => by cases h) h₁).step (fun _ _ h => by cases h) h₂).step
    (fun _ _ h => by cases h) h₃).step (fun _ _ h => by cases h) h₄).step (fun _ _ h => by cases h) h₅
  refine ⟨σ₅, hreach, Function.update_self _ _ _, rfl, ⟨idle d, ?_, ⟨hholds.tidy, rfl, rfl⟩, hholds.journal⟩, ?_,
    fun name hne hne' => ?_⟩
  · exact (Function.update_self _ _ _).trans hd
  · refine (Function.update_of_ne (fun heq => ?_) _ _).trans (Function.update_self _ _ _)
    exact not_isPrivate_uuid n.workspaceId (heq ▸ hprivate)
  · exact (Function.update_of_ne hne _ _).trans (Function.update_of_ne hne' _ _)

/-! ### Nothing that is published is lost -/

/-- A directory of workspaces that follows another: it has the births, the calls and the workspaces of that, with journals that have only
    grown. -/
structure Later (σ σ' : Workspaces) : Prop where
  births : σ.births <+: σ'.births
  calls : ∀ i c, σ.calls i = some c → ∃ place, σ'.calls i = some { c with place }
  stores : ∀ (u : Uuid) τ, σ.entries u.1 = some (some τ) →
    ∃ τ', σ'.entries u.1 = some (some τ') ∧ τ.directory.journal <+: τ'.directory.journal

theorem Later.refl (σ : Workspaces) : Later σ σ :=
  ⟨List.prefix_refl _, fun _ c h => ⟨c.place, h⟩, fun _ τ h => ⟨τ, h, List.prefix_refl _⟩⟩

theorem Later.trans {σ'' : Workspaces} (h : Later σ σ') (h' : Later σ' σ'') : Later σ σ'' := by
  refine ⟨h.births.trans h'.births, fun i c hc => ?_, fun u τ hτ => ?_⟩
  · obtain ⟨_, hcall⟩ := h.calls i c hc
    obtain ⟨place, hplace⟩ := h'.calls i _ hcall
    exact ⟨place, hplace⟩
  · obtain ⟨τ₁, hτ₁, hgrown⟩ := h.stores u τ hτ
    obtain ⟨τ₂, hτ₂, hgrown'⟩ := h'.stores u τ₁ hτ₁
    exact ⟨τ₂, hτ₂, hgrown.trans hgrown'⟩

/-- A call that changes no name that a workspace has. -/
theorem later_of {place : Place} (hcall : σ.calls i = some c) (hcalls : σ'.calls = Function.update σ.calls i (some { c with place }))
    (hbirths : σ.births <+: σ'.births) (hentries : ∀ u : Uuid, σ.entries u.1 ≠ none → σ'.entries u.1 = σ.entries u.1) : Later σ σ' := by
  refine ⟨hbirths, fun j d hd => ?_, fun u τ hτ => ⟨τ, ?_, List.prefix_refl _⟩⟩
  · by_cases hj : j = i
    · subst hj
      obtain rfl := Option.some.inj (hcall.symm.trans hd)
      exact ⟨place, by rw [hcalls, Function.update_self]⟩
    · exact ⟨d.place, by rw [hcalls, Function.update_of_ne hj]; exact hd⟩
  · rw [hentries u (by rw [hτ]; exact Option.some_ne_none _)]
    exact hτ

/-- A call that changes its temporary directory and nothing else. -/
theorem Inv.later_goes (hinv : Inv σ) (hcall : σ.calls i = some c) {place : Place} {names : List Str} (hsame : SameBut σ σ' names)
    (hnames : ∀ t ∈ names, temporary? c.place = some t) : Later σ (σ'.goes i c place) := by
  refine later_of hcall (by rw [Workspaces.goes, hsame.calls]) (by rw [Workspaces.goes, hsame.births]) fun u _ => ?_
  by_contra hne
  exact not_isPrivate_uuid u (hinv.temporary i c _ hcall (hnames _ (hsame.entries _ hne))).1

theorem Inv.later_leave (hinv : Inv σ) (hcall : σ.calls i = some c) {place : Place} (ht : temporary? c.place = some temporary) :
    Later σ ((σ.leave temporary rest).goes i c place) :=
  hinv.later_goes hcall (sameBut_leave σ temporary rest).1 fun _ hmem => List.mem_singleton.mp hmem ▸ ht

theorem Inv.later_stay (hinv : Inv σ) (hcall : σ.calls i = some c) (hsame : SameBut σ σ' []) {place : Place} :
    Later σ (σ'.goes i c place) := hinv.later_goes hcall hsame fun _ hmem => absurd hmem List.not_mem_nil

theorem Inv.later_failed (hinv : Inv σ) (hcall : σ.calls i = some c) {err : Err} {kept : Bool}
    (h : σ.failed i c err kept rest = some σ') : Later σ σ' := by
  unfold Workspaces.failed at h
  split at h
  case h_3 t hplace | h_4 t _ hplace | h_5 t hplace =>
    cases h
    exact hinv.later_leave hcall (by rw [hplace]; rfl)
  case h_8 t _ hplace =>
    cases h
    split_ifs
    · exact hinv.later_stay hcall (.refl σ)
    · exact hinv.later_stay hcall (sameBut_release σ i).1
  case h_10 => cases h
  all_goals
    cases h
    exact hinv.later_stay hcall (.refl σ)

theorem Inv.later_stopped (hinv : Inv σ) (hcall : σ.calls i = some c) (h : σ.stopped i c rest = some σ') : Later σ σ' := by
  have hleft : ∀ t, temporary? c.place = some t → Later σ (((σ.leave t rest).release i).goes i c .stopped) := fun t ht =>
    hinv.later_goes hcall ((sameBut_leave σ t rest).1.trans (sameBut_release _ i).1) fun _ hmem => List.mem_singleton.mp hmem ▸ ht
  unfold Workspaces.stopped at h
  split at h
  case h_1 t hplace | h_2 t _ hplace | h_3 t hplace | h_4 t _ hplace =>
    cases h
    exact hleft t (by rw [hplace]; rfl)
  case h_5 =>
    cases h
    obtain ⟨hsame, -⟩ := sameBut_release σ i
    have hcalls : (σ.release i).calls = Function.update σ.calls i (some { c with place := c.place }) := by
      rw [hsame.calls, Function.update_eq_self_iff.mpr hcall.symm]
    refine later_of hcall hcalls (by rw [hsame.births]) fun u _ => ?_
    by_contra hne
    exact absurd (hsame.entries _ hne) List.not_mem_nil
  case h_6 => cases h
  case h_7 =>
    cases h
    exact hinv.later_stay hcall (sameBut_release σ i).1

theorem Inv.later_advance (hinv : Inv σ) (hcall : σ.calls i = some c) {a : Action} (h : σ.advance i c a = some σ') : Later σ σ' := by
  cases a with
  | call n => cases h
  | look =>
    simp only [Workspaces.advance] at h
    split at h
    · cases h
      exact hinv.later_stay hcall (.refl σ)
    · cases h
  | make temporary =>
    simp only [Workspaces.advance] at h
    split at h
    · split_ifs at h with hname
      cases h
      refine later_of hcall rfl (List.prefix_refl _) fun u _ => Function.update_of_ne (fun heq => ?_) _ _
      exact not_isPrivate_uuid u (heq ▸ hname.1)
    · cases h
  | nest =>
    simp only [Workspaces.advance] at h
    split at h
    · next temporary hplace =>
      cases h
      refine later_of hcall rfl (List.prefix_refl _) fun u _ => Function.update_of_ne (fun heq => ?_) _ _
      exact not_isPrivate_uuid u (heq ▸ (hinv.temporary i c temporary hcall (by rw [hplace]; rfl)).1)
    · cases h
  | write name file =>
    simp only [Workspaces.advance] at h
    split at h
    · next temporary k hplace =>
      split at h
      · split at h
        · cases h
          refine later_of hcall rfl (List.prefix_refl _) fun u _ => Function.update_of_ne (fun heq => ?_) _ _
          exact not_isPrivate_uuid u (heq ▸ (hinv.temporary i c temporary hcall (by rw [hplace]; rfl)).1)
        · cases h
      · cases h
    · cases h
  | lock =>
    simp only [Workspaces.advance] at h
    split at h
    · split_ifs at h
      cases h
      exact later_of hcall rfl (List.prefix_refl _) fun _ _ => rfl
    · cases h
  | check =>
    simp only [Workspaces.advance] at h
    split at h
    · cases h
      exact hinv.later_stay hcall (.refl σ)
    · cases h
  | rename =>
    simp only [Workspaces.advance] at h
    split at h
    · next temporary hplace =>
      have hprivate := (hinv.temporary i c temporary hcall (by rw [hplace]; rfl)).1
      split_ifs at h with hnone
      · cases h
        refine later_of hcall rfl (List.prefix_append _ _) fun u hu => (Function.update_of_ne (fun heq => ?_) _ _).trans
          (Function.update_of_ne (fun heq => ?_) _ _)
        · exact hu (heq ▸ hnone)
        · exact not_isPrivate_uuid u (heq ▸ hprivate)
      · cases h
        exact hinv.later_stay hcall (.refl σ)
    · cases h
  | unlock =>
    simp only [Workspaces.advance] at h
    split at h
    · cases h
      exact hinv.later_stay hcall (sameBut_release σ i).1
    · cases h
      exact hinv.later_stay hcall (sameBut_release σ i).1
    · cases h
  | settle =>
    simp only [Workspaces.advance] at h
    split at h
    · cases h
      exact hinv.later_stay hcall (.refl σ)
    · cases h
  | clean rest =>
    simp only [Workspaces.advance] at h
    split at h
    · next hplace =>
      cases h
      exact hinv.later_leave hcall (by rw [hplace]; rfl)
    · cases h
  | fail err kept rest =>
    simp only [Workspaces.advance] at h
    split_ifs at h
    exact hinv.later_failed hcall h
  | stop rest => exact hinv.later_stopped hcall h

theorem Inv.later_next (hinv : Inv σ) {m : Move} (h : σ.next m = some σ') : Later σ σ' := by
  cases m with
  | act i a =>
    cases hcall : σ.calls i with
    | some c =>
      have hnext : σ.next (.act i a) = σ.advance i c a := by
        simp only [Workspaces.next, hcall]
      exact hinv.later_advance hcall (hnext.symm.trans h)
    | none =>
      simp only [Workspaces.next, hcall] at h
      cases a with
      | call n =>
        cases h
        refine ⟨List.prefix_refl _, fun j d hd => ⟨d.place, ?_⟩, fun _ τ hτ => ⟨τ, hτ, List.prefix_refl _⟩⟩
        exact (Function.update_of_ne (fun heq => by rw [heq, hcall] at hd; cases hd) _ _).trans hd
      | _ => cases h
  | append u a =>
    rw [Workspaces.next] at h
    split at h
    · next τ hτ =>
      obtain ⟨τ', hτ', rfl⟩ := Option.map_eq_some_iff.mp h
      obtain ⟨-, -, d, τ₀, -, -, hτ₀, hstore⟩ := hinv.born u _ hτ
      cases hτ₀
      refine ⟨List.prefix_refl _, fun j d hd => ⟨d.place, hd⟩, fun v τ₁ hτ₁ => ?_⟩
      by_cases hv : v = u
      · subst hv
        obtain rfl := Option.some.inj (Option.some.inj (hτ.symm.trans hτ₁))
        exact ⟨τ', Function.update_self _ _ _, (hstore.next hτ').2.journal⟩
      · exact ⟨τ₁, (Function.update_of_ne (fun heq => hv (Subtype.ext heq)) _ _).trans hτ₁, List.prefix_refl _⟩
    · cases h

theorem Inv.later_of_reaches (hinv : Inv σ) (h : Reaches σ σ') : Inv σ' ∧ Later σ σ' := by
  induction h with
  | refl => exact ⟨hinv, .refl σ⟩
  | next _ hmade hs ih => exact ⟨ih.1.next hmade hs, ih.2.trans (ih.1.later_next hs)⟩

/-! ### What the calls publish -/

/-- A workspace is there as one of the calls has made it and appends have left it: a reader takes its journal for what it is, and finds in
    the events of the call the state that the call has computed. -/
structure Born (σ : Workspaces) (u : Uuid) (τ : Store) (i : Nat) (n : Newborn) : Prop where
  birth : i ∈ σ.births
  call : ∃ place, σ.calls i = some ⟨n, place⟩
  made : n.IsMade
  workspaceId : n.workspaceId = u
  runs : AppendRuns u n.files τ.directory.journal
  reads : (projectDirectory u).eval τ.directory = project u τ.directory.journal
  state : (∀ f ∈ n.files, f.data.length ≤ maxEventBytes) → project u n.files = .ok n.state

theorem Inv.exists_born (hinv : Inv σ) {u : Uuid} {x : Option Store} (hx : σ.entries u.1 = some x) :
    ∃ τ i n, x = some τ ∧ σ.Born u τ i n := by
  obtain ⟨i, hi, ⟨n, place⟩, τ, hcall, rfl, rfl, hstore⟩ := hinv.born u x hx
  have hmade : n.IsMade := hinv.made i _ hcall
  exact ⟨τ, i, n, rfl, hi, ⟨place, hcall⟩, hmade, rfl, hstore.runs, hstore.tidy.eval_projectDirectory _, hmade.project⟩

/-- No two calls publish one workspace. -/
theorem Inv.births_inj (hinv : Inv σ) {j : Nat} {d : Call} (hi : i ∈ σ.births) (hj : j ∈ σ.births) (hc : σ.calls i = some c)
    (hd : σ.calls j = some d) (hid : c.newborn.workspaceId = d.newborn.workspaceId) : i = j := by
  have hsymm : Std.Symm fun i j => ∀ c d, σ.calls i = some c → σ.calls j = some d → c.newborn.workspaceId ≠ d.newborn.workspaceId :=
    ⟨fun _ _ h c d hc hd heq => h d c hd hc heq.symm⟩
  by_contra hne
  exact hinv.once.forall hi hj hne c d hc hd hid

/-- A call publishes once. -/
theorem Inv.nodup_births (hinv : Inv σ) : σ.births.Nodup := by
  refine hinv.once.imp_of_mem fun {i j} hi _ honce heq => ?_
  subst heq
  obtain ⟨c, hc, -⟩ := hinv.lasting i hi
  exact honce c c hc hc rfl

/-- Whatever calls of `create` and `fork` and clients of workspaces do in one directory, in whatever order, wherever they stop and whatever
    operations fail: a name of a workspace is there only as a whole, made by one call and continued by appends, and it stays and its journal
    grows. Every call publishes at most once and no two the same workspace; what has published is there; a call that has ended well has
    published, and one that has found the name taken has published nothing, and the name is taken. -/
theorem publishes_whole (h : Reaches fresh σ) :
    (∀ (u : Uuid) x, σ.entries u.1 = some x → ∃ τ i n, x = some τ ∧ σ.Born u τ i n ∧
      ∀ σ', Reaches σ σ' →
        ∃ τ', σ'.entries u.1 = some (some τ') ∧ τ.directory.journal <+: τ'.directory.journal ∧ σ'.Born u τ' i n) ∧
    (σ.births.Nodup ∧ ∀ i ∈ σ.births, ∃ c, σ.calls i = some c ∧ σ.entries c.newborn.workspaceId.1 ≠ none ∧
      ∀ j ∈ σ.births, ∀ d, σ.calls j = some d → c.newborn.workspaceId = d.newborn.workspaceId → i = j) ∧
    ∀ i n result, σ.calls i = some ⟨n, .ended result⟩ → (result = .ok () → i ∈ σ.births) ∧
      (result = .error .alreadyExists → i ∉ σ.births ∧ σ.entries n.workspaceId.1 ≠ none) := by
  have hinv := inv_of_reaches h
  refine ⟨fun u x hx => ?_, ⟨hinv.nodup_births, fun i hi => ?_⟩, fun i n result hcall => hinv.follows i _ hcall⟩
  · obtain ⟨τ, i, n, rfl, hborn⟩ := hinv.exists_born hx
    refine ⟨τ, i, n, rfl, hborn, fun σ' h' => ?_⟩
    obtain ⟨hinv', hlater⟩ := hinv.later_of_reaches h'
    obtain ⟨τ', hτ', hgrown⟩ := hlater.stores u τ hx
    obtain ⟨_, j, m, heq, hborn'⟩ := hinv'.exists_born hτ'
    obtain rfl := Option.some.inj heq
    -- the call that has made it then is the one that has made it now
    obtain ⟨place, hcall⟩ := hborn.call
    obtain ⟨place', hcall'⟩ := hlater.calls i _ hcall
    obtain ⟨_, hcall''⟩ := hborn'.call
    obtain rfl := hinv'.births_inj (hlater.births.subset hborn.birth) hborn'.birth hcall' hcall''
      (hborn.workspaceId.trans hborn'.workspaceId.symm)
    obtain rfl : n = m := congrArg Call.newborn (Option.some.inj (hcall'.symm.trans hcall''))
    exact ⟨_, hτ', hgrown, hborn'⟩
  · obtain ⟨c, hc, hmem⟩ := hinv.lasting i hi
    exact ⟨c, hc, hmem, fun j hj d hd => hinv.births_inj hi hj hc hd⟩

/-- Whatever calls and clients have done, and wherever they have stopped: where the lock is free, a new call can go through, with a workspace
    whose name is free and under any name for its temporary directory that is new. It ends well, its workspace has its events and nothing
    else, the temporary directory is gone and all other names are as they were. -/
theorem publishes (h : Reaches fresh σ) (hfree : σ.lock = none) {n : Newborn} (hmade : n.IsMade)
    (hname : σ.entries n.workspaceId.1 = none) (hi : σ.calls i = none) (ht : IsPrivate temporary) (hused : temporary ∉ σ.used)
    (hnone : σ.entries temporary = none) : ∃ σ' τ, Reaches σ σ' ∧ σ'.calls i = some ⟨n, .ended (.ok ())⟩ ∧ σ'.lock = none ∧
      σ'.entries n.workspaceId.1 = some (some τ) ∧ τ.IsIdle ∧ τ.directory.journal = n.files ∧
      ∀ name, name ≠ n.workspaceId.1 → σ'.entries name = σ.entries name := by
  have hinv := inv_of_reaches h
  obtain ⟨σ₁, hreach, hcall, hlock, hentries⟩ := hinv.exists_called hmade hi hname ht hused hnone
  have hne : n.workspaceId.1 ≠ temporary := fun heq => not_isPrivate_uuid n.workspaceId (heq ▸ ht)
  have hinv₁ : Inv σ₁ := (hinv.later_of_reaches hreach).1
  obtain ⟨σ', hreach', hcall', hlock', ⟨τ, hτ, hidle, hjournal⟩, hgone, hentries'⟩ :=
    hinv₁.exists_published hcall (hlock.trans hfree) ((hentries _ hne).trans hname)
  refine ⟨σ', τ, hreach.trans hreach', hcall', hlock', hτ, hidle, hjournal, fun name hname' => ?_⟩
  by_cases heq : name = temporary
  · rw [heq, hgone, hnone]
  · exact (hentries' name hname' heq).trans (hentries name heq)

end Workspaces

/-- `create` makes a workspace that a reader takes. -/
theorem exists_newborn : ∃ n : Newborn, n.IsMade ∧ n.workspaceId = numberedUuid 0 ∧ ∀ f ∈ n.files, f.data.length ≤ maxEventBytes := by
  obtain ⟨identity, hown, hws, hname, htime⟩ := WorkspaceIdentity.exists_own (numberedUuid 0) sampleName sampleTime (by decide)
  have hsafe : Safe sampleName.json := safe_str (by decide)
  obtain ⟨e, receipt, he, hs⟩ := exists_created hown (by rw [hname]; exact hsafe) small_openPolicy (by decide) (numberedUuid 1) false
  obtain ⟨data, hdata⟩ := Event.exists_canonical he
  obtain ⟨-, -, hsequence, -, hkind, hpayload, hprevious⟩ := Event.sealed_record he
  rw [plain_createdPayload] at hpayload
  have hmake : WorkspaceIdentity.make (numberedUuid 0) sampleName sampleTime = .ok identity := by
    rw [WorkspaceIdentity.make, ← hws, ← hname, ← htime, hown.stateId]
    rfl
  rw [hws] at he
  have hcreate : ∃ s, Newborn.create ⟨numberedUuid 0, sampleName, openPolicy, numberedUuid 1, sampleTime⟩ =
      .ok ⟨numberedUuid 0, [eventFile e data], s⟩ := by
    rw [Newborn.create, rejectSensitive_of_safe hsafe, ok_bind, hmake, ok_bind, he, ok_bind, hs, catching_ok, ok_bind, hdata, ok_bind]
    exact ⟨_, rfl⟩
  obtain ⟨s, hs⟩ := hcreate
  refine ⟨_, .inl ⟨_, hs⟩, rfl, fun f hf => ?_⟩
  rw [List.mem_singleton.mp hf]
  exact length_firstFile hdata hsequence hprevious hkind (hpayload ▸ byteLength_createdPayload hname htime)

/-- A workspace that has been created lasts. -/
theorem exists_publishes_whole : ∃ σ τ n i, Workspaces.Reaches .fresh σ ∧ σ.entries n.workspaceId.1 = some (some τ) ∧
    σ.Born n.workspaceId τ i n ∧ project n.workspaceId n.files = .ok n.state ∧ ∀ σ', Workspaces.Reaches σ σ' →
      ∃ τ', σ'.entries n.workspaceId.1 = some (some τ') ∧ τ.directory.journal <+: τ'.directory.journal := by
  obtain ⟨n, hmade, -, hfits⟩ := exists_newborn
  have hne : n.workspaceId.1 ≠ privateMark := fun heq => Workspaces.not_isPrivate_uuid n.workspaceId (heq ▸ List.prefix_refl _)
  obtain ⟨σ₁, hreach, hcall, hlock, hentries⟩ := Workspaces.inv_fresh.exists_called (i := 0) hmade rfl rfl (List.prefix_refl privateMark)
    List.not_mem_nil rfl
  obtain ⟨σ, hreach', hended, -, ⟨τ, hτ, -⟩, -⟩ := (Workspaces.inv_of_reaches hreach).exists_published hcall hlock (hentries _ hne)
  obtain ⟨hwhole, ⟨-, honce⟩, hends⟩ := Workspaces.publishes_whole (hreach.trans hreach')
  obtain ⟨_, i, m, hx, hborn, hlasts⟩ := hwhole n.workspaceId _ hτ
  obtain rfl := Option.some.inj hx
  -- the call that has made it is this one
  obtain ⟨place, hmcall⟩ := hborn.call
  have hzero : 0 ∈ σ.births := (hends 0 n _ hended).1 rfl
  obtain ⟨c, hc, -, hinj⟩ := honce 0 hzero
  obtain rfl := Option.some.inj (hended.symm.trans hc)
  obtain rfl := hinj i hborn.birth _ hmcall hborn.workspaceId.symm
  obtain rfl : n = m := congrArg Call.newborn (Option.some.inj (hc.symm.trans hmcall))
  refine ⟨σ, τ, n, 0, hreach.trans hreach', hτ, hborn, hborn.state hfits, fun σ' h' => ?_⟩
  obtain ⟨τ', hτ', hgrown, -⟩ := hlasts σ' h'
  exact ⟨τ', hτ', hgrown⟩

/-- A workspace can be created in an empty directory. -/
theorem exists_publishes : ∃ (n : Newborn) (σ : Workspaces) (τ : Store), Workspaces.Reaches .fresh σ ∧
    σ.calls 0 = some ⟨n, .ended (.ok ())⟩ ∧ σ.entries n.workspaceId.1 = some (some τ) ∧ τ.directory.journal = n.files := by
  obtain ⟨n, hmade, -⟩ := exists_newborn
  obtain ⟨σ, τ, hreach, hcall, -, hτ, -, hjournal, -⟩ := Workspaces.publishes (i := 0) .refl rfl hmade rfl rfl
    (List.prefix_refl privateMark) List.not_mem_nil rfl
  exact ⟨n, σ, τ, hreach, hcall, hτ, hjournal⟩

end LeanCtx
