import LeanCtx.Agent.Calls

/-! The sessions that the async facade starts, over the interleavings of its `open`, `reconnect`, `close` and `cancel` calls, each
    suspended where it waits for a worker thread. -/

namespace LeanCtx.Agent

open Machine

/-! ### A closed session stays closed -/

namespace Session

/-- The session is closed where one of its `close()` calls has finished. -/
def DoneClosed (s : Session) : Prop := ∀ line, Phase.done line ∈ s.calls → s.closed = true

/-- A step leaves a closed session closed, and a `close()` call finishes only with the session closed. -/
structure Closes (s t : Session) : Prop where
  closed : s.closed = true → t.closed = true
  done : ∀ line, Phase.done line ∈ t.calls → Phase.done line ∈ s.calls ∨ t.closed = true

section
variable {s t : Session} {i : Nat} {p q : Phase}

theorem Closes.refl (s : Session) : Closes s s := ⟨id, fun _ h => .inl h⟩

theorem Closes.of_closed (h : t.closed = true) : Closes s t := ⟨fun _ => h, fun _ _ => .inr h⟩

theorem Closes.of_put (hcalls : t.calls = (s.put i p).calls) (hp : ∀ line, p ≠ .done line) (hclosed : s.closed = true → t.closed = true) :
    Closes s t := by
  refine ⟨hclosed, fun line h => ?_⟩
  rw [hcalls] at h
  obtain h | h := List.mem_or_eq_of_mem_set h
  · exact .inl h
  · exact absurd h.symm (hp line)

/-- A call that ends with an error: `close()` swallows it once it has closed the session. -/
theorem Closes.of_ends {op : Op} {e : AgentError} (hcalls : t.calls = (s.put i (ends op none e)).calls)
    (hclosed : s.closed = true ∨ op = .close → t.closed = true) : Closes s t := by
  cases op with
  | call tool => exact .of_put hcalls nofun fun h => hclosed (.inl h)
  | close => exact .of_closed (hclosed (.inr rfl))

theorem closes_next (s : Session) (e : Event) : Closes s (s.next e) := by
  cases e with
  | start op =>
    refine ⟨id, fun line h => .inl ?_⟩
    obtain h | h := List.mem_append.mp h
    · exact h
    · cases List.mem_singleton.mp h
  | line raw =>
    simp only [next, putLine]
    split_ifs
    · exact ⟨id, fun _ h => .inl h⟩
    · exact .refl s
  | exit => exact ⟨id, fun _ h => .inl h⟩
  | cancel => exact .of_closed rfl
  | take i encodes =>
    obtain h | ⟨op, -, -, ⟨e, c, n, h, hc, -⟩ | ⟨-, -, h⟩⟩ := take_cases s i encodes
    · exact (congrArg (Closes s) h).mpr (.refl s)
    · exact (congrArg (Closes s) h).mpr (.of_ends rfl hc)
    · exact (congrArg (Closes s) h).mpr (.of_put rfl nofun id)
  | breakPipe i =>
    obtain h | ⟨op, id, -, h⟩ := breakPipe_cases s i
    · exact (congrArg (Closes s) h).mpr (.refl s)
    · exact (congrArg (Closes s) h).mpr (.of_closed rfl)
  | expire i ended =>
    obtain h | ⟨op, id, e, -, h⟩ := expire_cases s i ended
    · exact (congrArg (Closes s) h).mpr (.refl s)
    · refine (congrArg (Closes s) h).mpr (.of_ends rfl ?_)
      rintro (hclosed | rfl)
      · simp [hclosed]
      · simp
  | receive i deep =>
    obtain h | ⟨op, id, raw, -, -, h⟩ := receive_cases s i deep
    · exact (congrArg (Closes s) h).mpr (.refl s)
    · refine (congrArg (Closes s) h).mpr ?_
      cases op with
      | close => exact .of_closed (Bool.or_true _)
      | call tool =>
        refine .of_put rfl ?_ fun hclosed => by simp [hclosed]
        obtain ⟨e, hanswer⟩ | ⟨v, -, -, hanswer⟩ := answer_call s.closed tool id s.taken raw deep
        · exact fun line => hanswer ▸ nofun
        · exact fun line => hanswer ▸ nofun
  | validate i =>
    obtain h | ⟨e, v, -, ⟨r, -, h⟩ | ⟨x, h⟩⟩ := validate_cases s i
    · exact (congrArg (Closes s) h).mpr (.refl s)
    · exact (congrArg (Closes s) h).mpr (.of_put rfl nofun id)
    · exact (congrArg (Closes s) h).mpr (.of_closed rfl)
  | read i =>
    obtain h | ⟨e, r, -, h⟩ := readMetrics_cases s i
    · exact (congrArg (Closes s) h).mpr (.refl s)
    · exact (congrArg (Closes s) h).mpr (.of_put rfl nofun id)
  | store i =>
    obtain h | ⟨e, r, m, -, h⟩ := storeMetrics_cases s i
    · exact (congrArg (Closes s) h).mpr (.refl s)
    · exact (congrArg (Closes s) h).mpr (.of_put rfl nofun id)

theorem DoneClosed.next (hs : s.DoneClosed) (e : Event) : (s.next e).DoneClosed := by
  intro line h
  obtain h | h := (closes_next s e).done line h
  · exact (closes_next s e).closed (hs line h)
  · exact h

end
end Session

/-! ### The facade -/

/-- Where a call of the facade stands: `open` waits for a session that its worker makes, `reconnect` first for the close of the old
    session and then for a new one, `close` for the close of its session, and `cancel` for its worker. -/
inductive Task
  | opening (made : Option Nat)
  | reclosing (c k : Nat)
  | remaking (made : Option Nat)
  | closing (c k : Nat)
  | cancelling (c : Nat) (ran : Bool)
  | ended
deriving DecidableEq

namespace Task

/-- An `open` or `reconnect` in progress. -/
def makes : Task → Bool
  | opening _ => true
  | reclosing _ _ => true
  | remaking _ => true
  | _ => false

/-- A `close` in progress. -/
def closes : Task → Bool
  | closing _ _ => true
  | _ => false

/-- The session that a call has started and not yet made the current one. -/
def made? : Task → Option Nat
  | opening made => made
  | remaking made => made
  | _ => none

theorem makes_of_made? {t : Task} {n : Nat} (h : t.made? = some n) : t.makes = true := by
  cases t <;> first | rfl | cases h

end Task

/-- The facade: the position of the current session among those that it has started, its calls, and whether the call that finished
    last was a `close`. -/
structure Facade where
  context : Option Nat
  sessions : List Session
  tasks : List Task
  lastClose : Bool
deriving DecidableEq

namespace Facade

/-- A step of the facade: a call begins, a worker thread does its work for a call, a call resumes, or a session takes a step. -/
inductive Step
  | open
  | reconnect
  | close
  | cancel
  | make (i : Nat) (fails : Bool)
  | run (i : Nat)
  | resume (i : Nat) (raises : Bool)
  | session (n : Nat) (e : Event)

/-- A facade that has not been opened. -/
def new : Facade := ⟨none, [], [], false⟩

/-- A session has been started and not been closed. -/
def Live (f : Facade) (n : Nat) : Prop := ∃ s, f.sessions[n]? = some s ∧ s.closed = false

/-- A call begins. -/
def begin (f : Facade) (t : Task) : Facade := { f with tasks := f.tasks ++ [t] }

/-- A call goes on. -/
def put (f : Facade) (i : Nat) (t : Task) : Facade := { f with tasks := f.tasks.set i t }

/-- A call finishes. -/
def finish (f : Facade) (i : Nat) (close : Bool) : Facade := { f.put i .ended with lastClose := close }

/-- A session takes a step. -/
def stepSession (f : Facade) (n : Nat) (e : Event) : Facade := { f with sessions := f.sessions.modify n (·.next e) }

/-- The number of the calls that a session has seen. -/
def callsOf (f : Facade) (n : Nat) : Nat := ((f.sessions[n]?).map fun s => s.calls.length).getD 0

/-- `session.close()` number `k` has finished. -/
def closeDone (f : Facade) (c k : Nat) : Bool :=
  match (f.sessions[c]?).bind fun s => s.calls[k]? with
  | some (.done _) => true
  | _ => false

/-- The worker of a call starts a session, or the start fails. -/
def make (f : Facade) (i : Nat) (fails : Bool) : Facade :=
  match f.tasks[i]? with
  | some (.opening none) =>
    if fails = true then f.finish i false
    else { f.put i (.opening (some f.sessions.length)) with sessions := f.sessions ++ [Session.opened] }
  | some (.remaking none) =>
    if fails = true then f.finish i false
    else { f.put i (.remaking (some f.sessions.length)) with sessions := f.sessions ++ [Session.opened] }
  | _ => f

/-- A call resumes with what its worker has done; `raises` where the close of the old session raised. -/
def resume (f : Facade) (i : Nat) (raises : Bool) : Facade :=
  match f.tasks[i]? with
  | some (.opening (some n)) => { f.finish i false with context := some n }
  | some (.remaking (some n)) => { f.finish i false with context := some n }
  | some (.reclosing c k) =>
    if f.closeDone c k = true then if raises = true then f.finish i false else f.put i (.remaking none) else f
  | some (.closing c k) => if f.closeDone c k = true then f.finish i true else f
  | some (.cancelling _ true) => f.finish i false
  | _ => f

/-- The worker of a `cancel` call cancels its session. -/
def run (f : Facade) (i : Nat) : Facade :=
  match f.tasks[i]? with
  | some (.cancelling c false) => (f.stepSession c .cancel).put i (.cancelling c true)
  | _ => f

/-- The facade after a step. -/
def next (f : Facade) : Step → Facade
  | .open =>
    match f.context with
    | none => f.begin (.opening none)
    | some _ => { f with lastClose := false }
  | .reconnect =>
    match f.context with
    | none => f.begin (.remaking none)
    | some c => (f.stepSession c (.start .close)).begin (.reclosing c (f.callsOf c))
  | .close =>
    match f.context with
    | none => { f with lastClose := true }
    | some c => (f.stepSession c (.start .close)).begin (.closing c (f.callsOf c))
  | .cancel =>
    match f.context with
    | none => { f with lastClose := false }
    | some c => f.begin (.cancelling c false)
  | .make i fails => f.make i fails
  | .run i => f.run i
  | .resume i raises => f.resume i raises
  | .session n e => f.stepSession n e

/-- A facade starts unopened and takes its steps. -/
def Steps : Option Facade → Step → Facade → Prop
  | none, _, f => f = new
  | some f, e, g => f.next e = g

/-- While no `open` or `reconnect` is in progress only the current session is live, and none is once all calls have finished and a
    `close` was the last one. -/
structure Tidy (f : Facade) : Prop where
  current : (∀ t ∈ f.tasks, t.makes = false) → ∀ n, f.Live n → f.context = some n
  closed : f.lastClose = true → (∀ t ∈ f.tasks, t = .ended) → ∀ n, ¬ f.Live n

/-- An `open` that starts a session begins only while no `open` or `reconnect` is in progress, a `reconnect` only while no `open`,
    `reconnect` or `close` is, and a `close` that closes a session only while no `open` or `reconnect` is. -/
def Apart : Option Facade → Step → Prop
  | some f, .open => f.context = none → ∀ t ∈ f.tasks, t.makes = false
  | some f, .reconnect => ∀ t ∈ f.tasks, t.makes = false ∧ t.closes = false
  | some f, .close => f.context ≠ none → ∀ t ∈ f.tasks, t.makes = false
  | _, _ => True

/-! ### The invariant -/

/-- A call of the facade stands at a position. -/
abbrev At (f : Facade) (i : Nat) (t : Task) : Prop := f.tasks[i]? = some t

/-- What holds while a call stands where it stands: an `open` has found no session, a `close` or the first part of a `reconnect` closes
    the current one, and in the second part of a `reconnect` that one is closed. -/
def Fits (f : Facade) : Task → Prop
  | .opening _ => f.context = none
  | .reclosing c _ => f.context = some c
  | .closing c _ => f.context = some c
  | .remaking _ => ∀ c, f.context = some c → ¬ f.Live c
  | _ => True

/-- At most one call makes a session at a time, and no call closes one meanwhile; what is live is the current session or one that is
    being made. -/
structure Kept (f : Facade) : Prop where
  bound : ∀ c, f.context = some c → c < f.sessions.length
  one : ∀ i j t u, f.At i t → f.At j u → t.makes = true → u.makes = true → i = j
  apart : ∀ i j t u, f.At i t → f.At j u → t.makes = true → u.closes = false
  fits : ∀ i t, f.At i t → f.Fits t
  started : ∀ i t n, f.At i t → t.made? = some n → n < f.sessions.length
  live : ∀ n, f.Live n → f.context = some n ∨ ∃ i t, f.At i t ∧ t.made? = some n
  done : ∀ s ∈ f.sessions, s.DoneClosed
  quiet : f.lastClose = true → (∀ i t, f.At i t → t = .ended) → ∀ n, ¬ f.Live n

theorem Kept.settles {f : Facade} (hf : f.Kept) : f.Tidy where
  current h n hn := by
    obtain hc | ⟨i, t, ht, hmade⟩ := hf.live n hn
    · exact hc
    · have hmakes := h t (List.mem_of_getElem? ht)
      exact absurd (hmakes.symm.trans (Task.makes_of_made? hmade)) Bool.false_ne_true
  closed hlast h n := hf.quiet hlast (fun i t ht => h t (List.mem_of_getElem? ht)) n

section
variable {f g : Facade} {i : Nat} {t : Task}

/-- A step after which the call at one position stands at a given place, and every other call where it stood. -/
structure Moves (f g : Facade) (i : Nat) (t : Task) : Prop where
  at_self : g.At i t
  at_other : ∀ j, j ≠ i → g.tasks[j]? = f.tasks[j]?

theorem Moves.cases (h : Moves f g i t) {j : Nat} {u : Task} (hj : g.At j u) : j = i ∧ u = t ∨ j ≠ i ∧ f.At j u := by
  by_cases hji : j = i
  · subst hji
    exact .inl ⟨rfl, Option.some.inj (hj.symm.trans h.at_self)⟩
  · exact .inr ⟨hji, (h.at_other j hji).symm.trans hj⟩

theorem moves_put {u : Task} (hi : f.At i u) (htasks : g.tasks = f.tasks.set i t) : Moves f g i t := by
  obtain ⟨hlt, -⟩ := List.getElem?_eq_some_iff.mp hi
  constructor
  · rw [At, htasks, List.getElem?_set_self hlt]
  · intro j hj
    rw [htasks, List.getElem?_set_ne (Ne.symm hj)]

theorem moves_begin (htasks : g.tasks = f.tasks ++ [t]) : Moves f g f.tasks.length t := by
  constructor
  · rw [At, htasks, List.getElem?_concat_length]
  · intro j hj
    rw [htasks]
    obtain hlt | hgt := Nat.lt_or_gt_of_ne hj
    · exact List.getElem?_append_left hlt
    · rw [List.getElem?_eq_none (by simp; omega), List.getElem?_eq_none (by omega)]

/-- The other calls make no session and close none, so that what is current may change. -/
def Alone (f : Facade) (i : Nat) : Prop := ∀ j u, j ≠ i → f.At j u → u.makes = false ∧ u.closes = false

theorem Kept.alone (hf : f.Kept) {u : Task} (hi : f.At i u) (hu : u.makes = true) : f.Alone i := by
  intro j v hne hj
  refine ⟨?_, hf.apart i j u v hi hj hu⟩
  cases hv : v.makes with
  | false => rfl
  | true => exact absurd (hf.one j i v u hj hi hv hu) hne

/-- A step of one call that keeps the other calls as they are. -/
theorem Kept.move (hf : f.Kept) (hm : Moves f g i t) (hbound : ∀ c, g.context = some c → c < g.sessions.length)
    (hmakes : t.makes = true → f.Alone i) (hcloses : t.closes = true → ∀ j u, j ≠ i → f.At j u → u.makes = false)
    (hcontext : g.context = f.context ∨ f.Alone i) (hfits : g.Fits t) (hlength : f.sessions.length ≤ g.sessions.length)
    (hstarted : ∀ n, t.made? = some n → n < g.sessions.length) (hshrinks : ∀ n, g.Live n → f.Live n ∨ t.made? = some n)
    (hlive : ∀ n, g.Live n → g.context = some n ∨ ∃ j u, g.At j u ∧ u.made? = some n)
    (hdone : ∀ s ∈ g.sessions, s.DoneClosed)
    (hquiet : g.lastClose = true → (∀ j u, g.At j u → u = .ended) → ∀ n, ¬ g.Live n) : g.Kept where
  bound := hbound
  one j k u v hj hk hu hv := by
    obtain ⟨rfl, rfl⟩ | ⟨hji, hj⟩ := hm.cases hj
    · obtain ⟨rfl, rfl⟩ | ⟨hki, hk⟩ := hm.cases hk
      · rfl
      · exact absurd ((hmakes hu k v hki hk).1.symm.trans hv) Bool.false_ne_true
    · obtain ⟨rfl, rfl⟩ | ⟨hki, hk⟩ := hm.cases hk
      · exact absurd ((hmakes hv j u hji hj).1.symm.trans hu) Bool.false_ne_true
      · exact hf.one j k u v hj hk hu hv
  apart j k u v hj hk hu := by
    obtain ⟨rfl, rfl⟩ | ⟨hji, hj⟩ := hm.cases hj
    · obtain ⟨rfl, rfl⟩ | ⟨hki, hk⟩ := hm.cases hk
      · cases v <;> first | rfl | cases hu
      · exact (hmakes hu k v hki hk).2
    · obtain ⟨rfl, rfl⟩ | ⟨hki, hk⟩ := hm.cases hk
      · cases hv : v.closes with
        | false => rfl
        | true => exact absurd ((hcloses hv j u hji hj).symm.trans hu) Bool.false_ne_true
      · exact hf.apart j k u v hj hk hu
  fits j u hj := by
    obtain ⟨rfl, rfl⟩ | ⟨hji, hj⟩ := hm.cases hj
    · exact hfits
    · have hold := hf.fits j u hj
      obtain hsame | halone := hcontext
      · cases u with
        | opening m => exact hsame.trans hold
        | reclosing c k => exact hsame.trans hold
        | closing c k => exact hsame.trans hold
        | remaking m =>
          intro c hc hlive
          obtain hlive | hmade := hshrinks c hlive
          · exact hold c (hsame.symm.trans hc) hlive
          · exact Bool.noConfusion ((hmakes (Task.makes_of_made? hmade) j _ hji hj).1)
        | cancelling c ran => trivial
        | ended => trivial
      · have hquiet := halone j u hji hj
        cases u <;> first | trivial | exact Bool.noConfusion hquiet.1 | exact Bool.noConfusion hquiet.2
  started j u n hj hmade := by
    obtain ⟨rfl, rfl⟩ | ⟨-, hj⟩ := hm.cases hj
    · exact hstarted n hmade
    · exact lt_of_lt_of_le (hf.started j u n hj hmade) hlength
  live := hlive
  done := hdone
  quiet := hquiet

/-! ### The steps -/

theorem live_stepSession {n : Nat} {e : Event} {m : Nat} (h : (f.stepSession n e).Live m) : f.Live m := by
  obtain ⟨s, hs, hopen⟩ := h
  rw [stepSession, List.getElem?_modify] at hs
  cases hm : f.sessions[m]? with
  | none =>
    rw [hm] at hs
    cases hs
  | some s' =>
    refine ⟨s', hm, eq_false_of_ne_true fun hclosed => ?_⟩
    rw [hm] at hs
    obtain rfl := Option.some.inj hs
    split_ifs at hopen
    · exact Bool.noConfusion (hopen.symm.trans ((Session.closes_next s' e).closed hclosed))
    · exact Bool.noConfusion (hopen.symm.trans hclosed)

/-- A session takes a step: what is live may only become less. -/
theorem Kept.stepSession (hf : f.Kept) (n : Nat) (e : Event) : (f.stepSession n e).Kept where
  bound c hc := (hf.bound c hc).trans_eq (List.length_modify ..).symm
  one := hf.one
  apart := hf.apart
  fits j u hj := by
    have hold := hf.fits j u hj
    cases u with
    | remaking m => exact fun c hc hlive => hold c hc (live_stepSession hlive)
    | opening m => exact hold
    | reclosing c k => exact hold
    | closing c k => exact hold
    | cancelling c ran => trivial
    | ended => trivial
  started j u m hj hmade := (hf.started j u m hj hmade).trans_eq (List.length_modify ..).symm
  live m hm := hf.live m (live_stepSession hm)
  done s hs := by
    obtain ⟨m, hm⟩ := List.mem_iff_getElem?.mp hs
    rw [Facade.stepSession, List.getElem?_modify] at hm
    cases hold : f.sessions[m]? with
    | none =>
      rw [hold] at hm
      cases hm
    | some s' =>
      have hdone := hf.done s' (List.mem_of_getElem? hold)
      rw [hold] at hm
      obtain rfl := Option.some.inj hm
      split_ifs
      · exact hdone.next e
      · exact hdone
  quiet hlast hended m hm := hf.quiet hlast hended m (live_stepSession hm)

/-- A call that finishes at once, without a change of what is live or current. -/
theorem Kept.setLast (hf : f.Kept) {close : Bool} (h : close = true → f.context = none) : ({ f with lastClose := close } : Facade).Kept where
  bound := hf.bound
  one := hf.one
  apart := hf.apart
  fits := hf.fits
  started := hf.started
  live := hf.live
  done := hf.done
  quiet hlast hended n hn := by
    obtain hc | ⟨j, u, hj, hmade⟩ := hf.live n hn
    · rw [h hlast] at hc
      cases hc
    · obtain rfl := hended j u hj
      cases hmade

/-- A call begins. -/
theorem Kept.begin (hf : f.Kept) (hmakes : t.makes = true → f.Alone f.tasks.length)
    (hcloses : t.closes = true → ∀ u ∈ f.tasks, u.makes = false) (hfits : f.Fits t) (hmade : t.made? = none) (hended : t ≠ .ended) :
    (f.begin t).Kept := by
  have hm : Moves f (f.begin t) f.tasks.length t := moves_begin rfl
  refine hf.move hm hf.bound hmakes (fun h j u _ hj => hcloses h u (List.mem_of_getElem? hj)) (.inl rfl) hfits (le_refl _)
    (fun n h => by rw [hmade] at h; cases h) (fun n hn => .inl hn) ?_ hf.done ?_
  · intro n hn
    obtain hc | ⟨j, u, hj, hmade⟩ := hf.live n hn
    · exact .inl hc
    · have hlt := (List.getElem?_eq_some_iff.mp hj).1
      exact .inr ⟨j, u, (hm.at_other j (Nat.ne_of_lt hlt)).trans hj, hmade⟩
  · exact fun _ h => absurd (h _ _ hm.at_self) hended

/-- A call goes on that made no session so far. -/
theorem Kept.put (hf : f.Kept) {u : Task} (hi : f.At i u) (hu : u.made? = none) (hmakes : t.makes = true → u.makes = true)
    (hcloses : t.closes = true → u.closes = true) (hfits : f.Fits t) (ht : t.made? = none) (hended : t ≠ .ended) : (f.put i t).Kept := by
  have hm : Moves f (f.put i t) i t := moves_put hi rfl
  refine hf.move hm hf.bound (fun h => hf.alone hi (hmakes h)) ?_ (.inl rfl) hfits (le_refl _)
    (fun n h => by rw [ht] at h; cases h) (fun n hn => .inl hn) ?_ hf.done ?_
  · intro h j v _ hj
    cases hv : v.makes with
    | false => rfl
    | true => exact Bool.noConfusion ((hf.apart j i v u hj hi hv).symm.trans (hcloses h))
  · intro n hn
    obtain hc | ⟨j, v, hj, hmade⟩ := hf.live n hn
    · exact .inl hc
    · refine .inr ⟨j, v, ?_, hmade⟩
      have hne : j ≠ i := by
        rintro rfl
        obtain rfl := Option.some.inj (hj.symm.trans hi)
        rw [hu] at hmade
        cases hmade
      exact (hm.at_other j hne).trans hj
  · exact fun _ h => absurd (h _ _ hm.at_self) hended

/-- A call finishes that made no session, and where it is a `close`, with the current session closed. -/
theorem Kept.finish (hf : f.Kept) {u : Task} (hi : f.At i u) (hu : u.made? = none) {close : Bool}
    (hclose : close = true → u.closes = true ∧ ∀ c, f.context = some c → ¬ f.Live c) : (f.finish i close).Kept := by
  have hm : Moves f (f.finish i close) i .ended := moves_put hi rfl
  have hlive : ∀ n, f.Live n → f.context = some n ∨ ∃ j v, (f.finish i close).At j v ∧ v.made? = some n := by
    intro n hn
    obtain hc | ⟨j, v, hj, hmade⟩ := hf.live n hn
    · exact .inl hc
    · refine .inr ⟨j, v, ?_, hmade⟩
      have hne : j ≠ i := by
        rintro rfl
        obtain rfl := Option.some.inj (hj.symm.trans hi)
        rw [hu] at hmade
        cases hmade
      exact (hm.at_other j hne).trans hj
  refine hf.move hm hf.bound (fun h => by cases h) (fun h => by cases h) (.inl rfl) trivial (le_refl _) (fun n h => by cases h)
    (fun n hn => .inl hn) hlive hf.done ?_
  intro hlast hended n hn
  obtain hc | ⟨j, v, hj, hmade⟩ := hlive n hn
  · exact (hclose hlast).2 n hc hn
  · obtain rfl := hended j v hj
    cases hmade

/-- A call that has made a session makes it the current one. -/
theorem Kept.adopt (hf : f.Kept) {u : Task} {n : Nat} (hi : f.At i u) (hu : u.made? = some n)
    (hold : ∀ c, f.context = some c → ¬ f.Live c) : ({ f.finish i false with context := some n } : Facade).Kept := by
  have hm : Moves f { f.finish i false with context := some n } i .ended := moves_put hi rfl
  have hmakes := Task.makes_of_made? hu
  refine hf.move hm ?_ (fun h => by cases h) (fun h => by cases h) (.inr (hf.alone hi hmakes)) trivial (le_refl _)
    (fun n h => by cases h) (fun m h => .inl h) ?_ hf.done (fun h => by cases h)
  · intro c hc
    obtain rfl := Option.some.inj hc
    exact hf.started i u _ hi hu
  · intro m h
    refine .inl ?_
    obtain hc | ⟨j, v, hj, hmade⟩ := hf.live m h
    · exact absurd h (hold m hc)
    · obtain rfl := hf.one j i v u hj hi (Task.makes_of_made? hmade) hmakes
      obtain rfl := Option.some.inj (hj.symm.trans hi)
      exact hu.symm.trans hmade

theorem live_append {m : Nat} (h : ∃ s, (f.sessions ++ [Session.opened])[m]? = some s ∧ s.closed = false) :
    f.Live m ∨ m = f.sessions.length := by
  obtain ⟨s, hs, hopen⟩ := h
  rw [List.getElem?_append] at hs
  split_ifs at hs with hlt
  · exact .inl ⟨s, hs, hopen⟩
  · obtain ⟨hlen, -⟩ := List.getElem?_eq_some_iff.mp hs
    simp only [List.length_singleton] at hlen
    exact .inr (by omega)

/-- The worker of a call starts a session. -/
theorem Kept.start (hf : f.Kept) {u : Task} (hi : f.At i u) (hu : u.makes = true) (hmade : u.made? = none)
    (ht : t.made? = some f.sessions.length) (hcloses : t.closes = false)
    (hfits : ({ f.put i t with sessions := f.sessions ++ [Session.opened] } : Facade).Fits t) :
    ({ f.put i t with sessions := f.sessions ++ [Session.opened] } : Facade).Kept := by
  have hm : Moves f { f.put i t with sessions := f.sessions ++ [Session.opened] } i t := moves_put hi rfl
  have hlength : (f.sessions ++ [Session.opened]).length = f.sessions.length + 1 := List.length_append
  refine hf.move hm ?_ (fun _ => hf.alone hi hu) (fun h => ?_) (.inl rfl) hfits (by rw [hlength]; omega) ?_ ?_ ?_ ?_ ?_
  · intro c hc
    rw [hlength]
    exact (hf.bound c hc).trans (Nat.lt_succ_self _)
  · exact Bool.noConfusion (hcloses.symm.trans h)
  · intro n hn
    rw [hlength]
    obtain rfl := Option.some.inj (ht.symm.trans hn)
    exact Nat.lt_succ_self _
  · intro n hn
    obtain hlive | rfl := live_append hn
    · exact .inl hlive
    · exact .inr ht
  · intro n hn
    obtain hlive | rfl := live_append hn
    · obtain hc | ⟨j, v, hj, hvmade⟩ := hf.live n hlive
      · exact .inl hc
      · obtain rfl := hf.one j i v u hj hi (Task.makes_of_made? hvmade) hu
        obtain rfl := Option.some.inj (hj.symm.trans hi)
        rw [hmade] at hvmade
        cases hvmade
    · exact .inr ⟨i, t, hm.at_self, ht⟩
  · intro s hs
    obtain hs | hs := List.mem_append.mp hs
    · exact hf.done s hs
    · obtain rfl := List.mem_singleton.mp hs
      exact fun line h => by cases h
  · intro _ h
    have hended := h _ _ hm.at_self
    rw [hended] at ht
    cases ht

/-- What a finished close has closed is not live. -/
theorem Kept.not_live (hf : f.Kept) {c k : Nat} (h : f.closeDone c k = true) : ¬ f.Live c := by
  rintro ⟨s, hs, hopen⟩
  rw [closeDone, hs, Option.bind_some] at h
  split at h
  · next line hline =>
    have hclosed := hf.done s (List.mem_of_getElem? hs) line (List.mem_of_getElem? hline)
    exact Bool.noConfusion (hopen.symm.trans hclosed)
  · cases h

theorem Kept.make (hf : f.Kept) (i : Nat) (fails : Bool) : (f.make i fails).Kept := by
  unfold Facade.make
  split
  · next hi =>
    split_ifs
    · exact hf.finish hi rfl fun h => by cases h
    · exact hf.start hi rfl rfl rfl rfl (hf.fits i _ hi)
  · next hi =>
    split_ifs
    · exact hf.finish hi rfl fun h => by cases h
    · refine hf.start hi rfl rfl rfl rfl fun c hc hlive => ?_
      obtain hlive | rfl := live_append hlive
      · exact hf.fits i _ hi c hc hlive
      · exact absurd (hf.bound _ hc) (lt_irrefl _)
  · exact hf

theorem Kept.run (hf : f.Kept) (i : Nat) : (f.run i).Kept := by
  unfold Facade.run
  split
  · next c hi => exact (hf.stepSession c .cancel).put hi rfl (fun h => by cases h) (fun h => by cases h) trivial rfl nofun
  · exact hf

theorem Kept.resume (hf : f.Kept) (i : Nat) (raises : Bool) : (f.resume i raises).Kept := by
  unfold Facade.resume
  split
  · next n hi => exact hf.adopt hi rfl fun c hc => by cases (hf.fits i _ hi).symm.trans hc
  · next n hi => exact hf.adopt hi rfl (hf.fits i _ hi)
  · next c k hi =>
    split_ifs with hdone
    · exact hf.finish hi rfl fun h => by cases h
    · refine hf.put hi rfl (fun _ => rfl) (fun h => by cases h) (fun c' hc' => ?_) rfl nofun
      obtain rfl := Option.some.inj ((hf.fits i _ hi).symm.trans hc')
      exact hf.not_live hdone
    · exact hf
  · next c k hi =>
    split_ifs with hdone
    · refine hf.finish hi rfl fun _ => ⟨rfl, fun c' hc' => ?_⟩
      obtain rfl := Option.some.inj ((hf.fits i _ hi).symm.trans hc')
      exact hf.not_live hdone
    · exact hf
  · next c hi => exact hf.finish hi rfl fun h => by cases h
  · exact hf

theorem Kept.next (hf : f.Kept) {e : Step} (hcond : Apart (some f) e) : (f.next e).Kept := by
  cases e with
  | «open» =>
    simp only [Facade.next]
    split
    · next hcontext =>
      refine hf.begin (fun _ j u _ hj => ⟨hcond hcontext u (List.mem_of_getElem? hj), ?_⟩) (fun h => by cases h) hcontext rfl nofun
      have hfits := hf.fits j u hj
      cases u <;> first | rfl | cases hcontext.symm.trans hfits
    · exact hf.setLast nofun
  | reconnect =>
    have halone : f.Alone f.tasks.length := fun j u _ hj => hcond u (List.mem_of_getElem? hj)
    simp only [Facade.next]
    split
    · next hcontext =>
      refine hf.begin (fun _ => halone) (fun h => by cases h) (fun c hc => ?_) rfl nofun
      cases hcontext.symm.trans hc
    · next c hcontext => exact (hf.stepSession c (.start .close)).begin (fun _ => halone) (fun h => by cases h) hcontext rfl nofun
  | close =>
    simp only [Facade.next]
    split
    · next hcontext => exact hf.setLast fun _ => hcontext
    · next c hcontext =>
      refine (hf.stepSession c (.start .close)).begin (fun h => by cases h) (fun _ => hcond ?_) hcontext rfl nofun
      rw [hcontext]
      nofun
  | cancel =>
    simp only [Facade.next]
    split
    · exact hf.setLast nofun
    · exact hf.begin (fun h => by cases h) (fun h => by cases h) trivial rfl nofun
  | make i fails => exact hf.make i fails
  | run i => exact hf.run i
  | resume i raises => exact hf.resume i raises
  | session n e => exact hf.stepSession n e

theorem kept_new : new.Kept where
  bound c hc := by cases hc
  one i j t u hi := by cases hi
  apart i j t u hi := by cases hi
  fits i t hi := by cases hi
  started i t n hi := by cases hi
  live n hn := by
    obtain ⟨s, hs, -⟩ := hn
    cases hs
  done s hs := by cases hs
  quiet hlast := by cases hlast

/-- Where the calls that make sessions stay apart, only the current session is live outside them, and none after a last close. -/
theorem tidy (h : Reaches Steps Apart f) : f.Tidy := by
  refine Kept.settles (h.invariant ?_ ?_)
  · rintro e g - rfl
    exact kept_new
  · rintro g e g' hg hcond rfl
    exact hg.next hcond

theorem reaches_after {cond : Option Facade → Step → Prop} {f : Facade} (hf : Reaches Steps cond f) {l : List Step}
    (hl : Allowed next cond f l) : Reaches Steps cond (after next f l) :=
  hf.after (fun _ _ => rfl) hl

end

/-! ### A session that is opened and replaced, and two that are opened at once -/

/-- An `open`, and a `reconnect` whose close of the old session is answered by the end of the stream. -/
def replaced : List Step :=
  [.open, .make 0 false, .resume 0 false, .reconnect, .session 0 (.take 0 true), .session 0 (.line []), .session 0 (.receive 0 false),
    .resume 1 false, .make 1 false, .resume 1 false]

theorem exists_tidy : ∃ f, Reaches Steps Apart f ∧ f.context = some 1 ∧ f.Live 1 ∧ f.Tidy := by
  have hreach : Reaches Steps Apart (after next new replaced) := by
    refine reaches_after (.start (i := .close) trivial rfl) ⟨?_, trivial, trivial, ?_, trivial, trivial, trivial, trivial, trivial, trivial,
      trivial⟩
    · exact fun _ t ht => by cases ht
    · intro t ht
      obtain rfl : t = .ended := List.mem_singleton.mp ht
      exact ⟨rfl, rfl⟩
  refine ⟨_, hreach, by decide +kernel, ?_, tidy hreach⟩
  exact ⟨Session.opened, by decide +kernel, rfl⟩

/-- Two `open` calls that both find no session. -/
def opens : List Step := [.open, .open, .make 0 false, .make 1 false, .resume 0 false, .resume 1 false]

/-- The first of the two sessions stays live, with no call left and the other one current. -/
theorem not_tidy : ∃ f, Reaches Steps (fun _ _ => True) f ∧ (∀ t ∈ f.tasks, t = .ended) ∧ f.context = some 1 ∧ f.Live 0 ∧ ¬ f.Tidy := by
  have hreach : Reaches Steps (fun _ _ => True) (after next new opens) :=
    reaches_after (.start (i := .close) trivial rfl) (allowed_true _ _ _)
  have hended : ∀ t ∈ (after next new opens).tasks, t = .ended := by decide +kernel
  have hlive : (after next new opens).Live 0 := ⟨Session.opened, by decide +kernel, rfl⟩
  refine ⟨_, hreach, hended, by decide +kernel, hlive, fun h => ?_⟩
  have hcurrent := h.current (fun t ht => by rw [hended t ht]; rfl) 0 hlive
  revert hcurrent
  decide +kernel

end Facade
end LeanCtx.Agent
