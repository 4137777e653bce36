import LeanCtx.Agent.Calls

/-! Which line the result of a call comes from, over the interleavings of the calls of a session. -/

namespace LeanCtx.Agent

open Machine

/-- The result of a call is that of the response line that it has taken, which carries the identifier of its request. -/
def Answers (stream : List Bytes) (e : Exchange) (r : ToolResult) : Prop :=
  ∃ raw response, stream[e.line]? = some raw ∧ Json.strictLoads? raw = some response ∧
    response.get "id" = .str (Session.requestId e.id) ∧ parseToolResult e.tool (response.get "result") = .ok r

/-- What a call holds comes from the line that it has taken. -/
def Phase.From (stream : List Bytes) : Phase → Prop
  | .received e v => ∃ raw response, stream[e.line]? = some raw ∧ Json.strictLoads? raw = some response ∧
      response.get "id" = .str (Session.requestId e.id) ∧ response.get "result" = v
  | .parsed e r => Answers stream e r
  | .reading e r _ => Answers stream e r
  | .returned e r => Answers stream e r
  | _ => True

namespace Session

/-- The position of the line that a call has taken. -/
def lineOf (s : Session) (i : Nat) : Option Nat := (s.calls[i]?).bind Phase.line?

/-- The identifier of a call's request. -/
def idOf (s : Session) (i : Nat) : Option Nat := (s.calls[i]?).bind Phase.id?

/-- Every result comes from the line with the identifier of its own request, no line is taken by two calls, and once the contract is
    broken no result comes from a later line. -/
structure Correlated (s : Session) : Prop where
  own : ∀ (i : Nat) e r, s.calls[i]? = some (.returned e r) → Answers s.stream e r
  ids : ∀ i j id, s.idOf i = some id → s.idOf j = some id → i = j
  once : ∀ i j line, s.lineOf i = some line → s.lineOf j = some line → i = j
  terminal : ∀ (i : Nat) e r n, s.calls[i]? = some (.returned e r) → s.broken = some n → e.line < n

/-- A result that a call has not validated yet, and that is not valid. -/
def Pending (s : Session) : Prop :=
  ∃ (i : Nat) (e : Exchange) (v : Json), s.calls[i]? = some (.received e v) ∧ ∀ r, parseToolResult e.tool v ≠ .ok r

/-- The session is closed, or its instance has exited, so that no further request is written. -/
def Over (s : Session) : Prop := s.closed = true ∨ s.exited = true

/-- No call takes the lock while another one has yet to find its result invalid, a deadline that passes ends the instance before the
    lock is free, and no line that breaks the contract is nested too deep to be decoded. -/
def Orderly : Option Session → Event → Prop
  | some s, .take _ _ => s.Over ∨ ¬ s.Pending
  | some s, .expire i ended => s.Over ∨ ended = true ∨ ∃ id, s.calls[i]? = some (.sent .close id)
  | some s, .receive i deep => s.Over ∨ deep = false ∨
      ∀ op id raw, s.calls[i]? = some (.sent op id) → s.stream[s.taken]? = some raw → badLine op id raw = false
  | _, _ => True

/-! ### The lines that calls have taken -/

/-- Only the holder of the lock waits for a line, every line that is taken counts, and so does every identifier. -/
structure Traced (s : Session) : Prop where
  sent : ∀ (i : Nat) op id, s.calls[i]? = some (.sent op id) → s.holder = some i
  taken : ∀ i line, s.lineOf i = some line → line < s.taken
  used : ∀ i id, s.idOf i = some id → id ≤ s.nextId
  ids : ∀ i j id, s.idOf i = some id → s.idOf j = some id → i = j
  once : ∀ i j line, s.lineOf i = some line → s.lineOf j = some line → i = j
  source : ∀ (i : Nat) p, s.calls[i]? = some p → p.From s.stream

section
variable {s t : Session} {i : Nat} {p q : Phase}

theorem Answers.append {stream : List Bytes} {e : Exchange} {r : ToolResult} (h : Answers stream e r) (l : List Bytes) :
    Answers (stream ++ l) e r := by
  obtain ⟨raw, response, hraw, hrest⟩ := h
  exact ⟨raw, response, List.getElem?_append_left (List.getElem?_eq_some_iff.mp hraw).1 ▸ hraw, hrest⟩

theorem From.append {stream : List Bytes} (h : p.From stream) (l : List Bytes) : p.From (stream ++ l) := by
  cases p with
  | received e v =>
    obtain ⟨raw, response, hraw, hrest⟩ := h
    exact ⟨raw, response, List.getElem?_append_left (List.getElem?_eq_some_iff.mp hraw).1 ▸ hraw, hrest⟩
  | parsed e r => exact Answers.append h l
  | reading e r m => exact Answers.append h l
  | returned e r => exact Answers.append h l
  | waiting _ => trivial
  | sent _ _ => trivial
  | failed _ _ => trivial
  | done _ => trivial

/-- A step after which every call stands where it stood, but for calls that start. -/
theorem Traced.keep (hs : s.Traced) (hcalls : ∀ (j : Nat) p, t.calls[j]? = some p → s.calls[j]? = some p ∨ ∃ op, p = .waiting op)
    (hholder : t.holder = s.holder) (htaken : t.taken = s.taken) (hnext : t.nextId = s.nextId)
    (hstream : ∃ l, t.stream = s.stream ++ l) : t.Traced := by
  have hline : ∀ j line, t.lineOf j = some line → s.lineOf j = some line := by
    intro j line h
    obtain ⟨p, hp, hline⟩ := Option.bind_eq_some_iff.mp h
    obtain hj | ⟨op, rfl⟩ := hcalls j p hp
    · exact Option.bind_eq_some_iff.mpr ⟨p, hj, hline⟩
    · cases hline
  have hid : ∀ j id, t.idOf j = some id → s.idOf j = some id := by
    intro j id h
    obtain ⟨p, hp, hid⟩ := Option.bind_eq_some_iff.mp h
    obtain hj | ⟨op, rfl⟩ := hcalls j p hp
    · exact Option.bind_eq_some_iff.mpr ⟨p, hj, hid⟩
    · cases hid
  constructor
  · intro j op id h
    obtain hj | ⟨op', h'⟩ := hcalls j _ h
    · rw [hholder, hs.sent j op id hj]
    · cases h'
  · intro j line h
    rw [htaken]
    exact hs.taken j line (hline j line h)
  · intro j id h
    rw [hnext]
    exact hs.used j id (hid j id h)
  · exact fun j k id hj hk => hs.ids j k id (hid j id hj) (hid k id hk)
  · exact fun j k line hj hk => hs.once j k line (hline j line hj) (hline k line hk)
  · intro j p h
    obtain ⟨l, hl⟩ := hstream
    obtain hj | ⟨op, rfl⟩ := hcalls j p h
    · exact hl ▸ From.append (hs.source j p hj) l
    · trivial

/-- A step of one call, which takes a new line or none, and a new identifier or none. -/
theorem Traced.move (hs : s.Traced) (hi : s.calls[i]? = some q) (hcalls : t.calls = (s.put i p).calls) (hstream : t.stream = s.stream)
    (hsent : ∀ op id, p = .sent op id → t.holder = some i)
    (hothers : ∀ (j : Nat) op id, j ≠ i → s.calls[j]? = some (.sent op id) → t.holder = some j)
    (hline : ∀ line, p.line? = some line → q.line? = some line ∨ line = s.taken ∧ t.taken = s.taken + 1)
    (htaken : s.taken ≤ t.taken)
    (hid : ∀ id, p.id? = some id → q.id? = some id ∨ id = s.nextId + 1 ∧ t.nextId = s.nextId + 1)
    (hnext : s.nextId ≤ t.nextId) (hfrom : p.From s.stream) : t.Traced := by
  have hget : ∀ j p', t.calls[j]? = some p' → (j = i ∧ p' = p) ∨ (j ≠ i ∧ s.calls[j]? = some p') := by
    intro j p' h
    rw [hcalls, getElem?_put hi] at h
    split_ifs at h with hij
    · exact .inl ⟨hij.symm, (Option.some.inj h).symm⟩
    · exact .inr ⟨fun e => hij e.symm, h⟩
  -- a line of the new session is one of the old session at the same call, or the next one at this call
  have hlineOf : ∀ j line, t.lineOf j = some line → s.lineOf j = some line ∨ j = i ∧ line = s.taken ∧ t.taken = s.taken + 1 := by
    intro j line h
    obtain ⟨p', hp, hl⟩ := Option.bind_eq_some_iff.mp h
    obtain ⟨rfl, rfl⟩ | ⟨-, hj⟩ := hget j p' hp
    · obtain hq | hnew := hline line hl
      · exact .inl (Option.bind_eq_some_iff.mpr ⟨q, hi, hq⟩)
      · exact .inr ⟨rfl, hnew⟩
    · exact .inl (Option.bind_eq_some_iff.mpr ⟨p', hj, hl⟩)
  have hidOf : ∀ j id, t.idOf j = some id → s.idOf j = some id ∨ j = i ∧ id = s.nextId + 1 ∧ t.nextId = s.nextId + 1 := by
    intro j id h
    obtain ⟨p', hp, hd⟩ := Option.bind_eq_some_iff.mp h
    obtain ⟨rfl, rfl⟩ | ⟨-, hj⟩ := hget j p' hp
    · obtain hq | hnew := hid id hd
      · exact .inl (Option.bind_eq_some_iff.mpr ⟨q, hi, hq⟩)
      · exact .inr ⟨rfl, hnew⟩
    · exact .inl (Option.bind_eq_some_iff.mpr ⟨p', hj, hd⟩)
  constructor
  · intro j op id h
    obtain ⟨rfl, h'⟩ | ⟨hne, hj⟩ := hget j _ h
    · exact hsent op id h'.symm
    · exact hothers j op id hne hj
  · intro j line h
    obtain hold | ⟨-, rfl, hnew⟩ := hlineOf j line h
    · exact lt_of_lt_of_le (hs.taken j line hold) htaken
    · omega
  · intro j id h
    obtain hold | ⟨-, rfl, hnew⟩ := hidOf j id h
    · exact (hs.used j id hold).trans hnext
    · omega
  · intro j k id hj hk
    obtain hj | ⟨rfl, rfl, -⟩ := hidOf j id hj
    · obtain hk | ⟨-, rfl, -⟩ := hidOf k id hk
      · exact hs.ids j k id hj hk
      · have := hs.used j _ hj
        omega
    · obtain hk | ⟨rfl, -, -⟩ := hidOf k _ hk
      · have := hs.used k _ hk
        omega
      · rfl
  · intro j k line hj hk
    obtain hj | ⟨rfl, rfl, -⟩ := hlineOf j line hj
    · obtain hk | ⟨-, rfl, -⟩ := hlineOf k line hk
      · exact hs.once j k line hj hk
      · have := hs.taken j _ hj
        omega
    · obtain hk | ⟨rfl, -, -⟩ := hlineOf k _ hk
      · have := hs.taken k _ hk
        omega
      · rfl
  · intro j p' h
    rw [hstream]
    obtain ⟨rfl, rfl⟩ | ⟨-, hj⟩ := hget j p' h
    · exact hfrom
    · exact hs.source j p' hj

theorem line?_ends (op : Op) (line : Option Nat) (e : AgentError) : (ends op line e).line? = line := by cases op <;> rfl

theorem id?_ends (op : Op) (line : Option Nat) (e : AgentError) : (ends op line e).id? = none := by cases op <;> rfl

theorem ends_ne_sent (op op' : Op) (line : Option Nat) (e : AgentError) (id : Nat) : ends op line e ≠ .sent op' id := by
  cases op <;> nofun

theorem ends_from (op : Op) (line : Option Nat) (e : AgentError) (stream : List Bytes) : (ends op line e).From stream := by
  cases op <;> trivial

/-- A call that waits for a line in a session in which another call stands elsewhere did so before. -/
theorem sent_of_put (hi : s.calls[i]? = some q) (hp : ∀ op id, p ≠ .sent op id) {j : Nat} {op : Op} {id : Nat}
    (h : (s.put i p).calls[j]? = some (.sent op id)) : j ≠ i ∧ s.calls[j]? = some (.sent op id) := by
  rw [getElem?_put hi] at h
  split_ifs at h with hij
  · exact absurd (Option.some.inj h) (hp op id)
  · exact ⟨fun e => hij e.symm, h⟩

/-- A call that ends without a line. -/
theorem Traced.ends (hs : s.Traced) (hi : s.calls[i]? = some q) {op : Op} {e : AgentError} (hcalls : t.calls = (s.put i (ends op none e)).calls)
    (hstream : t.stream = s.stream) (hothers : ∀ (j : Nat) op id, j ≠ i → s.calls[j]? = some (.sent op id) → t.holder = some j)
    (htaken : t.taken = s.taken) (hnext : s.nextId ≤ t.nextId) : t.Traced := by
  refine hs.move hi hcalls hstream ?_ hothers ?_ htaken.ge ?_ hnext (ends_from _ _ _ _)
  · exact fun op' id h => absurd h (ends_ne_sent _ _ _ _ _)
  · intro line h
    rw [line?_ends] at h
    cases h
  · intro id h
    rw [id?_ends] at h
    cases h

/-- A call without the lock that goes on with what it has taken. -/
theorem Traced.advance (hs : s.Traced) (hi : s.calls[i]? = some q) (hcalls : t.calls = (s.put i p).calls) (hstream : t.stream = s.stream)
    (hsent : ∀ op id, p ≠ .sent op id) (hholder : t.holder = s.holder) (hline : ∀ line, p.line? = some line → q.line? = some line)
    (htaken : t.taken = s.taken) (hid : ∀ id, p.id? = some id → q.id? = some id) (hnext : t.nextId = s.nextId)
    (hfrom : p.From s.stream) : t.Traced :=
  hs.move hi hcalls hstream (fun op id h => absurd h (hsent op id)) (fun j op id _ hj => hholder ▸ hs.sent j op id hj)
    (fun line h => .inl (hline line h)) htaken.ge (fun id h => .inl (hid id h)) hnext.ge hfrom

/-- Where one call waits for a line, no other one does. -/
theorem Traced.only_sent (hs : s.Traced) {op : Op} {id : Nat} (hi : s.calls[i]? = some (.sent op id)) {j : Nat} {op' : Op} {id' : Nat}
    (hj : s.calls[j]? = some (.sent op' id')) : j = i :=
  Option.some.inj ((hs.sent j op' id' hj).symm.trans (hs.sent i op id hi))

theorem Traced.take (hs : s.Traced) (i : Nat) (encodes : Bool) : (s.take i encodes).Traced := by
  obtain h | ⟨op, hi, hholder, hstep⟩ := take_cases s i encodes
  · rwa [h]
  · -- the lock is free, so no call waits for a line
    have hnone : ∀ (j : Nat) op id, s.calls[j]? ≠ some (.sent op id) := by
      intro j op' id hj
      have hsent := hs.sent j op' id hj
      rw [hholder] at hsent
      cases hsent
    obtain ⟨e, c, n, h, -, hn⟩ | ⟨-, -, h⟩ := hstep
    · rw [h]
      exact hs.ends hi rfl rfl (fun j op id _ hj => absurd hj (hnone j op id)) rfl hn
    · rw [h]
      refine hs.move hi rfl rfl (fun _ _ _ => rfl) (fun j op id _ hj => absurd hj (hnone j op id)) ?_ (le_refl _) ?_ (Nat.le_succ _) trivial
      · exact fun line h => by cases h
      · exact fun id h => .inr ⟨(Option.some.inj h).symm, rfl⟩

theorem Traced.breakPipe (hs : s.Traced) (i : Nat) : (s.breakPipe i).Traced := by
  obtain h | ⟨op, id, hi, h⟩ := breakPipe_cases s i
  · rwa [h]
  · rw [h]
    exact hs.ends hi rfl rfl (fun j _ _ hne hj => absurd (hs.only_sent hi hj) hne) rfl (le_refl _)

theorem Traced.expire (hs : s.Traced) (i : Nat) (ended : Bool) : (s.expire i ended).Traced := by
  obtain h | ⟨op, id, e, hi, h⟩ := expire_cases s i ended
  · rwa [h]
  · rw [h]
    exact hs.ends hi rfl rfl (fun j _ _ hne hj => absurd (hs.only_sent hi hj) hne) rfl (le_refl _)

theorem Traced.receive (hs : s.Traced) (i : Nat) (deep : Bool) : (s.receive i deep).Traced := by
  obtain h | ⟨op, id, raw, hi, hraw, h⟩ := receive_cases s i deep
  · rwa [h]
  · rw [h]
    have hothers : ∀ (j : Nat) op id, j ≠ i → s.calls[j]? = some (.sent op id) → (none : Option Nat) = some j :=
      fun j _ _ hne hj => absurd (hs.only_sent hi hj) hne
    cases op with
    | close =>
      refine hs.move hi rfl rfl (fun _ _ h => by cases h) hothers ?_ (Nat.le_succ _) (fun _ h => by cases h) (le_refl _) trivial
      exact fun line h => .inr ⟨(Option.some.inj h).symm, rfl⟩
    | call tool =>
      obtain ⟨e, hanswer⟩ | ⟨v, hread, -, hanswer⟩ := answer_call s.closed tool id s.taken raw deep
      · refine hs.move (p := .failed (some s.taken) e) hi (by rw [hanswer]) rfl (fun _ _ h => by cases h) hothers ?_ (Nat.le_succ _)
          (fun _ h => by cases h) (le_refl _) trivial
        exact fun line h => .inr ⟨(Option.some.inj h).symm, rfl⟩
      · obtain ⟨response, hload, hid, hresult⟩ := readResponse_result hread
        refine hs.move (p := .received ⟨tool, id, s.taken⟩ v) hi (by rw [hanswer]) rfl (fun _ _ h => by cases h) hothers ?_
          (Nat.le_succ _) (fun _ h => .inl h) (le_refl _) ⟨raw, response, hraw, hload, hid, hresult⟩
        exact fun line h => .inr ⟨(Option.some.inj h).symm, rfl⟩

theorem Traced.validate (hs : s.Traced) (i : Nat) : (s.validate i).Traced := by
  obtain h | ⟨e, v, hi, ⟨r, hparse, h⟩ | ⟨x, h⟩⟩ := validate_cases s i
  · rwa [h]
  · rw [h]
    obtain ⟨raw, response, hraw, hload, hid, hresult⟩ := hs.source i _ hi
    exact hs.advance hi rfl rfl nofun rfl (fun _ h => h) rfl (fun _ h => h) rfl
      ⟨raw, response, hraw, hload, hid, hresult ▸ hparse⟩
  · rw [h]
    exact hs.advance hi rfl rfl nofun rfl (fun _ h => h) rfl nofun rfl trivial

theorem Traced.readMetrics (hs : s.Traced) (i : Nat) : (s.readMetrics i).Traced := by
  obtain h | ⟨e, r, hi, h⟩ := readMetrics_cases s i
  · rwa [h]
  · rw [h]
    have hanswers : Answers s.stream e r := hs.source i _ hi
    exact hs.advance hi rfl rfl nofun rfl (fun _ h => h) rfl (fun _ h => h) rfl hanswers

theorem Traced.storeMetrics (hs : s.Traced) (i : Nat) : (s.storeMetrics i).Traced := by
  obtain h | ⟨e, r, m, hi, h⟩ := storeMetrics_cases s i
  · rwa [h]
  · rw [h]
    have hanswers : Answers s.stream e r := hs.source i _ hi
    exact hs.advance hi rfl rfl nofun rfl (fun _ h => h) rfl (fun _ h => h) rfl hanswers

theorem Traced.next (hs : s.Traced) (e : Event) : (s.next e).Traced := by
  cases e with
  | start op =>
    refine hs.keep ?_ rfl rfl rfl ⟨[], (List.append_nil _).symm⟩
    intro j p h
    have h' : (s.calls ++ [Phase.waiting op])[j]? = some p := h
    rw [List.getElem?_append] at h'
    split_ifs at h' with hj
    · exact .inl h'
    · exact .inr ⟨op, List.mem_singleton.mp (List.mem_of_getElem? h')⟩
  | line raw =>
    simp only [Session.next, putLine]
    split_ifs
    · exact hs.keep (fun _ _ h => .inl h) rfl rfl rfl ⟨[raw], rfl⟩
    · exact hs
  | exit => exact hs.keep (fun _ _ h => .inl h) rfl rfl rfl ⟨[], (List.append_nil _).symm⟩
  | cancel => exact hs.keep (fun _ _ h => .inl h) rfl rfl rfl ⟨[], (List.append_nil _).symm⟩
  | take i encodes => exact hs.take i encodes
  | breakPipe i => exact hs.breakPipe i
  | expire i ended => exact hs.expire i ended
  | receive i deep => exact hs.receive i deep
  | validate i => exact hs.validate i
  | read i => exact hs.readMetrics i
  | store i => exact hs.storeMetrics i

theorem traced_opened : opened.Traced := by
  constructor
  · exact fun i op id h => by cases h
  · exact fun i line h => by cases h
  · exact fun i id h => by cases h
  · exact fun i j id h => by cases h
  · exact fun i j line h => by cases h
  · exact fun i p h => by cases h

/-! ### What a break of the contract leaves -/

/-- Once the contract is broken no call waits for a line, and none will: the session is over, or a call that still holds an invalid
    result ends it. -/
def Halted (s : Session) : Prop :=
  ∀ n, s.broken = some n → n = s.taken ∧ (∀ (i : Nat) op id, s.calls[i]? ≠ some (.sent op id)) ∧ (s.Over ∨ s.Pending)

theorem Halted.of_unbroken (h : s.broken = none) : s.Halted := by
  intro n hn
  rw [h] at hn
  cases hn

/-- Where a call waits for a line the contract is not broken yet. -/
theorem Halted.unbroken (hs : s.Halted) {op : Op} {id : Nat} (hi : s.calls[i]? = some (.sent op id)) : s.broken = none := by
  cases hbroken : s.broken with
  | none => rfl
  | some n => exact absurd hi ((hs n hbroken).2.1 i op id)

/-- A step of a session whose contract was broken before, in which no call comes to wait for a line. -/
theorem Halted.keep (hs : s.Halted) (hbroken : t.broken = s.broken) (htaken : t.taken = s.taken)
    (hsent : ∀ (j : Nat) op id, t.calls[j]? = some (.sent op id) → ∃ op' id', s.calls[j]? = some (.sent op' id'))
    (hover : s.Over ∨ s.Pending → t.Over ∨ t.Pending) : t.Halted := by
  intro n hn
  obtain ⟨htk, hnone, hend⟩ := hs n (hbroken ▸ hn)
  refine ⟨htk.trans htaken.symm, ?_, hover hend⟩
  intro j op id hj
  obtain ⟨op', id', hj⟩ := hsent j op id hj
  exact hnone j op' id' hj

/-- A result that is pending stays pending while its call stands where it stood. -/
theorem Pending.keep (hs : s.Pending) (h : ∀ (j : Nat) e v, s.calls[j]? = some (.received e v) → (∀ r, parseToolResult e.tool v ≠ .ok r) →
    t.calls[j]? = some (.received e v)) : t.Pending := by
  obtain ⟨j, e, v, hj, hbad⟩ := hs
  exact ⟨j, e, v, h j e v hj hbad, hbad⟩

theorem Halted.take (hs : s.Halted) {i : Nat} {encodes : Bool} (hcond : Orderly (some s) (.take i encodes)) :
    (s.take i encodes).Halted := by
  obtain h | ⟨op, hi, -, hstep⟩ := take_cases s i encodes
  · rwa [h]
  · intro n hn
    have hbroken : s.broken = some n := by
      obtain ⟨e, c, m, h, -, -⟩ | ⟨-, -, h⟩ := hstep
      · exact (congrArg broken h).symm.trans hn
      · exact (congrArg broken h).symm.trans hn
    obtain ⟨htaken, hnone, hend⟩ := hs n hbroken
    have hover : s.Over := by
      obtain hover | hpending := hcond
      · exact hover
      · exact hend.resolve_right hpending
    obtain ⟨e, c, m, h, hc, -⟩ | ⟨hclosed, hexited, -⟩ := hstep
    · rw [h]
      refine ⟨htaken, ?_, .inl (hover.imp (fun h => hc (.inl h)) id)⟩
      intro j op' id hj
      exact hnone j op' id (sent_of_put hi (fun _ _ => ends_ne_sent _ _ _ _ _) hj).2
    · obtain h | h := hover
      · exact absurd (hclosed.symm.trans h) Bool.false_ne_true
      · exact absurd (hexited.symm.trans h) Bool.false_ne_true

theorem Halted.breakPipe (hs : s.Halted) (i : Nat) : (s.breakPipe i).Halted := by
  obtain h | ⟨op, id, hi, h⟩ := breakPipe_cases s i
  · rwa [h]
  · rw [h]
    exact .of_unbroken (hs.unbroken hi)

theorem Halted.expire (hs : s.Halted) (ht : s.Traced) {i : Nat} {ended : Bool} (hcond : Orderly (some s) (.expire i ended)) :
    (s.expire i ended).Halted := by
  obtain h | ⟨op, id, e, hi, h⟩ := expire_cases s i ended
  · rwa [h]
  · rw [h]
    intro n hn
    simp only [breaks, put, hs.unbroken hi, Option.or, Option.some.injEq] at hn
    refine ⟨hn.symm, ?_, .inl ?_⟩
    · intro j op' id' hj
      obtain ⟨hne, hj⟩ := sent_of_put hi (fun _ _ => ends_ne_sent _ _ _ _ _) hj
      exact hne (ht.only_sent hi hj)
    · obtain (hover | hover) | hended | ⟨id', hclose⟩ := hcond
      · exact .inl (by simp [hover])
      · exact .inr (by simp [hover])
      · exact .inr (by simp [hended])
      · rw [hi] at hclose
        obtain ⟨rfl, -⟩ := Phase.sent.inj (Option.some.inj hclose)
        exact .inl (by simp)

/-- A line that breaks the contract ends the session, or leaves a result that is not valid. -/
theorem answer_of_badLine {op : Op} {id : Nat} {raw : Bytes} (hbad : badLine op id raw = true) (closed : Bool) (line : Nat) :
    (answer closed op id line raw false).2 = true ∨ ∃ e v, (answer closed op id line raw false).1 = .received e v ∧
      ∀ r, parseToolResult e.tool v ≠ .ok r := by
  cases op with
  | close => exact .inl rfl
  | call tool =>
    unfold badLine at hbad
    unfold answer
    dsimp only at hbad ⊢
    by_cases hempty : raw.isEmpty = true
    · exact .inl (by rw [if_pos hempty])
    · rw [if_neg hempty, if_neg Bool.false_ne_true]
      rw [eq_false_of_ne_true hempty, Bool.false_or] at hbad
      cases hread : readResponse (requestId id) raw with
      | malformed m => exact .inl rfl
      | refused e => simp [hread] at hbad
      | result v =>
        refine .inr ⟨_, v, rfl, ?_⟩
        intro r hr
        simp [hread, hr, Except.toOption] at hbad

theorem answer_ne_sent (closed : Bool) (op op' : Op) (id id' line : Nat) (raw : Bytes) (deep : Bool) :
    (answer closed op id line raw deep).1 ≠ .sent op' id' := by
  intro h
  cases op with
  | close => cases h
  | call tool =>
    obtain ⟨e, hanswer⟩ | ⟨v, -, -, hanswer⟩ := answer_call closed tool id line raw deep
    · rw [hanswer] at h
      cases h
    · rw [hanswer] at h
      cases h

theorem Halted.receive (hs : s.Halted) (ht : s.Traced) {i : Nat} {deep : Bool} (hcond : Orderly (some s) (.receive i deep)) :
    (s.receive i deep).Halted := by
  obtain h | ⟨op, id, raw, hi, hraw, h⟩ := receive_cases s i deep
  · rwa [h]
  · rw [h]
    intro n hn
    by_cases hbad : badLine op id raw = true
    · have hn' : s.taken + 1 = n := by simpa [hbad, hs.unbroken hi] using hn
      refine ⟨hn'.symm, ?_, ?_⟩
      · intro j op' id' hj
        obtain ⟨hne, hj⟩ := sent_of_put hi (fun _ _ => answer_ne_sent _ _ _ _ _ _ _ _) hj
        exact hne (ht.only_sent hi hj)
      · obtain (hover | hover) | rfl | hgood := hcond
        · exact .inl (.inl (by simp [hover]))
        · exact .inl (.inr hover)
        · obtain hclosed | ⟨e, v, hphase, hinvalid⟩ := answer_of_badLine hbad s.closed s.taken
          · exact .inl (.inl (by simp [hclosed]))
          · refine .inr ⟨i, e, v, ?_, hinvalid⟩
            exact (getElem?_put hi (answer s.closed op id s.taken raw false).1 i).trans (by rw [if_pos rfl, hphase])
        · exact absurd (hbad.symm.trans (hgood op id raw hi hraw)) (Bool.false_ne_true ∘ Eq.symm)
    · simp [hbad, hs.unbroken hi] at hn

theorem Halted.validate (hs : s.Halted) (i : Nat) : (s.validate i).Halted := by
  obtain h | ⟨e, v, hi, ⟨r, hparse, h⟩ | ⟨x, h⟩⟩ := validate_cases s i
  · rwa [h]
  · rw [h]
    refine hs.keep rfl rfl (fun j op id hj => ⟨op, id, (sent_of_put hi (fun _ _ h => by cases h) hj).2⟩) ?_
    refine Or.imp id fun hpending => hpending.keep fun j e' v' hj hbad => ?_
    rw [getElem?_put hi]
    split_ifs with hij
    · obtain rfl := hij
      rw [hi] at hj
      obtain ⟨rfl, rfl⟩ := Phase.received.inj (Option.some.inj hj)
      exact absurd hparse (hbad r)
    · exact hj
  · rw [h]
    exact hs.keep rfl rfl (fun j op id hj => ⟨op, id, (sent_of_put hi (fun _ _ h => by cases h) hj).2⟩) fun _ => .inl (.inl rfl)

/-- A call that holds a valid result goes on, and no pending result is touched. -/
theorem Halted.advance (hs : s.Halted) (hi : s.calls[i]? = some q) (hq : ∀ e v, q ≠ .received e v) (hp : ∀ op id, p ≠ .sent op id)
    (hcalls : t.calls = (s.put i p).calls) (hbroken : t.broken = s.broken) (htaken : t.taken = s.taken) (hover : s.Over → t.Over) :
    t.Halted := by
  refine hs.keep hbroken htaken (fun j op id hj => ⟨op, id, (sent_of_put hi hp (hcalls ▸ hj)).2⟩) ?_
  refine Or.imp hover fun hpending => hpending.keep fun j e v hj _ => ?_
  rw [hcalls, getElem?_put hi]
  split_ifs with hij
  · obtain rfl := hij
    rw [hi] at hj
    exact absurd (Option.some.inj hj) (hq e v)
  · exact hj

theorem Halted.readMetrics (hs : s.Halted) (i : Nat) : (s.readMetrics i).Halted := by
  obtain h | ⟨e, r, hi, h⟩ := readMetrics_cases s i
  · rwa [h]
  · rw [h]
    exact hs.advance hi (fun _ _ h => by cases h) (fun _ _ h => by cases h) rfl rfl rfl id

theorem Halted.storeMetrics (hs : s.Halted) (i : Nat) : (s.storeMetrics i).Halted := by
  obtain h | ⟨e, r, m, hi, h⟩ := storeMetrics_cases s i
  · rwa [h]
  · rw [h]
    exact hs.advance hi (fun _ _ h => by cases h) (fun _ _ h => by cases h) rfl rfl rfl id

theorem Halted.next (hs : s.Halted) (ht : s.Traced) {e : Event} (hcond : Orderly (some s) e) : (s.next e).Halted := by
  cases e with
  | start op =>
    have hold : ∀ (j : Nat) p, s.calls[j]? = some p → (s.calls ++ [.waiting op])[j]? = some p := by
      intro j p hj
      rwa [List.getElem?_append_left (List.getElem?_eq_some_iff.mp hj).1]
    refine hs.keep rfl rfl ?_ (Or.imp id fun hpending => hpending.keep fun j e v hj _ => hold j _ hj)
    intro j op' id h
    have h' : (s.calls ++ [Phase.waiting op])[j]? = some (.sent op' id) := h
    rw [List.getElem?_append] at h'
    split_ifs at h' with hj
    · exact ⟨op', id, h'⟩
    · cases List.mem_singleton.mp (List.mem_of_getElem? h')
  | line raw =>
    simp only [Session.next, putLine]
    split_ifs
    · exact hs.keep rfl rfl (fun j op id hj => ⟨op, id, hj⟩) id
    · exact hs
  | exit => exact hs.keep rfl rfl (fun j op id hj => ⟨op, id, hj⟩) fun _ => .inl (.inr rfl)
  | cancel => exact hs.keep rfl rfl (fun j op id hj => ⟨op, id, hj⟩) fun _ => .inl (.inl rfl)
  | take i encodes => exact hs.take hcond
  | breakPipe i => exact hs.breakPipe i
  | expire i ended => exact hs.expire ht hcond
  | receive i deep => exact hs.receive ht hcond
  | validate i => exact hs.validate i
  | read i => exact hs.readMetrics i
  | store i => exact hs.storeMetrics i

theorem traced_halted (h : Reaches Step Orderly s) : s.Traced ∧ s.Halted := by
  refine h.invariant (I := fun s => s.Traced ∧ s.Halted) ?_ ?_
  · rintro e t - rfl
    exact ⟨traced_opened, .of_unbroken rfl⟩
  · rintro t e t' ⟨htraced, hhalted⟩ hcond rfl
    exact ⟨htraced.next e, hhalted.next htraced hcond⟩

/-- Every result is that of its own call's line, no line is taken twice, and none is used once the contract is broken. -/
theorem correlated (h : Reaches Step Orderly s) : s.Correlated := by
  obtain ⟨htraced, hhalted⟩ := traced_halted h
  constructor
  · exact fun i e r hi => htraced.source i _ hi
  · exact htraced.ids
  · exact htraced.once
  · intro i e r n hi hn
    rw [(hhalted n hn).1]
    exact htraced.taken i e.line (Option.bind_eq_some_iff.mpr ⟨_, hi, rfl⟩)

end

/-! ### A result, and one from a line after a bad one -/

open Sample

/-- A call returns its result. -/
theorem exists_correlated : ∃ s, Reaches Step Orderly s ∧ (s.calls.filterMap Phase.result?).length = 1 ∧ s.Correlated := by
  have hfirst : Reaches Step Orderly opened := .start (i := .exit) trivial rfl
  have hpending : ¬ (opened.next (.start (.call tool))).Pending := by
    rintro ⟨i, e, v, hi, -⟩
    cases List.mem_singleton.mp (List.mem_of_getElem? hi)
  have hreach : Reaches Step Orderly (after next opened (exchange 0 ++ [.read 0, .store 0])) :=
    reaches_after hfirst ⟨trivial, .inr hpending, trivial, .inr (.inl rfl), trivial, trivial, trivial, trivial⟩
  exact ⟨_, hreach, by decide +kernel, correlated hreach⟩

/-- A first call takes a line with an invalid result and lets the lock go, and a second one returns the result of the next line before
    the first has closed the session. -/
def overtaken : List Event :=
  [.start (.call tool), .start (.call tool), .take 0 true, .line (frame 2 (Json.mkObj [])), .receive 0 false, .take 1 true,
    .line (frame 3 result), .receive 1 false, .validate 1, .read 1, .store 1, .validate 0]

theorem not_correlated : ∃ s, Reaches Step (fun _ _ => True) s ∧ (∃ e r, s.calls[1]? = some (.returned e r) ∧ e.line = 1) ∧
    s.broken = some 1 ∧ ¬ s.Correlated := by
  have hreach : Reaches Step (fun _ _ => True) (after next opened overtaken) :=
    reaches_after (.start (i := .exit) trivial rfl) (allowed_true _ _ _)
  have hline : ((after next opened overtaken).calls[1]?.any fun p => p.result?.isSome && p.line? == some 1) = true := by decide +kernel
  have hbroken : (after next opened overtaken).broken = some 1 := by decide +kernel
  obtain ⟨p, hp, hresult⟩ := (Option.any_eq_true _ _).mp hline
  obtain ⟨e, r, hreturned, hfirst⟩ : ∃ e r, (after next opened overtaken).calls[1]? = some (.returned e r) ∧ e.line = 1 := by
    cases p with
    | returned e r => exact ⟨e, r, hp, by simpa [Phase.result?, Phase.line?] using hresult⟩
    | _ => exact absurd hresult (by simp [Phase.result?])
  refine ⟨_, hreach, ⟨e, r, hreturned, hfirst⟩, hbroken, fun h => ?_⟩
  have hlt := h.terminal 1 e r 1 hreturned hbroken
  omega

end Session
end LeanCtx.Agent
