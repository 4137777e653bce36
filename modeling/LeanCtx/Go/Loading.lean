import LeanCtx.Go.Scanning
import LeanCtx.Java.Exact

/-! What the loader of the Go package makes of a text. It accepts the objects of RFC 8259 with no key twice, and gives their values with
    every string unquoted (`strictJSONLoads_eq_ok`). What it gives is what the text denotes exactly where the text escapes no unpaired
    surrogate (`strictJSONLoads_faithful_iff`). -/

namespace LeanCtx.Go
open Json (Piece Raw skipSpace isSpace dropPrefix?)
open Json.Raw (joinEscapes)
open Json.Grammar (ascii Number Chars Document)
open PyFloat (Literal)

/-! ### What a text spells -/

section
variable (read : List Piece → Str)

mutual
/-- A text, up to a rest of it, spells a document and a value of it, with its strings read in one way. A number keeps its text, an object
    keeps its members in their order, and no two of its keys are the same. -/
inductive Spells : Str → Raw → GoValue → Str → Prop
  | null (r : Str) : Spells (110 :: 117 :: 108 :: 108 :: r) .null .null r
  | true (r : Str) : Spells (116 :: 114 :: 117 :: 101 :: r) (.bool true) (.bool true) r
  | false (r : Str) : Spells (102 :: 97 :: 108 :: 115 :: 101 :: r) (.bool false) (.bool false) r
  | number {s t r : Str} {l : Literal} (literal : Number ascii s l r) (text : s = t ++ r) : Spells s (.number l) (.number t) r
  | string {s r : Str} {l : List Piece} (chars : Chars s l r) : Spells (34 :: s) (.string l) (.string (read l)) r
  | emptyArr {s r : Str} (close : skipSpace s = 93 :: r) : Spells (91 :: s) (.arr []) (.slice []) r
  | arr {s r : Str} {l : List Raw} {gs : List GoValue} (items : SpellsItems (skipSpace s) l gs r) : Spells (91 :: s) (.arr l) (.slice gs) r
  | emptyObj {s r : Str} (close : skipSpace s = 125 :: r) : Spells (123 :: s) (.obj []) (.map []) r
  | obj {s r : Str} {f : List (List Piece × Raw)} {es : List (Str × GoValue)} (fields : SpellsFields (skipSpace s) f es r)
      (distinct : (es.map (·.1)).Nodup) : Spells (123 :: s) (.obj f) (.map es) r

inductive SpellsItems : Str → List Raw → List GoValue → Str → Prop
  | last {s t r : Str} {a : Raw} {g : GoValue} (value : Spells s a g t) (close : skipSpace t = 93 :: r) : SpellsItems s [a] [g] r
  | cons {s t u r : Str} {a : Raw} {g : GoValue} {l : List Raw} {gs : List GoValue} (value : Spells s a g t) (comma : skipSpace t = 44 :: u)
      (rest : SpellsItems (skipSpace u) l gs r) : SpellsItems s (a :: l) (g :: gs) r

inductive SpellsFields : Str → List (List Piece × Raw) → List (Str × GoValue) → Str → Prop
  | last {s t u w r : Str} {k : List Piece} {a : Raw} {g : GoValue} (key : Chars s k t) (colon : skipSpace t = 58 :: u)
      (value : Spells (skipSpace u) a g w) (close : skipSpace w = 125 :: r) : SpellsFields (34 :: s) [(k, a)] [(read k, g)] r
  | cons {s t u w x r : Str} {k : List Piece} {a : Raw} {g : GoValue} {f : List (List Piece × Raw)} {es : List (Str × GoValue)}
      (key : Chars s k t) (colon : skipSpace t = 58 :: u) (value : Spells (skipSpace u) a g w) (comma : skipSpace w = 44 :: x)
      (rest : SpellsFields (skipSpace x) f es r) : SpellsFields (34 :: s) ((k, a) :: f) ((read k, g) :: es) r
end

/-- A whole text spells a document and a value. -/
def SpellsText (s : Str) (a : Raw) (g : GoValue) : Prop := ∃ r, Spells read (skipSpace s) a g r ∧ skipSpace r = []

end

mutual
/-- The strings of a value, keys among them, in their order. -/
def GoValue.strings : GoValue → List Str
  | .string s => [s]
  | .slice l => itemStrings l
  | .map es => entryStrings es
  | _ => []

def itemStrings : List GoValue → List Str
  | [] => []
  | g :: gs => g.strings ++ itemStrings gs

def entryStrings : List (Str × GoValue) → List Str
  | [] => []
  | (k, g) :: es => k :: (g.strings ++ entryStrings es)
end

section
variable {read read' : List Piece → Str}

mutual
/-- What spells a value is a document of the grammar. -/
theorem Spells.document : ∀ {s a g r}, Spells read s a g r → Json.Grammar.Value ascii s a r
  | _, _, _, _, .null r => .null r
  | _, _, _, _, .true r => .true r
  | _, _, _, _, .false r => .false r
  | _, _, _, _, .number literal _ => .number literal
  | _, _, _, _, .string chars => .string chars
  | _, _, _, _, .emptyArr close => .emptyArr close
  | _, _, _, _, .arr items => .arr items.document
  | _, _, _, _, .emptyObj close => .emptyObj close
  | _, _, _, _, .obj fields _ => .obj fields.document

theorem SpellsItems.document : ∀ {s l gs r}, SpellsItems read s l gs r → Json.Grammar.Items ascii s l r
  | _, _, _, _, .last value close => .last value.document close
  | _, _, _, _, .cons value comma rest => .cons value.document comma rest.document

theorem SpellsFields.document : ∀ {s f es r}, SpellsFields read s f es r → Json.Grammar.Fields ascii s f r
  | _, _, _, _, .last key colon value close => .last key colon value.document close
  | _, _, _, _, .cons key colon value comma rest => .cons key colon value.document comma rest.document
end

mutual
/-- The strings of the value are those of the document, each of them read. -/
theorem Spells.strings : ∀ {s a g r}, Spells read s a g r → g.strings = a.strings.map read
  | _, _, _, _, .null _ => rfl
  | _, _, _, _, .true _ => rfl
  | _, _, _, _, .false _ => rfl
  | _, _, _, _, .number _ _ => rfl
  | _, _, _, _, .string _ => rfl
  | _, _, _, _, .emptyArr _ => rfl
  | _, _, _, _, .arr items => items.strings
  | _, _, _, _, .emptyObj _ => rfl
  | _, _, _, _, .obj fields _ => fields.strings

theorem SpellsItems.strings : ∀ {s l gs r}, SpellsItems read s l gs r → itemStrings gs = (Raw.itemStrings l).map read
  | _, _, _, _, .last value _ => by
    rw [itemStrings, itemStrings, Raw.itemStrings, Raw.itemStrings, List.append_nil, List.append_nil, value.strings]
  | _, _, _, _, .cons value _ rest => by rw [itemStrings, Raw.itemStrings, List.map_append, value.strings, rest.strings]

theorem SpellsFields.strings : ∀ {s f es r}, SpellsFields read s f es r → entryStrings es = (Raw.fieldStrings f).map read
  | _, _, _, _, .last _ _ value _ => by
    rw [entryStrings, entryStrings, Raw.fieldStrings, Raw.fieldStrings, List.append_nil, List.append_nil, List.map_cons, value.strings]
  | _, _, _, _, .cons _ _ value _ rest => by
    rw [entryStrings, Raw.fieldStrings, List.map_cons, List.map_append, value.strings, rest.strings]
end

mutual
/-- Two ways to read that agree on the strings of a document give the same value. -/
theorem Spells.congr : ∀ {s a g r}, Spells read s a g r → (∀ l ∈ a.strings, read l = read' l) → Spells read' s a g r
  | _, _, _, _, .null r, _ => .null r
  | _, _, _, _, .true r, _ => .true r
  | _, _, _, _, .false r, _ => .false r
  | _, _, _, _, .number literal text, _ => .number literal text
  | _, _, _, _, .string chars, h => by
    rw [h _ (by rw [Raw.strings]; exact List.mem_singleton_self _)]
    exact .string chars
  | _, _, _, _, .emptyArr close, _ => .emptyArr close
  | _, _, _, _, .arr items, h => .arr (items.congr h)
  | _, _, _, _, .emptyObj close, _ => .emptyObj close
  | _, _, _, _, .obj fields distinct, h => .obj (fields.congr h) distinct

theorem SpellsItems.congr : ∀ {s l gs r}, SpellsItems read s l gs r → (∀ m ∈ Raw.itemStrings l, read m = read' m) →
    SpellsItems read' s l gs r
  | _, _, _, _, .last value close, h => by
    rw [Raw.itemStrings, List.forall_mem_append] at h
    exact .last (value.congr h.1) close
  | _, _, _, _, .cons value comma rest, h => by
    rw [Raw.itemStrings, List.forall_mem_append] at h
    exact .cons (value.congr h.1) comma (rest.congr h.2)

theorem SpellsFields.congr : ∀ {s f es r}, SpellsFields read s f es r → (∀ m ∈ Raw.fieldStrings f, read m = read' m) →
    SpellsFields read' s f es r
  | _, _, _, _, .last key colon value close, h => by
    rw [Raw.fieldStrings, List.forall_mem_cons, List.forall_mem_append] at h
    rw [h.1]
    exact .last key colon (value.congr h.2.1) close
  | _, _, _, _, .cons key colon value comma rest, h => by
    rw [Raw.fieldStrings, List.forall_mem_cons, List.forall_mem_append] at h
    rw [h.1]
    exact .cons key colon (value.congr h.2.1) comma (rest.congr h.2.2)
end

end

/-! ### Tokens -/

namespace Decoder

/-- What is decoded in one piece is neither an array nor an object. -/
theorem decode_sound {s r : Str} {g : GoValue} (h : decode s = some (g, r)) : ∃ a, Spells unquote s a g r := by
  cases s with
  | nil => cases h
  | cons c s =>
    rw [decode] at h
    split_ifs at h with hquote hnull htrue hfalse
    · obtain ⟨⟨l, t⟩, hl, heq⟩ := Option.map_eq_some_iff.mp h
      cases heq
      rw [hquote]
      exact ⟨_, .string (chars_of_scanString hl)⟩
    · obtain ⟨t, ht, heq⟩ := Option.map_eq_some_iff.mp h
      cases heq
      rw [hnull, dropPrefix?_eq_some.mp ht]
      exact ⟨_, .null _⟩
    · obtain ⟨t, ht, heq⟩ := Option.map_eq_some_iff.mp h
      cases heq
      rw [htrue, dropPrefix?_eq_some.mp ht]
      exact ⟨_, .true _⟩
    · obtain ⟨t, ht, heq⟩ := Option.map_eq_some_iff.mp h
      cases heq
      rw [hfalse, dropPrefix?_eq_some.mp ht]
      exact ⟨_, .false _⟩
    · obtain ⟨⟨t, u⟩, ht, heq⟩ := Option.map_eq_some_iff.mp h
      cases heq
      obtain ⟨htext, l, hl⟩ := Scanner.number_sound ht
      exact ⟨_, .number hl htext⟩

theorem decode_string {s r : Str} {l : List Piece} (h : Chars s l r) : decode (34 :: s) = some (.string (unquote l), r) := by
  rw [decode, if_pos rfl, scanString_of_chars h (Nat.lt_succ_self _)]
  rfl

theorem isNumeral_of_number {c : Nat} {s r : Str} {l : Literal} (h : Number ascii (c :: s) l r) : c = 45 ∨ 48 ≤ c ∧ c ≤ 57 := by
  obtain ⟨d, t, heq, hd⟩ := Java.Parser.head_number (h.mono Java.extends_digit)
  cases heq
  exact hd

/-- What is decoded starts like a string, a name or a number. -/
theorem head_decode {c : Nat} {s r : Str} {g : GoValue} (h : decode (c :: s) = some (g, r)) :
    c = 34 ∨ c = 110 ∨ c = 116 ∨ c = 102 ∨ c = 45 ∨ 48 ≤ c ∧ c ≤ 57 := by
  rw [decode] at h
  split_ifs at h with hquote hnull htrue hfalse
  · exact .inl hquote
  · exact .inr (.inl hnull)
  · exact .inr (.inr (.inl htrue))
  · exact .inr (.inr (.inr (.inl hfalse)))
  · obtain ⟨⟨t, u⟩, ht, heq⟩ := Option.map_eq_some_iff.mp h
    obtain ⟨-, l, hl⟩ := Scanner.number_sound ht
    exact .inr (.inr (.inr (.inr (isNumeral_of_number hl))))

/-- What one round of the loop does. -/
inductive Round (d : Decoder) : Option Token → Decoder → Prop
  | openArray {r : Str} (text : skipSpace d.rest = 91 :: r) (allowed : tokenValueAllowed d.tokenState = true) :
      Round d (some (.delim 91)) ⟨r, .arrayStart, d.tokenState :: d.tokenStack⟩
  | closeArray {r : Str} {state : TokenState} {stack : List TokenState} (text : skipSpace d.rest = 93 :: r)
      (allowed : d.tokenState = .arrayStart ∨ d.tokenState = .arrayComma) (outer : d.tokenStack = state :: stack) :
      Round d (some (.delim 93)) ⟨r, tokenValueEnd state, stack⟩
  | openObject {r : Str} (text : skipSpace d.rest = 123 :: r) (allowed : tokenValueAllowed d.tokenState = true) :
      Round d (some (.delim 123)) ⟨r, .objectStart, d.tokenState :: d.tokenStack⟩
  | closeObject {r : Str} {state : TokenState} {stack : List TokenState} (text : skipSpace d.rest = 125 :: r)
      (allowed : d.tokenState = .objectStart ∨ d.tokenState = .objectComma) (outer : d.tokenStack = state :: stack) :
      Round d (some (.delim 125)) ⟨r, tokenValueEnd state, stack⟩
  | colon {r : Str} (text : skipSpace d.rest = 58 :: r) (allowed : d.tokenState = .objectColon) :
      Round d none ⟨r, .objectValue, d.tokenStack⟩
  | itemComma {r : Str} (text : skipSpace d.rest = 44 :: r) (allowed : d.tokenState = .arrayComma) :
      Round d none ⟨r, .arrayValue, d.tokenStack⟩
  | memberComma {r : Str} (text : skipSpace d.rest = 44 :: r) (allowed : d.tokenState = .objectComma) :
      Round d none ⟨r, .objectKey, d.tokenStack⟩
  | key {s r : Str} {g : GoValue} (text : skipSpace d.rest = 34 :: s) (allowed : d.tokenState = .objectStart ∨ d.tokenState = .objectKey)
      (value : decode (34 :: s) = some (g, r)) : Round d (some (.value g)) ⟨r, .objectColon, d.tokenStack⟩
  | value {r : Str} {g : GoValue} (allowed : tokenValueAllowed d.tokenState = true) (value : decode (skipSpace d.rest) = some (g, r)) :
      Round d (some (.value g)) ⟨r, tokenValueEnd d.tokenState, d.tokenStack⟩

theorem not_allowed {state : TokenState} (h : state = .objectStart ∨ state = .objectKey) : tokenValueAllowed state = false := by
  rcases h with rfl | rfl <;> rfl

theorem round_of_eq_ok {d d' : Decoder} {t : Option Token} (h : round d = .ok (t, d')) : Round d t d' := by
  have hpop : ∀ {c r stack}, pop c r stack = .ok (t, d') → ∃ state outer, stack = state :: outer ∧ t = some (.delim c) ∧
      d' = ⟨r, tokenValueEnd state, outer⟩ := by
    rintro c r (_ | ⟨state, outer⟩) h
    · cases h
    · cases h
      exact ⟨state, outer, rfl, rfl, rfl⟩
  unfold round at h
  simp only at h
  split at h
  · cases h
  · next c r htext =>
    split_ifs at h with h91 hstate h93 hstate h123 hstate h125 hstate h58 hstate h44 hstate hstate hkey hstate
    any_goals cases h
    · exact .openArray (h91 ▸ htext) hstate
    · obtain ⟨state, outer, hstack, rfl, rfl⟩ := hpop h
      exact .closeArray (h93 ▸ htext) hstate hstack
    · exact .openObject (h123 ▸ htext) hstate
    · obtain ⟨state, outer, hstack, rfl, rfl⟩ := hpop h
      exact .closeObject (h125 ▸ htext) hstate hstack
    · exact .colon (h58 ▸ htext) hstate
    · exact .itemComma (h44 ▸ htext) hstate
    · exact .memberComma (h44 ▸ htext) hstate
    · split at h
      · next v u hv =>
        cases h
        exact .key (hkey.1 ▸ htext) hkey.2 (hkey.1 ▸ hv)
      · cases h
    · split at h
      · next v u hv =>
        cases h
        exact .value hstate (htext ▸ hv)
      · cases h

theorem round_eq_ok {d d' : Decoder} {t : Option Token} (h : Round d t d') : round d = .ok (t, d') := by
  cases h with
  | openArray text allowed => simp [round, text, allowed]
  | closeArray text allowed outer => simp [round, text, allowed, outer, pop]
  | openObject text allowed => simp [round, text, allowed]
  | closeObject text allowed outer => simp [round, text, allowed, outer, pop]
  | colon text allowed => simp [round, text, allowed]
  | itemComma text allowed => simp [round, text, allowed]
  | memberComma text allowed => simp [round, text, allowed]
  | key text allowed value => simp [round, text, allowed, value]
  | @value r g allowed value =>
    cases htext : skipSpace d.rest with
    | nil =>
      rw [htext] at value
      cases value
    | cons c s =>
      rw [htext] at value
      have hhead := head_decode value
      have hkey : ¬(c = 34 ∧ (d.tokenState = .objectStart ∨ d.tokenState = .objectKey)) := fun h => by
        rw [not_allowed h.2] at allowed
        cases allowed
      have hne : c ≠ 91 ∧ c ≠ 93 ∧ c ≠ 123 ∧ c ≠ 125 ∧ c ≠ 58 ∧ c ≠ 44 := by omega
      obtain ⟨h91, h93, h123, h125, h58, h44⟩ := hne
      simp only [round, htext, h91, h93, h123, h125, h58, h44, hkey, if_false, allowed, if_true, value]

/-- A token is read in one round, or in two of which the first moves past a separator. -/
theorem token_eq_ok {d d' : Decoder} {t : Token} :
    token d = .ok (t, d') ↔ Round d (some t) d' ∨ ∃ e, Round d none e ∧ Round e (some t) d' := by
  simp only [token, bind_eq_ok]
  constructor
  · rintro ⟨⟨_ | t, e⟩, hround, h⟩
    · simp only [bind_eq_ok] at h
      obtain ⟨⟨_ | t, e'⟩, hround', h⟩ := h
      · cases h
      · cases h
        exact .inr ⟨e, round_of_eq_ok hround, round_of_eq_ok hround'⟩
    · cases h
      exact .inl (round_of_eq_ok hround)
  · rintro (hround | ⟨e, hround, hround'⟩)
    · exact ⟨_, round_eq_ok hround, rfl⟩
    · refine ⟨_, round_eq_ok hround, ?_⟩
      simp only [bind_eq_ok]
      exact ⟨_, round_eq_ok hround', rfl⟩

/-- Where a value starts: at once, after the comma of an array or after the colon of a member. -/
inductive Lead : TokenState → Str → TokenState → Str → Prop
  | here {state : TokenState} (s : Str) (allowed : tokenValueAllowed state = true) : Lead state s state (skipSpace s)
  | comma {s r : Str} (text : skipSpace s = 44 :: r) : Lead .arrayComma s .arrayValue (skipSpace r)
  | colon {s r : Str} (text : skipSpace s = 58 :: r) : Lead .objectColon s .objectValue (skipSpace r)

/-- A state before a value, and not before a key or the comma of an object. -/
def BeforeValue (state : TokenState) : Prop := state ≠ .objectStart ∧ state ≠ .objectKey ∧ state ≠ .objectComma

/-- The first token of a value, or a bracket that closes. -/
inductive Opens (d : Decoder) (state : TokenState) (s : Str) : Token → Decoder → Prop
  | array {r : Str} (text : s = 91 :: r) : Opens d state s (.delim 91) ⟨r, .arrayStart, state :: d.tokenStack⟩
  | object {r : Str} (text : s = 123 :: r) : Opens d state s (.delim 123) ⟨r, .objectStart, state :: d.tokenStack⟩
  | value {r : Str} {g : GoValue} (value : decode s = some (g, r)) : Opens d state s (.value g) ⟨r, tokenValueEnd state, d.tokenStack⟩

theorem opens_of_round {d d' : Decoder} {t : Token} (h : Round d (some t) d') (ht : t ≠ .delim 93 ∧ t ≠ .delim 125)
    (hstate : BeforeValue d.tokenState) : tokenValueAllowed d.tokenState = true ∧ Opens d d.tokenState (skipSpace d.rest) t d' := by
  cases h with
  | openArray text allowed => exact ⟨allowed, .array text⟩
  | closeArray => exact absurd rfl ht.1
  | openObject text allowed => exact ⟨allowed, .object text⟩
  | closeObject => exact absurd rfl ht.2
  | key _ allowed => exact absurd allowed (not_or.mpr ⟨hstate.1, hstate.2.1⟩)
  | value allowed value => exact ⟨allowed, .value value⟩

/-- The first token of a value stands where a value starts. -/
theorem token_value {d d' : Decoder} {t : Token} (h : token d = .ok (t, d')) (ht : t ≠ .delim 93 ∧ t ≠ .delim 125)
    (hstate : BeforeValue d.tokenState) : ∃ state s, Lead d.tokenState d.rest state s ∧ Opens d state s t d' := by
  rcases token_eq_ok.mp h with hround | ⟨e, hround, hround'⟩
  · obtain ⟨allowed, hopens⟩ := opens_of_round hround ht hstate
    exact ⟨_, _, .here _ allowed, hopens⟩
  · obtain ⟨rest, state, stack⟩ := d
    cases hround with
    | colon text allowed =>
      obtain rfl : state = .objectColon := allowed
      obtain ⟨-, hopens⟩ := opens_of_round hround' ht ⟨nofun, nofun, nofun⟩
      refine ⟨_, _, .colon text, ?_⟩
      cases hopens with
      | array text => exact .array text
      | object text => exact .object text
      | value value => exact .value value
    | itemComma text allowed =>
      obtain rfl : state = .arrayComma := allowed
      obtain ⟨-, hopens⟩ := opens_of_round hround' ht ⟨nofun, nofun, nofun⟩
      refine ⟨_, _, .comma text, ?_⟩
      cases hopens with
      | array text => exact .array text
      | object text => exact .object text
      | value value => exact .value value
    | memberComma _ allowed => exact absurd allowed hstate.2.2

/-- A bracket that closes stands at once. -/
theorem token_close {d d' : Decoder} {c : Nat} (hc : c = 93 ∨ c = 125) (h : token d = .ok (.delim c, d')) :
    ∃ r state stack, skipSpace d.rest = c :: r ∧ d.tokenStack = state :: stack ∧ d' = ⟨r, tokenValueEnd state, stack⟩ := by
  rcases token_eq_ok.mp h with hround | ⟨e, hround, hround'⟩
  · cases hround with
    | openArray => omega
    | closeArray text _ outer => exact ⟨_, _, _, text, outer, rfl⟩
    | openObject => omega
    | closeObject text _ outer => exact ⟨_, _, _, text, outer, rfl⟩
  · -- No bracket closes after a separator.
    cases hround <;> cases hround' with
    | openArray => omega
    | closeArray _ allowed => rcases allowed with h | h <;> cases h
    | openObject => omega
    | closeObject _ allowed => rcases allowed with h | h <;> cases h

/-- Where a key starts: at once, or after the comma of an object. -/
inductive KeyLead : TokenState → Str → Str → Prop
  | here (s : Str) : KeyLead .objectStart s (skipSpace s)
  | comma {s r : Str} (text : skipSpace s = 44 :: r) : KeyLead .objectComma s (skipSpace r)

/-- A key is a string. -/
theorem token_key {d d' : Decoder} {k : Str} (h : token d = .ok (.value (.string k), d'))
    (hstate : d.tokenState = .objectStart ∨ d.tokenState = .objectComma) :
    ∃ s l r, KeyLead d.tokenState d.rest (34 :: s) ∧ Chars s l r ∧ k = unquote l ∧ d' = ⟨r, .objectColon, d.tokenStack⟩ := by
  have hchars : ∀ {s r}, decode (34 :: s) = some (.string k, r) → ∃ l, Chars s l r ∧ k = unquote l := by
    intro s r h
    rw [decode, if_pos rfl] at h
    obtain ⟨⟨l, t⟩, hl, heq⟩ := Option.map_eq_some_iff.mp h
    cases heq
    exact ⟨l, chars_of_scanString hl, rfl⟩
  obtain ⟨rest, state, stack⟩ := d
  rcases token_eq_ok.mp h with hround | ⟨e, hround, hround'⟩
  · cases hround with
    | key text allowed value =>
      obtain ⟨l, hl, hk⟩ := hchars value
      obtain rfl : state = .objectStart := by
        rcases hstate with h | h
        · exact h
        · obtain rfl : state = .objectComma := h
          rcases allowed with h | h <;> cases h
      exact ⟨_, l, _, text ▸ .here rest, hl, hk, rfl⟩
    | value allowed =>
      rcases hstate with h | h <;> obtain rfl : state = _ := h <;> cases allowed
  · cases hround with
    | colon _ allowed => rcases hstate with h | h <;> obtain rfl : state = _ := h <;> cases allowed
    | itemComma _ allowed => rcases hstate with h | h <;> obtain rfl : state = _ := h <;> cases allowed
    | memberComma text allowed =>
      obtain rfl : state = .objectComma := allowed
      cases hround' with
      | key text' allowed' value =>
        obtain ⟨l, hl, hk⟩ := hchars value
        exact ⟨_, l, _, text' ▸ .comma text, hl, hk, rfl⟩
      | value allowed' => cases allowed'

end Decoder

/-! ### What is accepted is spelled -/

open Decoder (Lead KeyLead BeforeValue Opens tokenValueEnd tokenValueAllowed)

theorem lead_item {state state' : TokenState} {s t : Str} (h : Lead state s state' t) (hstate : state = .arrayStart ∨ state = .arrayComma) :
    tokenValueEnd state' = .arrayComma := by
  cases h with
  | here _ allowed =>
    rcases hstate with rfl | rfl
    · rfl
    · cases allowed
  | comma => rfl
  | colon => rcases hstate with h | h <;> cases h

/-- A value is read up to the end of what spells it. -/
def ReadsValue (n : Nat) : Prop :=
  ∀ {d d' : Decoder} {g : GoValue}, decodeStrictValue n d = .ok (g, d') → BeforeValue d.tokenState →
    ∃ state s a r, Lead d.tokenState d.rest state s ∧ Spells unquote s a g r ∧ d' = ⟨r, tokenValueEnd state, d.tokenStack⟩

/-- The items of an array are read up to its bracket. -/
def ReadsItems (n : Nat) : Prop :=
  ∀ {d d' : Decoder} {g : GoValue} {items : List GoValue} {outer : TokenState} {stack : List TokenState},
    decodeItems n items d = .ok (g, d') → (d.tokenState = .arrayStart ∨ d.tokenState = .arrayComma) → d.tokenStack = outer :: stack →
    ∃ r, d' = ⟨r, tokenValueEnd outer, stack⟩ ∧
      (skipSpace d.rest = 93 :: r ∧ g = .slice items ∨
        ∃ state s l gs, Lead d.tokenState d.rest state s ∧ SpellsItems unquote s l gs r ∧ g = .slice (items ++ gs))

/-- The members of an object are read up to its brace, and no key comes twice. -/
def ReadsMembers (n : Nat) : Prop :=
  ∀ {d d' : Decoder} {g : GoValue} {entries : List (Str × GoValue)} {outer : TokenState} {stack : List TokenState},
    decodeMembers n entries d = .ok (g, d') → (d.tokenState = .objectStart ∨ d.tokenState = .objectComma) → d.tokenStack = outer :: stack →
    (entries.map (·.1)).Nodup →
    ∃ r, d' = ⟨r, tokenValueEnd outer, stack⟩ ∧
      (skipSpace d.rest = 125 :: r ∧ g = .map entries ∨
        ∃ s f es, KeyLead d.tokenState d.rest s ∧ SpellsFields unquote s f es r ∧ g = .map (entries ++ es) ∧
          ((entries ++ es).map (·.1)).Nodup)

theorem readsValue_succ {n : Nat} (hitems : ReadsItems n) (hmembers : ReadsMembers n) : ReadsValue (n + 1) := by
  intro d d' g h hstate
  rw [decodeStrictValue, bind_eq_ok] at h
  obtain ⟨⟨t, e⟩, htoken, h⟩ := h
  simp only at h
  split at h
  · obtain ⟨state, s, hlead, hopens⟩ := Decoder.token_value htoken ⟨by simp, by simp⟩ hstate
    cases hopens with
    | object text =>
      subst text
      obtain ⟨r, rfl, ⟨hclose, rfl⟩ | ⟨s', f, es, hkey, hfields, rfl, hdistinct⟩⟩ := hmembers h (.inl rfl) rfl List.nodup_nil
      · exact ⟨state, _, _, r, hlead, .emptyObj hclose, rfl⟩
      · cases hkey
        exact ⟨state, _, _, r, hlead, .obj hfields hdistinct, rfl⟩
  · obtain ⟨state, s, hlead, hopens⟩ := Decoder.token_value htoken ⟨by simp, by simp⟩ hstate
    cases hopens with
    | array text =>
      subst text
      obtain ⟨r, rfl, ⟨hclose, rfl⟩ | ⟨state', s', l, gs, hitem, hitems, rfl⟩⟩ := hitems h (.inl rfl) rfl
      · exact ⟨state, _, _, r, hlead, .emptyArr hclose, rfl⟩
      · cases hitem
        exact ⟨state, _, _, r, hlead, .arr hitems, rfl⟩
  · cases h
  · cases h
    obtain ⟨state, s, hlead, hopens⟩ := Decoder.token_value htoken ⟨nofun, nofun⟩ hstate
    cases hopens with
    | value value =>
      obtain ⟨a, ha⟩ := Decoder.decode_sound value
      exact ⟨state, s, a, _, hlead, ha, rfl⟩

theorem readsItems_succ {n : Nat} (hvalue : ReadsValue n) (hitems : ReadsItems n) : ReadsItems (n + 1) := by
  intro d d' g items outer stack h hstate hstack
  rw [decodeItems] at h
  split_ifs at h
  · rw [bind_eq_ok] at h
    obtain ⟨⟨child, e⟩, hchild, h⟩ := h
    have hbefore : BeforeValue d.tokenState := by rcases hstate with h | h <;> rw [h] <;> exact ⟨nofun, nofun, nofun⟩
    obtain ⟨state, s, a, t, hlead, hspells, rfl⟩ := hvalue hchild hbefore
    obtain ⟨r, rfl, ⟨hclose, rfl⟩ | ⟨state', s', l, gs, hitem, hrest, rfl⟩⟩ := hitems h (.inr (lead_item hlead hstate)) hstack
    · exact ⟨r, rfl, .inr ⟨state, s, _, _, hlead, .last hspells hclose, rfl⟩⟩
    · rw [lead_item hlead hstate] at hitem
      cases hitem with
      | here _ allowed => cases allowed
      | comma text => exact ⟨r, rfl, .inr ⟨state, s, _, _, hlead, .cons hspells text hrest, by rw [List.append_assoc]; rfl⟩⟩
  · split at h
    · next e htoken =>
      cases h
      obtain ⟨r, state, stack', htext, hstack', rfl⟩ := Decoder.token_close (.inl rfl) htoken
      cases hstack.symm.trans hstack'
      exact ⟨r, rfl, .inl ⟨htext, rfl⟩⟩
    · cases h

theorem readsMembers_succ {n : Nat} (hvalue : ReadsValue n) (hmembers : ReadsMembers n) : ReadsMembers (n + 1) := by
  intro d d' g entries outer stack h hstate hstack hdistinct
  rw [decodeMembers] at h
  split_ifs at h
  · rw [bind_eq_ok] at h
    obtain ⟨⟨t, e⟩, htoken, h⟩ := h
    simp only at h
    split at h
    · next k =>
      split_ifs at h with hseen
      rw [bind_eq_ok] at h
      obtain ⟨⟨child, e'⟩, hchild, h⟩ := h
      obtain ⟨s, l, u, hkey, hchars, rfl, rfl⟩ := Decoder.token_key htoken hstate
      obtain ⟨state, s', a, t, hlead, hspells, rfl⟩ := hvalue hchild ⟨nofun, nofun, nofun⟩
      cases hlead with
      | here _ allowed => cases allowed
      | colon colon =>
        have hnodup : ((entries ++ [(unquote l, child)]).map (·.1)).Nodup := by
          rw [List.map_append]
          refine List.nodup_append.mpr ⟨hdistinct, List.nodup_singleton _, fun k hk j hj heq => hseen ?_⟩
          rwa [heq, List.mem_singleton.mp hj] at hk
        obtain ⟨r, rfl, ⟨hclose, rfl⟩ | ⟨s'', f, es, hkey', hrest, rfl, hnodup'⟩⟩ := hmembers h (.inr rfl) hstack hnodup
        · exact ⟨r, rfl, .inr ⟨_, _, _, hkey, .last hchars colon hspells hclose, rfl, hnodup⟩⟩
        · cases hkey' with
          | comma text =>
            rw [List.append_assoc] at hnodup'
            exact ⟨r, rfl, .inr ⟨_, _, _, hkey, .cons hchars colon hspells text hrest, by rw [List.append_assoc]; rfl, hnodup'⟩⟩
    · cases h
  · split at h
    · next e htoken =>
      cases h
      obtain ⟨r, state, stack', htext, hstack', rfl⟩ := Decoder.token_close (.inr rfl) htoken
      cases hstack.symm.trans hstack'
      exact ⟨r, rfl, .inl ⟨htext, rfl⟩⟩
    · cases h

theorem reads (n : Nat) : ReadsValue n ∧ ReadsItems n ∧ ReadsMembers n := by
  induction n with
  | zero =>
    refine ⟨?_, ?_, ?_⟩
    · intro d d' g h
      cases h
    · intro d d' g items outer stack h
      cases h
    · intro d d' g entries outer stack h
      cases h
  | succ n ih => exact ⟨readsValue_succ ih.2.1 ih.2.2, readsItems_succ ih.1 ih.2.1, readsMembers_succ ih.1 ih.2.2⟩

/-! ### What is spelled is accepted -/

section
variable {s s₀ r : Str} {state state₀ outer : TokenState} {stack : List TokenState}

theorem length_lead (h : Lead state₀ s₀ state s) : s.length ≤ s₀.length := by
  cases h with
  | here => exact Json.Grammar.length_skipSpace_le _
  | comma text => exact (Json.Grammar.length_skipSpace_le _).trans (Json.Grammar.length_of_skipSpace text).le
  | colon text => exact (Json.Grammar.length_skipSpace_le _).trans (Json.Grammar.length_of_skipSpace text).le

theorem length_keyLead (h : KeyLead state₀ s₀ s) : s.length ≤ s₀.length := by
  cases h with
  | here => exact Json.Grammar.length_skipSpace_le _
  | comma text => exact (Json.Grammar.length_skipSpace_le _).trans (Json.Grammar.length_of_skipSpace text).le

theorem token_of_opens {t : Token} {d' : Decoder} (h : Lead state₀ s₀ state s) (hopens : Opens ⟨s₀, state₀, stack⟩ state s t d') :
    Decoder.token ⟨s₀, state₀, stack⟩ = .ok (t, d') := by
  refine Decoder.token_eq_ok.mpr ?_
  cases h with
  | here _ allowed =>
    refine .inl ?_
    cases hopens with
    | array text => exact .openArray text allowed
    | object text => exact .openObject text allowed
    | value value => exact .value allowed value
  | comma text =>
    refine .inr ⟨_, .itemComma text rfl, ?_⟩
    cases hopens with
    | array text => exact .openArray text rfl
    | object text => exact .openObject text rfl
    | value value => exact .value rfl value
  | colon text =>
    refine .inr ⟨_, .colon text rfl, ?_⟩
    cases hopens with
    | array text => exact .openArray text rfl
    | object text => exact .openObject text rfl
    | value value => exact .value rfl value

theorem token_of_key {l : List Piece} (h : KeyLead state₀ s₀ (34 :: s)) (hchars : Chars s l r) :
    Decoder.token ⟨s₀, state₀, stack⟩ = .ok (.value (.string (unquote l)), ⟨r, .objectColon, stack⟩) := by
  have hkey := Decoder.decode_string hchars
  refine Decoder.token_eq_ok.mpr ?_
  generalize hs : (34 :: s : Str) = t at h
  cases h with
  | here => exact .inl (.key hs.symm (.inl rfl) hkey)
  | comma text => exact .inr ⟨_, .memberComma text rfl, .key hs.symm (.inr rfl) hkey⟩

theorem more_of_head {c : Nat} {t : Str} (h : skipSpace s₀ = c :: t) (hc : c ≠ 93 ∧ c ≠ 125) : Decoder.more ⟨s₀, state₀, stack⟩ = true := by
  simp [Decoder.more, h, hc.1, hc.2]

theorem more_of_lead {c : Nat} {t : Str} (h : Lead state₀ s₀ state (c :: t)) (hc : c ≠ 93 ∧ c ≠ 125) :
    Decoder.more ⟨s₀, state₀, stack⟩ = true := by
  generalize hs : (c :: t : Str) = s at h
  cases h with
  | here => exact more_of_head hs.symm hc
  | comma text => exact more_of_head text (by decide)
  | colon text => exact more_of_head text (by decide)

theorem more_of_keyLead (h : KeyLead state₀ s₀ (34 :: s)) : Decoder.more ⟨s₀, state₀, stack⟩ = true := by
  generalize hs : (34 :: s : Str) = t at h
  cases h with
  | here => exact more_of_head hs.symm (by decide)
  | comma text => exact more_of_head text (by decide)

theorem not_more_of_close {c : Nat} (hc : c = 93 ∨ c = 125) (h : skipSpace s₀ = c :: r) : Decoder.more ⟨s₀, state₀, stack⟩ = false := by
  rcases hc with rfl | rfl <;> simp [Decoder.more, h]

/-- A bracket ends the loop over the items. -/
theorem decodeItems_close {n : Nat} {items : List GoValue} (hn : 0 < n) (hclose : skipSpace s₀ = 93 :: r)
    (hstate : state₀ = .arrayStart ∨ state₀ = .arrayComma) :
    decodeItems n items ⟨s₀, state₀, outer :: stack⟩ = .ok (.slice items, ⟨r, tokenValueEnd outer, stack⟩) := by
  obtain ⟨n, rfl⟩ := Nat.exists_eq_succ_of_ne_zero hn.ne'
  have htoken : Decoder.token ⟨s₀, state₀, outer :: stack⟩ = .ok (.delim 93, ⟨r, tokenValueEnd outer, stack⟩) :=
    Decoder.token_eq_ok.mpr (.inl (.closeArray hclose hstate rfl))
  rw [decodeItems, not_more_of_close (.inl rfl) hclose, if_neg Bool.false_ne_true, htoken]
  rfl

/-- A brace ends the loop over the members. -/
theorem decodeMembers_close {n : Nat} {entries : List (Str × GoValue)} (hn : 0 < n) (hclose : skipSpace s₀ = 125 :: r)
    (hstate : state₀ = .objectStart ∨ state₀ = .objectComma) :
    decodeMembers n entries ⟨s₀, state₀, outer :: stack⟩ = .ok (.map entries, ⟨r, tokenValueEnd outer, stack⟩) := by
  obtain ⟨n, rfl⟩ := Nat.exists_eq_succ_of_ne_zero hn.ne'
  have htoken : Decoder.token ⟨s₀, state₀, outer :: stack⟩ = .ok (.delim 125, ⟨r, tokenValueEnd outer, stack⟩) :=
    Decoder.token_eq_ok.mpr (.inl (.closeObject hclose hstate rfl))
  rw [decodeMembers, not_more_of_close (.inr rfl) hclose, if_neg Bool.false_ne_true, htoken]
  rfl

/-- Where a separator, a bracket or nothing follows, a number has ended. -/
theorem ends_of_skipSpace (h : ∀ c ∈ (skipSpace r).head?, c = 44 ∨ c = 93 ∨ c = 125) : Ends r := by
  cases r with
  | nil => nofun
  | cons c r =>
    rintro d ⟨⟩
    have hend : isSpace c = true ∨ c = 44 ∨ c = 93 ∨ c = 125 := by
      by_cases hc : isSpace c = true
      · exact .inl hc
      · refine .inr (h c ?_)
        rw [skipSpace, List.dropWhile_cons, if_neg hc]
        rfl
    have hvalue : c = 32 ∨ c = 9 ∨ c = 10 ∨ c = 13 ∨ c = 44 ∨ c = 93 ∨ c = 125 := by
      simp only [isSpace, Bool.or_eq_true, beq_iff_eq] at hend
      tauto
    rcases hvalue with rfl | rfl | rfl | rfl | rfl | rfl | rfl <;> decide

theorem ends_of_head {c : Nat} {t : Str} (h : skipSpace r = c :: t) (hc : c = 44 ∨ c = 93 ∨ c = 125) : Ends r := by
  refine ends_of_skipSpace fun d hd => ?_
  rw [h] at hd
  cases hd
  exact hc

end

theorem Spells.head {s r : Str} {a : Raw} {g : GoValue} (h : Spells unquote s a g r) : ∃ c t, s = c :: t ∧ c ≠ 93 ∧ c ≠ 125 := by
  cases h with
  | number literal =>
    obtain ⟨c, t, rfl, hc⟩ := Java.Parser.head_number (literal.mono Java.extends_digit)
    exact ⟨c, t, rfl, by omega, by omega⟩
  | _ => exact ⟨_, _, rfl, by decide⟩

theorem not_mem_of_nodup {entries es : List (Str × GoValue)} {k : Str} {g : GoValue}
    (h : ((entries ++ (k, g) :: es).map (·.1)).Nodup) : k ∉ entries.map (·.1) := by
  rw [List.map_append, List.nodup_append] at h
  exact fun hk => h.2.2 k hk k List.mem_cons_self rfl

theorem decode_number {s t r : Str} {l : Literal} (h : Number ascii s l r) (htext : s = t ++ r) (hend : Ends r) :
    Decoder.decode s = some (.number t, r) := by
  obtain ⟨u, hu⟩ := Scanner.number_complete h hend
  obtain ⟨hsplit, -⟩ := Scanner.number_sound hu
  obtain rfl : t = u := List.append_cancel_right (htext.symm.trans hsplit)
  cases s with
  | nil => cases hu
  | cons c s =>
    have hhead := Decoder.isNumeral_of_number h
    rw [Decoder.decode, if_neg (by omega), if_neg (by omega), if_neg (by omega), if_neg (by omega), hu]
    rfl

/-- What is decoded in one piece is read, where a value starts. -/
theorem decodeStrictValue_piece {n : Nat} {s s₀ r : Str} {state state₀ : TokenState} {stack : List TokenState} {g : GoValue}
    (h : Decoder.decode s = some (g, r)) (hlead : Lead state₀ s₀ state s) (hn : 2 * s₀.length + 1 ≤ n) :
    decodeStrictValue n ⟨s₀, state₀, stack⟩ = .ok (g, ⟨r, tokenValueEnd state, stack⟩) := by
  obtain ⟨n, rfl⟩ := Nat.exists_eq_succ_of_ne_zero (by omega : n ≠ 0)
  rw [decodeStrictValue, token_of_opens hlead (.value h), ok_bind]

/-- With enough fuel, a value that is spelled is read where a value starts. -/
def DecodesValue (n : Nat) : Prop :=
  ∀ {s s₀ r : Str} {a : Raw} {g : GoValue} {state state₀ : TokenState} {stack : List TokenState},
    Spells unquote s a g r → Ends r → Lead state₀ s₀ state s → 2 * s₀.length + 1 ≤ n →
    decodeStrictValue n ⟨s₀, state₀, stack⟩ = .ok (g, ⟨r, tokenValueEnd state, stack⟩)

def DecodesItems (n : Nat) : Prop :=
  ∀ {s s₀ r : Str} {l : List Raw} {items gs : List GoValue} {state state₀ outer : TokenState} {stack : List TokenState},
    SpellsItems unquote s l gs r → (state₀ = .arrayStart ∨ state₀ = .arrayComma) → Lead state₀ s₀ state s → 2 * s₀.length + 2 ≤ n →
    decodeItems n items ⟨s₀, state₀, outer :: stack⟩ = .ok (.slice (items ++ gs), ⟨r, tokenValueEnd outer, stack⟩)

def DecodesMembers (n : Nat) : Prop :=
  ∀ {s s₀ r : Str} {f : List (List Piece × Raw)} {entries es : List (Str × GoValue)} {state₀ outer : TokenState} {stack : List TokenState},
    SpellsFields unquote s f es r → KeyLead state₀ s₀ s → ((entries ++ es).map (·.1)).Nodup → 2 * s₀.length + 2 ≤ n →
    decodeMembers n entries ⟨s₀, state₀, outer :: stack⟩ = .ok (.map (entries ++ es), ⟨r, tokenValueEnd outer, stack⟩)

theorem decodesValue_succ {n : Nat} (hitems : DecodesItems n) (hmembers : DecodesMembers n) : DecodesValue (n + 1) := by
  intro s s₀ r a g state state₀ stack h hend hlead hn
  have hlength := length_lead hlead
  cases h with
  | null r => exact decodeStrictValue_piece (by simp [Decoder.decode, dropPrefix?_eq_some, Str.lit]) hlead hn
  | true r => exact decodeStrictValue_piece (by simp [Decoder.decode, dropPrefix?_eq_some, Str.lit]) hlead hn
  | false r => exact decodeStrictValue_piece (by simp [Decoder.decode, dropPrefix?_eq_some, Str.lit]) hlead hn
  | number literal text => exact decodeStrictValue_piece (decode_number literal text hend) hlead hn
  | string chars => exact decodeStrictValue_piece (Decoder.decode_string chars) hlead hn
  | emptyArr close =>
    rw [List.length_cons] at hlength
    rw [decodeStrictValue, token_of_opens hlead (.array rfl), ok_bind]
    exact decodeItems_close (by omega) close (.inl rfl)
  | arr items =>
    rw [List.length_cons] at hlength
    rw [decodeStrictValue, token_of_opens hlead (.array rfl), ok_bind]
    exact hitems items (.inl rfl) (.here _ rfl) (by omega)
  | emptyObj close =>
    rw [List.length_cons] at hlength
    rw [decodeStrictValue, token_of_opens hlead (.object rfl), ok_bind]
    exact decodeMembers_close (by omega) close (.inl rfl)
  | obj fields distinct =>
    rw [List.length_cons] at hlength
    rw [decodeStrictValue, token_of_opens hlead (.object rfl), ok_bind]
    exact hmembers fields (.here _) distinct (by omega)

theorem decodesItems_succ {n : Nat} (hvalue : DecodesValue n) (hitems : DecodesItems n) : DecodesItems (n + 1) := by
  intro s s₀ r l items gs state state₀ outer stack h hstate hlead hn
  have hle := length_lead hlead
  have hnext := lead_item hlead hstate
  cases h with
  | last value close =>
    obtain ⟨c, t, rfl, hc⟩ := value.head
    rw [decodeItems, if_pos (more_of_lead hlead hc), hvalue value (ends_of_head close (.inr (.inl rfl))) hlead (by omega), ok_bind, hnext]
    exact decodeItems_close (by omega) close (.inr rfl)
  | cons value comma rest =>
    obtain ⟨c, t, rfl, hc⟩ := value.head
    have hlength := value.document.length
    rw [decodeItems, if_pos (more_of_lead hlead hc), hvalue value (ends_of_head comma (.inl rfl)) hlead (by omega), ok_bind, hnext]
    refine (hitems rest (.inr rfl) (.comma comma) (by omega)).trans ?_
    rw [List.append_assoc]
    rfl

theorem decodesMembers_succ {n : Nat} (hvalue : DecodesValue n) (hmembers : DecodesMembers n) : DecodesMembers (n + 1) := by
  intro s s₀ r f entries es state₀ outer stack h hlead hdistinct hn
  have hle := length_keyLead hlead
  have hmore : ∀ {t}, s = 34 :: t → Decoder.more ⟨s₀, state₀, outer :: stack⟩ = true := fun h => more_of_keyLead (h ▸ hlead)
  cases h with
  | last key colon value close =>
    have hkey := key.length
    rw [List.length_cons] at hle
    rw [decodeMembers, if_pos (hmore rfl), token_of_key hlead key, ok_bind]
    simp only [not_mem_of_nodup hdistinct, if_false]
    rw [hvalue value (ends_of_head close (.inr (.inr rfl))) (.colon colon) (by omega), ok_bind]
    have hcolon := Json.Grammar.length_of_skipSpace colon
    exact decodeMembers_close (by omega) close (.inr rfl)
  | cons key colon value comma rest =>
    have hkey := key.length
    have hcolon := Json.Grammar.length_of_skipSpace colon
    have hlength := value.document.length.trans_le (Json.Grammar.length_skipSpace_le _)
    rw [List.length_cons] at hle
    rw [decodeMembers, if_pos (hmore rfl), token_of_key hlead key, ok_bind]
    simp only [not_mem_of_nodup hdistinct, if_false]
    rw [hvalue value (ends_of_head comma (.inl rfl)) (.colon colon) (by omega), ok_bind]
    rw [List.append_cons] at hdistinct
    refine (hmembers rest (.comma comma) hdistinct (by omega)).trans ?_
    rw [List.append_assoc]
    rfl

theorem decodes (n : Nat) : DecodesValue n ∧ DecodesItems n ∧ DecodesMembers n := by
  induction n with
  | zero =>
    refine ⟨?_, ?_, ?_⟩
    · intro s s₀ r a g state state₀ stack _ _ _ hn
      omega
    · intro s s₀ r l items gs state state₀ outer stack _ _ _ hn
      omega
    · intro s s₀ r f entries es state₀ outer stack _ _ _ hn
      omega
  | succ n ih => exact ⟨decodesValue_succ ih.2.1 ih.2.2, decodesItems_succ ih.1 ih.2.1, decodesMembers_succ ih.1 ih.2.2⟩

/-! ### The loader -/

theorem round_eof {d : Decoder} (h : Decoder.round d = .error .eof) : skipSpace d.rest = [] := by
  have hpop : ∀ c r stack, Decoder.pop c r stack ≠ .error .eof := by
    rintro c r (_ | ⟨state, stack⟩) h <;> cases h
  unfold Decoder.round at h
  simp only at h
  split at h
  · next htext => exact htext
  · split_ifs at h
    any_goals cases h
    · exact absurd h (hpop _ _ _)
    · exact absurd h (hpop _ _ _)
    all_goals
      split at h
      · cases h
      · cases h

/-- After a whole text no token is left exactly where nothing but spaces is left. -/
theorem token_eof {s : Str} {stack : List TokenState} : Decoder.token ⟨s, .topValue, stack⟩ = .error .eof ↔ skipSpace s = [] := by
  constructor
  · intro h
    unfold Decoder.token at h
    cases hround : Decoder.round ⟨s, .topValue, stack⟩ with
    | error e =>
      rw [hround] at h
      cases h
      exact round_eof hround
    | ok p =>
      obtain ⟨_ | t, e⟩ := p
      · cases Decoder.round_of_eq_ok hround with
        | colon _ allowed => cases allowed
        | itemComma _ allowed => cases allowed
        | memberComma _ allowed => cases allowed
      · rw [hround] at h
        cases h
  · intro h
    have hround : Decoder.round ⟨s, .topValue, stack⟩ = .error .eof := by simp only [Decoder.round, h]
    rw [Decoder.token, hround]
    rfl

/-- The loader accepts the objects whose keys stay distinct, and gives the value that the text spells with its strings unquoted. -/
theorem strictJSONLoads_eq_ok {data : Bytes} {label : String} {g : GoValue} :
    strictJSONLoads data label = .ok g ↔
      ∃ s a entries, s.utf8? = some data ∧ SpellsText unquote s a g ∧ g = .map entries := by
  constructor
  · intro h
    unfold strictJSONLoads at h
    split at h
    · cases h
    · next s hs =>
      split at h
      · cases h
      · next value decoder hvalue =>
        obtain ⟨state, t, a, r, hlead, hspells, rfl⟩ := (reads _).1 hvalue ⟨nofun, nofun, nofun⟩
        cases hlead
        split at h
        · next heof =>
          split at h
          · next entries =>
            cases h
            exact ⟨s, a, entries, Str.decodeUtf8?_eq_some.mp hs, ⟨r, hspells, token_eof.mp heof⟩, rfl⟩
          · cases h
        · cases h
  · rintro ⟨s, a, entries, hs, ⟨r, hspells, hend⟩, rfl⟩
    have hends : Ends r := ends_of_skipSpace (by rw [hend]; nofun)
    have hlead : Lead .topValue s .topValue (skipSpace s) := .here s rfl
    have hvalue : decodeStrictValue (fuel s) ⟨s, .topValue, []⟩ = _ := (decodes (fuel s)).1 hspells hends hlead le_rfl
    have heof : Decoder.token ⟨r, tokenValueEnd .topValue, []⟩ = .error .eof := token_eof.mpr hend
    simp only [strictJSONLoads, Str.decodeUtf8?_eq_some.mpr hs, hvalue, heof]

/-- A sequence of bytes is one text and one document at most. -/
theorem document_unique {data : Bytes} {s s' : Str} {a a' : Raw} (hs : s.utf8? = some data) (hs' : s'.utf8? = some data)
    (h : Document ascii s a) (h' : Document ascii s' a') : s = s' ∧ a = a' := by
  obtain rfl : s = s' := Option.some.inj ((Str.decodeUtf8?_utf8 hs).symm.trans (Str.decodeUtf8?_utf8 hs'))
  exact ⟨rfl, Java.document_unique (h.mono Java.extends_digit) (h'.mono Java.extends_digit)⟩

theorem SpellsText.document {read : List Piece → Str} {s : Str} {a : Raw} {g : GoValue} (h : SpellsText read s a g) : Document ascii s a := by
  obtain ⟨r, hspells, hend⟩ := h
  exact ⟨r, hspells.document, hend⟩

/-- The value is what the bytes denote: every key and string is the one of the text, distinct keys stay distinct, and a number keeps its
    text. -/
def Faithful (data : Bytes) (g : GoValue) : Prop := ∃ s a, s.utf8? = some data ∧ SpellsText joinEscapes s a g

/-- The strings of a faithful value are those that the text denotes. -/
theorem Faithful.strings {data : Bytes} {g : GoValue} (h : Faithful data g) {s : Str} {a : Raw} (hs : s.utf8? = some data)
    (ha : Document ascii s a) : g.strings = a.strings.map joinEscapes := by
  obtain ⟨s', a', hs', hspells⟩ := h
  obtain ⟨rfl, rfl⟩ := document_unique hs hs' ha hspells.document
  obtain ⟨r, hspells, -⟩ := hspells
  exact hspells.strings

/-- What the loader gives for an accepted text is faithful exactly where the text escapes no unpaired surrogate. -/
theorem strictJSONLoads_faithful_iff {data : Bytes} {label : String} {g : GoValue} (h : strictJSONLoads data label = .ok g) :
    Faithful data g ↔ ∀ s a, s.utf8? = some data → Document ascii s a → ∀ l ∈ a.strings, Paired l := by
  obtain ⟨s, a, entries, hs, hspells, rfl⟩ := strictJSONLoads_eq_ok.mp h
  constructor
  · intro hfaithful s' a' hs' ha' l hl
    obtain ⟨rfl, rfl⟩ := document_unique hs hs' hspells.document ha'
    obtain ⟨r, hspells, -⟩ := hspells
    have hstrings := hspells.strings.symm.trans (hfaithful.strings hs ha')
    exact (paired_iff l).mp ((unquote_eq_iff l).mp (List.map_inj_left.mp hstrings l hl))
  · intro hpaired
    have hequal : ∀ l ∈ a.strings, unquote l = joinEscapes l := fun l hl =>
      (unquote_eq_iff l).mpr ((paired_iff l).mpr (hpaired s a hs hspells.document l hl))
    obtain ⟨r, hspells, hend⟩ := hspells
    exact ⟨s, a, hs, r, hspells.congr hequal, hend⟩

/-! ### An object with one escaped string -/

namespace LoadingSample

/-- The text `{"a":"…"}` around the escapes of a string. -/
def around (escapes : String) : Str := Str.lit "\x7b\"a\":\"" ++ Str.lit escapes ++ Str.lit "\"\x7d"

/-- A lone surrogate, and a pair. -/
def lone : String := "\\ud800"
def pair : String := "\\ud83d\\ude00"

theorem spells {escapes : String} {l : List Piece} (read : List Piece → Str) (h : Chars (Str.lit escapes ++ Str.lit "\"\x7d") l (Str.lit "\x7d")) :
    SpellsText read (around escapes) (.obj [([.char 97], .string l)]) (.map [(read [.char 97], .string (read l))]) := by
  refine ⟨[], .obj (.last (.char (by decide) (by decide) (by decide) (.close _)) rfl (.string h) rfl) ?_, rfl⟩
  exact List.nodup_singleton _

theorem chars_lone : Chars (Str.lit lone ++ Str.lit "\"\x7d") [.unit 0xD800] (Str.lit "\x7d") := .escape rfl (.close _)

theorem chars_pair : Chars (Str.lit pair ++ Str.lit "\"\x7d") [.unit 0xD83D, .unit 0xDE00] (Str.lit "\x7d") :=
  .escape rfl (.escape rfl (.close _))

end LoadingSample
open LoadingSample

theorem strictJSONLoads_not_faithful : strictJSONLoads (bytesOf (around lone)) "response" = .ok (.map [(Str.lit "a", .string [0xFFFD])]) ∧
    ¬Faithful (bytesOf (around lone)) (.map [(Str.lit "a", .string [0xFFFD])]) := by
  have hutf : (around lone).utf8? = some (bytesOf (around lone)) := by decide
  refine ⟨strictJSONLoads_eq_ok.mpr ⟨_, _, _, hutf, spells unquote chars_lone, rfl⟩, fun h => ?_⟩
  have hstrings := h.strings hutf (spells unquote chars_lone).document
  exact absurd hstrings (by decide)

theorem strictJSONLoads_faithful_pair : Faithful (bytesOf (around pair)) (.map [(Str.lit "a", .string [0x1F600])]) := by
  have hutf : (around pair).utf8? = some (bytesOf (around pair)) := by decide
  have hspells := spells unquote chars_pair
  have hloads : strictJSONLoads (bytesOf (around pair)) "response" = .ok (.map [(Str.lit "a", .string [0x1F600])]) :=
    strictJSONLoads_eq_ok.mpr ⟨_, _, _, hutf, hspells, rfl⟩
  refine (strictJSONLoads_faithful_iff hloads).mpr fun s a hs ha l hl => ?_
  obtain ⟨rfl, rfl⟩ := document_unique hutf hs hspells.document ha
  refine (paired_iff l).mp ?_
  revert l
  decide

end LeanCtx.Go
