import LeanCtx.Json.Lexeme

/-! A JSON document as it is written: its strings with their escapes, its numbers as literals, its members in their order. The
    parsers of several languages read one grammar and differ in what they make of a string, a literal and an object. -/

namespace LeanCtx.Json
open PyFloat

/-- A character of a string literal: one that stands for itself, or a 16-bit unit that is escaped. -/
inductive Piece
  | char (c : Nat)
  | unit (u : Nat)
deriving DecidableEq

def Piece.code : Piece → Nat
  | char c => c
  | unit u => u

/-- A JSON document as it is written. -/
inductive Raw
  | null
  | bool (b : Bool)
  | number (l : Literal)
  | string (s : List Piece)
  | arr (items : List Raw)
  | obj (fields : List (List Piece × Raw))

namespace Raw

/-- Induction over a document: the items of an array and the values of an object satisfy the predicate. -/
@[elab_as_elim] theorem induct {P : Raw → Prop} (null : P .null) (bool : ∀ b, P (.bool b)) (number : ∀ l, P (.number l))
    (string : ∀ s, P (.string s)) (arr : ∀ l, (∀ a ∈ l, P a) → P (.arr l)) (obj : ∀ f, (∀ p ∈ f, P p.2) → P (.obj f)) : ∀ a, P a
  | .null => null
  | .bool b => bool b
  | .number l => number l
  | .string s => string s
  | .arr l => arr l fun a _ha => induct null bool number string arr obj a
  | .obj f => obj f fun p _hp => induct null bool number string arr obj p.2
decreasing_by
  · have := List.sizeOf_lt_of_mem _ha
    simp only [Raw.arr.sizeOf_spec]
    omega
  · have := List.sizeOf_lt_of_mem _hp
    obtain ⟨k, a⟩ := p
    simp only [Raw.obj.sizeOf_spec, Prod.mk.sizeOf_spec] at this ⊢
    omega

/-! ### Scanning -/

/-- The character that an escape after its backslash denotes. -/
def scanEscape : Str → Option (Piece × Str)
  | [] => none
  | e :: r =>
    if e = 34 ∨ e = 92 ∨ e = 47 then some (.char e, r)
    else if e = 98 then some (.char 8, r)
    else if e = 102 then some (.char 12, r)
    else if e = 110 then some (.char 10, r)
    else if e = 114 then some (.char 13, r)
    else if e = 116 then some (.char 9, r)
    else if e = 117 then (scanHex4 r).map fun (u, r) => (.unit u, r)
    else none

/-- A string after its opening quote, up to and past the closing one. The fuel bounds its length. -/
def scanString : Nat → Str → Option (List Piece × Str)
  | 0, _ => none
  | _ + 1, [] => none
  | n + 1, c :: r =>
    if c = 34 then some ([], r)
    else if c = 92 then (scanEscape r).bind fun (d, r) => (scanString n r).map fun (s, r) => (d :: s, r)
    else if c < 32 then none
    else (scanString n r).map fun (s, r) => (.char c :: s, r)

mutual
/-- The value at the head of a text, and the rest. -/
def scanValue : Nat → Str → Option (Raw × Str)
  | 0, _ => none
  | _ + 1, [] => none
  | n + 1, c :: r =>
    if c = 34 then (scanString (r.length + 1) r).map fun (s, r) => (.string s, r)
    else if c = 91 then
      if (skipSpace r).head? = some 93 then some (.arr [], (skipSpace r).tail)
      else (scanItems n (skipSpace r)).map fun (l, r) => (.arr l, r)
    else if c = 123 then
      if (skipSpace r).head? = some 125 then some (.obj [], (skipSpace r).tail)
      else (scanFields n (skipSpace r)).map fun (f, r) => (.obj f, r)
    else if c = 110 then (dropPrefix? "ull" r).map fun r => (.null, r)
    else if c = 116 then (dropPrefix? "rue" r).map fun r => (.bool true, r)
    else if c = 102 then (dropPrefix? "alse" r).map fun r => (.bool false, r)
    else (scanLiteral (c :: r)).map fun (l, r) => (.number l, r)

def scanItems : Nat → Str → Option (List Raw × Str)
  | 0, _ => none
  | n + 1, s =>
    (scanValue n s).bind fun (v, r) =>
      match skipSpace r with
      | 44 :: r => (scanItems n (skipSpace r)).map fun (l, r) => (v :: l, r)
      | 93 :: r => some ([v], r)
      | _ => none

def scanFields : Nat → Str → Option (List (List Piece × Raw) × Str)
  | 0, _ => none
  | _ + 1, [] => none
  | n + 1, c :: r =>
    if c = 34 then
      (scanString (r.length + 1) r).bind fun (k, r) =>
        match skipSpace r with
        | 58 :: r =>
          (scanValue n (skipSpace r)).bind fun (v, r) =>
            match skipSpace r with
            | 44 :: r => (scanFields n (skipSpace r)).map fun (f, r) => ((k, v) :: f, r)
            | 125 :: r => some ([(k, v)], r)
            | _ => none
        | _ => none
    else none
end

/-- A whole JSON text. -/
def scan (s : Str) : Option Raw :=
  match scanValue s.length (skipSpace s) with
  | some (v, r) => if skipSpace r = [] then some v else none
  | none => none

/-! ### Reading -/

/-- What a language makes of a string literal, a number literal and the members of an object. -/
structure Dialect where
  string : List Piece → Option Str
  number : Literal → Option Json
  object : List (Str × Json) → Option Json

mutual
/-- The value that a language reads. -/
def read (d : Dialect) : Raw → Option Json
  | .null => some .null
  | .bool b => some (.bool b)
  | .number l => d.number l
  | .string s => (d.string s).map .str
  | .arr l => (readItems d l).map .arr
  | .obj f => (readFields d f).bind d.object

def readItems (d : Dialect) : List Raw → Option (List Json)
  | [] => some []
  | v :: l => (read d v).bind fun w => (readItems d l).map (w :: ·)

def readFields (d : Dialect) : List (List Piece × Raw) → Option (List (Str × Json))
  | [] => some []
  | (k, v) :: f => (d.string k).bind fun j => (read d v).bind fun w => (readFields d f).map ((j, w) :: ·)
end

/-! ### What holds of every string, literal and object -/

/-- A string with its escapes read. Two escaped halves of a surrogate pair denote one character. -/
def joinEscapes : List Piece → Str
  | [] => []
  | .unit u :: .unit w :: l =>
    if (0xD800 ≤ u ∧ u ≤ 0xDBFF) ∧ 0xDC00 ≤ w ∧ w ≤ 0xDFFF then (0x10000 + (u - 0xD800) * 0x400 + (w - 0xDC00)) :: joinEscapes l
    else u :: joinEscapes (.unit w :: l)
  | p :: l => p.code :: joinEscapes l

mutual
/-- Every string that is no key satisfies `s`, every literal `n`, and the keys of every object `o`. -/
def every (s : Str → Bool) (n : Literal → Bool) (o : List Str → Bool) : Raw → Bool
  | .null => true
  | .bool _ => true
  | .number l => n l
  | .string t => s (joinEscapes t)
  | .arr l => everyItem s n o l
  | .obj f => o (f.map fun p => joinEscapes p.1) && everyField s n o f

def everyItem (s : Str → Bool) (n : Literal → Bool) (o : List Str → Bool) : List Raw → Bool
  | [] => true
  | a :: l => every s n o a && everyItem s n o l

def everyField (s : Str → Bool) (n : Literal → Bool) (o : List Str → Bool) : List (List Piece × Raw) → Bool
  | [] => true
  | (_, a) :: f => every s n o a && everyField s n o f
end

section Every
variable {s : Str → Bool} {n : Literal → Bool} {o : List Str → Bool}

theorem every_arr {l : List Raw} : every s n o (.arr l) = true ↔ ∀ a ∈ l, every s n o a = true := by
  rw [every]
  induction l with
  | nil => simp [everyItem]
  | cons a l ih => rw [everyItem, Bool.and_eq_true, ih, List.forall_mem_cons]

theorem every_obj {f : List (List Piece × Raw)} :
    every s n o (.obj f) = true ↔ o (f.map fun p => joinEscapes p.1) = true ∧ ∀ p ∈ f, every s n o p.2 = true := by
  have hfield : everyField s n o f = true ↔ ∀ p ∈ f, every s n o p.2 = true := by
    induction f with
    | nil => simp [everyField]
    | cons p f ih =>
      obtain ⟨k, a⟩ := p
      rw [everyField, Bool.and_eq_true, ih, List.forall_mem_cons]
  rw [every, Bool.and_eq_true, hfield]

end Every

/-! ### Python -/

/-- How Python reads: an integer where a literal has neither a fraction nor an exponent, and no key twice. -/
def python : Dialect where
  string s := some (joinEscapes s)
  number l :=
    if l.isFloat then some (.float (ofLiteral l))
    else if l.whole.length ≤ maxIntDigits then some (.int (if l.neg then -(ofDigits l.whole : Int) else ofDigits l.whole))
    else none
  object f := if (f.map (·.1)).Nodup then some (.obj (sortFields f)) else none

theorem python_string (s : List Piece) : python.string s = some (joinEscapes s) := rfl

/-! ### The parser reads what was scanned -/

theorem joinEscapes_pair {u w : Nat} (l : List Piece) (hu : 0xD800 ≤ u ∧ u ≤ 0xDBFF) (hw : 0xDC00 ≤ w ∧ w ≤ 0xDFFF) :
    joinEscapes (.unit u :: .unit w :: l) = (0x10000 + (u - 0xD800) * 0x400 + (w - 0xDC00)) :: joinEscapes l := by
  rw [joinEscapes, if_pos ⟨hu, hw⟩]

/-- A piece that does not start an escaped pair denotes its own code point. -/
theorem joinEscapes_cons {p : Piece} {l : List Piece}
    (h : ∀ u w m, p = .unit u → l = .unit w :: m → 0xD800 ≤ u ∧ u ≤ 0xDBFF → ¬ (0xDC00 ≤ w ∧ w ≤ 0xDFFF)) :
    joinEscapes (p :: l) = p.code :: joinEscapes l := by
  cases p with
  | char c => rw [joinEscapes]; rintro u w l ⟨⟩
  | unit u =>
    match l with
    | [] => rfl
    | .char c :: l => rw [joinEscapes]; rintro u w l - ⟨⟩
    | .unit w :: l =>
      rw [joinEscapes, if_neg fun hp => h u w l rfl rfl hp.1 hp.2]
      rfl

/-- An escaped unit starts with a backslash and a `u`. -/
theorem head_scanString {n w : Nat} {s r : Str} {l : List Piece} (h : scanString n s = some (.unit w :: l, r)) :
    ∃ q t, s = 92 :: 117 :: q ∧ scanHex4 q = some (w, t) := by
  cases n with
  | zero => cases h
  | succ n =>
    cases s with
    | nil => cases h
    | cons c s =>
      rw [scanString] at h
      split_ifs at h with hquote hslash hcontrol
      · cases h
      · obtain ⟨⟨p, t⟩, hescape, h⟩ := Option.bind_eq_some_iff.mp h
        obtain ⟨⟨m, r'⟩, -, h⟩ := Option.map_eq_some_iff.mp h
        cases h
        cases s with
        | nil => cases hescape
        | cons e s =>
          rw [scanEscape] at hescape
          split_ifs at hescape with h1 h2 h3 h4 h5 h6 h7
          all_goals try cases hescape
          obtain ⟨⟨v, t'⟩, hhex, hescape⟩ := Option.map_eq_some_iff.mp hescape
          cases hescape
          exact ⟨s, t, by rw [hslash, h7], hhex⟩
      · obtain ⟨⟨m, r'⟩, -, h⟩ := Option.map_eq_some_iff.mp h
        cases h

/-- How the parser's escape relates to the scanned one: it takes a low half that follows a high one with it. -/
inductive Escapes (s : Str) : Prop
  | fails (h : scanEscape s = none) (h' : Json.scanEscape s = none)
  | char (c : Nat) (r : Str) (h : scanEscape s = some (.char c, r)) (h' : Json.scanEscape s = some (c, r))
  | broken (u : Nat) (q : Str) (h : scanEscape s = some (.unit u, 92 :: 117 :: q)) (hq : scanHex4 q = none)
      (h' : Json.scanEscape s = none)
  | pair (u w : Nat) (q r : Str) (h : scanEscape s = some (.unit u, 92 :: 117 :: q)) (hu : 0xD800 ≤ u ∧ u ≤ 0xDBFF)
      (hq : scanHex4 q = some (w, r)) (hw : 0xDC00 ≤ w ∧ w ≤ 0xDFFF)
      (h' : Json.scanEscape s = some (0x10000 + (u - 0xD800) * 0x400 + (w - 0xDC00), r))
  | unit (u : Nat) (r : Str) (h : scanEscape s = some (.unit u, r)) (h' : Json.scanEscape s = some (u, r))
      (alone : 0xD800 ≤ u ∧ u ≤ 0xDBFF → ∀ q w t, r = 92 :: 117 :: q → scanHex4 q = some (w, t) → ¬ (0xDC00 ≤ w ∧ w ≤ 0xDFFF))

theorem scanEscape_unit {s r : Str} {u : Nat} :
    scanHex4 s = some (u, r) → Json.scanEscape (117 :: s) =
      if 0xD800 ≤ u ∧ u ≤ 0xDBFF then
        match r with
        | 92 :: 117 :: q =>
          match scanHex4 q with
          | none => none
          | some (w, q) =>
            if 0xDC00 ≤ w ∧ w ≤ 0xDFFF then some (0x10000 + (u - 0xD800) * 0x400 + (w - 0xDC00), q) else some (u, r)
        | _ => some (u, r)
      else some (u, r) := by
  intro h
  rw [Json.scanEscape]
  iterate 6 rw [if_neg (by decide)]
  refine (if_pos rfl).trans ?_
  generalize scanHex4 s = o at h
  subst h
  rfl

theorem escapes (s : Str) : Escapes s := by
  cases s with
  | nil => exact .fails rfl rfl
  | cons e s =>
    by_cases h117 : e = 117
    · subst h117
      cases hhex : scanHex4 s with
      | none => exact .fails (by simp [scanEscape, hhex]) (by simp [Json.scanEscape, hhex])
      | some p =>
        obtain ⟨u, r⟩ := p
        have hraw : scanEscape (117 :: s) = some (.unit u, r) := by simp [scanEscape, hhex]
        have hread := scanEscape_unit hhex
        by_cases hu : 0xD800 ≤ u ∧ u ≤ 0xDBFF
        · rw [if_pos hu] at hread
          split at hread
          · next q =>
            cases hlow : scanHex4 q with
            | none => exact .broken u q hraw hlow (by rw [hread, hlow])
            | some p =>
              obtain ⟨w, t⟩ := p
              simp only [hlow] at hread
              by_cases hw : 0xDC00 ≤ w ∧ w ≤ 0xDFFF
              · exact .pair u w q t hraw hu hlow hw (by rw [hread, if_pos hw])
              · refine .unit u _ hraw (by rw [hread, if_neg hw]) fun _ q' w' t' hq ht => ?_
                obtain rfl : q = q' := by simpa using hq
                rw [hlow] at ht
                obtain ⟨rfl, -⟩ := Prod.mk.inj (Option.some.inj ht)
                exact hw
          · next hr => exact .unit u r hraw hread fun _ q w t hq => (hr q hq).elim
        · exact .unit u r hraw (by rw [hread, if_neg hu]) fun h => absurd h hu
    · obtain ⟨h, h'⟩ | ⟨c, h, h'⟩ : (scanEscape (e :: s) = none ∧ Json.scanEscape (e :: s) = none) ∨
          ∃ c, scanEscape (e :: s) = some (.char c, s) ∧ Json.scanEscape (e :: s) = some (c, s) := by
        simp only [scanEscape, Json.scanEscape, if_neg h117]
        split_ifs <;> simp
      · exact .fails h h'
      · exact .char c s h h'

/-- The parser's string is the scanned one with its escapes joined. The parser takes a pair of escapes in one step and the
    scanner in two, so that the fuels differ. -/
theorem scanString_eq {n m : Nat} {s : Str} (hn : s.length < n) (hm : s.length < m) :
    Json.scanString n s = (scanString m s).map fun (p, r) => (joinEscapes p, r) := by
  induction n generalizing m s with
  | zero => exact absurd hn (Nat.not_lt_zero _)
  | succ n ih =>
    obtain ⟨m, rfl⟩ : ∃ k, m = k + 1 := ⟨m - 1, by omega⟩
    cases s with
    | nil => rfl
    | cons c s =>
      simp only [List.length_cons] at hn hm
      rw [Json.scanString, scanString]
      split_ifs with hquote hslash hcontrol
      · rfl
      · cases escapes s with
        | fails h h' => rw [h, h']; rfl
        | char d r h h' =>
          have hlen := length_scanEscape h'
          rw [h, h', Option.bind_some, Option.bind_some]
          dsimp only
          rw [ih (m := m) (by omega) (by omega), Option.map_map, Option.map_map]
          refine congrArg (Option.map · _) (funext ?_)
          rintro ⟨p, t⟩
          simp only [Function.comp]
          rw [joinEscapes_cons (by rintro u w l ⟨⟩)]
          rfl
        | broken u q h hq h' =>
          rw [h, h', Option.bind_none, Option.bind_some]
          cases m with
          | zero => rfl
          | succ m =>
            have hlow : scanEscape (117 :: q) = none := by simp [scanEscape, hq]
            dsimp only
            rw [scanString, if_neg (by decide), if_pos rfl, hlow]
            rfl
        | pair u w q r h hu hq hw h' =>
          have hlen := length_scanEscape h'
          have hlow : scanEscape (117 :: q) = some (.unit w, r) := by simp [scanEscape, hq]
          obtain ⟨m, rfl⟩ : ∃ k, m = k + 1 := ⟨m - 1, by omega⟩
          rw [h, h', Option.bind_some, Option.bind_some]
          dsimp only
          rw [scanString, if_neg (by decide), if_pos rfl, hlow, Option.bind_some, ih (m := m) (by omega) (by omega),
            Option.map_map, Option.map_map, Option.map_map]
          congr 1
          funext x
          obtain ⟨p, t⟩ := x
          exact congrArg (·, t) (joinEscapes_pair p hu hw).symm
        | unit u r h h' alone =>
          have hlen := length_scanEscape h'
          rw [h, h', Option.bind_some, Option.bind_some]
          dsimp only
          rw [ih (m := m) (by omega) (by omega), Option.map_map, Option.map_map]
          cases hrest : scanString m r with
          | none => rfl
          | some p =>
            obtain ⟨l, t⟩ := p
            simp only [Option.map_some, Function.comp]
            rw [joinEscapes_cons]
            · rfl
            · rintro u' w l' ⟨⟩ rfl hu hw
              obtain ⟨q, t', hr, hq⟩ := head_scanString hrest
              exact alone hu q w t' hr hq hw
      · rfl
      · rw [ih (m := m) (by omega) (by omega), Option.map_map, Option.map_map]
        refine congrArg (Option.map · _) (funext ?_)
        rintro ⟨p, t⟩
        simp only [Function.comp]
        rw [joinEscapes_cons (by rintro u w l ⟨⟩)]
        rfl

theorem scanNumber_eq (s : Str) :
    scanNumber s = (scanLiteral s).bind fun (l, r) => (python.number l).map (·, r) := by
  unfold scanNumber
  congr 1
  funext ⟨l, r⟩
  simp only [python]
  split_ifs <;> rfl

/-- What follows an item: a comma, the character that closes, or another one. -/
theorem separator_cases (close : Nat) (s : Str) :
    (∃ q, s = 44 :: q) ∨ (∃ q, s = close :: q) ∨ ((∀ q, s ≠ 44 :: q) ∧ ∀ q, s ≠ close :: q) := by
  by_cases h1 : ∃ q, s = 44 :: q
  · exact .inl h1
  · by_cases h2 : ∃ q, s = close :: q
    · exact .inr (.inl h2)
    · exact .inr (.inr ⟨not_exists.mp h1, not_exists.mp h2⟩)

/-- The values and the members that the parser reads are those that Python makes of the scanned ones. -/
theorem parse_eq (n : Nat) :
    (∀ s, parseValue n s = (scanValue n s).bind fun (a, r) => (read python a).map (·, r)) ∧
    (∀ s, parseItems n s = (scanItems n s).bind fun (l, r) => (readItems python l).map (·, r)) ∧
    ∀ s, parseFields n s = (scanFields n s).bind fun (f, r) => (readFields python f).map (·, r) := by
  induction n with
  | zero => exact ⟨fun _ => rfl, fun _ => rfl, fun _ => rfl⟩
  | succ n ih =>
    obtain ⟨ihvalue, ihitems, ihfields⟩ := ih
    refine ⟨fun s => ?_, fun s => ?_, fun s => ?_⟩
    · cases s with
      | nil => rfl
      | cons c r =>
        rw [parseValue, scanValue]
        split_ifs with h1 h2 h3 h4 h5 h6 h7 h8
        · rw [scanString_eq (Nat.lt_succ_self _) (Nat.lt_succ_self _)]
          cases scanString (r.length + 1) r <;> rfl
        · rfl
        · rw [ihitems]
          cases scanItems n (skipSpace r) with
          | none => rfl
          | some p =>
            obtain ⟨l, q⟩ := p
            simp only [Option.bind_some, Option.map_some, read]
            cases readItems python l <;> rfl
        · rfl
        · rw [ihfields]
          cases scanFields n (skipSpace r) with
          | none => rfl
          | some p =>
            obtain ⟨f, q⟩ := p
            simp only [Option.bind_some, Option.map_some, read]
            cases readFields python f with
            | none => rfl
            | some g =>
              simp only [Option.bind_some, Option.map_some, python]
              split_ifs <;> rfl
        · cases dropPrefix? "ull" r <;> rfl
        · cases dropPrefix? "rue" r <;> rfl
        · cases dropPrefix? "alse" r <;> rfl
        · rw [scanNumber_eq]
          cases scanLiteral (c :: r) <;> rfl
    · rw [parseItems, scanItems, ihvalue]
      cases scanValue n s with
      | none => rfl
      | some p =>
        obtain ⟨a, r⟩ := p
        simp only [Option.bind_some]
        cases hread : read python a with
        | none =>
          split
          · cases scanItems n _ <;> simp [readItems, hread]
          · simp [readItems, hread]
          · rfl
        | some v =>
          simp only [Option.map_some, Option.bind_some]
          rcases separator_cases 93 (skipSpace r) with ⟨q, hq⟩ | ⟨q, hq⟩ | ⟨h1, h2⟩
          · simp only [hq, ihitems]
            cases scanItems n (skipSpace q) with
            | none => rfl
            | some p =>
              obtain ⟨l, t⟩ := p
              simp only [Option.bind_some, Option.map_some, readItems, hread]
              cases readItems python l <;> rfl
          · simp [hq, readItems, hread]
          · repeat' split
            all_goals first | rfl | simp_all
    · cases s with
      | nil => rfl
      | cons c r =>
        rw [parseFields, scanFields]
        split_ifs with hquote
        · rw [scanString_eq (Nat.lt_succ_self _) (Nat.lt_succ_self _)]
          cases scanString (r.length + 1) r with
          | none => rfl
          | some p =>
            obtain ⟨k, q⟩ := p
            simp only [Option.map_some, Option.bind_some]
            by_cases hcolon : ∃ t, skipSpace q = 58 :: t
            · obtain ⟨t, ht⟩ := hcolon
              simp only [ht, ihvalue]
              cases scanValue n (skipSpace t) with
              | none => rfl
              | some p =>
                obtain ⟨a, u⟩ := p
                simp only [Option.bind_some]
                cases hread : read python a with
                | none =>
                  split
                  · cases scanFields n _ <;> simp [readFields, hread]
                  · simp [readFields, hread]
                  · rfl
                | some v =>
                  simp only [Option.map_some, Option.bind_some]
                  rcases separator_cases 125 (skipSpace u) with ⟨w, hw⟩ | ⟨w, hw⟩ | ⟨h1, h2⟩
                  · simp only [hw, ihfields]
                    cases scanFields n (skipSpace w) with
                    | none => rfl
                    | some p =>
                      obtain ⟨f, x⟩ := p
                      simp only [Option.bind_some, Option.map_some, readFields, hread, python_string]
                      cases readFields python f <;> rfl
                  · simp [hw, readFields, hread, python_string]
                  · repeat' split
                    all_goals first | rfl | simp_all
            · rw [not_exists] at hcolon
              repeat' split
              all_goals first | rfl | simp_all
        · rfl

/-- The parser's value is what Python makes of the scanned document. -/
theorem parse?_eq (t : Str) : parse? t = (scan t).bind (read python) := by
  unfold parse? scan
  rw [(parse_eq t.length).1]
  cases scanValue t.length (skipSpace t) with
  | none => rfl
  | some p =>
    obtain ⟨a, r⟩ := p
    simp only [Option.bind_some]
    cases hread : read python a with
    | none => split_ifs <;> simp [hread]
    | some v => split_ifs <;> simp [*]

end Raw
end LeanCtx.Json
