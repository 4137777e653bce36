import LeanCtx.Json.Decoding

/-! `json.dumps` of Python values that need not be JSON: keys that are no strings are coerced, a number that is not finite has a text of
    its own, and a tuple is written as a list. Of a value that is JSON it is the canonical text. -/

namespace LeanCtx

/-- The exceptions that `json.dumps` and the encoding of its text raise. -/
inductive PyError
  | typeError
  | valueError
  | recursionError
  | unicodeError
deriving DecidableEq

/-- A key of a Python dictionary. -/
inductive PyKey
  | str (s : Str)
  | null
  | bool (b : Bool)
  | int (n : Int)
  | float (x : PyFloat)
  | nan
  | other
deriving DecidableEq

/-- A Python value. A dictionary has its items in some order. -/
inductive PyValue
  | null
  | bool (b : Bool)
  | int (n : Int)
  | float (x : PyFloat)
  | nan
  | str (s : Str)
  | list (items : List PyValue)
  | tuple (items : List PyValue)
  | dict (items : List (PyKey × PyValue))
  | other

/-! ### Texts -/

/-- `int.__repr__(n)`, which refuses an integer of too many digits. -/
def intRepr (n : Int) : Except PyError Str := if (natText n.natAbs).length ≤ Json.maxIntDigits then .ok (intText n) else .error .valueError

/-- The text of a float, `Infinity` and `-Infinity` included. -/
def floatRepr (x : PyFloat) : Str :=
  match x with
  | .inf neg => if neg then "-Infinity" else "Infinity"
  | x => x.repr?.getD []

namespace PyKey

def str? : PyKey → Option Str
  | .str s => some s
  | _ => none

def isNumber : PyKey → Bool
  | .bool _ | .int _ | .float _ | .nan => true
  | _ => false

/-- The string that a key is coerced to. -/
def coerce : PyKey → Except PyError Str
  | .str s => .ok s
  | .null => .ok "null"
  | .bool b => .ok (if b then "true" else "false")
  | .int n => intRepr n
  | .float x => .ok (floatRepr x)
  | .nan => .ok "NaN"
  | .other => .error .typeError

end PyKey

/-- Set a key among items in key order. -/
def insertItem {α : Type} (k : Str) (a : α) : List (Str × α) → List (Str × α)
  | [] => [(k, a)]
  | (j, b) :: f => if k < j then (k, a) :: (j, b) :: f else if k = j then (k, a) :: f else (j, b) :: insertItem k a f

/-- Items in key order. -/
def sortItems {α : Type} (f : List (Str × α)) : List (Str × α) := f.foldr (fun p g => insertItem p.1 p.2 g) []

/-- The order in which `sorted` leaves items whose keys are numbers. Python does not determine it where a NaN is among them. -/
abbrev NumericOrder := {f : List (PyKey × Except PyError Str) → List (PyKey × Except PyError Str) // ∀ l, (f l).Perm l}

namespace PyValue

section
variable (order : NumericOrder)

/-- `sorted(items)` of a dictionary: keys of two kinds do not compare. -/
def sorted (l : List (PyKey × Except PyError Str)) : Except PyError (List (PyKey × Except PyError Str)) :=
  match l.mapM fun p => p.1.str?.map fun s => (s, p.2) with
  | some f => .ok ((sortItems f).map fun p => (.str p.1, p.2))
  | none =>
    if l.length ≤ 1 then .ok l else if l.all (·.1.isNumber) = true then .ok (order.1 l) else .error .typeError

/-- The text of an item, the one of its value being given. -/
def itemText (p : PyKey × Except PyError Str) : Except PyError Str := do
  let key ← p.1.coerce
  let value ← p.2
  return Json.quote key ++ 58 :: value

mutual
/-- `json.dumps(value, sort_keys=True, separators=(",", ":"), ensure_ascii=False)`. -/
def dumps : PyValue → Except PyError Str
  | .null => .ok "null"
  | .bool b => .ok (if b then "true" else "false")
  | .int n => intRepr n
  | .float x => .ok (floatRepr x)
  | .nan => .ok "NaN"
  | .str s => .ok (Json.quote s)
  | .list l => do
    let ts ← dumpsList l
    return 91 :: Json.joinComma ts ++ [93]
  | .tuple l => do
    let ts ← dumpsList l
    return 91 :: Json.joinComma ts ++ [93]
  | .dict e => do
    let items ← sorted order (dumpsItems e)
    let ts ← items.mapM itemText
    return 123 :: Json.joinComma ts ++ [125]
  | .other => .error .typeError

def dumpsList : List PyValue → Except PyError (List Str)
  | [] => .ok []
  | v :: l => do
    let t ← dumps v
    let ts ← dumpsList l
    return t :: ts

/-- The items of a dictionary with the texts of their values, which are not asked for yet. -/
def dumpsItems : List (PyKey × PyValue) → List (PyKey × Except PyError Str)
  | [] => []
  | (k, v) :: e => (k, dumps v) :: dumpsItems e
end

/-- The encoded text of a value. Where the value is nested too deep for the interpreter, the encoder gives up. -/
def encode (deep : Bool) (v : PyValue) : Except PyError Bytes :=
  if deep = true then .error .recursionError
  else do
    let t ← v.dumps order
    match Str.utf8? t with
    | some b => return b
    | none => throw .unicodeError

end

/-! ### Values that are JSON -/

mutual
/-- The JSON value that a Python value equals, none where it equals none: a number that is not finite, a key that is no string. A tuple
    counts as the array that it is written as, and a dictionary holds a key once. -/
def json? : PyValue → Option Json
  | .null => some .null
  | .bool b => some (.bool b)
  | .int n => some (.int n)
  | .float x => if Json.isFinite x = true then some (.float x) else none
  | .nan => none
  | .str s => some (.str s)
  | .list l => (jsonList? l).map .arr
  | .tuple l => (jsonList? l).map .arr
  | .dict e => if (e.map (·.1)).Nodup then (jsonFields? e).map .obj else none
  | .other => none

def jsonList? : List PyValue → Option (List Json)
  | [] => some []
  | v :: l => (json? v).bind fun j => (jsonList? l).map (j :: ·)

def jsonFields? : List (PyKey × PyValue) → Option (List (Str × Json))
  | [] => some []
  | (k, v) :: e => k.str?.bind fun s => (json? v).bind fun j => (jsonFields? e).map ((s, j) :: ·)
end

/-- A value that JSON holds and that has an encoded text: its keys are strings, its numbers finite, its strings encode and its integers
    are not too long. A dictionary holds a key once. -/
inductive IsJson : PyValue → Prop
  | null : IsJson .null
  | bool (b : Bool) : IsJson (.bool b)
  | int {n : Int} (short : (natText n.natAbs).length ≤ Json.maxIntDigits) : IsJson (.int n)
  | float {x : PyFloat} (finite : Json.isFinite x = true) : IsJson (.float x)
  | str {s : Str} (scalar : s.all Str.isScalar = true) : IsJson (.str s)
  | list {l : List PyValue} (items : ∀ v ∈ l, IsJson v) : IsJson (.list l)
  | tuple {l : List PyValue} (items : ∀ v ∈ l, IsJson v) : IsJson (.tuple l)
  | dict {e : List (PyKey × PyValue)} (distinct : (e.map (·.1)).Nodup)
      (keys : ∀ p ∈ e, ∃ s : Str, p.1 = .str s ∧ s.all Str.isScalar = true) (values : ∀ p ∈ e, IsJson p.2) : IsJson (.dict e)

/-- Induction over a value: the items of a list and the values of a dictionary satisfy the predicate. -/
@[elab_as_elim] theorem induct {P : PyValue → Prop} (null : P .null) (bool : ∀ b, P (.bool b)) (int : ∀ n, P (.int n))
    (float : ∀ x, P (.float x)) (nan : P .nan) (str : ∀ s, P (.str s)) (list : ∀ l, (∀ v ∈ l, P v) → P (.list l))
    (tuple : ∀ l, (∀ v ∈ l, P v) → P (.tuple l)) (dict : ∀ e, (∀ p ∈ e, P p.2) → P (.dict e)) (other : P .other) : ∀ v, P v
  | .null => null
  | .bool b => bool b
  | .int n => int n
  | .float x => float x
  | .nan => nan
  | .str s => str s
  | .list l => list l fun v _hv => induct null bool int float nan str list tuple dict other v
  | .tuple l => tuple l fun v _hv => induct null bool int float nan str list tuple dict other v
  | .dict e => dict e fun p _hp => induct null bool int float nan str list tuple dict other p.2
  | .other => other
decreasing_by
  · have := List.sizeOf_lt_of_mem _hv
    simp only [PyValue.list.sizeOf_spec]
    omega
  · have := List.sizeOf_lt_of_mem _hv
    simp only [PyValue.tuple.sizeOf_spec]
    omega
  · have := List.sizeOf_lt_of_mem _hp
    obtain ⟨k, v⟩ := p
    simp only [PyValue.dict.sizeOf_spec, Prod.mk.sizeOf_spec] at this ⊢
    omega

/-! ### Items in order -/

section
variable {α β : Type}

theorem map_insertItem (g : α → β) (k : Str) (a : α) (f : List (Str × α)) :
    (insertItem k a f).map (fun p => (p.1, g p.2)) = insertItem k (g a) (f.map fun p => (p.1, g p.2)) := by
  induction f with
  | nil => rfl
  | cons p f ih =>
    obtain ⟨j, b⟩ := p
    simp only [insertItem, List.map_cons]
    split_ifs
    · rfl
    · rfl
    · rw [List.map_cons, ih]

theorem map_sortItems (g : α → β) (f : List (Str × α)) :
    (sortItems f).map (fun p => (p.1, g p.2)) = sortItems (f.map fun p => (p.1, g p.2)) := by
  induction f with
  | nil => rfl
  | cons p f ih => rw [sortItems, List.foldr_cons, map_insertItem, List.map_cons, sortItems, List.foldr_cons, ← sortItems, ← sortItems, ih]

theorem insertItem_eq (k : Str) (v : Json) (f : List (Str × Json)) : insertItem k v f = Json.insertField k v f := by
  induction f with
  | nil => rfl
  | cons p f ih =>
    obtain ⟨j, w⟩ := p
    rw [insertItem, Json.insertField, ih]

theorem sortItems_eq (f : List (Str × Json)) : sortItems f = Json.sortFields f := by
  induction f with
  | nil => rfl
  | cons p f ih => rw [sortItems, List.foldr_cons, ← sortItems, ih, insertItem_eq]; rfl

end

/-! ### What is written of a JSON value -/

theorem jsonList?_eq_some {l : List PyValue} {js : List Json} : jsonList? l = some js ↔ List.Forall₂ (fun v j => v.json? = some j) l js := by
  induction l generalizing js with
  | nil => simp [jsonList?, eq_comm]
  | cons v l ih =>
    simp only [jsonList?, Option.bind_eq_some_iff, Option.map_eq_some_iff, ih, List.forall₂_cons_left_iff]
    constructor
    · rintro ⟨j, hj, js, hjs, rfl⟩
      exact ⟨j, js, hj, hjs, rfl⟩
    · rintro ⟨j, js, hj, hjs, rfl⟩
      exact ⟨j, hj, js, hjs, rfl⟩

theorem str?_eq_some {k : PyKey} {s : Str} : k.str? = some s ↔ k = .str s := by
  cases k with
  | str t => simp [PyKey.str?]
  | _ => simp [PyKey.str?]

theorem jsonFields?_eq_some {e : List (PyKey × PyValue)} {f : List (Str × Json)} :
    jsonFields? e = some f ↔ List.Forall₂ (fun p q => p.1 = .str q.1 ∧ p.2.json? = some q.2) e f := by
  induction e generalizing f with
  | nil => simp [jsonFields?, eq_comm]
  | cons p e ih =>
    obtain ⟨k, v⟩ := p
    simp only [jsonFields?, Option.bind_eq_some_iff, Option.map_eq_some_iff, str?_eq_some, ih, List.forall₂_cons_left_iff]
    constructor
    · rintro ⟨s, hs, j, hj, f, hf, rfl⟩
      exact ⟨(s, j), f, ⟨hs, hj⟩, hf, rfl⟩
    · rintro ⟨⟨s, j⟩, f, ⟨hs, hj⟩, hf, rfl⟩
      exact ⟨s, hs, j, hj, f, hf, rfl⟩

/-- A text that may be missing, which the encoder refuses with a `ValueError`. -/
def given {α : Type} : Option α → Except PyError α
  | some a => .ok a
  | none => .error .valueError

theorem given_map {α β : Type} (g : α → β) (o : Option α) : given (o.map g) = (given o >>= fun a => pure (g a)) := by cases o <;> rfl

theorem given_bind {α β : Type} (o : Option α) (g : α → Option β) : given (o.bind g) = (given o >>= fun a => given (g a)) := by
  cases o <;> rfl

variable {order : NumericOrder}

theorem dumpsList_of_json {l : List PyValue} {js : List Json} (h : List.Forall₂ (fun v j => dumps order v = given j.plain.text?) l js) :
    dumpsList order l = given (Json.itemTexts? (js.map Json.plain)) := by
  induction h with
  | nil => rfl
  | cons hv hl ih =>
    rw [dumpsList, hv, ih, List.map_cons, Json.itemTexts?, given_bind]
    congr 1
    funext t
    rw [given_map]

theorem mapM_itemText (f : List (Str × Json)) :
    (f.map fun p => (PyKey.str p.1, given p.2.plain.text?)).mapM itemText = given (Json.fieldTexts? (f.map fun p => (p.1, p.2.plain))) := by
  induction f with
  | nil => rfl
  | cons p f ih =>
    rw [List.map_cons, List.map_cons, List.mapM_cons, ih, Json.fieldTexts?, given_bind, itemText]
    cases p.2.plain.text? with
    | none => rfl
    | some t =>
      cases Json.fieldTexts? (f.map fun p => (p.1, p.2.plain)) <;> rfl

theorem dumpsItems_of_json {e : List (PyKey × PyValue)} {f : List (Str × Json)}
    (h : List.Forall₂ (fun p q => p.1 = .str q.1 ∧ dumps order p.2 = given q.2.plain.text?) e f) :
    sorted order (dumpsItems order e) = .ok ((Json.sortFields f).map fun p => (.str p.1, given p.2.plain.text?)) := by
  have hitems : (dumpsItems order e).mapM (fun p => p.1.str?.map fun s => (s, p.2)) =
      some (f.map fun p => (p.1, given p.2.plain.text?)) := by
    induction h with
    | nil => rfl
    | @cons p q e f hp hl ih =>
      obtain ⟨k, v⟩ := p
      obtain ⟨rfl, hv⟩ := hp
      rw [dumpsItems, List.mapM_cons, ih, hv]
      rfl
  rw [sorted, hitems]
  simp only
  rw [← map_sortItems (fun j : Json => given j.plain.text?), sortItems_eq, List.map_map]
  rfl

theorem forall₂_of_mem {α β : Type} {R S : α → β → Prop} {l : List α} {m : List β} (h : List.Forall₂ R l m)
    (himp : ∀ a ∈ l, ∀ b, R a b → S a b) : List.Forall₂ S l m :=
  ((List.forall₂_and_left _ _).mpr ⟨himp, h⟩).imp fun _ b hab => hab.1 b hab.2

/-- Of a JSON value the canonical text is written. -/
theorem dumps_of_json (v : PyValue) : ∀ j, v.json? = some j → v.dumps order = given j.plain.text? := by
  induction v using PyValue.induct with
  | null => rintro j ⟨⟩; rfl
  | bool b => rintro j ⟨⟩; rfl
  | int n =>
    rintro j ⟨⟩
    rw [dumps, intRepr, Json.plain, Json.text?]
    split_ifs <;> rfl
  | float x =>
    intro j hj
    rw [json?] at hj
    split_ifs at hj with hfinite
    cases hj
    obtain ⟨t, ht, -⟩ := Json.hasText_float_iff.mpr hfinite
    have hrepr : x.repr? = some t := ht
    rw [dumps, Json.plain, ht]
    cases x with
    | inf neg => cases hfinite
    | finite neg m e hv => simp only [floatRepr, hrepr, Option.getD_some, given]
  | nan => rintro j ⟨⟩
  | str s => rintro j ⟨⟩; rfl
  | list l ih =>
    intro j hj
    rw [json?, Option.map_eq_some_iff] at hj
    obtain ⟨js, hjs, rfl⟩ := hj
    have hitems := dumpsList_of_json (forall₂_of_mem (jsonList?_eq_some.mp hjs) ih)
    rw [dumps, hitems, Json.plain, Json.text?, Json.plainList_eq, given_map]
  | tuple l ih =>
    intro j hj
    rw [json?, Option.map_eq_some_iff] at hj
    obtain ⟨js, hjs, rfl⟩ := hj
    have hitems := dumpsList_of_json (forall₂_of_mem (jsonList?_eq_some.mp hjs) ih)
    rw [dumps, hitems, Json.plain, Json.text?, Json.plainList_eq, given_map]
  | dict e ih =>
    intro j hj
    rw [json?] at hj
    split_ifs at hj
    obtain ⟨f, hf, rfl⟩ := Option.map_eq_some_iff.mp hj
    have hfields : List.Forall₂ (fun p q => p.1 = .str q.1 ∧ dumps order p.2 = given q.2.plain.text?) e f :=
      forall₂_of_mem (jsonFields?_eq_some.mp hf) fun p hp q hq => ⟨hq.1, ih p hp q.2 hq.2⟩
    have hitems := dumpsItems_of_json hfields
    rw [dumps, hitems, Json.plain, Json.text?, Json.plainFields_eq, given_map, ← Json.map_sortFields, ← mapM_itemText]
    rfl
  | other => rintro j ⟨⟩

theorem hasText_arr_plain (js : List Json) : (Json.arr js).plain.HasText ↔ ∀ j ∈ js, j.plain.HasText := by
  rw [Json.plain, Json.plainList_eq, Json.hasText_arr_iff, List.forall_mem_map]

theorem hasText_obj_plain {f : List (Str × Json)} (hnodup : (f.map (·.1)).Nodup) :
    (Json.obj f).plain.HasText ↔ ∀ p ∈ f, p.1.all Str.isScalar = true ∧ p.2.plain.HasText := by
  have hperm : (Json.sortFields (f.map fun p => (p.1, p.2.plain))).Perm (f.map fun p => (p.1, p.2.plain)) := by
    refine Json.perm_sortFields ?_
    rwa [List.map_map]
  rw [Json.plain, Json.plainFields_eq, Json.hasText_obj_iff]
  simp only [hperm.mem_iff, List.forall_mem_map]

theorem isJson_items {l : List PyValue} (ih : ∀ v ∈ l, v.IsJson ↔ ∃ j, v.json? = some j ∧ j.plain.HasText) :
    (∀ v ∈ l, v.IsJson) ↔ ∃ js, jsonList? l = some js ∧ ∀ j ∈ js, j.plain.HasText := by
  induction l with
  | nil => exact iff_of_true nofun ⟨[], rfl, nofun⟩
  | cons v l hrest =>
    obtain ⟨hv, hl⟩ := List.forall_mem_cons.mp ih
    rw [List.forall_mem_cons, hv, hrest hl]
    simp only [jsonList?, Option.bind_eq_some_iff, Option.map_eq_some_iff]
    constructor
    · rintro ⟨⟨j, hj, htext⟩, js, hjs, htexts⟩
      exact ⟨j :: js, ⟨j, hj, js, hjs, rfl⟩, List.forall_mem_cons.mpr ⟨htext, htexts⟩⟩
    · rintro ⟨_, ⟨j, hj, js, hjs, rfl⟩, htexts⟩
      obtain ⟨htext, htexts⟩ := List.forall_mem_cons.mp htexts
      exact ⟨⟨j, hj, htext⟩, js, hjs, htexts⟩

theorem isJson_fields {e : List (PyKey × PyValue)} (ih : ∀ p ∈ e, p.2.IsJson ↔ ∃ j, p.2.json? = some j ∧ j.plain.HasText) :
    ((∀ p ∈ e, ∃ s : Str, p.1 = .str s ∧ s.all Str.isScalar = true) ∧ ∀ p ∈ e, p.2.IsJson) ↔
      ∃ f, jsonFields? e = some f ∧ ∀ q ∈ f, q.1.all Str.isScalar = true ∧ q.2.plain.HasText := by
  induction e with
  | nil => exact iff_of_true ⟨nofun, nofun⟩ ⟨[], rfl, nofun⟩
  | cons p e hrest =>
    obtain ⟨k, v⟩ := p
    obtain ⟨hv, he⟩ := List.forall_mem_cons.mp ih
    have hrest := hrest he
    simp only [jsonFields?, Option.bind_eq_some_iff, Option.map_eq_some_iff, str?_eq_some, List.forall_mem_cons, hv]
    constructor
    · rintro ⟨⟨⟨s, hk, hs⟩, hkeys⟩, ⟨j, hj, htext⟩, hvalues⟩
      obtain ⟨f, hf, htexts⟩ := hrest.mp ⟨hkeys, hvalues⟩
      exact ⟨(s, j) :: f, ⟨s, hk, j, hj, f, hf, rfl⟩, List.forall_mem_cons.mpr ⟨⟨hs, htext⟩, htexts⟩⟩
    · rintro ⟨_, ⟨s, hk, j, hj, f, hf, rfl⟩, htexts⟩
      obtain ⟨⟨hs, htext⟩, htexts⟩ := List.forall_mem_cons.mp htexts
      obtain ⟨hkeys, hvalues⟩ := hrest.mpr ⟨f, hf, htexts⟩
      exact ⟨⟨⟨s, hk, hs⟩, hkeys⟩, ⟨j, hj, htext⟩, hvalues⟩

theorem nodup_fields {e : List (PyKey × PyValue)} {f : List (Str × Json)} (hf : jsonFields? e = some f) (h : (e.map (·.1)).Nodup) :
    (f.map (·.1)).Nodup := by
  have hkeys : e.map (·.1) = (f.map (·.1)).map PyKey.str := by
    have hpairs := jsonFields?_eq_some.mp hf
    clear hf h
    induction hpairs with
    | nil => rfl
    | cons hp hl ih => rw [List.map_cons, hp.1, ih]; rfl
  rw [hkeys] at h
  exact List.Nodup.of_map _ h

/-- A value that is written equals a JSON value, and that one has a text that encodes, exactly if it is JSON. -/
theorem isJson_iff (v : PyValue) : v.IsJson ↔ ∃ j, v.json? = some j ∧ j.plain.HasText := by
  induction v using PyValue.induct with
  | null => exact iff_of_true .null ⟨_, rfl, _, rfl, by decide⟩
  | bool b => exact iff_of_true (.bool b) ⟨_, rfl, _, rfl, by cases b <;> decide⟩
  | int n =>
    constructor
    · rintro (_ | _ | hshort)
      exact ⟨_, rfl, Json.hasText_int_iff.mpr hshort⟩
    · rintro ⟨_, ⟨⟩, htext⟩
      exact .int (Json.hasText_int_iff.mp htext)
  | float x =>
    constructor
    · rintro (_ | _ | _ | hfinite)
      exact ⟨_, if_pos hfinite, Json.hasText_float_iff.mpr hfinite⟩
    · rintro ⟨j, hj, -⟩
      rw [json?] at hj
      split_ifs at hj with hfinite
      exact .float hfinite
  | nan => exact iff_of_false nofun nofun
  | str s =>
    constructor
    · rintro (_ | _ | _ | _ | hscalar)
      exact ⟨_, rfl, Json.hasText_str_iff.mpr hscalar⟩
    · rintro ⟨_, ⟨⟩, htext⟩
      exact .str (Json.hasText_str_iff.mp htext)
  | list l ih =>
    constructor
    · intro h
      cases h with
      | list items =>
        obtain ⟨js, hjs, htexts⟩ := (isJson_items ih).mp items
        exact ⟨.arr js, by rw [json?, hjs]; rfl, (hasText_arr_plain js).mpr htexts⟩
    · rintro ⟨j, hj, htext⟩
      obtain ⟨js, hjs, rfl⟩ := Option.map_eq_some_iff.mp hj
      exact .list ((isJson_items ih).mpr ⟨js, hjs, (hasText_arr_plain js).mp htext⟩)
  | tuple l ih =>
    constructor
    · intro h
      cases h with
      | tuple items =>
        obtain ⟨js, hjs, htexts⟩ := (isJson_items ih).mp items
        exact ⟨.arr js, by rw [json?, hjs]; rfl, (hasText_arr_plain js).mpr htexts⟩
    · rintro ⟨j, hj, htext⟩
      obtain ⟨js, hjs, rfl⟩ := Option.map_eq_some_iff.mp hj
      exact .tuple ((isJson_items ih).mpr ⟨js, hjs, (hasText_arr_plain js).mp htext⟩)
  | dict e ih =>
    constructor
    · intro h
      cases h with
      | dict distinct keys values =>
        obtain ⟨f, hf, htexts⟩ := (isJson_fields ih).mp ⟨keys, values⟩
        refine ⟨.obj f, by rw [json?, if_pos distinct, hf]; rfl, (hasText_obj_plain ?_).mpr htexts⟩
        exact nodup_fields hf distinct
    · rintro ⟨j, hj, htext⟩
      rw [json?] at hj
      split_ifs at hj with distinct
      obtain ⟨f, hf, rfl⟩ := Option.map_eq_some_iff.mp hj
      obtain ⟨keys, values⟩ := (isJson_fields ih).mpr ⟨f, hf, (hasText_obj_plain (nodup_fields hf distinct)).mp htext⟩
      exact .dict distinct keys values
  | other => exact iff_of_false nofun nofun

end PyValue
end LeanCtx
