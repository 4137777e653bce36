import LeanCtx.Workspace.Error
import LeanCtx.Python.Sha256

/-! The fields of workspace records: bounded texts, UUIDs, digests, references, sorted sets and positive integers.
    A field's type carries its validity; reading it from a JSON value raises the error of the first check it
    fails. -/

namespace LeanCtx

/-! ### Texts -/

/-- A text that `_text` accepts: encodable, not empty, at most `max` bytes of UTF-8, no control character. -/
def isText (max : Nat) (s : Str) : Bool :=
  s.all Str.isScalar && !s.isEmpty && s.utf8Length ≤ max && s.all (32 ≤ ·)

/-- A text field of at most `max` bytes. -/
abbrev Text (max : Nat) := {s : Str // isText max s = true}

instance : LawfulBEq (Text 128) := inferInstance

def Text.json {max : Nat} (t : Text max) : Json := .str t.1

theorem Text.json_ne_null {max : Nat} (t : Text max) : t.json ≠ .null := Json.noConfusion

/-- The error of a value that is no text field. -/
def textError (field : String) (max : Nat) : Json → Err
  | .str s =>
    if !s.all Str.isScalar then .validation (field ++ " is not valid UTF-8")
    else if s.isEmpty then .validation (field ++ " must not be empty")
    else if max < s.utf8Length then .validation (field ++ " exceeds its UTF-8 bound")
    else .validation (field ++ " contains a control character")
  | _ => .validation (field ++ " must be a string")

/-- `_text(value, field_name, maximum)`. -/
def text (v : Json) (field : String) (max : Nat) : Except Err (Text max) :=
  match v with
  | .str s => if h : isText max s = true then .ok ⟨s, h⟩ else .error (textError field max (.str s))
  | v => .error (textError field max v)

@[simp] theorem text_json {max : Nat} (t : Text max) (field : String) : text t.json field max = .ok t := by
  simp [text, Text.json, t.2]

theorem text_eq_ok {v : Json} {field : String} {max : Nat} {t : Text max} : text v field max = .ok t ↔ v = t.json := by
  refine ⟨fun h => ?_, fun h => h ▸ text_json t field⟩
  unfold text at h
  split at h
  · split_ifs at h
    cases h
    rfl
  · cases h

/-- `_text(value, field_name, maximum)` of the parallel-context records, whose errors differ. -/
def parallelText (v : Json) (field : String) (max : Nat) : Except Err (Text max) :=
  catching (text v field max) fun _ => match v with
    | .str s =>
      if s.isEmpty then .validation (field ++ " must be a non-empty string")
      else if !s.all Str.isScalar then .validation (field ++ " must be valid UTF-8")
      else if max < s.utf8Length ∨ 0 ∈ s then .validation (field ++ " exceeds its bound")
      else .validation (field ++ " contains a control character")
    | _ => .validation (field ++ " must be a non-empty string")

@[simp] theorem parallelText_json {max : Nat} (t : Text max) (field : String) :
    parallelText t.json field max = .ok t := by
  simp [parallelText]

/-- `_optional_text(value, field_name, maximum)`. -/
def optionalText (v : Json) (field : String) (max : Nat) : Except Err (Option (Text max)) :=
  match v with
  | .null => .ok none
  | v => some <$> text v field max

/-- The value of an optional field. -/
def optional {α : Type} (f : α → Json) : Option α → Json
  | none => .null
  | some a => f a

@[simp] theorem optionalText_json {max : Nat} (t : Option (Text max)) (field : String) :
    optionalText (optional Text.json t) field max = .ok t := by
  cases t with
  | none => rfl
  | some t =>
    have h := text_json t field
    simp only [optional, optionalText, Text.json] at h ⊢
    rw [h]
    rfl

/-- A text that may hold control characters other than NUL. -/
def isTask (max : Nat) (s : Str) : Bool :=
  s.all Str.isScalar && !s.isEmpty && s.utf8Length ≤ max && !s.contains 0

abbrev Task (max : Nat) := {s : Str // isTask max s = true}

def Task.json {max : Nat} (t : Task max) : Json := .str t.1

/-- `_text(value, field_name, maximum, controls=False)` of the parallel-context records. -/
def taskText (v : Json) (field : String) (max : Nat) : Except Err (Task max) :=
  match v with
  | .str s =>
    if h : isTask max s = true then .ok ⟨s, h⟩
    else if s.isEmpty then .error (.validation (field ++ " must be a non-empty string"))
    else if !s.all Str.isScalar then .error (.validation (field ++ " must be valid UTF-8"))
    else .error (.validation (field ++ " exceeds its bound"))
  | _ => .error (.validation (field ++ " must be a non-empty string"))

@[simp] theorem taskText_json {max : Nat} (t : Task max) (field : String) : taskText t.json field max = .ok t := by
  simp [taskText, Task.json, t.2]

/-! ### UUIDs, digests and references -/

/-- A canonical lowercase UUID. -/
def isUuid (s : Str) : Bool :=
  s.length == 36 && s.zipIdx.all fun (c, i) =>
    if i = 8 ∨ i = 13 ∨ i = 18 ∨ i = 23 then c == 45 else Sha256.isHex c

abbrev Uuid := {s : Str // isUuid s = true}

def Uuid.json (u : Uuid) : Json := .str u.1

/-- `_uuid(value, field_name)`. -/
def uuid (v : Json) (field : String) : Except Err Uuid :=
  match v with
  | .str s =>
    if h : isUuid s = true then .ok ⟨s, h⟩ else .error (.validation (field ++ " must be a canonical lowercase UUID"))
  | _ => .error (.validation (field ++ " must be a canonical lowercase UUID"))

@[simp] theorem uuid_json (u : Uuid) (field : String) : uuid u.json field = .ok u := by
  simp [uuid, Uuid.json, u.2]

theorem uuid_eq_ok {v : Json} {field : String} {u : Uuid} : uuid v field = .ok u ↔ v = u.json := by
  refine ⟨fun h => ?_, fun h => h ▸ uuid_json u field⟩
  unfold uuid at h
  split at h
  · split_ifs at h
    cases h
    rfl
  · cases h

/-- `sha256:` and 64 lowercase hexadecimal digits. -/
def isDigest (s : Str) : Bool := decide (Str.lit "sha256:" <+: s) && s.length == 71 && (s.drop 7).all Sha256.isHex

abbrev Digest := {s : Str // isDigest s = true}

def Digest.json (d : Digest) : Json := .str d.1

/-- The 64 hexadecimal digits: `digest.removeprefix("sha256:")`. -/
def Digest.hex (d : Digest) : Str := d.1.drop 7

/-- `_digest_value(value, field_name)`. -/
def digestValue (v : Json) (field : String) : Except Err Digest :=
  match v with
  | .str s =>
    if h : isDigest s = true then .ok ⟨s, h⟩ else .error (.validation (field ++ " must be a sha256 digest"))
  | _ => .error (.validation (field ++ " must be a sha256 digest"))

@[simp] theorem digestValue_json (d : Digest) (field : String) : digestValue d.json field = .ok d := by
  simp [digestValue, Digest.json, d.2]

theorem digestValue_eq_ok {v : Json} {field : String} {d : Digest} : digestValue v field = .ok d ↔ v = d.json := by
  refine ⟨fun h => ?_, fun h => h ▸ digestValue_json d field⟩
  unfold digestValue at h
  split at h
  · split_ifs at h
    cases h
    rfl
  · cases h

/-- A digest or nothing. -/
def optionalDigest (v : Json) (field : String) : Except Err (Option Digest) :=
  match v with
  | .null => .ok none
  | v => some <$> digestValue v field

@[simp] theorem optionalDigest_json (d : Option Digest) (field : String) :
    optionalDigest (optional Digest.json d) field = .ok d := by
  cases d with
  | none => rfl
  | some d =>
    have h := digestValue_json d field
    simp only [optional, optionalDigest, Digest.json] at h ⊢
    rw [h]
    rfl

theorem lit_sha256 : Str.lit "sha256:" = [115, 104, 97, 50, 53, 54, 58] := by decide

/-- The digest of bytes: `"sha256:" + hashlib.sha256(data).hexdigest()`. -/
def digestOf (data : Bytes) : Digest :=
  ⟨Str.lit "sha256:" ++ Sha256.hexdigest data, by
    simp only [isDigest, lit_sha256, List.length_cons, Sha256.length_hexdigest, List.cons_append, List.drop_succ_cons,
      List.drop_zero, List.nil_append, Sha256.isHex_hexdigest]
    rfl⟩

/-- A text of printable ASCII. -/
def isRef (max : Nat) (s : Str) : Bool := isText max s && s.all fun c => 32 ≤ c && c ≤ 126

abbrev Ref (max : Nat) := {s : Str // isRef max s = true}

instance : LawfulBEq (Ref 512) := inferInstance

def Ref.json {max : Nat} (r : Ref max) : Json := .str r.1

/-- `_ref(value, field_name, maximum)`. -/
def ref (v : Json) (field : String) (max : Nat) : Except Err (Ref max) :=
  (text v field max).bind fun t =>
    if h : isRef max t.1 = true then .ok ⟨t.1, h⟩ else .error (.validation (field ++ " must be printable"))

@[simp] theorem ref_json {max : Nat} (r : Ref max) (field : String) : ref r.json field max = .ok r := by
  have htext : isText max r.1 = true := (Bool.and_eq_true_iff.mp r.2).1
  simp [ref, text, Ref.json, htext, r.2, Except.bind]

/-! ### Sorted sets -/

/-- A sorted list without repetition, of at most `max` items. -/
abbrev SortedSet (α : Type) [LT α] (max : Nat) := {l : List α // l.Pairwise (· < ·) ∧ l.length ≤ max}

abbrev SortedSet.nil {α : Type} [LT α] {max : Nat} : SortedSet α max := ⟨[], List.Pairwise.nil, Nat.zero_le max⟩

section
variable {α : Type} [LinearOrder α]

theorem sorted_insertionSort {l : List α} (h : l.Nodup) : (l.insertionSort (· ≤ ·)).Pairwise (· < ·) := by
  have hperm := List.perm_insertionSort (· ≤ ·) l
  have hle : (l.insertionSort (· ≤ ·)).Pairwise (· ≤ ·) := List.pairwise_insertionSort (· ≤ ·) l
  have hne : (l.insertionSort (· ≤ ·)).Pairwise (· ≠ ·) := hperm.nodup_iff.mpr h
  exact hle.imp₂ (fun {_ _} hle hne => lt_of_le_of_ne hle hne) hne

theorem insertionSort_of_sorted {l : List α} (h : l.Pairwise (· < ·)) : l.insertionSort (· ≤ ·) = l :=
  List.Pairwise.insertionSort_eq (h.imp fun {_ _} => le_of_lt)

/-- A set of items read from a JSON array, sorted. The errors are those of a value that is no array, of too many
    items and of a repeated one. -/
def sortedSet (item : Json → Except Err α) (notList tooMany repeated : Err) (max : Nat) (v : Json) :
    Except Err (SortedSet α max) :=
  match v with
  | .arr l =>
    if max < l.length then .error tooMany
    else (l.mapM item).bind fun items =>
      if h : items.Nodup ∧ items.length ≤ max then
        .ok ⟨items.insertionSort (· ≤ ·), sorted_insertionSort h.1, by simpa using h.2⟩
      else .error repeated
  | _ => .error notList

theorem sortedSet_map {item : Json → Except Err α} {enc : α → Json} (hitem : ∀ a, item (enc a) = .ok a)
    {notList tooMany repeated : Err} {max : Nat} (s : SortedSet α max) :
    sortedSet item notList tooMany repeated max (.arr (s.1.map enc)) = .ok s := by
  have hnodup : s.1.Nodup := s.2.1.imp fun {_ _} => ne_of_lt
  have hlen : ¬max < (s.1.map enc).length := by
    rw [List.length_map]
    exact not_lt.mpr s.2.2
  rw [sortedSet, if_neg hlen, mapM_map hitem, Except.bind, dif_pos ⟨hnodup, s.2.2⟩]
  congr 2
  exact insertionSort_of_sorted s.2.1

end

/-- A set of references. -/
abbrev Refs (max : Nat) := SortedSet (Ref 512) max

def Refs.json {max : Nat} (s : Refs max) : Json := .arr (s.1.map Ref.json)

/-- `_refs(values, field_name, maximum)`. -/
def refs (v : Json) (field : String) (max : Nat) : Except Err (Refs max) :=
  sortedSet (fun v => ref v field 512) (.validation (field ++ " must be a list"))
    (.validation (field ++ " exceeds its bound")) (.validation (field ++ " must contain unique values")) max v

@[simp] theorem refs_json {max : Nat} (s : Refs max) (field : String) : refs s.json field max = .ok s :=
  sortedSet_map (fun r => ref_json r field) s

/-- A set of identifiers. -/
abbrev Ids (max : Nat) := SortedSet (Text 128) max

def Ids.json {max : Nat} (s : Ids max) : Json := .arr (s.1.map Text.json)

/-- `_ids(values, field_name, maximum)`. -/
def ids (v : Json) (field : String) (max : Nat) : Except Err (Ids max) :=
  sortedSet (fun v => text v field 128) (.validation (field ++ " must be a list"))
    (.validation (field ++ " exceeds its bound")) (.validation (field ++ " must contain unique values")) max v

@[simp] theorem ids_json {max : Nat} (s : Ids max) (field : String) : ids s.json field max = .ok s :=
  sortedSet_map (fun t => text_json t field) s

/-- A set of texts of the parallel-context records. -/
abbrev Texts (max : Nat) := SortedSet (Text 512) max

def Texts.json {max : Nat} (s : Texts max) : Json := .arr (s.1.map Text.json)

/-- `_sorted_unique_text(values, name, maximum)`. -/
def sortedUniqueText (v : Json) (field : String) (max : Nat) : Except Err (Texts max) :=
  sortedSet (fun v => parallelText v field 512) (.validation (field ++ " must be an array")) .policy
    (.validation (field ++ " must contain unique values")) max v

@[simp] theorem sortedUniqueText_json {max : Nat} (s : Texts max) (field : String) :
    sortedUniqueText s.json field max = .ok s :=
  sortedSet_map (fun t => parallelText_json t field) s

/-- `tuple(sorted(set(values)))`: the values in order, each once. -/
def sortedUnion {α : Type} [LinearOrder α] (l : List α) : List α := l.dedup.insertionSort (· ≤ ·)

theorem mem_sortedUnion {α : Type} [LinearOrder α] {l : List α} {a : α} : a ∈ sortedUnion l ↔ a ∈ l := by
  rw [sortedUnion, (List.perm_insertionSort (· ≤ ·) _).mem_iff, List.mem_dedup]

theorem sorted_sortedUnion {α : Type} [LinearOrder α] (l : List α) : (sortedUnion l).Pairwise (· < ·) :=
  sorted_insertionSort l.nodup_dedup

/-! ### Numbers, flags and enumerations -/

/-- A positive integer. -/
abbrev Positive := {n : Nat // 0 < n}

def Positive.json (n : Positive) : Json := .int n.1

/-- `_positive_int(value, field_name)`. A Boolean is no integer here. -/
def positiveInt (v : Json) (field : String) : Except Err Positive :=
  match v with
  | .int n => if h : 0 < n.toNat then .ok ⟨n.toNat, h⟩ else .error (.validation (field ++ " must be a positive integer"))
  | _ => .error (.validation (field ++ " must be a positive integer"))

@[simp] theorem positiveInt_json (n : Positive) (field : String) : positiveInt n.json field = .ok n := by
  simp [positiveInt, Positive.json, n.2]

/-- `_bool(value, field_name)`. -/
def bool (v : Json) (field : String) : Except Err Bool :=
  match v with
  | .bool b => .ok b
  | _ => .error (.validation (field ++ " must be boolean"))

@[simp] theorem bool_json (b : Bool) (field : String) : bool (.bool b) field = .ok b := rfl

/-- `_exact(value, keys, label)`. -/
def exact (v : Json) (keys : List String) (label : String) : Except Err Unit :=
  ensure (v.hasExactly keys = true) (.incompatible (label ++ " fields do not match the v1 contract"))

/-- A built object has the fields it was built with. -/
@[simp] theorem exact_mkObj {f : List (String × Json)} {keys : List String} (h : f.map (·.1) = keys) (label : String) :
    exact (Json.mkObj f) keys label = .ok () := by
  subst h
  exact ensure_true (Json.hasExactly_mkObj_self f) _

/-- The member of an enumeration with a given name. A JSON array or object is not hashable, so Python's test for
    membership in a set raises a `TypeError` on it. -/
def memberOf {α : Type} (all : List α) (name : α → String) (e : Err) (v : Json) : Except Err α :=
  match v with
  | .str s => match all.find? fun a => Str.lit (name a) = s with
    | some a => .ok a
    | none => .error e
  | .arr _ => .error .typeError
  | .obj _ => .error .typeError
  | _ => .error e

theorem memberOf_name {α : Type} {all : List α} {name : α → String} (hall : ∀ a, a ∈ all)
    (hname : Function.Injective name) (e : Err) (a : α) : memberOf all name e (.str (name a)) = .ok a := by
  have hfind : (all.find? fun b => Str.lit (name b) = Str.lit (name a)) = some a := by
    cases hf : all.find? fun b => Str.lit (name b) = Str.lit (name a) with
    | none =>
      rw [List.find?_eq_none] at hf
      exact absurd (hf a (hall a)) (by simp)
    | some b =>
      have hb := List.find?_some hf
      rw [decide_eq_true_eq, Str.lit_inj] at hb
      rw [hname hb]
  simp only [memberOf, hfind]

end LeanCtx
