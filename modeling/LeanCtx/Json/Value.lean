import LeanCtx.Python.Number

/-! JSON values as Python holds them. A Python dictionary compares without regard to the order of its keys, and
    a canonical document lists them in order, so an object is kept with its keys in order: `plain` puts it there.
    Python's `==` also takes `True`, `1` and `1.0` for one value (`pyEq`). -/

namespace LeanCtx

/-- A JSON value. -/
inductive Json
  | null
  | bool (b : Bool)
  | int (n : Int)
  | float (x : PyFloat)
  | str (s : Str)
  | arr (items : List Json)
  | obj (fields : List (Str × Json))

namespace Json

mutual
def decEq : (a b : Json) → Decidable (a = b)
  | .null, b => by cases b <;> first | exact isTrue rfl | exact isFalse nofun
  | .bool x, b => by
    cases b with
    | bool y => exact decidable_of_iff (x = y) (by simp)
    | _ => exact isFalse nofun
  | .int x, b => by
    cases b with
    | int y => exact decidable_of_iff (x = y) (by simp)
    | _ => exact isFalse nofun
  | .float x, b => by
    cases b with
    | float y => exact decidable_of_iff (x = y) (by simp)
    | _ => exact isFalse nofun
  | .str x, b => by
    cases b with
    | str y => exact decidable_of_iff (x = y) (by simp)
    | _ => exact isFalse nofun
  | .arr x, b =>
    match b with
    | .arr y => match decEqList x y with
      | isTrue h => isTrue (congrArg _ h)
      | isFalse h => isFalse fun e => h (Json.arr.inj e)
    | .null | .bool _ | .int _ | .float _ | .str _ | .obj _ => isFalse nofun
  | .obj x, b =>
    match b with
    | .obj y => match decEqFields x y with
      | isTrue h => isTrue (congrArg _ h)
      | isFalse h => isFalse fun e => h (Json.obj.inj e)
    | .null | .bool _ | .int _ | .float _ | .str _ | .arr _ => isFalse nofun

def decEqList : (a b : List Json) → Decidable (a = b)
  | [], [] => isTrue rfl
  | [], _ :: _ => isFalse nofun
  | _ :: _, [] => isFalse nofun
  | x :: l, y :: m =>
    match decEq x y, decEqList l m with
    | isTrue h, isTrue k => isTrue (by rw [h, k])
    | isFalse h, _ => isFalse fun e => h (List.cons.inj e).1
    | _, isFalse k => isFalse fun e => k (List.cons.inj e).2

def decEqFields : (a b : List (Str × Json)) → Decidable (a = b)
  | [], [] => isTrue rfl
  | [], _ :: _ => isFalse nofun
  | _ :: _, [] => isFalse nofun
  | (j, x) :: l, (k, y) :: m =>
    match decEq x y, decEqFields l m with
    | isTrue h, isTrue i => if e : j = k then isTrue (by rw [h, i, e]) else isFalse fun f => by simp_all
    | isFalse h, _ => isFalse fun f => h (by simp_all)
    | _, isFalse i => isFalse fun e => i (List.cons.inj e).2
end

instance : DecidableEq Json := decEq

/-- Induction over a value: the items of an array and the values of an object satisfy the predicate. -/
@[elab_as_elim] theorem induct {P : Json → Prop} (null : P .null) (bool : ∀ b, P (.bool b)) (int : ∀ n, P (.int n))
    (float : ∀ x, P (.float x)) (str : ∀ s, P (.str s)) (arr : ∀ l, (∀ v ∈ l, P v) → P (.arr l))
    (obj : ∀ f, (∀ p ∈ f, P p.2) → P (.obj f)) : ∀ v, P v
  | .null => null
  | .bool b => bool b
  | .int n => int n
  | .float x => float x
  | .str s => str s
  | .arr l => arr l fun v _hv => induct null bool int float str arr obj v
  | .obj f => obj f fun p _hp => induct null bool int float str arr obj p.2
decreasing_by
  · have := List.sizeOf_lt_of_mem _hv
    simp only [Json.arr.sizeOf_spec]
    omega
  · have := List.sizeOf_lt_of_mem _hp
    obtain ⟨k, v⟩ := p
    simp only [Json.obj.sizeOf_spec, Prod.mk.sizeOf_spec] at this ⊢
    omega

/-! ### Objects with ordered keys -/

/-- Set a key among fields in key order. -/
def insertField (k : Str) (v : Json) : List (Str × Json) → List (Str × Json)
  | [] => [(k, v)]
  | (j, w) :: f => if k < j then (k, v) :: (j, w) :: f else if k = j then (k, v) :: f else (j, w) :: insertField k v f

/-- Fields in key order, the first of each key. -/
def sortFields (f : List (Str × Json)) : List (Str × Json) := f.foldr (fun p g => insertField p.1 p.2 g) []

mutual
/-- The value with every object's keys in order. -/
def plain : Json → Json
  | .arr l => .arr (plainList l)
  | .obj f => .obj (plainFields f)
  | .null => .null
  | .bool b => .bool b
  | .int n => .int n
  | .float x => .float x
  | .str s => .str s

def plainList : List Json → List Json
  | [] => []
  | v :: l => plain v :: plainList l

def plainFields : List (Str × Json) → List (Str × Json)
  | [] => []
  | (k, v) :: f => insertField k (plain v) (plainFields f)
end

theorem plain_obj (f : List (Str × Json)) : plain (.obj f) = .obj (plainFields f) := by rw [plain]

/-- The object with the given fields. -/
def mkObj (f : List (String × Json)) : Json := .obj (sortFields (f.map fun p => (Str.lit p.1, p.2)))

/-- `value.get(key)` of an object, none where the key is missing or the value is no object. -/
def get? (v : Json) (k : String) : Option Json :=
  match v with
  | .obj f => (f.find? fun p => p.1 = Str.lit k).map (·.2)
  | _ => none

/-- `value[key]` of a key that is there. -/
def get (v : Json) (k : String) : Json := (v.get? k).getD .null

/-- `set(value) == set(keys)` of an object. -/
def hasExactly (v : Json) (ks : List String) : Bool :=
  match v with
  | .obj f => f.all (fun p => ks.any (Str.lit · = p.1)) && ks.all (fun k => f.any (·.1 = Str.lit k))
  | _ => false

def isStr : Json → Bool
  | .str _ => true
  | _ => false

def isObj : Json → Bool
  | .obj _ => true
  | _ => false

mutual
/-- The value with booleans and integral floats as the integers they equal in Python. -/
def loose : Json → Json
  | .bool b => .int (if b then 1 else 0)
  | .float x => (x.toInt?.map Json.int).getD (.float x)
  | .arr l => .arr (looseList l)
  | .obj f => .obj (looseFields f)
  | .null => .null
  | .int n => .int n
  | .str s => .str s

def looseList : List Json → List Json
  | [] => []
  | v :: l => loose v :: looseList l

def looseFields : List (Str × Json) → List (Str × Json)
  | [] => []
  | (k, v) :: f => (k, loose v) :: looseFields f
end

theorem loose_obj (f : List (Str × Json)) : loose (.obj f) = .obj (looseFields f) := by rw [loose]

/-- Python's `==` of two JSON values. -/
def pyEq (a b : Json) : Bool := a.plain.loose = b.plain.loose

mutual
/-- Every string of a value, keys included. -/
def strings : Json → List Str
  | .str s => [s]
  | .arr l => stringsList l
  | .obj f => stringsFields f
  | .null => []
  | .bool _ => []
  | .int _ => []
  | .float _ => []

def stringsList : List Json → List Str
  | [] => []
  | v :: l => strings v ++ stringsList l

def stringsFields : List (Str × Json) → List Str
  | [] => []
  | (k, v) :: f => k :: strings v ++ stringsFields f
end

theorem stringsList_cons (v : Json) (l : List Json) : stringsList (v :: l) = strings v ++ stringsList l := rfl

theorem stringsFields_cons (p : Str × Json) (f : List (Str × Json)) :
    stringsFields (p :: f) = p.1 :: strings p.2 ++ stringsFields f := rfl

end Json
end LeanCtx
