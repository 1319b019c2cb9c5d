import Stele.Lib.Fault
import Stele.Lib.Text

/-!
# JSON documents and struct codecs

A document is its tree: the text layer (white space, escapes, number syntax) is not modelled, the
values that cross it are. Strings are written with `coerce`, byte slices as base64. The key of an
object is kept as the string with one character for each of its octets.

A struct is decoded field by field, by name: a missing or `null` field keeps the zero value, a
repeated field keeps its last value, a value of the wrong kind is an error. An `omitempty` field is
left out when it is empty (`omitEmpty`). `lastField_fld` and `lastField_omitEmpty` find a field in
what the encoder wrote, `getStr_ofStr`, `getBytes_ofBytes` and their like read its value back.
-/

namespace Lib

inductive Json
  | null
  | bool (b : Bool)
  | num (i : Int)
  | str (s : Bytes)
  | arr (items : List Json)
  | obj (fields : List (String × Json))

namespace Json

def isNull : Json → Bool
  | .null => true
  | _ => false

/-! ## Encoding -/

def ofStr (s : Bytes) : Json := .str (coerce s)

def ofBytes (b : Bytes) : Json := .str (b64 b)

def fld (name : String) (v : Json) : List (String × Json) := [(name, v)]

def omitEmpty (name : String) (isEmpty : Bool) (v : Json) : List (String × Json) :=
  if isEmpty then [] else [(name, v)]

/-! ## Decoding -/

def typeError : Fault := errorf "json: cannot unmarshal value into Go value" []

def lastField (name : String) : List (String × Json) → Json → Json
  | [], acc => acc
  | (k, v) :: fields, acc => lastField name fields (if k = name then v else acc)

/-- The value a struct decoder sees for a field. `null` in place of a struct leaves every field
at its zero value. -/
def field (name : String) : Json → Res Json
  | .obj fields => .ok (lastField name fields .null)
  | .null => .ok .null
  | _ => .error typeError

def getStr : Json → Res Bytes
  | .null => .ok []
  | .str s => .ok s
  | _ => .error typeError

def getBytes : Json → Res Bytes
  | .null => .ok []
  | .str s =>
    match unb64 s with
    | some b => .ok b
    | none => .error (errorf "illegal base64 data" [])
  | _ => .error typeError

def getBool : Json → Res Bool
  | .null => .ok false
  | .bool b => .ok b
  | _ => .error typeError

def getInt : Json → Res Int
  | .null => .ok 0
  | .num i => .ok i
  | _ => .error typeError

def getNat : Json → Res Nat
  | .null => .ok 0
  | .num (.ofNat n) => .ok n
  | _ => .error typeError

def getPtr {α : Type} (item : Json → Res α) : Json → Res (Option α)
  | .null => .ok none
  | j => do return some (← item j)

def getArr {α : Type} (item : Json → Res α) : Json → Res (List α)
  | .null => .ok []
  | .arr items => items.mapM item
  | _ => .error typeError

/-! ## Round trips -/

lemma lastField_append (name : String) (fs gs : List (String × Json)) (acc : Json) :
    lastField name (fs ++ gs) acc = lastField name gs (lastField name fs acc) := by
  induction fs generalizing acc with
  | nil => rfl
  | cons f fs ih => exact ih _

lemma lastField_fld (name other : String) (v acc : Json) :
    lastField name (fld other v) acc = if other = name then v else acc := rfl

lemma lastField_omitEmpty (name other : String) (isEmpty : Bool) (v acc : Json) :
    lastField name (omitEmpty other isEmpty v) acc =
      if other = name then (if isEmpty then acc else v) else acc := by
  cases isEmpty <;> simp [omitEmpty, lastField]

@[simp] lemma getStr_ofStr (s : Bytes) : getStr (ofStr s) = .ok (coerce s) := rfl

@[simp] lemma getStr_omitted (s : Bytes) :
    getStr (if s.isEmpty then .null else ofStr s) = .ok (coerce s) := by
  cases s with
  | nil => rfl
  | cons => simp

@[simp] lemma getBytes_ofBytes (b : Bytes) : getBytes (ofBytes b) = .ok b := by
  simp [getBytes, ofBytes, unb64_b64]

@[simp] lemma getBytes_omitted (b : Bytes) :
    getBytes (if b.isEmpty then .null else ofBytes b) = .ok b := by
  cases b with
  | nil => rfl
  | cons => simp

@[simp] lemma getInt_num (i : Int) : getInt (.num i) = .ok i := rfl

@[simp] lemma getInt_omitted (i : Int) :
    getInt (if decide (i = 0) then .null else .num i) = .ok i := by
  by_cases h : i = 0
  · subst h
    rfl
  · simp [h]

@[simp] lemma getNat_num (n : Nat) : getNat (.num n) = .ok n := rfl

@[simp] lemma getNat_omitted (n : Nat) :
    getNat (if decide (n = 0) then .null else .num n) = .ok n := by
  by_cases h : n = 0
  · subst h
    rfl
  · simp [h]

@[simp] lemma getBool_bool (b : Bool) : getBool (.bool b) = .ok b := rfl

@[simp] lemma getBool_omitted (b : Bool) :
    getBool (if !b then .null else .bool b) = .ok b := by
  cases b <;> rfl

lemma getArr_map {α β : Type} {item : Json → Res β} {toJson : α → Json} {back : α → β}
    (h : ∀ x, item (toJson x) = .ok (back x)) (l : List α) :
    getArr item (.arr (l.map toJson)) = .ok (l.map back) := by
  show (l.map toJson).mapM item = .ok (l.map back)
  induction l with
  | nil => rfl
  | cons x l ih =>
    rw [List.map_cons, List.mapM_cons, h x, ok_bind, ih]
    rfl

lemma getArr_omitted {α β : Type} {item : Json → Res β} {toJson : α → Json} {back : α → β}
    (h : ∀ x, item (toJson x) = .ok (back x)) (l : List α) :
    getArr item (if l.isEmpty then .null else .arr (l.map toJson)) = .ok (l.map back) := by
  cases l with
  | nil => rfl
  | cons x l => exact getArr_map h (x :: l)

end Json

end Lib
