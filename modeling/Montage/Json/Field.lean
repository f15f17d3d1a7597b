import Montage.Json.Value

/-!
# Reading records out of values

A record is an object with named fields, or an array of the fields in their order of declaration.
`field` is the one way into either.  A reader of a type is a function `Json → Option α`; `none`
means that the value does not fit.
-/

namespace Montage.Json

/-- The field with the given place in the order of declaration and the given name. -/
def field (v : Json) (place : Nat) (name : String) : Option Json :=
  match v with
  | .obj members => lookup name members
  | .arr items => items[place]?
  | _ => none

/-- An object, or an array with at most `size` items. -/
def isRecord (v : Json) (size : Nat) : Bool :=
  match v with
  | .obj _ => true
  | .arr items => items.length ≤ size
  | _ => false

def isObject : Json → Bool
  | .obj _ => true
  | _ => false

/-- A field that has to be there. -/
def required {α : Type} (v : Json) (place : Nat) (name : String) (read : Json → Option α) :
    Option α :=
  (v.field place name).bind read

/-- A field that may be left out. -/
def withDefault {α : Type} (v : Json) (place : Nat) (name : String) (read : Json → Option α)
    (default : α) : Option α :=
  match v.field place name with
  | none => some default
  | some value => read value

/-- A field that may be left out of an object, but not out of an array. -/
def optional {α : Type} (v : Json) (place : Nat) (name : String) (read : Json → Option α) :
    Option (Option α) :=
  match v, v.field place name with
  | .obj _, none => some none
  | _, none => none
  | _, some .null => some none
  | _, some value => (read value).map some

/-! ## Leaves -/

/-- Null is nothing; anything else is read. -/
def asOption {α : Type} (read : Json → Option α) : Json → Option (Option α)
  | .null => some none
  | value => (read value).map some

def asBool : Json → Option Bool
  | .bool b => some b
  | _ => none

def asText : Json → Option String
  | .str s => some s
  | _ => none

/-- Numbers, whole or not. -/
def asFloat : Json → Option Float
  | .int n => some (Float.ofInt n)
  | .float x => some x
  | _ => none

/-- Whole numbers from `low` to `high`. -/
def asInt (low high : Int) : Json → Option Int
  | .int n => if low ≤ n ∧ n ≤ high then some n else none
  | _ => none

/-- Whole numbers below `size`, not negative. -/
def asNat (size : Nat) : Json → Option Nat
  | .int n => if 0 ≤ n ∧ n < size then some n.toNat else none
  | _ => none

/-- Arrays of what `read` reads. -/
def asList {α : Type} (read : Json → Option α) : Json → Option (List α)
  | .arr items => items.mapM read
  | _ => none

def asJson : Json → Option Json := some

/-- One of several words, given as its text or as the only name of an object with the value null.
With `lax`, an empty object may stand for that null. -/
def asWord (lax : Bool) : Json → Option String
  | .str s => some s
  | .obj [(s, .null)] => some s
  | .obj [(s, .obj [])] => if lax then some s else none
  | _ => none

/-! ## Depth -/

theorem depth_lt_of_field {v w : Json} {place : Nat} {name : String}
    (h : v.field place name = some w) : w.depth < v.depth := by
  unfold field at h
  split at h
  · simpa [depth, Nat.lt_succ_iff] using depth_le_depthMembers h
  · exact depth_lt_arr (List.mem_of_getElem? h)
  · simp at h

/-- The items of an array field; none if the field is missing or no array. -/
def items (v : Json) (place : Nat) (name : String) : List Json :=
  match v.field place name with
  | some (.arr items) => items
  | _ => []

theorem depth_lt_of_mem_items {v w : Json} {place : Nat} {name : String}
    (h : w ∈ v.items place name) : w.depth < v.depth := by
  unfold items at h
  split at h
  · next items hfield => exact Nat.lt_trans (depth_lt_arr h) (depth_lt_of_field hfield)
  · simp at h

end Montage.Json
