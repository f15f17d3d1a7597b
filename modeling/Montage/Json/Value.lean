/-!
# JSON values

Whole numbers and floats are kept apart: `25` and `25.0` are different values.  An object is a list
of members in the order in which their names first appeared; `Json.ofMembers` builds one in which a
name stands once, with the value it was given last.
-/

namespace Montage

/-- A JSON value. -/
inductive Json where
  | null
  | bool (b : Bool)
  | int (n : Int)
  | float (x : Float)
  | str (s : String)
  | arr (items : List Json)
  | obj (members : List (String × Json))
  deriving Inhabited

namespace Json

def lookup (name : String) : List (String × Json) → Option Json
  | [] => none
  | (key, value) :: rest => if key = name then some value else lookup name rest

/-- Puts the value under the name: in place if the name is there, else at the end. -/
def assign (name : String) (value : Json) : List (String × Json) → List (String × Json)
  | [] => [(name, value)]
  | (key, old) :: rest =>
    if key = name then (key, value) :: rest else (key, old) :: assign name value rest

/-- The object with these members; of members with one name the last value counts. -/
def ofMembers (members : List (String × Json)) : Json :=
  .obj (members.foldl (fun acc (name, value) => assign name value acc) [])

/-! ## Depth -/

mutual
/-- How many containers stand around the deepest place of the value, its own included. -/
def depth : Json → Nat
  | .arr items => depthItems items + 1
  | .obj members => depthMembers members + 1
  | _ => 0
/-- The greatest depth of the items. -/
def depthItems : List Json → Nat
  | [] => 0
  | value :: rest => max (depth value) (depthItems rest)
/-- The greatest depth of the members' values. -/
def depthMembers : List (String × Json) → Nat
  | [] => 0
  | (_, value) :: rest => max (depth value) (depthMembers rest)
end

theorem depth_le_depthItems {v : Json} {items : List Json} (h : v ∈ items) :
    v.depth ≤ depthItems items := by
  induction items with
  | nil => simp at h
  | cons w rest ih =>
    simp only [depthItems]
    rcases List.mem_cons.1 h with rfl | h
    · exact Nat.le_max_left ..
    · exact Nat.le_trans (ih h) (Nat.le_max_right ..)

theorem depth_lt_arr {v : Json} {items : List Json} (h : v ∈ items) :
    v.depth < (Json.arr items).depth := by
  simpa [depth, Nat.lt_succ_iff] using depth_le_depthItems h

theorem depth_le_depthMembers {name : String} {v : Json} {members : List (String × Json)}
    (h : lookup name members = some v) : v.depth ≤ depthMembers members := by
  induction members with
  | nil => simp [lookup] at h
  | cons m rest ih =>
    obtain ⟨key, w⟩ := m
    simp only [depthMembers]
    simp only [lookup] at h
    split at h
    · simp only [Option.some.injEq] at h
      exact h ▸ Nat.le_max_left ..
    · exact Nat.le_trans (ih h) (Nat.le_max_right ..)

end Json

end Montage
