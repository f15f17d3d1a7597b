import Montage.Json.Value

/-!
# Merging values

`Json.merge base top` lays `top` over `base`: objects are merged name by name, null leaves
what is below, and anything else replaces it.  A merged value is never deeper than the deeper of
the two.
-/

namespace Montage.Json

mutual
/-- `top` over `base`. -/
def merge (base top : Json) : Json :=
  match top with
  | .null => base
  | .obj members =>
    match base with
    | .obj below => .obj (mergeMembers below members)
    | _ => .obj members
  | other => other
/-- The members on top of `below`, one after another. -/
def mergeMembers (below : List (String × Json)) (members : List (String × Json)) :
    List (String × Json) :=
  match members with
  | [] => below
  | (name, value) :: rest =>
    match lookup name below with
    | some old => mergeMembers (assign name (merge old value) below) rest
    | none => mergeMembers (assign name value below) rest
end

theorem depthMembers_assign_le (name : String) (value : Json) (members : List (String × Json)) :
    depthMembers (assign name value members) ≤ max value.depth (depthMembers members) := by
  induction members with
  | nil => simp [assign, depthMembers]
  | cons m rest ih =>
    obtain ⟨key, old⟩ := m
    simp only [assign]
    split
    · simp only [depthMembers]; omega
    · simp only [depthMembers]; omega

mutual
theorem depth_merge_le (base top : Json) : (merge base top).depth ≤ max base.depth top.depth := by
  match top with
  | .null => simp [merge, depth]
  | .obj members =>
    unfold merge
    match base with
    | .obj below =>
      have := depthMembers_mergeMembers_le below members
      simp only [depth]
      omega
    | .null | .bool _ | .int _ | .float _ | .str _ | .arr _ => simp [depth]; try omega
  | .bool _ | .int _ | .float _ | .str _ | .arr _ =>
    unfold merge
    exact Nat.le_max_right ..
theorem depthMembers_mergeMembers_le (below members : List (String × Json)) :
    depthMembers (mergeMembers below members) ≤
      max (depthMembers below) (depthMembers members) := by
  match members with
  | [] => simp [mergeMembers, depthMembers]
  | (name, value) :: rest =>
    unfold mergeMembers
    split
    · next old hold =>
      have h₁ := depthMembers_mergeMembers_le (assign name (merge old value) below) rest
      have h₂ := depthMembers_assign_le name (merge old value) below
      have h₃ := depth_merge_le old value
      have h₄ := depth_le_depthMembers hold
      simp only [depthMembers]
      omega
    · next hnone =>
      have h₁ := depthMembers_mergeMembers_le (assign name value below) rest
      have h₂ := depthMembers_assign_le name value below
      simp only [depthMembers]
      omega
end

end Montage.Json
