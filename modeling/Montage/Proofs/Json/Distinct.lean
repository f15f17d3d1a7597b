import Mathlib.Data.List.Nodup
import Montage.Json.Guide

/-!
# Objects with different names

A value is `Distinct` if in each of its objects the names are all different, so that an object is a
map from names to values.  The reader sees to that: of members with one name the last one counts
(`distinct_of_parse?`), and along a guide a known name may stand only once
(`Guide.distinct_of_readWhole`).
-/

namespace Montage.Json

/-! ## Members -/

section

variable (name key : String) (value : Json) (members : List (String × Json))

theorem lookup_eq_none_iff : lookup name members = none ↔ name ∉ members.map Prod.fst := by
  induction members with
  | nil => simp [lookup]
  | cons m rest ih =>
    rw [lookup, List.map_cons, List.mem_cons, not_or, ← ih]
    by_cases h : m.1 = name
    · simp [h]
    · simp [h, Ne.symm h]

theorem lookup_assign : lookup key (assign name value members) =
    if name = key then some value else lookup key members := by
  induction members with
  | nil => rfl
  | cons m rest ih =>
    rw [assign]
    by_cases hname : m.1 = name
    · rw [if_pos hname, lookup, lookup, hname]
      split <;> rfl
    · rw [if_neg hname, lookup, lookup, ih]
      by_cases hkey : m.1 = key
      · rw [if_pos hkey, if_pos hkey, if_neg fun h => hname (hkey.trans h.symm)]
      · rw [if_neg hkey, if_neg hkey]

theorem map_fst_assign : (assign name value members).map Prod.fst =
    if name ∈ members.map Prod.fst then members.map Prod.fst
    else members.map Prod.fst ++ [name] := by
  induction members with
  | nil => rfl
  | cons m rest ih =>
    rw [assign]
    by_cases hname : m.1 = name
    · simp [hname]
    · simp only [if_neg hname, List.map_cons, ih, List.mem_cons, Ne.symm hname, false_or]
      split <;> rfl

end

theorem mem_of_lookup {name : String} {v : Json} {members : List (String × Json)}
    (h : lookup name members = some v) : (name, v) ∈ members := by
  induction members with
  | nil => cases h
  | cons m rest ih =>
    rw [lookup] at h
    split at h
    · next hname =>
      rw [← hname, ← Option.some.inj h]
      exact List.mem_cons_self
    · exact List.mem_cons_of_mem m (ih h)

theorem nodup_assign {name : String} {value : Json} {members : List (String × Json)}
    (h : (members.map Prod.fst).Nodup) : ((assign name value members).map Prod.fst).Nodup := by
  rw [map_fst_assign]
  split
  · exact h
  · next hname => exact List.concat_eq_append ▸ h.concat hname

/-! ## Values -/

mutual
/-- In each object of the value, at any depth, the names are all different. -/
def Distinct : Json → Prop
  | .arr items => DistinctItems items
  | .obj members => (members.map Prod.fst).Nodup ∧ DistinctMembers members
  | _ => True
def DistinctItems : List Json → Prop
  | [] => True
  | value :: rest => Distinct value ∧ DistinctItems rest
def DistinctMembers : List (String × Json) → Prop
  | [] => True
  | (_, value) :: rest => Distinct value ∧ DistinctMembers rest
end

theorem distinctMembers_iff {members : List (String × Json)} :
    DistinctMembers members ↔ ∀ m ∈ members, m.2.Distinct := by
  induction members with
  | nil => simp [DistinctMembers]
  | cons m rest ih => rw [DistinctMembers, ih, List.forall_mem_cons]

theorem distinctMembers_assign {name : String} {value : Json} {members : List (String × Json)}
    (hvalue : value.Distinct) (h : DistinctMembers members) :
    DistinctMembers (assign name value members) := by
  induction members with
  | nil => exact ⟨hvalue, trivial⟩
  | cons m rest ih =>
    rw [assign]
    split
    · exact ⟨hvalue, h.2⟩
    · exact ⟨h.1, ih h.2⟩

theorem distinct_ofMembers {members : List (String × Json)} (h : DistinctMembers members) :
    (ofMembers members).Distinct := by
  have hfold (acc : List (String × Json)) (hacc : (obj acc).Distinct) :
      (obj (members.foldl (fun acc m => assign m.1 m.2 acc) acc)).Distinct := by
    induction members generalizing acc with
    | nil => exact hacc
    | cons m rest ih =>
      exact ih h.2 _ ⟨nodup_assign hacc.1, distinctMembers_assign h.1 hacc.2⟩
  exact hfold [] ⟨List.nodup_nil, trivial⟩

/-! ## Reading text -/

namespace Text

theorem distinct_of_number? {s : List Char} {v : Json} {r : Rest s} (h : number? s = some (v, r)) :
    v.Distinct := by
  have hnumber {negative : Bool} {n : Decimal.Numeral} {v : Json}
      (h : numberOf? negative n = some v) : v.Distinct := by
    rw [numberOf?] at h
    split at h
    · cases h
      trivial
    · obtain ⟨x, -, rfl⟩ := Option.map_eq_some_iff.1 h
      trivial
  unfold number? at h
  split at h
  all_goals
    split at h
    · cases h
    · obtain ⟨w, hw, heq⟩ := Option.map_eq_some_iff.1 h
      cases heq
      exact hnumber hw

theorem distinct_of_scalar? {s : List Char} {v : Json} {r : Rest s} (h : scalar? s = some (v, r)) :
    v.Distinct := by
  unfold scalar? at h
  split at h
  · obtain ⟨cs, -, heq⟩ := Option.map_eq_some_iff.1 h
    cases heq
    trivial
  · cases h
    trivial
  · cases h
    trivial
  · cases h
    trivial
  · exact distinct_of_number? h

mutual
theorem distinct_of_value? {depth : Nat} {s : List Char} {v : Json} {r : Rest s}
    (h : value? depth s = some (v, r)) : v.Distinct := by
  rw [value?] at h
  split at h
  · next rest hstart =>
    have hlt : rest.length < s.length := length_lt_of_skipGap hstart
    split at h
    · cases h
    · split at h
      · cases h
        trivial
      · split at h
        · cases h
        · next hitems =>
          cases h
          exact distinct_of_items? hitems
  · next rest hstart =>
    have hlt : rest.length < s.length := length_lt_of_skipGap hstart
    split at h
    · cases h
    · split at h
      · cases h
        exact ⟨List.nodup_nil, trivial⟩
      · split at h
        · cases h
        · next hmembers =>
          cases h
          exact distinct_ofMembers (distinct_of_members? hmembers)
  · obtain ⟨⟨w, r'⟩, hw, heq⟩ := Option.map_eq_some_iff.1 h
    cases heq
    exact distinct_of_scalar? hw
termination_by (s.length, 0)
theorem distinct_of_items? {depth : Nat} {s : List Char} {items : List Json} {r : Rest s}
    (h : items? depth s = some (items, r)) : DistinctItems items := by
  rw [items?] at h
  split at h
  · cases h
  · next v rest hrest hvalue =>
    split at h
    · next rest' hcomma =>
      have hlt : rest'.length < s.length := Nat.lt_trans (length_lt_of_skipGap hcomma) hrest
      split at h
      · cases h
      · next hitems =>
        cases h
        exact ⟨distinct_of_value? hvalue, distinct_of_items? hitems⟩
    · cases h
      exact ⟨distinct_of_value? hvalue, trivial⟩
    · cases h
termination_by (s.length, 1)
theorem distinct_of_members? {depth : Nat} {s : List Char} {members : List (String × Json)}
    {r : Rest s} (h : members? depth s = some (members, r)) : DistinctMembers members := by
  rw [members?] at h
  split at h
  · cases h
  · next name s' hname _ =>
    split at h
    · cases h
    · next v rest hrest hvalue =>
      split at h
      · next rest' hcomma =>
        have hlt : rest'.length < s.length :=
          Nat.lt_trans (length_lt_of_skipGap hcomma) (Nat.lt_trans hrest hname)
        split at h
        · cases h
        · next hmembers =>
          cases h
          exact ⟨distinct_of_value? hvalue, distinct_of_members? hmembers⟩
      · cases h
        exact ⟨distinct_of_value? hvalue, trivial⟩
      · cases h
termination_by (s.length, 1)
end

end Text

/-- A value that is read from a text holds each name of an object once. -/
theorem distinct_of_parse? {depth : Nat} {s : String} {v : Json} (h : parse? depth s = some v) :
    v.Distinct := by
  rw [parse?] at h
  split at h
  · next hvalue =>
    split at h
    · cases h
      exact Text.distinct_of_value? hvalue
    · cases h
  · cases h

/-! ## Reading along a guide -/

namespace Guide

open Montage.Json.Text

theorem distinct_of_readScalar {keep : Json → Bool} {s : List Char} {v : Json} {r : Rest s}
    (h : readScalar keep s = .ok (v, r)) : v.Distinct := by
  rw [readScalar] at h
  split at h
  · next hscalar =>
    split at h
    · cases h
      exact distinct_of_scalar? hscalar
    · cases h
  · cases h

theorem distinct_of_onlyName? {s : List Char} {v : Json} {r : Rest s}
    (h : onlyName? s = some (v, r)) : v.Distinct := by
  rw [onlyName?] at h
  split at h
  · cases h
  · split at h
    · split at h
      · cases h
      · split at h
        · cases h
          exact ⟨List.nodup_singleton _, trivial, trivial⟩
        · cases h
    · cases h

/-- Members with different names, none of which was met before. -/
structure Fresh (met : List String) (members : List (String × Json)) : Prop where
  nodup : (members.map Prod.fst).Nodup
  not_mem : ∀ name ∈ members.map Prod.fst, name ∉ met
  distinct : DistinctMembers members

theorem Fresh.nil (met : List String) : Fresh met [] :=
  ⟨List.nodup_nil, fun _ h => absurd h List.not_mem_nil, trivial⟩

/-- A member with a name that was not met before may stand in front. -/
theorem Fresh.found {met : List String} {name : String} {found : Option Json}
    {members : List (String × Json)}
    (h : Fresh (if found.isSome then name :: met else met) members) (hname : name ∉ met)
    (hfound : ∀ v ∈ found, v.Distinct) :
    Fresh met ((found.map fun v => (name, v)).toList ++ members) := by
  cases found with
  | none => exact h
  | some v =>
    have hrest (key : String) (hkey : key ∈ members.map Prod.fst) : key ≠ name ∧ key ∉ met :=
      not_or.1 fun hmem => h.not_mem key hkey (List.mem_cons.2 hmem)
    constructor
    · exact List.nodup_cons.2 ⟨fun hmem => (hrest name hmem).1 rfl, h.nodup⟩
    · exact List.forall_mem_cons.2 ⟨hname, fun key hkey => (hrest key hkey).2⟩
    · exact ⟨hfound v rfl, h.distinct⟩

mutual
theorem distinct_of_read {g : Guide} {depth : Nat} {s : List Char} {v : Json} {r : Rest s}
    (h : g.read depth s = .ok (v, r)) : v.Distinct := by
  match g with
  | .any =>
    rw [read] at h
    split at h
    · next hvalue =>
      cases h
      exact distinct_of_value? hvalue
    · cases h
  | .bool | .text =>
    rw [read] at h
    exact distinct_of_readScalar h
  | .word =>
    rw [read] at h
    split at h
    · split at h
      · next hname =>
        cases h
        exact distinct_of_onlyName? hname
      · cases h
    · exact distinct_of_readScalar h
  | .optional inner =>
    rw [read] at h
    split at h
    · split at h
      · cases h
        trivial
      · cases h
    · exact distinct_of_read h
  | .list inner =>
    rw [read] at h
    split at h
    · next rest hstart =>
      have hlt : rest.length < s.length := length_lt_of_skipGap hstart
      split at h
      · cases h
      · split at h
        · cases h
          trivial
        · split at h
          · cases h
          · next hitems =>
            cases h
            exact distinct_of_readItems hitems
    · cases h
  | .record fields =>
    rw [read] at h
    split at h
    · next rest hstart =>
      have hlt : rest.length < s.length := length_lt_of_skipGap hstart
      split at h
      · cases h
      · split at h
        · cases h
          trivial
        · split at h
          · cases h
          · next hitems =>
            cases h
            exact distinct_of_readPlaces hitems
    · next rest hstart =>
      have hlt : rest.length < s.length := length_lt_of_skipGap hstart
      split at h
      · cases h
      · split at h
        · cases h
          exact ⟨List.nodup_nil, trivial⟩
        · split at h
          · cases h
          · next hmembers =>
            cases h
            have hfresh := distinct_of_readMembers hmembers
            exact ⟨hfresh.nodup, hfresh.distinct⟩
    · cases h
termination_by (s.length, sizeOf g, 0)
theorem distinct_of_readItems {g : Guide} {depth : Nat} {s : List Char} {items : List Json}
    {r : Rest s} (h : readItems g depth s = .ok (items, r)) : DistinctItems items := by
  rw [readItems] at h
  split at h
  · cases h
  · next v rest hrest hvalue =>
    split at h
    · next rest' hcomma =>
      have hlt : rest'.length < s.length := Nat.lt_trans (length_lt_of_skipGap hcomma) hrest
      split at h
      · cases h
      · next hitems =>
        cases h
        exact ⟨distinct_of_read hvalue, distinct_of_readItems hitems⟩
    · cases h
      exact ⟨distinct_of_read hvalue, trivial⟩
    · cases h
termination_by (s.length, sizeOf g, 1)
theorem distinct_of_readPlaces {fields : List (String × Guide)} {depth : Nat} {s : List Char}
    {items : List Json} {r : Rest s} (h : readPlaces fields depth s = .ok (items, r)) :
    DistinctItems items := by
  match fields with
  | [] =>
    rw [readPlaces] at h
    cases h
  | (_, g) :: fields =>
    rw [readPlaces] at h
    split at h
    · cases h
    · next v rest hrest hvalue =>
      split at h
      · next rest' hcomma =>
        have hlt : rest'.length < s.length := Nat.lt_trans (length_lt_of_skipGap hcomma) hrest
        split at h
        · cases h
        · next hitems =>
          cases h
          exact ⟨distinct_of_read hvalue, distinct_of_readPlaces hitems⟩
      · cases h
        exact ⟨distinct_of_read hvalue, trivial⟩
      · cases h
termination_by (s.length, sizeOf fields, 0)
theorem distinct_of_readMembers {fields : List (String × Guide)} {met : List String} {depth : Nat}
    {s : List Char} {members : List (String × Json)} {r : Rest s}
    (h : readMembers fields met depth s = .ok (members, r)) :
    Fresh met members := by
  rw [readMembers] at h
  split at h
  · next afterQuote hquote =>
    split at h
    · cases h
    · next cs afterName hname hbody =>
      dsimp only at h
      split at h
      · cases h
      · next hfresh =>
        split at h
        · next start hcolon =>
          split at h
          · cases h
          · next found rest hrest hstep =>
            have hstart : start.length < s.length :=
              Nat.lt_trans (length_lt_of_skipGap hcolon)
                (Nat.lt_trans hname (length_lt_of_skipGap hquote))
            have hfound : ∀ v ∈ found, v.Distinct := by
              split at hstep
              · split at hstep
                · cases hstep
                · cases hstep
                  exact fun _ hv => by cases hv
              · split at hstep
                · cases hstep
                · next hvalue =>
                  cases hstep
                  intro v hv
                  cases hv
                  exact distinct_of_read hvalue
            split at h
            · next rest' hcomma =>
              have hlt : rest'.length < s.length := Nat.lt_trans (length_lt_of_skipGap hcomma) hrest
              split at h
              · cases h
              · next hmembers =>
                cases h
                exact (distinct_of_readMembers hmembers).found hfresh hfound
            · cases h
              have hlast := (Fresh.nil _).found hfresh hfound
              rwa [List.append_nil] at hlast
            · cases h
        · cases h
  · cases h
termination_by (s.length, sizeOf fields, 0)
end

/-- A value that is read from a text along a guide holds each name of an object once. -/
theorem distinct_of_readWhole {g : Guide} {s : String} {v : Json} (h : g.readWhole s = .ok v) :
    v.Distinct := by
  rw [readWhole] at h
  split at h
  · cases h
  · next hread =>
    split at h
    · cases h
      exact distinct_of_read hread
    · cases h

end Guide

end Montage.Json
