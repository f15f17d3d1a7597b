import Montage.Json.Merge
import Montage.Proofs.Json.Distinct

/-!
# Laws of merging

An object whose names are all different is a map from names to values, and merging two of them is
merging what they hold under each name (`lookup_mergeMembers`).  So merging the same value once more
changes nothing, and along a path of names a value on top wins unless it is null, while everything
below that is not covered stays as it was (`merge_laws`).
-/

namespace Montage.Json

/-! ## Members -/

/-- Members with the same names in the same order and the same values under them are the same. -/
theorem eq_of_lookup {ms ns : List (String × Json)} (hnodup : (ms.map Prod.fst).Nodup)
    (hnames : ms.map Prod.fst = ns.map Prod.fst)
    (hlookup : ∀ name, lookup name ms = lookup name ns) : ms = ns := by
  induction ms generalizing ns with
  | nil => exact (List.map_eq_nil_iff.1 hnames.symm).symm
  | cons m ms ih =>
    obtain _ | ⟨n, ns⟩ := ns
    · cases hnames
    · rw [List.map_cons, List.map_cons, List.cons.injEq] at hnames
      obtain ⟨hname, hnames⟩ := hnames
      obtain ⟨hfresh, hnodup⟩ := List.nodup_cons.1 hnodup
      have hvalue := hlookup m.1
      rw [lookup, lookup, if_pos rfl, if_pos hname.symm, Option.some.injEq] at hvalue
      have hrest : ms = ns := by
        refine ih hnodup hnames fun name => ?_
        by_cases h : m.1 = name
        · rw [(lookup_eq_none_iff name ms).2 (h ▸ hfresh),
            (lookup_eq_none_iff name ns).2 (hnames ▸ h ▸ hfresh)]
        · have hlookup := hlookup name
          rwa [lookup, lookup, if_neg h, if_neg (hname ▸ h)] at hlookup
      rw [hrest, Prod.ext hname hvalue]

/-! ## Merging members -/

/-- What stands under a name once a value is laid over what stood there. -/
def laidOver : Option Json → Option Json → Option Json
  | below, none => below
  | none, some value => some value
  | some old, some value => some (merge old value)

theorem mergeMembers_cons (below : List (String × Json)) (name : String) (value : Json)
    (rest : List (String × Json)) :
    ∃ merged, laidOver (lookup name below) (some value) = some merged ∧
      mergeMembers below ((name, value) :: rest) =
        mergeMembers (assign name merged below) rest := by
  rw [mergeMembers]
  cases lookup name below with
  | none => exact ⟨value, rfl, rfl⟩
  | some old => exact ⟨merge old value, rfl, rfl⟩

/-- Members are merged name by name. -/
theorem lookup_mergeMembers {members : List (String × Json)} (h : (members.map Prod.fst).Nodup)
    (below : List (String × Json)) (name : String) :
    lookup name (mergeMembers below members) =
      laidOver (lookup name below) (lookup name members) := by
  induction members generalizing below with
  | nil => rfl
  | cons m rest ih =>
    obtain ⟨hfresh, hrest⟩ := List.nodup_cons.1 h
    obtain ⟨merged, hmerged, heq⟩ := mergeMembers_cons below m.1 m.2 rest
    rw [heq, ih hrest, lookup_assign, lookup]
    by_cases hname : m.1 = name
    · rw [if_pos hname, if_pos hname, (lookup_eq_none_iff name rest).2 (hname ▸ hfresh), ← hname,
        hmerged]
      rfl
    · rw [if_neg hname, if_neg hname]

/-- Names that are not there yet are put behind those that are. -/
theorem map_fst_mergeMembers {members : List (String × Json)} (h : (members.map Prod.fst).Nodup)
    (below : List (String × Json)) :
    (mergeMembers below members).map Prod.fst = below.map Prod.fst ++
      (members.map Prod.fst).filter fun name => name ∉ below.map Prod.fst := by
  induction members generalizing below with
  | nil => exact (List.append_nil _).symm
  | cons m rest ih =>
    obtain ⟨hfresh, hrest⟩ := List.nodup_cons.1 h
    obtain ⟨merged, -, heq⟩ := mergeMembers_cons below m.1 m.2 rest
    rw [heq, ih hrest, map_fst_assign, List.map_cons, List.filter_cons]
    by_cases hname : m.1 ∈ below.map Prod.fst
    · simp only [hname, if_true, not_true_eq_false, decide_false, Bool.false_eq_true, if_false]
    · have hsame : (rest.map Prod.fst).filter (fun name => name ∉ below.map Prod.fst ++ [m.1]) =
          (rest.map Prod.fst).filter fun name => name ∉ below.map Prod.fst := by
        refine List.filter_congr fun name hmem => ?_
        have hne : name ≠ m.1 := fun h => hfresh (h ▸ hmem)
        simp [hne]
      rw [if_neg hname, hsame, if_pos (decide_eq_true hname), List.append_assoc]
      rfl

theorem nodup_mergeMembers {below members : List (String × Json)}
    (hbelow : (below.map Prod.fst).Nodup) (h : (members.map Prod.fst).Nodup) :
    ((mergeMembers below members).map Prod.fst).Nodup := by
  rw [map_fst_mergeMembers h]
  refine hbelow.append (h.filter _) fun name hin hout => ?_
  exact of_decide_eq_true (List.mem_filter.1 hout).2 hin

/-! ## Members of values -/

/-- The value under a name, if the value is an object that has the name. -/
def member? (v : Json) (name : String) : Option Json :=
  match v with
  | .obj members => lookup name members
  | _ => none

/-- The value that a path of names leads to. -/
def at? (v : Json) : List String → Option Json
  | [] => some v
  | name :: rest => (v.member? name).bind (·.at? rest)

theorem Distinct.member {v w : Json} {name : String} (h : v.Distinct)
    (hmember : v.member? name = some w) : w.Distinct := by
  unfold member? at hmember
  split at hmember
  · exact distinctMembers_iff.1 h.2 _ (mem_of_lookup hmember)
  · cases hmember

theorem isObject_of_member? {v w : Json} {name : String} (h : v.member? name = some w) :
    v.isObject = true := by
  cases v
  case obj => rfl
  all_goals cases h

theorem depth_lt_of_member? {v w : Json} {name : String} (h : v.member? name = some w) :
    w.depth < v.depth := by
  unfold member? at h
  split at h
  · simpa [depth, Nat.lt_succ_iff] using depth_le_depthMembers h
  · cases h

/-- What holds of a value if it holds of its members holds of all values. -/
theorem memberInduction {P : Json → Prop}
    (step : ∀ v : Json, (∀ name w, v.member? name = some w → P w) → P v) (v : Json) : P v :=
  step v fun _ w _ => memberInduction step w
termination_by v.depth
decreasing_by exact depth_lt_of_member? ‹_›

theorem at?_append (v : Json) (front back : List String) :
    v.at? (front ++ back) = (v.at? front).bind (·.at? back) := by
  induction front generalizing v with
  | nil => rfl
  | cons name front ih =>
    rw [List.cons_append, at?, at?, Option.bind_assoc]
    exact congrArg _ (funext ih)

/-! ## Merging values -/

/-- The value takes the place of what it is laid over: it is neither null nor an object. -/
def replaces : Json → Bool
  | .null => false
  | .obj _ => false
  | _ => true

theorem replaces_of_isObject {v : Json} (h : v.isObject = true) : v.replaces = false := by
  cases v
  case obj => rfl
  all_goals cases h

section

variable {base top : Json}

theorem merge_null_right (base : Json) : merge base .null = base := by rw [merge]

theorem merge_null_left (top : Json) : merge .null top = top := by
  cases top <;> simp only [merge]

theorem merge_of_replaces (h : top.replaces = true) : merge base top = top := by
  cases top
  case null => cases h
  case obj => cases h
  all_goals simp only [merge]

/-- An object takes the place of what is no object. -/
theorem merge_of_isObject (hbase : base.isObject = false) (htop : top.isObject = true) :
    merge base top = top := by
  cases top
  case obj =>
    cases base
    case obj => cases hbase
    all_goals simp only [merge]
  all_goals cases htop

/-- Under an object, each name holds what is merged there. -/
theorem member?_merge (htop : top.Distinct) (hobject : top.isObject = true) (name : String) :
    (merge base top).member? name = laidOver (base.member? name) (top.member? name) := by
  cases top
  case obj members =>
    by_cases hbase : base.isObject = true
    · cases base
      case obj below =>
        rw [merge]
        exact lookup_mergeMembers htop.1 below name
      all_goals cases hbase
    · rw [merge_of_isObject (Bool.eq_false_iff.2 hbase) rfl]
      have hnone : base.member? name = none := by
        cases base
        case obj => exact absurd rfl hbase
        all_goals rfl
      rw [hnone]
      cases (obj members).member? name <;> rfl
  all_goals cases hobject

end

/-! ## Merging twice -/

/-- Merging twice makes no more names than merging once, if what is merged holds these. -/
theorem mergeMembers_eq_of_subset {ms ns : List (String × Json)} (hms : (ms.map Prod.fst).Nodup)
    (hns : (ns.map Prod.fst).Nodup) (hsubset : ∀ name ∈ ns.map Prod.fst, name ∈ ms.map Prod.fst)
    (hvalues : ∀ name, laidOver (lookup name ms) (lookup name ns) = lookup name ms) :
    mergeMembers ms ns = ms := by
  have hnone : (ns.map Prod.fst).filter (fun name => name ∉ ms.map Prod.fst) = [] :=
    List.filter_eq_nil_iff.2 fun name hname => by simpa using hsubset name hname
  have hnames : (mergeMembers ms ns).map Prod.fst = ms.map Prod.fst := by
    rw [map_fst_mergeMembers hns, hnone, List.append_nil]
  refine eq_of_lookup (hnames ▸ hms) hnames fun name => ?_
  rw [lookup_mergeMembers hns, hvalues]

/-- Merged with itself, a value stays as it is. -/
theorem merge_self {v : Json} (h : v.Distinct) : merge v v = v := by
  induction v using memberInduction with
  | step v ih =>
    cases v
    case obj members =>
      rw [merge]
      refine congrArg obj (mergeMembers_eq_of_subset h.1 h.1 (fun _ => id) fun name => ?_)
      cases hvalue : lookup name members with
      | none => rfl
      | some value => exact congrArg some (ih name value hvalue (h.member hvalue))
    all_goals simp only [merge]

theorem mem_map_fst_mergeMembers {below members : List (String × Json)}
    (h : (members.map Prod.fst).Nodup) {name : String} :
    name ∈ (mergeMembers below members).map Prod.fst ↔
      name ∈ below.map Prod.fst ∨ name ∈ members.map Prod.fst := by
  rw [map_fst_mergeMembers h, List.mem_append, List.mem_filter, decide_eq_true_eq]
  tauto

/-- What is merged in already is not merged in once more. -/
theorem merge_merge_right {base top : Json} (hbase : base.Distinct) (htop : top.Distinct) :
    merge (merge base top) top = merge base top := by
  induction base using memberInduction generalizing top with
  | step base ih =>
    cases top
    case null => rw [merge_null_right, merge_null_right]
    case obj members =>
      by_cases hobject : base.isObject = true
      · cases base
        case obj below =>
          rw [merge, merge]
          refine congrArg obj (mergeMembers_eq_of_subset (nodup_mergeMembers hbase.1 htop.1) htop.1
            (fun name hname => (mem_map_fst_mergeMembers htop.1).2 (.inr hname)) fun name => ?_)
          rw [lookup_mergeMembers htop.1]
          cases hnew : lookup name members with
          | none => rfl
          | some value =>
            have hvalue : value.Distinct := htop.member hnew
            cases hold : lookup name below with
            | none => exact congrArg some (merge_self hvalue)
            | some old => exact congrArg some (ih name old hold (hbase.member hold) hvalue)
        all_goals cases hobject
      · rw [merge_of_isObject (Bool.eq_false_iff.2 hobject) rfl, merge_self htop]
    all_goals rw [merge_of_replaces rfl, merge_of_replaces rfl]

/-- A value that is merged over its base changes nothing when laid over the base again. -/
theorem merge_merge_left {base top : Json} (hbase : base.Distinct) (htop : top.Distinct) :
    merge base (merge base top) = merge base top := by
  induction base using memberInduction generalizing top with
  | step base ih =>
    cases top
    case null => rw [merge_null_right, merge_self hbase]
    case obj members =>
      by_cases hobject : base.isObject = true
      · cases base
        case obj below =>
          have hnodup := nodup_mergeMembers hbase.1 htop.1
          have hnames : (mergeMembers below (mergeMembers below members)).map Prod.fst =
              (mergeMembers below members).map Prod.fst := by
            rw [map_fst_mergeMembers hnodup, map_fst_mergeMembers htop.1, List.filter_append,
              List.filter_filter, List.filter_eq_nil_iff.2 (by simp), List.nil_append]
            simp only [Bool.and_self]
          rw [merge, merge]
          refine congrArg obj (eq_of_lookup (hnames ▸ hnodup) hnames fun name => ?_)
          rw [lookup_mergeMembers hnodup, lookup_mergeMembers htop.1]
          cases hold : lookup name below with
          | none => cases lookup name members <;> rfl
          | some old =>
            have hdistinct : old.Distinct := hbase.member hold
            cases hnew : lookup name members with
            | none => exact congrArg some (merge_self hdistinct)
            | some value => exact congrArg some (ih name old hold hdistinct (htop.member hnew))
        all_goals cases hobject
      · have htaken : merge base (obj members) = obj members :=
          merge_of_isObject (Bool.eq_false_iff.2 hobject) rfl
        rw [htaken, htaken]
    all_goals rw [merge_of_replaces rfl, merge_of_replaces rfl]

/-! ## Along paths -/

/-- On top, a value that is neither null nor an object wins. -/
theorem at?_merge_of_replaces {base top v : Json} {path : List String} (htop : top.Distinct)
    (h : top.at? path = some v) (hv : v.replaces = true) :
    (merge base top).at? path = some v := by
  induction path generalizing base top with
  | nil =>
    cases h
    rw [merge_of_replaces hv]
    rfl
  | cons name rest ih =>
    obtain ⟨value, hvalue, hrest⟩ := Option.bind_eq_some_iff.1 h
    rw [at?, member?_merge htop (isObject_of_member? hvalue), hvalue]
    cases base.member? name with
    | none => exact hrest
    | some old => exact ih (htop.member hvalue) hrest

/-- Below, a value stays if there is nothing or null on top of it and nothing on the way there takes
the place of what is below. -/
theorem at?_merge_of_not_replaced {base top v : Json} {path : List String} (htop : top.Distinct)
    (h : base.at? path = some v) (hfree : top.at? path = none ∨ top.at? path = some .null)
    (hway : ∀ front, front <+: path → front ≠ path →
      ∀ w, top.at? front = some w → w.replaces = false) :
    (merge base top).at? path = some v := by
  induction path generalizing base top with
  | nil =>
    obtain hnone | hnull := hfree
    · cases hnone
    · cases hnull
      rwa [merge_null_right]
  | cons name rest ih =>
    have hroot := hway [] List.nil_prefix (List.cons_ne_nil name rest).symm top rfl
    by_cases hobject : top.isObject = true
    · obtain ⟨old, hold, hrest⟩ := Option.bind_eq_some_iff.1 h
      rw [at?, member?_merge htop hobject, hold]
      cases hvalue : top.member? name with
      | none => exact hrest
      | some value =>
        refine ih (htop.member hvalue) hrest ?_ fun front hfront hne w hw => ?_
        · rwa [at?, hvalue] at hfree
        · refine hway (name :: front) (List.cons_prefix_cons.2 ⟨rfl, hfront⟩) ?_ w ?_
          · exact fun heq => hne (List.cons.inj heq).2
          · rwa [at?, hvalue]
    · cases top
      case null => rwa [merge_null_right]
      case obj => exact absurd rfl hobject
      all_goals cases hroot

/-- Null on top never covers what is below: the way to it leads through objects alone. -/
theorem at?_merge_of_null {base top v : Json} {path : List String} (htop : top.Distinct)
    (h : base.at? path = some v) (hnull : top.at? path = some .null) :
    (merge base top).at? path = some v := by
  refine at?_merge_of_not_replaced htop h (.inr hnull) fun front hfront hne w hw => ?_
  obtain ⟨back, rfl⟩ := hfront
  rw [at?_append, hw, Option.bind_some] at hnull
  obtain _ | ⟨name, rest⟩ := back
  · exact absurd (List.append_nil front).symm hne
  · obtain ⟨value, hvalue, -⟩ := Option.bind_eq_some_iff.1 hnull
    exact replaces_of_isObject (isObject_of_member? hvalue)

/-! ## Different names -/

theorem lookup_of_mem {name : String} {v : Json} {members : List (String × Json)}
    (h : (members.map Prod.fst).Nodup) (hv : (name, v) ∈ members) :
    lookup name members = some v := by
  induction members with
  | nil => cases hv
  | cons m rest ih =>
    obtain ⟨hfresh, hrest⟩ := List.nodup_cons.1 h
    rw [lookup]
    obtain rfl | hv := List.mem_cons.1 hv
    · rw [if_pos rfl]
    · rw [if_neg fun hname => hfresh (List.mem_map.2 ⟨_, hv, hname.symm⟩)]
      exact ih hrest hv

/-- What stands under a name of merged members is below, on top, or merged of the two. -/
theorem laidOver_eq_some {below top : Option Json} {v : Json} (h : laidOver below top = some v) :
    below = some v ∨ top = some v ∨
      ∃ old value, below = some old ∧ top = some value ∧ merge old value = v := by
  cases below with
  | none =>
    cases top with
    | none => cases h
    | some value => exact .inr (.inl h)
  | some old =>
    cases top with
    | none => exact .inl h
    | some value => exact .inr (.inr ⟨old, value, rfl, rfl, Option.some.inj h⟩)

theorem distinct_merge {base top : Json} (hbase : base.Distinct) (htop : top.Distinct) :
    (merge base top).Distinct := by
  induction base using memberInduction generalizing top with
  | step base ih =>
    cases top
    case null => rwa [merge_null_right]
    case obj members =>
      by_cases hobject : base.isObject = true
      · cases base
        case obj below =>
          have hnodup := nodup_mergeMembers hbase.1 htop.1
          rw [merge]
          refine ⟨hnodup, distinctMembers_iff.2 fun ⟨name, v⟩ hv => ?_⟩
          have hlookup := lookup_of_mem hnodup hv
          rw [lookup_mergeMembers htop.1] at hlookup
          obtain hold | hnew | ⟨old, value, hold, hnew, hmerged⟩ := laidOver_eq_some hlookup
          · exact hbase.member hold
          · exact htop.member hnew
          · subst hmerged
            exact ih name old hold (hbase.member hold) (htop.member hnew)
        all_goals cases hobject
      · rwa [merge_of_isObject (Bool.eq_false_iff.2 hobject) rfl]
    all_goals rwa [merge_of_replaces rfl]

/-! ## The laws -/

/-- Null changes nothing on either side, what is there already is not merged in again, and along a
path of names it is told what a merged value holds: a value on top that is neither null nor an
object; and a value below if nothing or null is on top of it and nothing on the way there takes its
place.  So null on top never covers a value below. -/
theorem merge_laws {a b : Json} (ha : a.Distinct) (hb : b.Distinct) :
    (merge a b).Distinct ∧ merge a .null = a ∧ merge .null b = b ∧ merge a a = a ∧
      merge a (merge a b) = merge a b ∧ merge (merge a b) b = merge a b ∧
      (∀ path v, b.at? path = some v → v.replaces = true → (merge a b).at? path = some v) ∧
      (∀ path v, a.at? path = some v → (b.at? path = none ∨ b.at? path = some .null) →
        (∀ front, front <+: path → front ≠ path →
          ∀ w, b.at? front = some w → w.replaces = false) →
        (merge a b).at? path = some v) ∧
      ∀ path v, a.at? path = some v → b.at? path = some .null →
        (merge a b).at? path = some v :=
  ⟨distinct_merge ha hb, merge_null_right a, merge_null_left b, merge_self ha,
    merge_merge_left ha hb, merge_merge_right ha hb,
    fun _ _ h hv => at?_merge_of_replaces hb h hv,
    fun _ _ h hfree hway => at?_merge_of_not_replaced hb h hfree hway,
    fun _ _ h hnull => at?_merge_of_null hb h hnull⟩

/-- What a document says of all its clips. -/
def fadingDefault : Json :=
  .obj [("duration", .int 3),
    ("transition", .obj [("name", .str "fade"), ("duration", .float 0.5)]),
    ("audios", .arr [.obj [("path", .str "hum.mp3")]])]

/-- A clip with a transition of its own length, which leaves its duration open. -/
def openClip : Json :=
  .obj [("duration", .null), ("transition", .obj [("duration", .int 2), ("name", .null)]),
    ("layers", .arr []), ("audios", .arr [])]

theorem merge_laws_openClip :
    fadingDefault.Distinct ∧ openClip.Distinct ∧
      merge fadingDefault openClip = .obj [("duration", .int 3),
        ("transition", .obj [("name", .str "fade"), ("duration", .int 2)]),
        ("audios", .arr []), ("layers", .arr [])] ∧
      merge fadingDefault (merge fadingDefault openClip) = merge fadingDefault openClip ∧
      (merge fadingDefault openClip).at? ["transition", "duration"] = some (.int 2) ∧
      (merge fadingDefault openClip).at? ["duration"] = some (.int 3) := by
  have hdefault : fadingDefault.Distinct := by
    simp [fadingDefault, Distinct, DistinctMembers, DistinctItems]
  have hclip : openClip.Distinct := by simp [openClip, Distinct, DistinctMembers, DistinctItems]
  obtain ⟨-, -, -, -, hagain, -, hwins, -, hnull⟩ := merge_laws hdefault hclip
  exact ⟨hdefault, hclip, rfl, hagain, hwins _ _ rfl rfl, hnull _ _ rfl rfl⟩

end Montage.Json
