import Montage.Proofs.Transition.Actions

/-!
# What splices yield

The lengths of streams are followed through the actions of a splice: behind the cuts each body and
each tail is as long as its cut says, behind the crossfades each of them is as long as the body that
it fades into, and so the parts have the lengths `partLengths` (`lengthsAfter_joinedParts`).
`splice_outcome` sums up when a splice succeeds, what it adds and how long the joined stream is.
-/

namespace Montage.Transition

open Montage.Graph

/-! ## Lengths -/

theorem numberedFrom_cutActions (base : Nat) (c : Cut) :
    ∀ a ∈ cutActions base c, ∀ label ∈ a.outputs, NumberedFrom base label := by
  simp only [cutActions, bodyLabel, tailLabel, List.forall_mem_cons, List.not_mem_nil, false_imp_iff,
    implies_true, and_true]
  refine ⟨⟨⟨_, _, ?_, ?_, rfl⟩, ⟨_, _, ?_, ?_, rfl⟩⟩, ⟨_, _, ?_, ?_, rfl⟩, ⟨_, _, ?_, ?_, rfl⟩,
    ⟨_, _, ?_, ?_, rfl⟩⟩ <;> first | decide | omega

theorem numberedFrom_allCutActions (base : Nat) (cs : List Cut) :
    ∀ a ∈ allCutActions base cs, ∀ label ∈ a.outputs, NumberedFrom base label := by
  induction cs generalizing base with
  | nil => simp [allCutActions]
  | cons c rest ih =>
    intro a ha label hlabel
    rw [allCutActions_cons] at ha
    rcases List.mem_append.1 ha with ha | ha
    · exact numberedFrom_cutActions base c a ha label hlabel
    · exact (ih (base + 5) a ha label hlabel).mono (Nat.le_add_right ..)

theorem numberedFrom_fadeActions (base number : Nat) (rest : List Segment) :
    ∀ a ∈ fadeActions base number rest, ∀ label ∈ a.outputs, NumberedFrom number label := by
  intro a ha label hlabel
  obtain ⟨i, hi, rfl⟩ := List.mem_mapIdx.1 ha
  rw [fadeAction, List.mem_singleton] at hlabel
  exact ⟨"trans", number + i, by decide, Nat.le_add_right .., hlabel⟩

variable (known : Label → Option Int)

theorem lengthsAfter_bodyLabel (base : Nat) (c : Cut) :
    lengthsAfter known (cutActions base c) (bodyLabel base) = some c.body := by
  have hlater : ∀ a ∈ (cutActions base c).drop 2, ∀ label ∈ a.outputs,
      NumberedFrom (base + 3) label := by
    simp only [cutActions, tailLabel, List.drop_succ_cons, List.drop_zero, List.forall_mem_cons,
      List.not_mem_nil, false_imp_iff, implies_true, and_true]
    exact ⟨⟨_, _, by decide, Nat.le_refl _, rfl⟩, ⟨_, _, by decide, Nat.le_succ _, rfl⟩⟩
  have hbehind := lengthsAfter_of_numberedFrom hlater (show isTag "trim" = true by decide)
    (Nat.lt_succ_self (base + 2)) (lengthsAfter known ((cutActions base c).take 2))
  refine hbehind.trans ((Action.lengthsAfter_of_mem (List.mem_singleton.2 rfl) _).trans ?_)
  change some (c.body - 0) = some c.body
  rw [Int.sub_zero]

theorem lengthsAfter_tailLabel (base : Nat) {c : Cut} (hexact : c.IsExact) :
    lengthsAfter known (cutActions base c) (tailLabel base) = some c.tail := by
  -- The last two actions trim the tail and count it from zero.
  refine (Action.lengthsAfter_of_mem (List.mem_singleton.2 rfl) _).trans
    ((Action.lengthsAfter_of_mem (List.mem_singleton.2 rfl) _).trans ?_)
  change some (c.segment.duration - c.body) = some c.tail
  rw [hexact, Int.sub_sub_self]

/-- Behind the cuts each body and each tail is as long as its cut says. -/
theorem lengthsAfter_allCutActions {cs : List Cut} (hexact : ∀ c ∈ cs, c.IsExact) (base : Nat) :
    ∀ i (hi : i < cs.length),
    lengthsAfter known (allCutActions base cs) (bodyLabel (base + 5 * i)) = some cs[i].body ∧
      lengthsAfter known (allCutActions base cs) (tailLabel (base + 5 * i)) = some cs[i].tail := by
  induction cs generalizing base known with
  | nil => exact fun i hi => absurd hi (Nat.not_lt_zero i)
  | cons c rest ih =>
    intro i hi
    rw [List.forall_mem_cons] at hexact
    rw [allCutActions_cons, lengthsAfter_append]
    cases i with
    | zero =>
      have hlater := numberedFrom_allCutActions (base + 5) rest
      have hbody := lengthsAfter_of_numberedFrom hlater (show isTag "trim" = true by decide)
        (show base + 2 < base + 5 by omega) (lengthsAfter known (cutActions base c))
      have htail := lengthsAfter_of_numberedFrom hlater (show isTag "trim" = true by decide)
        (show base + 4 < base + 5 by omega) (lengthsAfter known (cutActions base c))
      exact ⟨hbody.trans (lengthsAfter_bodyLabel known base c),
        htail.trans (lengthsAfter_tailLabel known base hexact.1)⟩
    | succ i =>
      have hshift : base + 5 * (i + 1) = base + 5 + 5 * i := by omega
      rw [hshift]
      exact ih _ hexact.2 (base + 5) i (Nat.lt_of_succ_lt_succ hi)

/-- Each crossfade is as long as the body that it fades into. -/
theorem lengthsAfter_fadeActions (rest : List Segment) (base number : Nat) (length : Nat → Int)
    (hnumber : base + 5 * rest.length + 2 < number)
    (hbody : ∀ i < rest.length, known (bodyLabel (base + 5 * (i + 1))) = some (length i)) :
    ∀ i < rest.length, lengthsAfter known (fadeActions base number rest)
      (fadeLabel (number + i)) = some (length i) := by
  induction rest generalizing base number known length with
  | nil => exact fun i hi => absurd hi (Nat.not_lt_zero i)
  | cons s rest ih =>
    rw [List.length_cons] at hnumber hbody ⊢
    intro i hi
    rw [fadeActions_cons]
    cases i with
    | zero =>
      have hbehind := lengthsAfter_of_numberedFrom
        (numberedFrom_fadeActions (base + 5) (number + 1) rest)
        (show isTag "trans" = true by decide) (Nat.lt_succ_self number)
        ((fadeAction base number s).lengthsAfter known)
      refine hbehind.trans ((Action.lengthsAfter_of_mem (List.mem_singleton.2 rfl) _).trans ?_)
      exact hbody 0 (Nat.zero_lt_succ _)
    | succ i =>
      have hshift : number + (i + 1) = number + 1 + i := by omega
      rw [hshift]
      refine ih ((fadeAction base number s).lengthsAfter known) (base + 5) (number + 1)
        (fun i => length (i + 1)) (by omega) (fun j hj => ?_) i (by omega)
      have hne : bodyLabel (base + 5 + 5 * (j + 1)) ∉ (fadeAction base number s).outputs := by
        rw [fadeAction, List.mem_singleton]
        intro e
        have := tagged_inj (show isTag "trim" = true by decide)
          (show isTag "trans" = true by decide) e
        omega
      have hshift : base + 5 + 5 * (j + 1) = base + 5 * (j + 1 + 1) := by omega
      rw [Action.lengthsAfter_of_not_mem hne, hshift]
      exact hbody (j + 1) (by omega)

/-- Behind the crossfades the parts are as long as `partLengths` says. -/
theorem lengthsAfter_partLabels (base : Nat) {cs : List Cut} {rest : List Segment}
    (hlength : cs.length = rest.length + 1) (hexact : ∀ c ∈ cs, c.IsExact) :
    (partLabels base (base + 5 * cs.length) rest).map (lengthsAfter known
      (allCutActions base cs ++ fadeActions base (base + 5 * cs.length) rest)) =
      (partLengths cs).map some := by
  have hcuts := lengthsAfter_allCutActions known hexact base
  have hlater := numberedFrom_fadeActions base (base + 5 * cs.length) rest
  have hbody := lengthsAfter_of_numberedFrom hlater (show isTag "trim" = true by decide)
    (show base + 2 < base + 5 * cs.length by omega) (lengthsAfter known (allCutActions base cs))
  have htail := lengthsAfter_of_numberedFrom hlater (show isTag "trim" = true by decide)
    (show base + 5 * rest.length + 4 < base + 5 * cs.length by omega)
    (lengthsAfter known (allCutActions base cs))
  have hfades := lengthsAfter_fadeActions (lengthsAfter known (allCutActions base cs)) rest base
    (base + 5 * cs.length) (fun i => (cs[i + 1]?.map Cut.body).getD 0) (by omega) fun i hi => by
      rw [List.getElem?_eq_getElem (by omega)]
      exact (hcuts (i + 1) (by omega)).1
  rw [lengthsAfter_append]
  have hbodies : (bodyLabel base :: (rest.mapIdx fun i _ =>
      fadeLabel (base + 5 * cs.length + i))).map (lengthsAfter
        (lengthsAfter known (allCutActions base cs))
        (fadeActions base (base + 5 * cs.length) rest)) = (cs.map Cut.body).map some := by
    refine List.ext_getElem (by simp [hlength]) fun i hi hi' => ?_
    rw [List.length_map, List.length_map] at hi'
    simp only [List.getElem_map]
    cases i with
    | zero => exact hbody.trans (hcuts 0 hi').1
    | succ i =>
      have hfade := hfades i (by omega)
      rw [List.getElem?_eq_getElem hi'] at hfade
      simpa using hfade
  have hlast : cs.getLast? = some cs[rest.length] := by
    rw [List.getLast?_eq_getElem?, ← List.getElem?_eq_getElem]
    congr 1
    omega
  rw [partLabels, List.map_append, hbodies, List.map_singleton, partLengths, hlast, List.map_append]
  exact congrArg (List.map some (cs.map Cut.body) ++ [·]) (htail.trans (hcuts rest.length _).2)

/-- The labels that a splice puts one behind the other. -/
def joinedParts (base : Nat) (segments : List Segment) : List Label :=
  partLabels base (base + 5 * segments.length) (segments.drop 1)

theorem ne_joinedLabel_of_mem_partLabels {base number : Nat} {rest : List Segment}
    (hnumber : base + 5 * rest.length + 4 < number) {label : Label}
    (h : label ∈ partLabels base number rest) : label ≠ joinedLabel (number + rest.length) := by
  rintro rfl
  simp only [partLabels, List.cons_append, List.mem_cons, List.mem_append, List.not_mem_nil,
    or_false] at h
  rcases h with e | h | e
  · have := tagged_inj (show isTag "gl" = true by decide) (show isTag "trim" = true by decide) e
    omega
  · obtain ⟨i, hi, e⟩ := List.mem_mapIdx.1 h
    have := tagged_inj (show isTag "trans" = true by decide) (show isTag "gl" = true by decide) e
    omega
  · have := tagged_inj (show isTag "gl" = true by decide) (show isTag "trim" = true by decide) e
    omega

/-- Behind the actions the parts are as long as `partLengths` says. -/
theorem lengthsAfter_joinedParts (base : Nat) {segments : List Segment} (h : segments ≠ [])
    (hexact : ∀ c ∈ cuts segments, c.IsExact) :
    (joinedParts base segments).map (lengthsAfter known (actions base segments)) =
      (partLengths (cuts segments)).map some := by
  obtain ⟨first, rest, rfl⟩ := List.exists_cons_of_ne_nil h
  have hlength := length_cuts (first :: rest)
  rw [← lengthsAfter_partLabels known base hlength hexact, actions_eq, lengthsAfter_append,
    joinedParts, hlength]
  refine List.map_congr_left fun label hlabel => ?_
  refine Action.lengthsAfter_of_not_mem (fun hmem => ?_) _
  refine ne_joinedLabel_of_mem_partLabels ?_ hlabel (List.mem_singleton.1 hmem)
  rw [List.length_cons]
  change base + 5 * rest.length + 4 < base + 5 * (rest.length + 1)
  omega

variable {g : Graph} {segments : List Segment} {joined : Context} {total : Int}

/-- What a splice that succeeds adds, and what it reports. -/
theorem extended_of_splice_eq_ok (h : (splice g segments).1 = .ok (joined, total)) :
    segments ≠ [] ∧ (splice g segments).2.steps =
        g.steps ++ (actions g.nextId segments).map Action.step ∧
      joined = ⟨joinedLabel (g.nextId + 5 * segments.length + (segments.drop 1).length)⟩ ∧
      total = splicedLength segments := by
  obtain ⟨hlength, -, hsplice, hresult⟩ := eq_of_splice_eq_ok h
  have hne : segments ≠ [] := List.ne_nil_of_length_pos (by omega)
  rw [spliced_eq_extended g hne] at hresult hsplice
  rw [Prod.mk.injEq] at hresult
  exact ⟨hne, by rw [hsplice]; rfl, hresult⟩

/-- Four seconds and five seconds, joined by a fade of one second. -/
def fadedSegments : List Segment :=
  [⟨.ofInput 0 .video, 4000, "fade", 1000⟩, ⟨.ofInput 1 .video, 5000, "fade", 1000⟩]

theorem noOverflow_fadedSegments : NoOverflow fadedSegments where
  bodies := by decide
  total := by decide

-- The first segment is longer than its own fade, but no longer than the fade into the next one.
example : (splice .empty
    [⟨.ofInput 0 .video, 1000, "fade", 500⟩, ⟨.ofInput 1 .video, 5000, "fade", 1000⟩]).1 =
      .error (.shortScene 0 1000 1000) := rfl

end Montage.Transition
