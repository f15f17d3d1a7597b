import Montage.Proofs.Transition.Splice

/-!
# What a splice cuts out

Each segment is trimmed twice, to its body and to its tail (`trims`).  A body that goes into a
splice is never empty, but how long a tail is depends on the transition behind it alone: all trims
are proper stretches of their segments just when every transition that is used lasts
(`trims_proper_iff`).  Where a length overflows, the segments have to last as well.
-/

namespace Montage.Transition

/-! ## Trims -/

/-- A stretch that is cut out of a segment. -/
structure Trim where
  segment : Segment
  start : Int
  finish : Int
  deriving Repr, DecidableEq

/-- The stretch is not empty and lies within the segment. -/
def Trim.Proper (t : Trim) : Prop :=
  0 ≤ t.start ∧ t.start < t.finish ∧ t.finish ≤ t.segment.duration

instance (t : Trim) : Decidable t.Proper := inferInstanceAs (Decidable (_ ∧ _ ∧ _))

/-- The body and the tail of a cut. -/
def Cut.trims (c : Cut) : List Trim :=
  [⟨c.segment, 0, c.body⟩, ⟨c.segment, c.body, c.segment.duration⟩]

/-- All that is cut out of the segments, in order. -/
def trims (segments : List Segment) : List Trim := (cuts segments).flatMap Cut.trims

/-- The stretch that an action cuts out, if it is a trim. -/
def Action.stretch? (a : Action) : Option (Int × Int) :=
  match a.operation with
  | .trim start finish => some (start, finish)
  | _ => none

theorem stretches_allCutActions (base : Nat) (cs : List Cut) :
    (allCutActions base cs).filterMap Action.stretch? =
      (cs.flatMap Cut.trims).map fun t => (t.start, t.finish) := by
  induction cs generalizing base with
  | nil => rfl
  | cons c rest ih =>
    rw [allCutActions_cons, List.filterMap_append, ih, List.flatMap_cons, List.map_append]
    rfl

theorem stretches_fadeActions (base number : Nat) (rest : List Segment) :
    (fadeActions base number rest).filterMap Action.stretch? = [] := by
  rw [List.filterMap_eq_nil_iff]
  intro a ha
  obtain ⟨i, hi, rfl⟩ := List.mem_mapIdx.1 ha
  rfl

/-- The actions of a splice trim what `trims` says, in that order, and nothing else. -/
theorem stretches_actions (base : Nat) (segments : List Segment) :
    (actions base segments).filterMap Action.stretch? =
      (trims segments).map fun t => (t.start, t.finish) := by
  rw [actions_eq, List.filterMap_append, List.filterMap_append, stretches_allCutActions,
    stretches_fadeActions, List.append_nil]
  exact List.append_nil _

/-! ## Proper trims -/

theorem Cut.body_pos {c : Cut} (h : c.fits = true) : 0 < c.body := by
  rw [Cut.fits, Bool.and_eq_true, decide_eq_true_eq, decide_eq_true_eq] at h
  exact h.2

/-- Where the segment fits, the body is not empty; the tail is what can go wrong. -/
theorem Cut.forall_proper_iff {c : Cut} (h : c.fits = true) :
    (∀ t ∈ c.trims, t.Proper) ↔ c.body < c.segment.duration := by
  have hbody := Cut.body_pos h
  simp only [trims, List.forall_mem_cons, List.not_mem_nil, false_implies, implies_true, and_true,
    Trim.Proper]
  omega

theorem Cut.IsExact.body_lt_iff {c : Cut} (h : c.IsExact) :
    c.body < c.segment.duration ↔ 0 < c.tail := by
  rw [h]
  omega

/-- In sixty-four bits a body can also be shorter than its segment because it wrapped around, but
not where the segment lasts. -/
theorem Cut.body_lt_iff_of_fits64 {c : Cut} (hduration : Fits64 c.segment.duration)
    (htail : Fits64 c.tail) (hbody : 0 < c.body) :
    c.body < c.segment.duration ↔ 0 < c.segment.duration ∧ 0 < c.tail := by
  obtain ⟨hlow, hhigh⟩ := hduration
  obtain ⟨hlow', hhigh'⟩ := htail
  constructor
  · intro hlt
    have hpos := Int.lt_trans hbody hlt
    -- A body that is not less than nothing did not wrap around from above.
    have hfits : c.segment.duration - c.tail < 9223372036854775808 := by
      rw [Cut.body, wrap64, Int.bmod_def] at hbody
      split at hbody <;> omega
    have hexact : c.IsExact := wrap64_eq_self ⟨by omega, hfits⟩
    exact ⟨hpos, hexact.body_lt_iff.1 hlt⟩
  · rintro ⟨hpos, htail⟩
    have hexact : c.IsExact := wrap64_eq_self ⟨by omega, by omega⟩
    exact hexact.body_lt_iff.2 htail

/-- The tails are as long as the transitions between the segments. -/
theorem forall_tail_pos_iff (s next : Segment) (rest : List Segment) :
    (∀ c ∈ cuts (s :: next :: rest), 0 < c.tail) ↔
      ∀ s' ∈ next :: rest, 0 < s'.transitionLength := by
  induction rest generalizing s next with
  | nil => simp [cuts]
  | cons next' rest ih =>
    rw [cuts, List.forall_mem_cons, ih next next', List.forall_mem_cons (a := next)]

/-- The segments' numbers fit into sixty-four bits. -/
def AllFit64 (segments : List Segment) : Prop :=
  ∀ s ∈ segments, Fits64 s.duration ∧ Fits64 s.transitionLength

theorem AllFit64.cuts {segments : List Segment} (h : AllFit64 segments) :
    ∀ c ∈ cuts segments, Fits64 c.segment.duration ∧ Fits64 c.tail := by
  refine forall_mem_cuts_iff.2 fun i hi => ⟨(h _ (List.getElem_mem hi)).1, ?_⟩
  rw [outgoing]
  rcases hnext : segments[i + 1]? with _ | next
  · exact (h _ (List.getElem_mem hi)).2
  · exact (h _ (List.mem_of_getElem? hnext)).2

/-- A splice that succeeds trims what `trims` says.  Without overflow all of that are proper
stretches of their segments if and only if every transition but the first segment's, which is not
used, lasts.  With overflow they are if and only if every segment lasts as well. -/
theorem trims_proper_iff {g : Graph} {segments : List Segment} {result : Graph.Context × Int}
    (h : (splice g segments).1 = .ok result) :
    ∃ added : List Action, (splice g segments).2.steps = g.steps ++ added.map Action.step ∧
      added.filterMap Action.stretch? = (trims segments).map (fun t => (t.start, t.finish)) ∧
      (NoOverflow segments →
        ((∀ t ∈ trims segments, t.Proper) ↔ ∀ s ∈ segments.drop 1, 0 < s.transitionLength)) ∧
      (AllFit64 segments →
        ((∀ t ∈ trims segments, t.Proper) ↔
          (∀ s ∈ segments, 0 < s.duration) ∧ ∀ s ∈ segments.drop 1, 0 < s.transitionLength)) := by
  obtain ⟨hlength, hfits, -, -⟩ := eq_of_splice_eq_ok h
  refine ⟨_, (extended_of_splice_eq_ok h).2.1, stretches_actions g.nextId segments, ?_⟩
  have hproper : (∀ t ∈ trims segments, t.Proper) ↔
      ∀ c ∈ cuts segments, c.body < c.segment.duration := by
    rw [trims, List.forall_mem_flatMap]
    exact forall₂_congr fun c hc => Cut.forall_proper_iff (hfits c hc)
  have htails : (∀ c ∈ cuts segments, 0 < c.tail) ↔
      ∀ s ∈ segments.drop 1, 0 < s.transitionLength :=
    match segments, hlength with
    | s :: next :: rest, _ => forall_tail_pos_iff s next rest
  have hdurations : (∀ c ∈ cuts segments, 0 < c.segment.duration) ↔
      ∀ s ∈ segments, 0 < s.duration := by
    have hmap : (cuts segments).map (·.segment) = segments := map_segment_cuts segments
    rw [← List.forall_mem_map (P := fun s : Segment => 0 < s.duration), hmap]
  rw [hproper, ← htails, ← hdurations]
  constructor
  · intro hexact
    exact forall₂_congr fun c hc => (hexact.isExact c hc).body_lt_iff
  · intro hfits64
    have hcut := fun c (hc : c ∈ cuts segments) =>
      Cut.body_lt_iff_of_fits64 (hfits64.cuts c hc).1 (hfits64.cuts c hc).2
        (Cut.body_pos (hfits c hc))
    constructor
    · intro hlt
      exact ⟨fun c hc => ((hcut c hc).1 (hlt c hc)).1, fun c hc => ((hcut c hc).1 (hlt c hc)).2⟩
    · rintro ⟨hpos, htail⟩ c hc
      exact (hcut c hc).2 ⟨hpos c hc, htail c hc⟩

theorem trims_proper_iff_fadedSegments :
    (splice .empty fadedSegments).1 = .ok (⟨"gl11"⟩, 8000) ∧
    ∃ added : List Action, (splice .empty fadedSegments).2.steps =
        Graph.empty.steps ++ added.map Action.step ∧
      added.filterMap Action.stretch? = [(0, 3000), (3000, 4000), (0, 4000), (4000, 5000)] ∧
      ((∀ t ∈ trims fadedSegments, t.Proper) ↔
        ∀ s ∈ fadedSegments.drop 1, 0 < s.transitionLength) := by
  obtain ⟨added, hsteps, hstretches, hiff, -⟩ := @trims_proper_iff .empty fadedSegments _ rfl
  exact ⟨rfl, added, hsteps, hstretches, hiff noOverflow_fadedSegments⟩

/-- Two scenes of five seconds; the transition between them lasts for less than no time. -/
def backwardFade : List Segment :=
  [⟨.ofInput 0 .video, 5000, "fade", 1000⟩, ⟨.ofInput 1 .video, 5000, "fade", -1000⟩]

/-- A splice can succeed with a body that is longer than its segment and a tail that ends before it
starts. -/
theorem not_proper_backwardFade :
    (∃ result, (splice .empty backwardFade).1 = .ok result) ∧
      ∃ t ∈ trims backwardFade, t.finish < t.start ∧ ¬ t.Proper :=
  ⟨⟨_, rfl⟩, ⟨⟨.ofInput 0 .video, 5000, "fade", 1000⟩, 6000, 5000⟩, by decide⟩

end Montage.Transition
