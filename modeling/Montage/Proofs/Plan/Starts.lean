import Montage.Proofs.Plan.Mixing
import Montage.Proofs.Plan.Segments
import Montage.Proofs.Timeline.Starts
import Montage.Proofs.Transition.Splice

/-!
# Where scenes sit in the result

The sounds of a timeline are placed by `crossfadeStartMillis` or `startMillis`, the picture by a
splice or by a manifest.  `starts_agree` shows that both place each scene alike: a scene starts
where the parts of the splice before it end, and where the scenes before it end in a manifest.
-/

namespace Montage.Timeline

open Montage.Graph Transition

/-! ## Crossfades -/

/-- The starts of the scenes fit the splice of the segments behind the graph `g`, into a stream of
the length `total`. -/
structure SplicedAt (t : Timeline) (g : Graph) (segments : List Segment) (joined : Context)
    (total : Int) : Prop where
  length_eq : t.crossfadeStartMillis.length = t.scenes.length
  /-- What the splice adds to the graph are the actions along which lengths are followed. -/
  steps_eq : (splice g segments).2.steps =
    g.steps ++ (actions g.nextId segments).map Action.step
  /-- The last action puts the parts one behind the other. -/
  joined_eq : (actions g.nextId segments).getLast? =
    some ⟨joinedParts g.nextId segments, .concat (segments.length + 1), [joined.label]⟩
  /-- These parts have the lengths `partLengths`, whatever was known of other streams. -/
  parts_eq : ∀ known : Label → Option Int,
    (joinedParts g.nextId segments).map (lengthsAfter known (actions g.nextId segments)) =
      (partLengths (cuts segments)).map some
  start_eq : ∀ i < t.scenes.length,
    t.crossfadeStartMillis[i]? = some (addUp ((partLengths (cuts segments)).take i))
  /-- No start has to be moved to zero. -/
  unclamped : ∀ i < t.scenes.length,
    0 ≤ t.unclampedStart i ∧ t.crossfadeStartMillis[i]? = some (t.unclampedStart i)
  increasing : t.crossfadeStartMillis.Pairwise (· < ·)
  finish_eq : ∃ start last, t.crossfadeStartMillis.getLast? = some start ∧
    t.scenes.getLast? = some last ∧ start + last.millis = total

variable {t : Timeline} {picker : Picker} {p p' : Program} {paths : List String}
  {segments : List Segment}

theorem unclampedStart_eq (hexact : ∀ c ∈ cuts segments, c.IsExact)
    (hdurations : segments.map (·.duration) = t.scenes.map Scene.millis)
    (htransitions : segments.map (·.transitionLength) = t.scenes.map Scene.transitionMillis) {i : Nat}
    (hi : i < segments.length) :
    t.unclampedStart i = addUp ((partLengths (cuts segments)).take i) := by
  rw [addUp_take_partLengths segments hexact i hi, unclampedStart, hdurations, List.map_drop,
    List.map_drop, htransitions]

/-- The bodies of the segments are longer than nothing, so each scene starts behind the ones before
it. -/
theorem unclampedStart_lt (hfits : ∀ c ∈ cuts segments, c.fits = true)
    (hexact : ∀ c ∈ cuts segments, c.IsExact)
    (hdurations : segments.map (·.duration) = t.scenes.map Scene.millis)
    (htransitions : segments.map (·.transitionLength) = t.scenes.map Scene.transitionMillis)
    {i j : Nat} (hij : i < j) (hj : j < segments.length) :
    t.unclampedStart i < t.unclampedStart j := by
  have hcuts : (cuts segments).length = segments.length := length_cuts segments
  have hne : cuts segments ≠ [] := List.ne_nil_of_length_pos (by omega)
  have hcount := length_partLengths hne
  rw [unclampedStart_eq hexact hdurations htransitions (Nat.lt_trans hij hj),
    unclampedStart_eq hexact hdurations htransitions hj]
  exact addUp_take_lt hij (by omega) fun k hk => getElem_partLengths_pos hfits (by omega) (by omega)

theorem unclampedStart_nonneg (hfits : ∀ c ∈ cuts segments, c.fits = true)
    (hexact : ∀ c ∈ cuts segments, c.IsExact)
    (hdurations : segments.map (·.duration) = t.scenes.map Scene.millis)
    (htransitions : segments.map (·.transitionLength) = t.scenes.map Scene.transitionMillis)
    {i : Nat} (hi : i < segments.length) : 0 ≤ t.unclampedStart i := by
  have hzero : t.unclampedStart 0 = 0 := by
    rw [unclampedStart, List.take_zero, List.take_zero]
    exact Int.sub_self _
  rcases Nat.eq_zero_or_pos i with rfl | hpos
  · exact Int.le_of_eq hzero.symm
  · exact Int.le_of_lt (hzero ▸ unclampedStart_lt hfits hexact hdurations htransitions hpos hi)

theorem splicedLength_eq (hexact : NoOverflow segments)
    (hdurations : segments.map (·.duration) = t.scenes.map Scene.millis)
    (htransitions : segments.map (·.transitionLength) = t.scenes.map Scene.transitionMillis) {i : Nat}
    (hi : i + 1 = t.scenes.length) :
    splicedLength segments = t.unclampedStart i + t.scenes[i].millis := by
  have hsum : addUp ((t.scenes.map Scene.millis).take (i + 1)) =
      addUp ((t.scenes.map Scene.millis).take i) + t.scenes[i].millis := by
    rw [addUp_take_succ (by rw [List.length_map]; omega), List.getElem_map]
  rw [List.take_of_length_le (by rw [List.length_map]; omega)] at hsum
  have hall : ((t.scenes.drop 1).map Scene.transitionMillis).take i =
      (t.scenes.drop 1).map Scene.transitionMillis :=
    List.take_of_length_le (by rw [List.length_map, List.length_drop]; omega)
  rw [splicedLength, wrap64_eq_self hexact.total, hdurations, List.map_drop, htransitions,
    unclampedStart, hall, hsum, List.map_drop]
  omega

/-- If the segments of a timeline's scenes can be spliced, and no length overflows, the scenes start
where the splice has them. -/
theorem splicedAt_of_splice (hpaths : paths.length = t.scenes.length)
    (hadd : addSegments picker p (t.scenes.zip paths) = .ok (segments, p'))
    (hexact : NoOverflow segments) (hstarts : ∀ i < t.scenes.length, Fits64 (t.unclampedStart i))
    {g : Graph} {joined : Context} {total : Int}
    (hsplice : (splice g segments).1 = .ok (joined, total)) :
    t.SplicedAt g segments joined total := by
  obtain ⟨hdurations, htransitions, hlength⟩ := lengths_of_addSegments hpaths hadd
  obtain ⟨htwo, hfits, -, -⟩ := eq_of_splice_eq_ok hsplice
  obtain ⟨hsegments, hsteps, rfl, rfl⟩ := extended_of_splice_eq_ok hsplice
  have hnonneg : ∀ i < t.scenes.length, 0 ≤ t.unclampedStart i := fun i hi =>
    unclampedStart_nonneg hfits hexact.isExact hdurations htransitions (by omega)
  have hstart : ∀ i < t.scenes.length, t.crossfadeStartMillis[i]? = some (t.unclampedStart i) :=
    fun i hi => by
      rw [t.getElem?_crossfadeStartMillis hi, wrap64_eq_self (hstarts i hi),
        Int.max_eq_left (hnonneg i hi)]
  refine
    { length_eq := t.length_crossfadeStartMillis
      steps_eq := hsteps
      joined_eq := List.getLast?_concat
      parts_eq := fun known => lengthsAfter_joinedParts known g.nextId hsegments hexact.isExact
      start_eq := fun i hi => by
        rw [hstart i hi, unclampedStart_eq hexact.isExact hdurations htransitions (by omega)]
      unclamped := fun i hi => ⟨hnonneg i hi, hstart i hi⟩
      increasing := ?_
      finish_eq := ?_ }
  · rw [List.pairwise_iff_getElem]
    intro i j hi hj hij
    rw [t.length_crossfadeStartMillis] at hi hj
    have hlt : t.unclampedStart i < t.unclampedStart j :=
      unclampedStart_lt hfits hexact.isExact hdurations htransitions hij (by omega)
    rwa [← Option.some_inj.1 ((List.getElem?_eq_getElem _).symm.trans (hstart i hi)),
      ← Option.some_inj.1 ((List.getElem?_eq_getElem _).symm.trans (hstart j hj))] at hlt
  · have hlast : t.scenes.length - 1 + 1 = t.scenes.length := by omega
    refine ⟨t.unclampedStart (t.scenes.length - 1), t.scenes[t.scenes.length - 1], ?_, ?_, ?_⟩
    · rw [List.getLast?_eq_getElem?, t.length_crossfadeStartMillis]
      exact hstart _ (by omega)
    · rw [List.getLast?_eq_getElem?, List.getElem?_eq_getElem]
    · rw [splicedLength_eq hexact hdurations htransitions hlast]

/-! ## Sequences -/

/-- The starts of the scenes fit the scenes being played one behind the other, in a program as long
as all of them. -/
structure PlayedInOrder (t : Timeline) : Prop where
  length_eq : t.startMillis.length = t.scenes.length
  start_eq : ∀ i < t.scenes.length,
    t.startMillis[i]? = some (addUp ((t.scenes.map Scene.millis).take i))
  finish_eq : t.scenes ≠ [] → ∃ start last, t.startMillis.getLast? = some start ∧
    t.scenes.getLast? = some last ∧ start + last.millis = t.scenesMillis
  duration_eq : ∀ manifest output p, t.sequenceProgram manifest output = .ok p →
    p.duration = toSeconds t.scenesMillis

theorem playedInOrder {t : Timeline}
    (hsums : ∀ i ≤ t.scenes.length, Fits64 (addUp ((t.scenes.map Scene.millis).take i))) :
    t.PlayedInOrder where
  length_eq := t.length_startMillis
  start_eq i hi := by rw [t.getElem?_startMillis hi, wrap64_eq_self (hsums i (Nat.le_of_lt hi))]
  finish_eq hne := by
    have hpos := List.length_pos_iff.2 hne
    have hsum := addUp_take_succ
      (show t.scenes.length - 1 < (t.scenes.map Scene.millis).length by rw [List.length_map]; omega)
    have hall : (t.scenes.map Scene.millis).take t.scenes.length = t.scenes.map Scene.millis :=
      List.take_of_length_le (Nat.le_of_eq (List.length_map _))
    have htotal := hsums t.scenes.length (Nat.le_refl _)
    rw [Nat.sub_add_cancel hpos, hall, List.getElem_map] at hsum
    rw [hall] at htotal
    refine ⟨addUp ((t.scenes.map Scene.millis).take (t.scenes.length - 1)),
      t.scenes[t.scenes.length - 1], ?_, ?_, ?_⟩
    · rw [List.getLast?_eq_getElem?, t.length_startMillis, t.getElem?_startMillis (by omega),
        wrap64_eq_self (hsums _ (by omega))]
    · rw [List.getLast?_eq_getElem?, List.getElem?_eq_getElem]
    · rw [scenesMillis, wrap64_eq_self htotal, hsum]
  duration_eq manifest output p h := by
    obtain ⟨rfl, -⟩ := of_finishProgram_eq_ok h
    exact duration_withStreams

/-! ## Both -/

/-- The starts that sounds are placed by are where the scenes sit in the result, spliced or played
one behind the other, as long as the sums that make them do not overflow. -/
theorem starts_agree (t : Timeline) :
    (∀ picker p paths segments p', paths.length = t.scenes.length →
      addSegments picker p (t.scenes.zip paths) = .ok (segments, p') →
        NoOverflow segments → (∀ i < t.scenes.length, Fits64 (t.unclampedStart i)) →
          ∀ g joined total, (splice g segments).1 = .ok (joined, total) →
            t.SplicedAt g segments joined total) ∧
    ((∀ i ≤ t.scenes.length, Fits64 (addUp ((t.scenes.map Scene.millis).take i))) →
      t.PlayedInOrder) :=
  ⟨fun _ _ _ _ _ hpaths hadd hexact hstarts _ _ _ hsplice =>
    splicedAt_of_splice hpaths hadd hexact hstarts hsplice, playedInOrder⟩

theorem starts_agree_fadedPair :
    fadedPair.SplicedAt .empty fadedSegments ⟨"gl11"⟩ 8000 ∧ fadedPair.PlayedInOrder :=
  ⟨(starts_agree fadedPair).1 { seed := 0 } (.empty "out.mp4" 0.0) ["0.mp4", "1.mp4"] fadedSegments
    _ rfl rfl noOverflow_fadedSegments (by decide) .empty ⟨"gl11"⟩ 8000 rfl,
  (starts_agree fadedPair).2 (by decide)⟩

end Montage.Timeline
