import Montage.Timeline.Offsets

/-!
# Starts as sums

The starts of stretches are sums of the lengths before them (`getElem?_startsFrom`), and of the
overlaps before them where stretches overlap (`getElem?_overlappedStartsFrom`), as sixty-four bits
hold them.
-/

namespace Montage

/-! ## Sums -/

theorem addUp_append (xs ys : List Int) : addUp (xs ++ ys) = addUp xs + addUp ys := by
  induction xs with
  | nil => exact (Int.zero_add _).symm
  | cons x xs ih =>
    simp only [List.cons_append, addUp, ih]
    omega

theorem addUp_take_succ {xs : List Int} {i : Nat} (hi : i < xs.length) :
    addUp (xs.take (i + 1)) = addUp (xs.take i) + xs[i] := by
  rw [List.take_succ_eq_append_getElem hi, addUp_append]
  simp only [addUp]
  omega

/-- Behind positive lengths the sums grow. -/
theorem addUp_take_lt {xs : List Int} {i j : Nat} (hij : i < j) (hj : j ≤ xs.length)
    (hpos : ∀ k (hk : k < j), 0 < xs[k]) : addUp (xs.take i) < addUp (xs.take j) := by
  induction j with
  | zero => exact absurd hij (Nat.not_lt_zero i)
  | succ j ih =>
    have hlast := hpos j (Nat.lt_succ_self j)
    have hsum := addUp_take_succ (Nat.lt_of_succ_le hj)
    rcases Nat.lt_or_eq_of_le (Nat.le_of_lt_succ hij) with hlt | rfl
    · have := ih hlt (Nat.le_of_succ_le hj) fun k hk => hpos k (Nat.lt_succ_of_lt hk)
      omega
    · omega

/-! ## Starts -/

theorem length_startsFrom (start : Int) (lengths : List Int) :
    (startsFrom start lengths).length = lengths.length := by
  induction lengths generalizing start with
  | nil => rfl
  | cons length rest ih => exact congrArg (· + 1) (ih _)

theorem getElem?_startsFrom (start : Int) (lengths : List Int) {i : Nat}
    (hi : i < lengths.length) :
    (startsFrom (wrap64 start) lengths)[i]? = some (wrap64 (start + addUp (lengths.take i))) := by
  induction lengths generalizing start i with
  | nil => exact absurd hi (Nat.not_lt_zero i)
  | cons length rest ih =>
    cases i with
    | zero => simp [startsFrom, addUp]
    | succ i =>
      rw [startsFrom, List.getElem?_cons_succ, wrap64_wrap64_add,
        ih _ (Nat.lt_of_succ_lt_succ hi), List.take_succ_cons, addUp, Int.add_assoc]

theorem length_overlappedStartsFrom (finish : Int) (stretches : List (Int × Int)) :
    (overlappedStartsFrom finish stretches).length = stretches.length := by
  induction stretches generalizing finish with
  | nil => rfl
  | cons stretch rest ih => exact congrArg (· + 1) (ih _)

/-- A stretch starts behind the lengths before it, without the overlaps up to it, but not before
zero. -/
theorem getElem?_overlappedStartsFrom (finish : Int) (stretches : List (Int × Int)) {i : Nat}
    (hi : i < stretches.length) :
    (overlappedStartsFrom (wrap64 finish) stretches)[i]? =
      some (max (wrap64 (finish + addUp ((stretches.map Prod.snd).take i) -
        addUp ((stretches.map Prod.fst).take (i + 1)))) 0) := by
  induction stretches generalizing finish i with
  | nil => exact absurd hi (Nat.not_lt_zero i)
  | cons stretch rest ih =>
    obtain ⟨overlap, length⟩ := stretch
    cases i with
    | zero => simp [overlappedStartsFrom, addUp, wrap64_wrap64_sub]
    | succ i =>
      have hstart : wrap64 (wrap64 (wrap64 finish - overlap) + length) =
          wrap64 (finish - overlap + length) := by
        rw [wrap64_wrap64_sub, wrap64_wrap64_add]
      rw [overlappedStartsFrom, List.getElem?_cons_succ, hstart, ih _ (Nat.lt_of_succ_lt_succ hi)]
      simp only [List.map_cons, List.take_succ_cons, addUp]
      congr 3
      omega

/-! ## Scenes -/

namespace Timeline

/-- Where a scene would start if starts before zero were not moved to zero: behind the scenes before
it, without the transitions up to it. -/
def unclampedStart (t : Timeline) (i : Nat) : Int :=
  addUp ((t.scenes.map Scene.millis).take i) -
    addUp (((t.scenes.drop 1).map Scene.transitionMillis).take i)

theorem length_startMillis (t : Timeline) : t.startMillis.length = t.scenes.length := by
  rw [startMillis, length_startsFrom, List.length_map]

theorem getElem?_startMillis (t : Timeline) {i : Nat} (hi : i < t.scenes.length) :
    t.startMillis[i]? = some (wrap64 (addUp ((t.scenes.map Scene.millis).take i))) := by
  have hstart := getElem?_startsFrom 0 (t.scenes.map Scene.millis) (by rwa [List.length_map])
  rwa [Int.zero_add] at hstart

theorem map_snd_overlaps (t : Timeline) :
    t.overlaps.map Prod.snd = t.scenes.map Scene.millis := by
  rw [overlaps]
  split
  · next h => rw [h]; rfl
  · next first rest h => rw [h, List.map_cons, List.map_map, List.map_cons]; rfl

theorem map_fst_overlaps (t : Timeline) {i : Nat} (hi : i < t.scenes.length) :
    addUp ((t.overlaps.map Prod.fst).take (i + 1)) =
      addUp (((t.scenes.drop 1).map Scene.transitionMillis).take i) := by
  rw [overlaps]
  split
  · next h =>
    rw [h] at hi
    exact absurd hi (Nat.not_lt_zero i)
  · next first rest h =>
    rw [h, List.map_cons, List.map_map, List.take_succ_cons, addUp, Int.zero_add]
    rfl

theorem length_crossfadeStartMillis (t : Timeline) :
    t.crossfadeStartMillis.length = t.scenes.length := by
  have := congrArg List.length t.map_snd_overlaps
  rw [List.length_map, List.length_map] at this
  rw [crossfadeStartMillis, length_overlappedStartsFrom, this]

theorem getElem?_crossfadeStartMillis (t : Timeline) {i : Nat} (hi : i < t.scenes.length) :
    t.crossfadeStartMillis[i]? = some (max (wrap64 (t.unclampedStart i)) 0) := by
  have hlength := congrArg List.length t.map_snd_overlaps
  rw [List.length_map, List.length_map] at hlength
  have hstart := getElem?_overlappedStartsFrom 0 t.overlaps (show i < _ by omega)
  rwa [map_snd_overlaps, map_fst_overlaps t hi, Int.zero_add] at hstart

end Timeline

end Montage
