import Montage.Proofs.Plan.Closed

/-!
# Lengths and transitions

`Timeline.Playable` is what a prepared timeline needs besides scenes and rendered compositions
(`Timeline.compilable_iff`).  It depends only on how long the scenes last and on their transitions,
and preparing a timeline determines these whatever its nodes are
(`Timeline.playable_prepare_congr`).
-/

namespace Montage

/-- What does not depend on the numbers of entries can be read off the entries. -/
theorem map_map_zipIdx {α β γ : Type} (xs : List α) {f : α × Nat → β} {g : β → γ} {g' : α → γ}
    (h : ∀ x i, g (f (x, i)) = g' x) : (xs.zipIdx.map f).map g = xs.map g' := by
  have hfst : (xs.zipIdx.map f).map g = (xs.zipIdx.map Prod.fst).map g' := by
    rw [List.map_map, List.map_map]
    exact List.map_congr_left fun x _ => h x.1 x.2
  rw [hfst, List.zipIdx_map_fst]

namespace Scene

variable {σ τ : Type}

/-- How long the scene lasts, and its transition. -/
def timing (s : Scene τ) : Float × Option TransitionSpec := (s.duration, s.transition)

/-- How long the scene lasts once its subtitles are attached, and its transition. -/
def preparedTiming (s : Scene τ) : Float × Option TransitionSpec :=
  ((s.subtitle.bind (·.duration)).getD s.duration, s.transition)

theorem timing_prepared (s : Scene τ) (path : String) :
    (s.prepared path).timing = s.preparedTiming := by
  rcases hblock : s.subtitle with _ | block <;>
    simp [prepared, Subtitle.attach?, timing, preparedTiming, hblock]

theorem isRendered_prepared {s : Scene τ} (h : s.IsRendered) (path : String) :
    (s.prepared path).IsRendered := by
  rcases hblock : s.subtitle with _ | block
  · simpa [prepared, Subtitle.attach?, hblock] using h
  · intro n hn
    have hn : n ∈ s.nodes ++ [Subtitle.nodeOf block path] := by
      simpa [prepared, Subtitle.attach?, hblock] using hn
    rcases List.mem_append.1 hn with hn | hn
    · exact h n hn
    · rw [List.mem_singleton.1 hn]
      intro nested hnested
      cases hnested

theorem nodes_subset_prepared (s : Scene τ) (path : String) :
    s.nodes ⊆ (s.prepared path).nodes := by
  rcases hblock : s.subtitle with _ | block <;> simp [prepared, Subtitle.attach?, hblock]

theorem lasts_congr {s : Scene σ} {s' : Scene τ} (h : s.timing = s'.timing) :
    s.Lasts ↔ s'.Lasts := by
  rw [Lasts, Lasts, show s.duration = s'.duration from congrArg Prod.fst h]

theorem nameKnown_congr {s : Scene σ} {s' : Scene τ} (h : s.timing = s'.timing) :
    s.NameKnown ↔ s'.NameKnown := by
  rw [NameKnown, NameKnown, show s.transition = s'.transition from congrArg Prod.snd h]

theorem millis_congr {s : Scene σ} {s' : Scene τ} (h : s.timing = s'.timing) :
    s.millis = s'.millis := by
  rw [millis, millis, show s.duration = s'.duration from congrArg Prod.fst h]

theorem transitionMillis_congr {s : Scene σ} {s' : Scene τ} (h : s.timing = s'.timing) :
    s.transitionMillis = s'.transitionMillis := by
  rw [transitionMillis, transitionMillis,
    show s.transition = s'.transition from congrArg Prod.snd h]

end Scene

namespace Timeline

/-- What a prepared timeline needs of its lengths and transitions. -/
structure Playable (t : Timeline) : Prop where
  lasts : ∀ s ∈ t.scenes, s.Lasts
  names_known : t.Crossfaded → ∀ s ∈ t.scenes, s.NameKnown
  fits : t.Crossfaded → ∀ i (hi : i < t.scenes.length), t.FitsAt i hi

theorem compilable_iff (t : Timeline) :
    t.Compilable ↔ t.scenes ≠ [] ∧ (∀ s ∈ t.scenes, s.IsRendered) ∧ t.Playable :=
  ⟨fun h => ⟨h.nonempty, h.rendered, h.lasts, h.names_known, h.fits⟩,
    fun ⟨hne, hrendered, h⟩ => ⟨hne, h.lasts, hrendered, h.names_known, h.fits⟩⟩

section

variable {t t' : Timeline} (h : t.scenes.map Scene.timing = t'.scenes.map Scene.timing)

include h

theorem length_scenes_congr : t.scenes.length = t'.scenes.length := by
  simpa using congrArg List.length h

theorem timing_congr {i : Nat} (hi : i < t.scenes.length) (hi' : i < t'.scenes.length) :
    t.scenes[i].timing = t'.scenes[i].timing := by
  have hat := congrArg (·[i]?) h
  simpa [List.getElem?_eq_getElem hi, List.getElem?_eq_getElem hi'] using hat

/-- What holds of every scene of one timeline for its timing holds of every scene of the other. -/
theorem forall_scenes_congr {P : Scene Timeline → Prop}
    (hP : ∀ s s' : Scene Timeline, s.timing = s'.timing → P s → P s')
    (hall : ∀ s ∈ t.scenes, P s) : ∀ s' ∈ t'.scenes, P s' := by
  intro s' hs'
  obtain ⟨i, hi', rfl⟩ := List.mem_iff_getElem.1 hs'
  have hi : i < t.scenes.length := length_scenes_congr h ▸ hi'
  exact hP _ _ (timing_congr h hi hi') (hall _ (List.getElem_mem hi))

theorem crossfaded_congr (hcrossfaded : t.Crossfaded) : t'.Crossfaded := by
  refine ⟨length_scenes_congr h ▸ hcrossfaded.1, forall_scenes_congr h ?_ hcrossfaded.2⟩
  intro s s' hs hsome
  rwa [show s'.transition = s.transition from (congrArg Prod.snd hs).symm]

theorem fitsAt_congr {i : Nat} (hi : i < t.scenes.length) (hi' : i < t'.scenes.length)
    (hfits : t.FitsAt i hi) : t'.FitsAt i hi' := by
  have htiming := timing_congr h hi hi'
  have houtgoing : t.outgoingMillis i t.scenes[i] = t'.outgoingMillis i t'.scenes[i] := by
    have hnext := congrArg (·[i + 1]?) h
    simp only [List.getElem?_map] at hnext
    rw [outgoingMillis, outgoingMillis]
    rcases hs : t.scenes[i + 1]? with _ | s <;> rcases hs' : t'.scenes[i + 1]? with _ | s' <;>
      rw [hs, hs'] at hnext
    · exact Scene.transitionMillis_congr htiming
    · cases hnext
    · cases hnext
    · exact Scene.transitionMillis_congr (Option.some.inj hnext)
  rw [FitsAt, ← Scene.millis_congr htiming, ← Scene.transitionMillis_congr htiming, ← houtgoing]
  exact hfits

end

theorem playable_congr {t t' : Timeline}
    (h : t.scenes.map Scene.timing = t'.scenes.map Scene.timing) (hplayable : t.Playable) :
    t'.Playable where
  lasts := forall_scenes_congr h (fun _ _ hs => (Scene.lasts_congr hs).1) hplayable.lasts
  names_known hcrossfaded :=
    forall_scenes_congr h (fun _ _ hs => (Scene.nameKnown_congr hs).1)
      (hplayable.names_known (crossfaded_congr h.symm hcrossfaded))
  fits hcrossfaded i hi :=
    fitsAt_congr h (length_scenes_congr h ▸ hi) hi
      (hplayable.fits (crossfaded_congr h.symm hcrossfaded) i _)

/-! ## Prepared timelines -/

theorem map_timing_prepare (t : Timeline) (l : Layout) :
    (t.prepare l).1.scenes.map Scene.timing = t.scenes.map Scene.preparedTiming := by
  rw [prepare_eq]
  exact map_map_zipIdx t.scenes fun s i => Scene.timing_prepared s (l.subtitlePath i)

/-- Whether a timeline is playable once it is prepared depends on no node. -/
theorem playable_prepare_congr {t t' : Timeline}
    (h : t.scenes.map Scene.preparedTiming = t'.scenes.map Scene.preparedTiming) (l l' : Layout) :
    (t.prepare l).1.Playable ↔ (t'.prepare l').1.Playable := by
  have htimings : (t.prepare l).1.scenes.map Scene.timing =
      (t'.prepare l').1.scenes.map Scene.timing := by
    rw [map_timing_prepare, map_timing_prepare, h]
  exact ⟨playable_congr htimings, playable_congr htimings.symm⟩

theorem isRendered_prepare {t : Timeline} (h : ∀ s ∈ t.scenes, s.IsRendered) (l : Layout) :
    ∀ s ∈ (t.prepare l).1.scenes, s.IsRendered := by
  intro s hs
  rw [prepare_eq] at hs
  obtain ⟨⟨s₀, i⟩, hmem, rfl⟩ := List.mem_map.1 hs
  exact Scene.isRendered_prepared (h s₀ (List.fst_mem_of_mem_zipIdx hmem)) _

end Timeline

end Montage
