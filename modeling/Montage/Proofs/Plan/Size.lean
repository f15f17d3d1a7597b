import Mathlib.Algebra.GroupWithZero.Nat
import Mathlib.Algebra.Order.BigOperators.Group.List
import Mathlib.Algebra.Order.Group.Nat
import Montage.Plan.Compile

/-!
# The size of timelines

`Timeline.entries` counts what a timeline holds.  It bounds the nodes of a scene and the tracks of
all scenes (`length_nodes_lt_entries`, `length_placedTracks_le`), and preparing a timeline adds no
more than two entries to a scene (`entries_prepare_le`).
-/

namespace Montage.Timeline

/-- The scenes of a timeline, their nodes, and all tracks. -/
def entries (t : Timeline) : Nat :=
  t.scenes.length + t.audios.length + (t.scenes.map fun s => s.nodes.length + s.audios.length).sum

/-- The timeline fits into the memory of a machine with words of sixty-four bits. -/
def Addressable (t : Timeline) : Prop := t.entries ≤ 2 ^ 62

instance (t : Timeline) : Decidable t.Addressable := inferInstanceAs (Decidable (_ ≤ _))

theorem length_attach?_le {τ : Type} {s s' : Scene τ} {path contents : String}
    (h : Subtitle.attach? s path = some (s', contents)) :
    s'.nodes.length + s'.audios.length ≤ s.nodes.length + s.audios.length + 2 := by
  rw [Subtitle.attach?] at h
  rcases hblock : s.subtitle with _ | block <;> rw [hblock] at h
  · cases h
  · cases h
    have hnarration : (Subtitle.narration? block).toList.length ≤ 1 := by
      cases Subtitle.narration? block
      · exact Nat.zero_le 1
      · exact Nat.le_refl 1
    simp only [List.length_append, List.length_singleton]
    omega

theorem prepareScenes_cons {τ : Type} (l : Layout) (index : Nat) (s : Scene τ)
    (rest : List (Scene τ)) :
    ∃ s', s'.nodes.length + s'.audios.length ≤ s.nodes.length + s.audios.length + 2 ∧
      (prepareScenes l index (s :: rest)).1 = s' :: (prepareScenes l (index + 1) rest).1 := by
  rcases hattach : Subtitle.attach? s (l.subtitlePath index) with _ | ⟨s', contents⟩
  · exact ⟨s, by omega, by simp only [prepareScenes, hattach]⟩
  · exact ⟨s', length_attach?_le hattach, by simp only [prepareScenes, hattach]⟩

theorem length_prepareScenes {τ : Type} (l : Layout) (index : Nat) (scenes : List (Scene τ)) :
    (prepareScenes l index scenes).1.length = scenes.length := by
  induction scenes generalizing index with
  | nil => rfl
  | cons s rest ih =>
    obtain ⟨s', -, hcons⟩ := prepareScenes_cons l index s rest
    rw [hcons, List.length_cons, ih, List.length_cons]

theorem sum_prepareScenes_le {τ : Type} (l : Layout) (index : Nat) (scenes : List (Scene τ)) :
    ((prepareScenes l index scenes).1.map fun s => s.nodes.length + s.audios.length).sum ≤
      (scenes.map fun s => s.nodes.length + s.audios.length).sum + 2 * scenes.length := by
  induction scenes generalizing index with
  | nil => exact Nat.le_refl _
  | cons s rest ih =>
    obtain ⟨s', hle, hcons⟩ := prepareScenes_cons l index s rest
    have hrest := ih (index + 1)
    rw [hcons, List.map_cons, List.sum_cons, List.map_cons, List.sum_cons, List.length_cons]
    omega

/-- Preparing a timeline adds a node and a track to a scene at most. -/
theorem entries_prepare_le (t : Timeline) (l : Layout) :
    (t.prepare l).1.entries ≤ 3 * t.entries := by
  have hlength := length_prepareScenes l 0 t.scenes
  have hsum := sum_prepareScenes_le l 0 t.scenes
  change (prepareScenes l 0 t.scenes).1.length + t.audios.length +
    ((prepareScenes l 0 t.scenes).1.map fun s => s.nodes.length + s.audios.length).sum ≤ _
  rw [entries]
  omega

theorem length_nodes_lt_entries {t : Timeline} {s : Scene Timeline} (hs : s ∈ t.scenes) :
    s.nodes.length < t.entries := by
  have hpos : 0 < t.scenes.length := List.length_pos_of_mem hs
  have hle : s.nodes.length + s.audios.length ≤
      (t.scenes.map fun s => s.nodes.length + s.audios.length).sum :=
    List.le_sum_of_mem (List.mem_map.2 ⟨s, hs, rfl⟩)
  rw [entries]
  omega

theorem length_placedTracks_scene_le {τ : Type} (s : Scene τ) (start : Float) :
    (s.placedTracks start).length ≤ s.nodes.length + s.audios.length := by
  have hnodes := List.length_filterMap_le (fun n : Node τ => n.sound? s.duration) s.nodes
  rw [Scene.placedTracks, List.length_map, Scene.sounds, List.length_append]
  omega

theorem length_flatMap_placedTracks_le {τ : Type} (scenes : List (Scene τ))
    (starts : List Float) :
    ((scenes.zip starts).flatMap fun x => x.1.placedTracks x.2).length ≤
      (scenes.map fun s => s.nodes.length + s.audios.length).sum := by
  induction scenes generalizing starts with
  | nil => exact Nat.le_refl _
  | cons s rest ih =>
    cases starts with
    | nil => exact Nat.zero_le _
    | cons start starts =>
      have hfirst := length_placedTracks_scene_le s start
      have hrest := ih starts
      rw [List.zip_cons_cons, List.flatMap_cons, List.length_append, List.map_cons, List.sum_cons]
      exact Nat.add_le_add hfirst hrest

theorem length_placedTracks_le (t : Timeline) (starts : List Float) :
    t.scenes.length + (t.placedTracks starts).length ≤ t.entries := by
  have hscenes := length_flatMap_placedTracks_le t.scenes starts
  change t.scenes.length + (t.audios.map (fun track => (⟨track, none⟩ : PlacedTrack)) ++
    (t.scenes.zip starts).flatMap fun x => x.1.placedTracks x.2).length ≤ t.entries
  rw [List.length_append, List.length_map, entries]
  omega

end Montage.Timeline
