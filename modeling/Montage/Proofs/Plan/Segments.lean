import Montage.Plan.Compile
import Montage.Proofs.Scene.Wiring

/-!
# Scenes as segments

`Timeline.addSegments` reads the scenes' files and looks their transitions up.  It succeeds if every
name is known and else names the first one that is not (`exists_of_addSegments_eq_error`).  The
segments have the lengths of the scenes (`map_duration_addSegments`), and each reads one new input
(`wired_addSegments`).
-/

namespace Montage

open Montage.Graph

/-! ## Names -/

namespace Transition

/-- The name asks for a random transition or is one of the catalogue, whatever the case of its
letters. -/
def IsKnown (name : String) : Prop :=
  ∃ entry ∈ randomName :: catalogue, Text.sameLetters entry name = true

instance (name : String) : Decidable (IsKnown name) := inferInstanceAs (Decidable (∃ _ ∈ _, _))

theorem sameLetters_comm (a b : String) : Text.sameLetters a b = Text.sameLetters b a := by
  rw [Text.sameLetters, Text.sameLetters, BEq.comm]

theorem resolve_of_isRandom (picker : Picker) {name : String} (h : isRandom name = true) :
    (picker.resolve name).1 = .ok picker.draw.1 := by
  rw [Picker.resolve, if_pos h]

theorem resolve_of_not_isRandom (picker : Picker) {name : String} (h : ¬ isRandom name = true) :
    (picker.resolve name).1 = lookup name := by
  rw [Picker.resolve, if_neg h]

theorem isKnown_of_resolve_eq_ok {picker : Picker} {name entry : String}
    (h : (picker.resolve name).1 = .ok entry) : IsKnown name := by
  by_cases hrandom : isRandom name = true
  · exact ⟨randomName, List.mem_cons_self, by rwa [isRandom, sameLetters_comm] at hrandom⟩
  · rw [resolve_of_not_isRandom picker hrandom, lookup] at h
    split at h
    · next found hfind =>
      have hsame := List.find?_some hfind
      exact ⟨found, List.mem_cons_of_mem _ (List.mem_of_find?_eq_some hfind), hsame⟩
    · cases h

theorem of_resolve_eq_error {picker : Picker} {name : String} {e : CompileError}
    (h : (picker.resolve name).1 = .error e) : ¬ IsKnown name ∧ e = .unknownTransition name := by
  by_cases hrandom : isRandom name = true
  · rw [resolve_of_isRandom picker hrandom] at h
    cases h
  · rw [resolve_of_not_isRandom picker hrandom, lookup] at h
    split at h
    · cases h
    · next hfind =>
      cases h
      refine ⟨?_, rfl⟩
      rintro ⟨entry, hentry, hsame⟩
      rcases List.mem_cons.1 hentry with rfl | hentry
      · exact hrandom (by rwa [isRandom, sameLetters_comm])
      · exact List.find?_eq_none.1 hfind entry hentry hsame

end Transition

/-- The transition into the scene, if there is one, has a known name. -/
def Scene.NameKnown {τ : Type} (s : Scene τ) : Prop :=
  ∀ spec, s.transition = some spec → Transition.IsKnown spec.name

theorem Scene.nameKnown_of_transition {τ : Type} {s : Scene τ} {spec : TransitionSpec}
    (hspec : s.transition = some spec) (h : Transition.IsKnown spec.name) : s.NameKnown := by
  intro spec' hspec'
  rw [hspec, Option.some.injEq] at hspec'
  exact hspec' ▸ h

/-! ## Adding segments -/

namespace Timeline

open Transition (Picker Segment IsKnown)

variable {τ : Type} {picker : Picker} {p p' : Program} {s : Scene τ} {path : String}
  {rest : List (Scene τ × String)} {segments : List Segment}

/-- Adding a segment looks its name up, after its file became an input. -/
theorem exists_of_addSegments_cons (h : addSegments picker p ((s, path) :: rest) =
    .ok (segments, p')) :
    ∃ spec name others, s.transition = some spec ∧ (picker.resolve spec.name).1 = .ok name ∧
      addSegments (picker.resolve spec.name).2 (p.addInput (.file path)).2 rest =
        .ok (others, p') ∧
      segments =
        ⟨.ofInput p.inputs.length .video, s.millis, name, toMillis spec.duration⟩ :: others := by
  rw [addSegments] at h
  rcases hspec : s.transition with _ | spec <;> rw [hspec] at h
  · cases h
  · dsimp only at h
    rcases hname : picker.resolve spec.name with ⟨_ | name, picker'⟩ <;> rw [hname] at h
    · cases h
    · dsimp only at h
      rcases hrest : addSegments picker' (p.addInput (.file path)).2 rest with _ | ⟨others, p''⟩ <;>
        rw [hrest] at h <;> cases h
      exact ⟨spec, name, others, rfl, by rw [hname], by rw [hname, hrest], rfl⟩

theorem map_duration_addSegments {xs : List (Scene τ × String)}
    (h : addSegments picker p xs = .ok (segments, p')) :
    segments.map (·.duration) = (xs.map Prod.fst).map Scene.millis := by
  induction xs generalizing picker p segments with
  | nil =>
    cases h
    rfl
  | cons x rest ih =>
    obtain ⟨spec, name, others, -, -, hrest, rfl⟩ := exists_of_addSegments_cons h
    rw [List.map_cons, ih hrest]
    rfl

theorem map_transitionLength_addSegments {xs : List (Scene τ × String)}
    (h : addSegments picker p xs = .ok (segments, p')) :
    segments.map (·.transitionLength) = (xs.map Prod.fst).map Scene.transitionMillis := by
  induction xs generalizing picker p segments with
  | nil =>
    cases h
    rfl
  | cons x rest ih =>
    obtain ⟨spec, name, others, hspec, -, hrest, rfl⟩ := exists_of_addSegments_cons h
    rw [List.map_cons, ih hrest, List.map_cons, List.map_cons, Scene.transitionMillis, hspec]

/-- The segments have the lengths of the scenes and of their transitions. -/
theorem lengths_of_addSegments {scenes : List (Scene τ)} {paths : List String}
    (hpaths : paths.length = scenes.length)
    (h : addSegments picker p (scenes.zip paths) = .ok (segments, p')) :
    segments.map (·.duration) = scenes.map Scene.millis ∧
      segments.map (·.transitionLength) = scenes.map Scene.transitionMillis ∧
      segments.length = scenes.length := by
  have hfst : (scenes.zip paths).map Prod.fst = scenes := List.map_fst_zip (by omega)
  have hdurations := map_duration_addSegments h
  have htransitions := map_transitionLength_addSegments h
  rw [hfst] at hdurations htransitions
  exact ⟨hdurations, htransitions, by simpa using congrArg List.length hdurations⟩

/-- Adding segments adds the files to the inputs and changes nothing else. -/
theorem addSegments_frame {xs : List (Scene τ × String)}
    (h : addSegments picker p xs = .ok (segments, p')) :
    p' = { p with inputs := p.inputs ++ xs.map fun x => .file x.2 } := by
  induction xs generalizing picker p segments with
  | nil =>
    cases h
    rw [List.map_nil, List.append_nil]
  | cons x rest ih =>
    obtain ⟨spec, name, others, -, -, hrest, -⟩ := exists_of_addSegments_cons h
    rw [ih hrest, Program.inputs_addInput, List.append_assoc, List.singleton_append, List.map_cons]
    rfl

theorem wired_addSegments {xs : List (Scene τ × String)} {waiting : List Label}
    (hwired : p.Wired waiting) (h : addSegments picker p xs = .ok (segments, p')) :
    p'.Wired (segments.map (·.input.label) ++ waiting) := by
  induction xs generalizing picker p segments waiting with
  | nil =>
    cases h
    exact hwired
  | cons x rest ih =>
    obtain ⟨spec, name, others, -, -, hrest, rfl⟩ := exists_of_addSegments_cons h
    exact (ih (hwired.addInput (.file x.2) .video) hrest).perm List.perm_middle

/-! ## Unknown names -/

theorem nameKnown_of_addSegments_eq_ok {xs : List (Scene τ × String)}
    (h : addSegments picker p xs = .ok (segments, p')) :
    ∀ s ∈ xs.map Prod.fst, s.NameKnown := by
  induction xs generalizing picker p segments with
  | nil => exact fun s hs => absurd hs List.not_mem_nil
  | cons x rest ih =>
    obtain ⟨spec, name, others, hspec, hname, hrest, -⟩ := exists_of_addSegments_cons h
    exact List.forall_mem_cons.2
      ⟨Scene.nameKnown_of_transition hspec (Transition.isKnown_of_resolve_eq_ok hname), ih hrest⟩

/-- If all scenes carry transitions, the first one with an unknown name is the error. -/
theorem exists_of_addSegments_eq_error {xs : List (Scene τ × String)} {e : CompileError}
    (htransitions : ∀ s ∈ xs.map Prod.fst, s.transition.isSome = true)
    (h : addSegments picker p xs = .error e) :
    ∃ before s after spec, xs.map Prod.fst = before ++ s :: after ∧
      (∀ earlier ∈ before, earlier.NameKnown) ∧
      s.transition = some spec ∧ ¬ IsKnown spec.name ∧ e = .unknownTransition spec.name := by
  induction xs generalizing picker p with
  | nil => cases h
  | cons x rest ih =>
    obtain ⟨s, path⟩ := x
    rw [List.map_cons, List.forall_mem_cons] at htransitions
    obtain ⟨spec, hspec⟩ := Option.isSome_iff_exists.1 htransitions.1
    rw [addSegments] at h
    dsimp only at h
    rw [hspec] at h
    dsimp only at h
    rcases hname : picker.resolve spec.name with ⟨e' | name, picker'⟩ <;> rw [hname] at h
    · cases h
      obtain ⟨hunknown, he⟩ := Transition.of_resolve_eq_error (congrArg Prod.fst hname)
      exact ⟨[], s, _, spec, rfl, fun _ hmem => absurd hmem List.not_mem_nil, hspec, hunknown, he⟩
    · have hknown := Transition.isKnown_of_resolve_eq_ok (congrArg Prod.fst hname)
      dsimp only at h
      rcases hrest : addSegments picker' (p.addInput (.file path)).2 rest with e' | ⟨others, p''⟩ <;>
        rw [hrest] at h <;> cases h
      obtain ⟨before, s', after, spec', hsplit, hbefore, hspec', hunknown, he⟩ :=
        ih htransitions.2 hrest
      refine ⟨s :: before, s', after, spec', ?_, ?_, hspec', hunknown, he⟩
      · rw [List.map_cons, hsplit, List.cons_append]
      · exact List.forall_mem_cons.2 ⟨Scene.nameKnown_of_transition hspec hknown, hbefore⟩

/-- Two scenes and a song; the second scene is faded in over the first. -/
def fadedPair : Timeline where
  settings := { width := 640, height := 360 }
  scenes := [{ duration := 4.0, transition := some ⟨"fade", 1.0⟩ },
    { duration := 5.0, transition := some ⟨"Fade", 1.0⟩ }]
  audios := [{ path := "song.mp3" }]

end Timeline

end Montage
