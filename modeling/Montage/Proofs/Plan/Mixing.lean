import Montage.Plan.Compile
import Montage.Proofs.Program.Linear
import Montage.Proofs.Scene.Wiring

/-!
# The wiring of sounds

Tracks add an input and a chain of filters each; mixing joins the chains and the picture.  The
program behind it writes out exactly what waits to be read (`wired_withStreams`), so it is wired and
passes its check (`finishProgram_eq_ok`).
-/

namespace Montage

open Montage.Graph

namespace Audio

variable {p : Program} {waiting : List Label}

/-! ## Tracks -/

theorem wired_addTrack (h : p.Wired waiting) (placed : PlacedTrack) :
    (addTrack p placed).2.Wired ((addTrack p placed).1.label :: waiting) :=
  (h.addInput _ .audio).applyAll _ (show isTag "a" = true by decide)

theorem addTracks_cons (p : Program) (placed : PlacedTrack) (rest : List PlacedTrack) :
    addTracks p (placed :: rest) =
      ((addTrack p placed).1 :: (addTracks (addTrack p placed).2 rest).1,
        (addTracks (addTrack p placed).2 rest).2) := rfl

theorem wired_addTracks (h : p.Wired waiting) (tracks : List PlacedTrack) :
    (addTracks p tracks).2.Wired ((addTracks p tracks).1.map (·.label) ++ waiting) := by
  induction tracks generalizing p waiting with
  | nil => exact h
  | cons placed rest ih => exact (ih (wired_addTrack h placed)).perm List.perm_middle

/-- The input that a track adds. -/
def trackInput (placed : PlacedTrack) : Input :=
  .audio placed.track.path placed.track.looped (playedRange placed)

/-- Adding tracks changes nothing but the graph and the inputs. -/
theorem addTracks_frame (p : Program) (tracks : List PlacedTrack) :
    (addTracks p tracks).2 = { p with
      inputs := p.inputs ++ tracks.map trackInput
      graph := (addTracks p tracks).2.graph } := by
  induction tracks generalizing p with
  | nil => rw [List.map_nil, List.append_nil]; rfl
  | cons placed rest ih =>
    rw [addTracks_cons, ih, List.map_cons, ← List.singleton_append, ← List.append_assoc]
    rfl

/-! ## Mixing -/

/-- The picture that is joined with the sounds. -/
def picture (video : Option Context) : Context := video.getD (.ofInput 0 .video)

/-- With tracks the picture is taken, and a new picture and a sound are handed back. -/
theorem wired_mix_cons {video : Option Context} (h : p.Wired ((picture video).label :: waiting))
    (placed : PlacedTrack) (rest : List PlacedTrack) (raw : Bool) :
    ∃ first second : Nat,
      (mix p video (placed :: rest) raw).1 =
        ⟨some ⟨"outv" ++ toString first⟩, some ⟨"outa" ++ toString second⟩⟩ ∧
      (mix p video (placed :: rest) raw).2.Wired
        (("outv" ++ toString first) :: ("outa" ++ toString second) :: waiting) := by
  have hmixed := (wired_addTracks h (placed :: rest)).combine _
    (mixFilter (addTracks p (placed :: rest)).1.length raw) (show isTag "mix" = true by decide)
  obtain ⟨media, hlength, hwired⟩ := hmixed.perm (.swap ..)
  change Graph.Wired media _ ([_, _] ++ waiting) at hwired
  exact ⟨_, _, rfl, media, hlength,
    .step "concat=n=1:v=1:a=1" ["outv", "outa"] (by decide) hwired⟩

/-- Mixing changes nothing but the graph and the inputs. -/
theorem mix_frame (p : Program) (video : Option Context) (tracks : List PlacedTrack)
    (raw : Bool) :
    (mix p video tracks raw).2 = { p with
      inputs := p.inputs ++ tracks.map trackInput
      graph := (mix p video tracks raw).2.graph } := by
  cases tracks with
  | nil => exact addTracks_frame p []
  | cons placed rest =>
    have hframe := addTracks_frame p (placed :: rest)
    exact congrArg
      (fun q : Program => { q with graph := (mix p video (placed :: rest) raw).2.graph }) hframe

end Audio

/-! ## Finishing -/

namespace Timeline

open Audio (picture)

variable {p q : Program} {video : Option Context} {tracks : List PlacedTrack} {raw : Bool}
  {fallback : Option Label}

/-- The program with its sounds mixed in and its streams named, before it is checked. -/
def withStreams (p : Program) (video : Option Context) (tracks : List PlacedTrack) (raw : Bool)
    (fallback : Option Label) : Program :=
  let (streams, p) := Audio.mix p video tracks raw
  { p with
    video := (streams.video.map Context.label).or fallback
    audio := streams.audio.map Context.label }

/-- What is written out waits to be read, if the picture did. -/
theorem wired_withStreams (h : p.Wired [(picture video).label])
    (hpicture : (video.map Context.label).or fallback = some (picture video).label) :
    (withStreams p video tracks raw fallback).Wired
      (withStreams p video tracks raw fallback).mapped := by
  cases tracks with
  | nil =>
    change Program.Wired _ (((video.map Context.label).or fallback).toList ++ [])
    rw [hpicture]
    exact h
  | cons placed rest =>
    obtain ⟨first, second, hstreams, hwired⟩ := Audio.wired_mix_cons h placed rest raw
    rw [withStreams]
    dsimp only
    rw [hstreams]
    exact hwired

/-- The label of an input is written out only if it is the picture's. -/
theorem inputLabel_mem_withStreams (h : p.Wired [(picture video).label]) {index : Nat}
    {kind : Media}
    (hmem : inputLabel index kind ∈ (withStreams p video tracks raw fallback).mapped) :
    (video.map Context.label).or fallback = some (inputLabel index kind) := by
  cases tracks with
  | nil =>
    change _ ∈ ((video.map Context.label).or fallback).toList ++ [] at hmem
    rwa [List.append_nil, Option.mem_toList] at hmem
  | cons placed rest =>
    obtain ⟨first, second, hstreams, -⟩ := Audio.wired_mix_cons h placed rest raw
    rw [withStreams] at hmem
    dsimp only at hmem
    rw [hstreams] at hmem
    rcases List.mem_cons.1 hmem with e | hmem
    · exact absurd e.symm (tagged_ne_inputLabel "outv" first index kind)
    · exact absurd (List.mem_singleton.1 hmem).symm
        (tagged_ne_inputLabel "outa" second index kind)

theorem inputs_withStreams : (withStreams p video tracks raw fallback).inputs =
    p.inputs ++ tracks.map Audio.trackInput :=
  congrArg Program.inputs (Audio.mix_frame p video tracks raw)

theorem length_inputs_withStreams :
    (withStreams p video tracks raw fallback).inputs.length = p.inputs.length + tracks.length := by
  rw [inputs_withStreams, List.length_append, List.length_map]

theorem duration_withStreams : (withStreams p video tracks raw fallback).duration = p.duration := by
  change (Audio.mix p video tracks raw).2.duration = p.duration
  rw [Audio.mix_frame]

theorem output_withStreams : (withStreams p video tracks raw fallback).output = p.output := by
  change (Audio.mix p video tracks raw).2.output = p.output
  rw [Audio.mix_frame]

theorem finishProgram_eq (p : Program) (video : Option Context) (tracks : List PlacedTrack)
    (raw : Bool) (fallback : Option Label) :
    finishProgram p video tracks raw fallback =
      match (withStreams p video tracks raw fallback).validate with
      | .error e => .error e
      | .ok () => .ok (withStreams p video tracks raw fallback) := rfl

theorem of_finishProgram_eq_ok (h : finishProgram p video tracks raw fallback = .ok q) :
    q = withStreams p video tracks raw fallback ∧ q.validate = .ok () := by
  rw [finishProgram_eq] at h
  split at h
  · cases h
  · next hvalidate =>
    cases h
    exact ⟨rfl, hvalidate⟩

/-- A program whose picture waits to be read can be finished, if its inputs can be counted. -/
theorem finishProgram_eq_ok (h : p.Wired [(picture video).label])
    (hpicture : (video.map Context.label).or fallback = some (picture video).label)
    (hsize : p.inputs.length + tracks.length ≤ UInt64.size) :
    finishProgram p video tracks raw fallback =
      .ok (withStreams p video tracks raw fallback) := by
  have hvalidate := (wired_withStreams h hpicture : (withStreams p video tracks raw fallback).Wired _).validate_eq_ok
    (by rwa [length_inputs_withStreams])
  rw [finishProgram_eq, hvalidate]

/-- A finished program is linear, if its picture is an input that can be counted or none. -/
theorem linear_of_finishProgram (h : p.Wired [(picture video).label])
    (hpicture : (video.map Context.label).or fallback = some (picture video).label)
    (hcounted : ∀ kind, (picture video).label ≠ inputLabel UInt64.size kind)
    (hfinish : finishProgram p video tracks raw fallback = .ok q) : q.Linear := by
  obtain ⟨rfl, hvalidate⟩ := of_finishProgram_eq_ok hfinish
  refine (wired_withStreams h hpicture).linear hvalidate fun kind hmem => ?_
  have hlabel := inputLabel_mem_withStreams h hmem
  rw [hpicture, Option.some.injEq] at hlabel
  exact hcounted kind hlabel

end Timeline

end Montage
