import Montage.Proofs.Graph.Chains
import Montage.Proofs.Plan.Closed
import Montage.Proofs.Timeline.Starts
import Montage.Proofs.Transition.Splice

/-!
# What is heard

The last program of a plan hears the sounds of its timeline and nothing else
(`Timeline.heard_of_compile`): behind the inputs that the picture is made of it has one input for
each sound, in the order in which the timeline holds them; each sound goes through a chain of its
own into the one mix, and the mix is joined with the picture.
-/

namespace Montage

open Montage.Graph

/-! ## Sounds of timelines -/

/-- What a sound takes over from the scene that it belongs to. -/
structure Owner where
  start : Float
  gain : Option Float
  duration : Float

/-- A track as it stands in a timeline, and the scene that it belongs to, if there is one. -/
structure Audible where
  track : AudioTrack
  owner : Option Owner

namespace Audible

/-- Where the sound starts on the whole timeline. -/
def start (a : Audible) : Float :=
  match a.owner with
  | some owner => a.track.start + owner.start
  | none => a.track.start

/-- The volume, if the track has one or its scene a gain. -/
def volume? (a : Audible) : Option Float :=
  match a.owner.bind (·.gain) with
  | some gain => some (a.track.volume.getD 1.0 * gain)
  | none => a.track.volume

/-- The sound on the whole timeline. -/
def placed (a : Audible) : PlacedTrack :=
  match a.owner with
  | some owner => a.track.placed owner.start owner.gain owner.duration
  | none => ⟨a.track, none⟩

/-- The input that the sound is read from. -/
def input (a : Audible) : Input := .audio a.track.path a.track.looped (Audio.playedRange a.placed)

/-- When the sound ends in a program of the given length. -/
def finish (a : Audible) (programDuration : Float) : Float :=
  a.start + Audio.playable a.placed.track (Audio.playedRange a.placed) programDuration

def delayFilter (a : Audible) : String :=
  let delay := toString (truncate64 (Scalar.nearest (Scalar.greatest a.start 0.0 * 1000.0)))
  "adelay=" ++ delay ++ "|" ++ delay

def volumeFilter (volume : Float) : String := "volume=" ++ Filter.number volume

def fadeInFilter (a : Audible) (length : Float) : String :=
  "afade=t=in:st=" ++ Filter.number a.start ++ ":d=" ++ Filter.number length

def fadeOutFilter (a : Audible) (programDuration length : Float) : String :=
  "afade=t=out:st=" ++ Filter.number (Scalar.greatest (a.finish programDuration - length) 0.0) ++
    ":d=" ++ Filter.number length

/-- What the sound goes through: its delay always, the rest as far as it has it. -/
def filters (a : Audible) (programDuration : Float) : List String :=
  [a.delayFilter] ++ (a.volume?.map volumeFilter).toList ++
    (a.track.fadeIn.map a.fadeInFilter).toList ++
    (a.track.fadeOut.map (a.fadeOutFilter programDuration)).toList

variable {a : Audible}

theorem start_placed (a : Audible) : a.placed.track.start = a.start := by
  unfold placed start
  cases a.owner <;> rfl

theorem trackInput_placed (a : Audible) : Audio.trackInput a.placed = a.input := by
  have hpath : a.placed.track.path = a.track.path := by
    unfold placed
    cases a.owner <;> rfl
  have hlooped : a.placed.track.looped = a.track.looped := by
    unfold placed
    cases a.owner <;> rfl
  rw [Audio.trackInput, input, hpath, hlooped]

theorem trackFilters_placed (a : Audible) (programDuration : Float) :
    Audio.trackFilters a.placed.track (Audio.playedRange a.placed) programDuration =
      a.filters programDuration := by
  have hvolume : a.placed.track.volume = a.volume? := by
    unfold placed volume?
    rcases a.owner with _ | ⟨start, _ | gain, duration⟩ <;> rfl
  have hfadeIn : a.placed.track.fadeIn = a.track.fadeIn := by
    unfold placed
    cases a.owner <;> rfl
  have hfadeOut : a.placed.track.fadeOut = a.track.fadeOut := by
    unfold placed
    cases a.owner <;> rfl
  simp only [Audio.trackFilters, hvolume, hfadeIn, hfadeOut, start_placed, filters, delayFilter]
  cases a.volume? <;> cases a.track.fadeIn <;> cases a.track.fadeOut <;> rfl

end Audible

/-! ## Sounds of scenes -/

namespace Scene

variable {τ : Type}

/-- How long the scene is, if its block does not say otherwise. -/
def shownFor (s : Scene τ) : Float := (s.subtitle.bind (·.duration)).getD s.duration

/-- The tracks of the scene: its own, the narration of its block, and those of its nodes in order.
-/
def audible (s : Scene τ) : List AudioTrack :=
  s.audios ++ (s.subtitle.bind Subtitle.narration?).toList ++
    s.nodes.filterMap fun n => n.sound? s.shownFor

/-- The sounds of the scene when it starts at the given time. -/
def audibleFrom (s : Scene τ) (start : Float) : List Audible :=
  s.audible.map (⟨·, some ⟨start, s.audioVolume, s.shownFor⟩⟩)

theorem duration_prepared (s : Scene τ) (path : String) :
    (s.prepared path).duration = s.shownFor := by
  rcases hblock : s.subtitle with _ | block <;>
    simp [prepared, Subtitle.attach?, shownFor, hblock]

theorem audioVolume_prepared (s : Scene τ) (path : String) :
    (s.prepared path).audioVolume = s.audioVolume := by
  rcases hblock : s.subtitle with _ | block <;> simp [prepared, Subtitle.attach?, hblock]

/-- Attaching the subtitles adds the narration to the sounds; the node that burns them in is
silent. -/
theorem sounds_prepared (s : Scene τ) (path : String) : (s.prepared path).sounds = s.audible := by
  rw [sounds, duration_prepared]
  rcases hblock : s.subtitle with _ | block
  · simp [prepared, Subtitle.attach?, audible, hblock]
  · simp [prepared, Subtitle.attach?, audible, hblock, Node.sound?, Subtitle.nodeOf]

theorem placedTracks_prepared (s : Scene τ) (path : String) (start : Float) :
    (s.prepared path).placedTracks start = (s.audibleFrom start).map Audible.placed := by
  rw [placedTracks, sounds_prepared, audioVolume_prepared, duration_prepared, audibleFrom,
    List.map_map]
  rfl

end Scene

namespace Timeline

/-- All sounds in order, the scenes starting at the given times. -/
def audible (t : Timeline) (starts : List Float) : List Audible :=
  t.audios.map (⟨·, none⟩) ++ (t.scenes.zip starts).flatMap fun (s, start) => s.audibleFrom start

/-- No track is lost and none is added. -/
theorem map_track_audible {t : Timeline} {starts : List Float}
    (h : starts.length = t.scenes.length) :
    (t.audible starts).map (·.track) = t.audios ++ t.scenes.flatMap Scene.audible := by
  have hfst : (t.scenes.zip starts).map Prod.fst = t.scenes := List.map_fst_zip (by omega)
  simp only [audible, Scene.audibleFrom, List.map_append, List.map_map, List.map_flatMap,
    Function.comp_def, List.map_id']
  conv_rhs => rw [← hfst, List.flatMap_map]

theorem flatMap_placedTracks_prepared (l : Layout) (index : Nat) (scenes : List (Scene Timeline))
    (starts : List Float) :
    ((((scenes.zipIdx index).map fun (s, i) => s.prepared (l.subtitlePath i)).zip
      starts).flatMap fun (s, start) => s.placedTracks start) =
      ((scenes.zip starts).flatMap fun (s, start) => s.audibleFrom start).map Audible.placed := by
  induction scenes generalizing index starts with
  | nil => rfl
  | cons s rest ih =>
    cases starts with
    | nil => rfl
    | cons start starts =>
      rw [List.zipIdx_cons, List.map_cons, List.zip_cons_cons, List.flatMap_cons, ih,
        List.zip_cons_cons, List.flatMap_cons, List.map_append]
      exact congrArg (· ++ _) (s.placedTracks_prepared (l.subtitlePath index) start)

theorem placedTracks_prepare (t : Timeline) (l : Layout) (starts : List Float) :
    (t.prepare l).1.placedTracks starts = (t.audible starts).map Audible.placed := by
  rw [prepare_eq, placedTracks, flatMap_placedTracks_prepared, audible, List.map_append,
    List.map_map]
  rfl

end Timeline

/-! ## Chains of sounds -/

namespace Audio

/-- The filter mixes sounds. -/
def isMix (filter : String) : Bool := "amix=".toList.isPrefixOf filter.toList

theorem isMix_append {name : String} {a b : Char} {more : List Char}
    (hname : name.toList = a :: b :: more) (hne : ('a' == a && 'm' == b) = false) (rest : String) :
    isMix (name ++ rest) = false := by
  have hmix : "amix=".toList = ['a', 'm', 'i', 'x', '='] := by decide
  rw [isMix, String.toList_append, hname, hmix, List.cons_append, List.cons_append,
    List.isPrefixOf, List.isPrefixOf, ← Bool.and_assoc, hne, Bool.false_and]

theorem isMix_mixFilter (count : Nat) (raw : Bool) : isMix (mixFilter count raw) = true := by
  simp [isMix, mixFilter, String.toList_append]

theorem isMix_of_mem_trackFilters {track : AudioTrack} {range : Option (Float × Float)}
    {programDuration : Float} {filter : String}
    (h : filter ∈ trackFilters track range programDuration) : isMix filter = false := by
  simp only [trackFilters, List.mem_append, List.mem_singleton, String.append_assoc] at h
  obtain ((rfl | h) | h) | h := h
  · exact isMix_append rfl rfl _
  all_goals
    split at h
    · obtain rfl := List.mem_singleton.1 h
      exact isMix_append rfl rfl _
    · cases h

theorem isMix_operation (operation : Transition.Operation) : isMix operation.filter = false := by
  cases operation with
  | split => decide
  | trim start finish =>
    change isMix ("trim=" ++ Transition.lengthText start ++ ":" ++ Transition.lengthText finish) =
      false
    rw [String.append_assoc, String.append_assoc]
    exact isMix_append rfl rfl _
  | restart =>
    change isMix "setpts=PTS-STARTPTS" = false
    decide
  | crossfade transition length =>
    change isMix ("xfade=transition=" ++ transition ++ ":duration=" ++
      Transition.lengthText length ++ ":offset=0") = false
    simp only [String.append_assoc]
    exact isMix_append rfl rfl _
  | concat count =>
    change isMix ("concat=n=" ++ toString count) = false
    exact isMix_append rfl rfl _

theorem exists_chain_addTrack (p : Program) (placed : PlacedTrack) :
    ∃ c : Chain, c.start = inputLabel p.inputs.length .audio ∧
      c.filters = trackFilters placed.track (playedRange placed) p.duration ∧
      c.finish = (addTrack p placed).1.label ∧
      (addTrack p placed).2.graph.steps = p.graph.steps ++ c.steps :=
  exists_chain_applyAll p.graph (.ofInput p.inputs.length .audio) _ "a"

/-- Each track has a chain of its own, which starts at the track's input. -/
theorem exists_chains_addTracks (p : Program) (tracks : List PlacedTrack) :
    ∃ cs : List Chain,
      cs.map Chain.start =
        (List.range' p.inputs.length tracks.length).map (inputLabel · .audio) ∧
      cs.map Chain.filters = tracks.map (fun placed =>
        trackFilters placed.track (playedRange placed) p.duration) ∧
      cs.map Chain.finish = (addTracks p tracks).1.map (·.label) ∧
      (addTracks p tracks).2.graph.steps = p.graph.steps ++ cs.flatMap Chain.steps := by
  induction tracks generalizing p with
  | nil => exact ⟨[], rfl, rfl, rfl, (List.append_nil _).symm⟩
  | cons placed rest ih =>
    obtain ⟨c, hstart, hfilters, hfinish, hsteps⟩ := exists_chain_addTrack p placed
    obtain ⟨cs, hstarts, hfilterss, hfinishes, hstepss⟩ := ih (addTrack p placed).2
    have hinputs : (addTrack p placed).2.inputs.length = p.inputs.length + 1 :=
      List.length_append
    rw [hinputs] at hstarts
    refine ⟨c :: cs, ?_, ?_, ?_, ?_⟩
    · rw [List.map_cons, hstart, hstarts, List.length_cons, List.range'_succ, List.map_cons]
    · rw [List.map_cons, hfilters, hfilterss, List.map_cons]
      rfl
    · rw [List.map_cons, hfinish, hfinishes, addTracks_cons, List.map_cons]
    · rw [addTracks_cons, hstepss, hsteps, List.flatMap_cons, List.append_assoc]

theorem length_addTracks (p : Program) (tracks : List PlacedTrack) :
    (addTracks p tracks).1.length = tracks.length := by
  induction tracks generalizing p with
  | nil => rfl
  | cons placed rest ih => exact congrArg (· + 1) (ih _)

/-- Behind the tracks come the mix and the step that joins it with the picture. -/
theorem exists_steps_mix (p : Program) (video : Option Context) (placed : PlacedTrack)
    (rest : List PlacedTrack) (raw : Bool) : ∃ mixed first second : Label,
      (mix p video (placed :: rest) raw).1 = ⟨some ⟨first⟩, some ⟨second⟩⟩ ∧
      (mix p video (placed :: rest) raw).2.graph.steps =
        (addTracks p (placed :: rest)).2.graph.steps ++
          [⟨(addTracks p (placed :: rest)).1.map (·.label),
              mixFilter (rest.length + 1) raw, [mixed]⟩,
            ⟨[(picture video).label, mixed], "concat=n=1:v=1:a=1", [first, second]⟩] := by
  have hlength := length_addTracks p (placed :: rest)
  rw [List.length_cons] at hlength
  rw [← hlength]
  exact ⟨_, _, _, rfl, List.append_assoc _ [_] [_]⟩

end Audio

/-- What a program makes of sounds, given the number of inputs and the steps and the label of its
picture: nothing if there are none, else a chain for each sound, one mix and a step that joins the
mix with the picture. -/
inductive Program.Hears (p : Program) (front : Nat) (visual : List Step) (picture : Label)
    (raw : Bool) : List Audible → Prop
  | nothing (steps : p.graph.steps = visual) (video : p.video = some picture)
    (audio : p.audio = none) : p.Hears front visual picture raw []
  | mix {sounds : List Audible} {chains : List Chain} {mixed video audio : Label}
    (some_sound : sounds ≠ [])
    (starts : chains.map Chain.start =
      (List.range' front sounds.length).map (inputLabel · .audio))
    (filters : chains.map Chain.filters = sounds.map (·.filters p.duration))
    (steps : p.graph.steps = visual ++ chains.flatMap Chain.steps ++
      [⟨chains.map Chain.finish,
          "amix=inputs=" ++ toString sounds.length ++ if raw then ":normalize=0" else "", [mixed]⟩,
        ⟨[picture, mixed], "concat=n=1:v=1:a=1", [video, audio]⟩])
    (one_mix : p.graph.steps.countP (fun s => Audio.isMix s.filter) = 1)
    (video : p.video = some video) (audio : p.audio = some audio) :
    p.Hears front visual picture raw sounds

namespace Timeline

open Audio (isMix picture)

/-! ## The last program -/

section

variable {q : Program} {video : Option Context} {raw : Bool} {fallback : Option Label}
  {sounds : List Audible}

/-- Mixing takes each sound through its chain, all chains through one mix. -/
theorem hears_withStreams
    (hpicture : (video.map Context.label).or fallback = some (picture video).label)
    (hvisual : ∀ s ∈ q.graph.steps, isMix s.filter = false) :
    (withStreams q video (sounds.map Audible.placed) raw fallback).Hears q.inputs.length
      q.graph.steps (picture video).label raw sounds := by
  rcases sounds with _ | ⟨a, rest⟩
  · exact .nothing rfl hpicture rfl
  · obtain ⟨chains, hstarts, hfilters, hfinishes, htracks⟩ :=
      Audio.exists_chains_addTracks q ((a :: rest).map Audible.placed)
    obtain ⟨mixed, first, second, hstreams, hmix⟩ :=
      Audio.exists_steps_mix q video a.placed (rest.map Audible.placed) raw
    have hsteps : (withStreams q video ((a :: rest).map Audible.placed) raw fallback).graph.steps =
        q.graph.steps ++ chains.flatMap Chain.steps ++
          [⟨chains.map Chain.finish, Audio.mixFilter (rest.length + 1) raw, [mixed]⟩,
            ⟨[(picture video).label, mixed], "concat=n=1:v=1:a=1", [first, second]⟩] := by
      rw [hfinishes, ← htracks, ← List.length_map (f := Audible.placed)]
      exact hmix
    have hquiet : ∀ s ∈ chains.flatMap Chain.steps, isMix s.filter = false := fun s hs => by
      obtain ⟨c, hc, hs⟩ := List.mem_flatMap.1 hs
      have hfilter := List.mem_map_of_mem (f := Chain.filters) hc
      rw [hfilters] at hfilter
      obtain ⟨placed, -, hplaced⟩ := List.mem_map.1 hfilter
      have hmem := Chain.filter_mem_filters hs
      rw [← hplaced] at hmem
      exact Audio.isMix_of_mem_trackFilters hmem
    refine .mix (List.cons_ne_nil a rest) ?_ ?_ hsteps ?_ ?_ ?_
    · rwa [List.length_map] at hstarts
    · rw [hfilters, List.map_map, duration_withStreams]
      exact List.map_congr_left fun a _ => a.trackFilters_placed q.duration
    · have hothers : (q.graph.steps ++ chains.flatMap Chain.steps).countP
          (fun s => isMix s.filter) = 0 :=
        List.countP_eq_zero.2 fun s hs => by
          rw [(List.mem_append.1 hs).elim (hvisual s) (hquiet s)]
          exact Bool.false_ne_true
      have hjoin : isMix "concat=n=1:v=1:a=1" = false := by decide
      rw [hsteps, List.countP_append, hothers, List.countP_cons, List.countP_singleton,
        Audio.isMix_mixFilter, hjoin]
      rfl
    · exact congrArg (fun streams : Audio.Streams => (streams.video.map Context.label).or fallback)
        hstreams
    · exact congrArg (fun streams : Audio.Streams => streams.audio.map Context.label) hstreams

end

/-- How the picture of the last program is made: what the program reads, where the scenes start, the
steps of the picture and its label. -/
inductive Pictured (t : Timeline) (l : Layout) :
    Strategy → List Input → List Float → List Step → Label → Prop
  /-- The scenes' files are spliced, in their order. -/
  | crossfade {segments : List Transition.Segment} {joined : Context} {millis : Int}
      (reads : segments.map (·.input) =
        (List.range t.scenes.length).map (Context.ofInput · .video))
      (spliced : (Transition.splice {} segments).1 = .ok (joined, millis)) :
      t.Pictured l .crossfade ((scenePaths l t.scenes.length).map Input.file) t.crossfadeStarts
        (Transition.splice {} segments).2.steps joined.label
  /-- The manifest is played as it is. -/
  | sequence : t.Pictured l .sequence [.manifest l.manifestPath] t.starts [] (inputLabel 0 .video)

theorem map_input_addSegments {τ : Type} {picker : Transition.Picker} {p p' : Program}
    {xs : List (Scene τ × String)} {segments : List Transition.Segment}
    (h : addSegments picker p xs = .ok (segments, p')) :
    segments.map (·.input) =
      (List.range' p.inputs.length xs.length).map (Context.ofInput · .video) := by
  induction xs generalizing picker p segments with
  | nil =>
    cases h
    rfl
  | cons x rest ih =>
    obtain ⟨spec, name, others, -, -, hrest, rfl⟩ := exists_of_addSegments_cons h
    have hinputs : (p.addInput (.file x.2)).2.inputs.length = p.inputs.length + 1 :=
      List.length_append
    have hothers := ih hrest
    rw [hinputs] at hothers
    rw [List.map_cons, hothers, List.length_cons, List.range'_succ, List.map_cons]

theorem isMix_of_mem_splice {segments : List Transition.Segment} {joined : Context} {millis : Int}
    (h : (Transition.splice {} segments).1 = .ok (joined, millis)) :
    ∀ s ∈ (Transition.splice {} segments).2.steps, isMix s.filter = false := by
  rw [(Transition.extended_of_splice_eq_ok h).2.1]
  intro s hs
  obtain ⟨action, -, rfl⟩ := List.mem_map.1 hs
  exact Audio.isMix_operation action.operation

variable {t t' : Timeline} {l : Layout} {p : Program}

/-- A splice with sounds hears the sounds behind the scenes' files. -/
theorem hears_crossfadeProgram
    (h : t.crossfadeProgram (scenePaths l t.scenes.length) l.output = .ok p)
    {sounds : List Audible}
    (hsounds : t.placedTracks t.crossfadeStarts = sounds.map Audible.placed) :
    ∃ visual picture, t.Pictured l .crossfade ((scenePaths l t.scenes.length).map Input.file)
        t.crossfadeStarts visual picture ∧
      p.Hears t.scenes.length visual picture t.settings.rawMix sounds := by
  obtain ⟨segments, q, joined, millis, hadd, hsplice, hfinish⟩ := exists_of_crossfadeProgram h
  obtain ⟨rfl, -⟩ := of_finishProgram_eq_ok hfinish
  have hlength : (t.scenes.zip (scenePaths l t.scenes.length)).length = t.scenes.length := by
    rw [List.length_zip, length_scenePaths, Nat.min_self]
  have hreads := map_input_addSegments hadd
  have hframe := addSegments_frame hadd
  have hinputs : q.inputs.length = t.scenes.length := by
    rw [hframe, List.length_append, List.length_map, hlength]
    exact Nat.zero_add _
  have hgraph : q.graph = {} := by rw [hframe]; rfl
  rw [hgraph] at hsplice
  rw [hlength] at hreads
  refine ⟨_, _, .crossfade ?_ hsplice, ?_⟩
  · rw [hreads, List.range_eq_range']
    rfl
  · rw [hsounds, ← hinputs, hgraph]
    exact hears_withStreams rfl (isMix_of_mem_splice hsplice)

/-- A manifest with sounds hears the sounds behind the manifest. -/
theorem hears_sequenceProgram (h : t.sequenceProgram l.manifestPath l.output = .ok p)
    {sounds : List Audible} (hsounds : t.placedTracks t.starts = sounds.map Audible.placed) :
    p.Hears 1 [] (inputLabel 0 .video) t.settings.rawMix sounds := by
  obtain ⟨rfl, -⟩ := of_finishProgram_eq_ok h
  rw [hsounds]
  exact hears_withStreams rfl fun s hs => absurd hs List.not_mem_nil

/-- A last step that is a program comes from one of the two strategies that make one. -/
theorem program_of_finish {duration : Float} {files : List TextFile}
    (h : t.finish l = .ok (.program p, duration, files)) :
    t.strategy = .crossfade ∧
        t.crossfadeProgram (scenePaths l t.scenes.length) l.output = .ok p ∨
      t.strategy = .sequence ∧ t.sequenceProgram l.manifestPath l.output = .ok p := by
  rw [finish] at h
  split at h
  · cases h
  · next hcrossfade =>
    split at h
    · cases h
    · next hprogram =>
      cases h
      exact Or.inl ⟨hcrossfade, hprogram⟩
  · next hsequence =>
    split at h
    · cases h
    · next hprogram =>
      cases h
      exact Or.inr ⟨hsequence, hprogram⟩

/-- The last program of a plan reads, behind the inputs of its picture, one input for each sound of
the timeline, and hears all of them, each once, through a chain of its own: the timeline's own
tracks, then scene by scene the scene's tracks, the narration and the sounds of the nodes. -/
theorem heard_of_compile {plan : Plan} (h : t.compile l = .ok (t', plan))
    (hp : plan.finish = .program p) :
    ∃ front starts visual picture, t'.Pictured l plan.strategy front starts visual picture ∧
      (t.audible starts).map (·.track) = t.audios ++ t.scenes.flatMap Scene.audible ∧
      p.inputs = front ++ (t.audible starts).map Audible.input ∧
      p.Hears front.length visual picture t.settings.rawMix (t.audible starts) := by
  obtain ⟨rfl, -, files, hfinish, hstrategy, -⟩ := of_compile_eq_ok h
  have hscenes : (t.prepare l).1.scenes.length = t.scenes.length := by simp [prepare_eq]
  have hsettings : (t.prepare l).1.settings.rawMix = t.settings.rawMix := by rw [prepare_eq]
  have hinputs (starts : List Float) : ((t.prepare l).1.placedTracks starts).map Audio.trackInput =
      (t.audible starts).map Audible.input := by
    rw [placedTracks_prepare, List.map_map]
    exact List.map_congr_left fun a _ => a.trackInput_placed
  rw [hp] at hfinish
  rw [hstrategy]
  rcases program_of_finish hfinish with ⟨hcrossfade, hprogram⟩ | ⟨hsequence, hprogram⟩
  · obtain ⟨visual, picture, hpictured, hhears⟩ :=
      hears_crossfadeProgram hprogram (placedTracks_prepare t l _)
    obtain _ | ⟨-, hread⟩ := consumes_crossfadeProgram hprogram
    rw [hinputs] at hread
    rw [hsettings] at hhears
    rw [hcrossfade]
    refine ⟨_, _, visual, picture, hpictured, map_track_audible ?_, hread, ?_⟩
    · rw [crossfadeStarts, List.length_map, length_crossfadeStartMillis, hscenes]
    · rwa [List.length_map, length_scenePaths]
  · have hhears := hears_sequenceProgram hprogram (placedTracks_prepare t l _)
    obtain _ | _ | ⟨-, hread⟩ := consumes_sequenceProgram hprogram
    rw [hinputs] at hread
    rw [hsettings] at hhears
    rw [hsequence]
    refine ⟨_, _, _, _, .sequence, map_track_audible ?_, hread, hhears⟩
    rw [starts, List.length_map, length_startMillis, hscenes]

/-- A song, a scene with a voice and a loud clip, and one with a narration at half volume. -/
def soundedPair : Timeline where
  settings := { width := 640, height := 360 }
  scenes := [
    { duration := 2.0, audios := [{ path := "voice.mp3", fadeOut := some 1.0 }]
      nodes := [{ kind := .video "clip.mp4" none none false }] },
    { duration := 3.0, audioVolume := some 0.5
      subtitle := some { cues := [⟨500, 1500, "Hello"⟩], audio := some "hello.mp3" } }]
  audios := [{ path := "song.mp3", looped := true }]

theorem heard_of_compile_soundedPair :
    ∃ t' plan p, soundedPair.compile ⟨"cache", "out.mp4"⟩ = .ok (t', plan) ∧
      plan.finish = .program p ∧
      ∃ front starts visual picture,
        t'.Pictured ⟨"cache", "out.mp4"⟩ plan.strategy front starts visual picture ∧
        (soundedPair.audible starts).map (·.track.path) =
          ["song.mp3", "voice.mp3", "clip.mp4", "hello.mp3"] ∧
        p.inputs = front ++ (soundedPair.audible starts).map Audible.input ∧
        p.Hears front.length visual picture false (soundedPair.audible starts) := by
  have hfinish : (soundedPair.compile ⟨"cache", "out.mp4"⟩).toOption.any (fun r =>
      (r.2.finalCommand r.1.settings).isSome) = true := by decide +kernel
  rcases hcompile : soundedPair.compile ⟨"cache", "out.mp4"⟩ with e | ⟨t', plan⟩ <;>
    rw [hcompile] at hfinish
  · cases hfinish
  · rcases hlast : plan.finish with ⟨source, target⟩ | p
    · simp [Except.toOption, Plan.finalCommand, hlast] at hfinish
    · obtain ⟨front, starts, visual, picture, hpictured, htracks, hinputs, hhears⟩ :=
        heard_of_compile hcompile hlast
      refine ⟨t', plan, p, rfl, hlast, front, starts, visual, picture, hpictured, ?_, hinputs,
        hhears⟩
      have hpaths := congrArg (List.map (·.path)) htracks
      rw [List.map_map] at hpaths
      exact hpaths

end Timeline

end Montage
