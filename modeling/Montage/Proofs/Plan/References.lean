import Montage.Proofs.Plan.Sounds
import Montage.Proofs.Scene.References
import Montage.Proofs.Timeline.AssetFields

/-!
# Where the files of a plan come from

A plan refers to files that it makes itself, to the files of rendered compositions and to files that
its timeline lists, with two exceptions: the file of a node that burns subtitles in, and the font in
the style of a subtitle block.  The list passes over both, and a plan refers to all of them
(`Timeline.supplied_of_compile`).
-/

namespace Montage

open Montage.Graph

/-! ## Files of plans -/

/-- The last program draws no text and burns nothing in, so that it refers to what it reads. -/
def Finish.references : Finish → List String
  | .relocate source _ => [source]
  | .program p => p.references []

/-- The files that a plan refers to whose scenes' programs do these operations. -/
def Plan.references (plan : Plan) (works : List (List Operation)) : List String :=
  (plan.scenes.zip works).flatMap (fun x => x.1.references x.2) ++ plan.finish.references

/-- The files that a plan makes: the text files and the files of the scenes. -/
def Plan.products (plan : Plan) : List String :=
  plan.files.map (·.path) ++ plan.scenes.map (·.output)

/-- What is done for each scene. -/
def Timeline.works (t : Timeline) : List (List Operation) :=
  t.scenes.map (·.operations t.settings)

/-! ## Files of nodes -/

theorem Operation.fontFile_of_dirFont? {style : TextStyle} {file : String}
    (h : dirFont? style = some file) : style.fontFile = some file := by
  rw [dirFont?] at h
  split at h
  · exact h
  · cases h

namespace NodeKind

variable {τ : Type}

/-- The file of a rendered composition. -/
def output? : NodeKind τ → Option String
  | .composition _ output => output
  | _ => none

/-- The file of a node that burns subtitles in. -/
def subtitles? : NodeKind τ → Option String
  | .subtitle path _ _ => some path
  | _ => none

/-- What a node refers to is listed, or comes from a composition, or is passed over. -/
theorem of_mem_references {k : NodeKind τ} {file : String} (h : file ∈ k.references) :
    k.asset? = some file ∨ k.output? = some file ∨ k.subtitles? = some file := by
  cases k with
  | image path | video path => exact Or.inl (congrArg some (List.mem_singleton.1 h).symm)
  | text words style =>
    rw [references] at h
    split at h
    · cases h
    · exact Or.inl (Option.mem_toList.1 h)
  | subtitle path style vertical =>
    rcases List.mem_cons.1 h with rfl | hfont
    · exact Or.inr (Or.inr rfl)
    · exact Or.inl (Operation.fontFile_of_dirFont? (Option.mem_toList.1 hfont))
  | audio track => cases h
  | composition timeline output => exact Or.inr (Or.inl (Option.mem_toList.1 h))

theorem mem_references_of_subtitles? {k : NodeKind τ} {file : String}
    (h : k.subtitles? = some file) : file ∈ k.references := by
  cases k <;> cases h
  exact List.mem_cons_self

end NodeKind

/-! ## Files of scenes -/

namespace Scene

variable {τ : Type}

/-- The files of the scene's rendered compositions. -/
def outputs (s : Scene τ) : List String := s.nodes.filterMap (·.kind.output?)

/-- What `assets` passes over: the files of the nodes that burn subtitles in, and the font in the
style of the block, if its directory is searched for fonts. -/
def overlooked (s : Scene τ) : List String :=
  s.nodes.filterMap (·.kind.subtitles?) ++
    (s.subtitle.bind fun block => Operation.dirFont? block.style).toList

variable {s : Scene τ} {file : String}

theorem mem_assets_of_node {n : Node τ} (hn : n ∈ s.nodes) (h : n.kind.asset? = some file) :
    file ∈ s.assets := by
  obtain ⟨i, hi⟩ := List.mem_iff_getElem?.1 hn
  refine mem_assets_of_asset? (x := .node i) ?_
  rw [asset?, hi]
  exact h

theorem needs_prepared_iff {path : String} : (s.prepared path).Needs file ↔
    s.Needs file ∨ ∃ block, s.subtitle = some block ∧
      file ∈ (Subtitle.nodeOf block path : Node τ).kind.references := by
  rcases hblock : s.subtitle with _ | block
  · simp [prepared, Subtitle.attach?, hblock]
  · simp [prepared, Subtitle.attach?, hblock, Needs, or_and_right, exists_or, or_assoc]

/-- What the program of a scene refers to is listed, comes from a composition, is passed over or is
the file that is written for the block. -/
theorem of_needs_prepared {path : String} (h : (s.prepared path).Needs file) :
    file ∈ s.assets ∨ file ∈ s.outputs ∨ file ∈ s.overlooked ∨
      s.subtitle.isSome ∧ file = path := by
  rcases needs_prepared_iff.1 h with (hback | ⟨n, hn, hfile⟩) | ⟨block, hblock, hfile⟩
  · exact Or.inl (List.mem_append_left _ (List.mem_append_left _ (List.mem_append_left _ hback)))
  · rcases NodeKind.of_mem_references hfile with hasset | houtput | hsubtitles
    · exact Or.inl (mem_assets_of_node hn hasset)
    · exact Or.inr (Or.inl (List.mem_filterMap.2 ⟨n, hn, houtput⟩))
    · exact Or.inr (Or.inr (Or.inl
        (List.mem_append_left _ (List.mem_filterMap.2 ⟨n, hn, hsubtitles⟩))))
  · rcases List.mem_cons.1 hfile with rfl | hfont
    · exact Or.inr (Or.inr (Or.inr ⟨by rw [hblock]; rfl, rfl⟩))
    · rw [Option.mem_toList] at hfont
      rcases hstyle : block.style.fontFile with _ | font
      · have hpath := Operation.fontFile_of_dirFont? hfont
        rw [hstyle, Option.none_or] at hpath
        refine Or.inl (mem_assets_of_asset? (x := .font) ?_)
        rw [asset?, hblock]
        exact hpath
      · have hown : Operation.dirFont? block.style = some file := by
          rw [hstyle, Option.some_or, ← hstyle] at hfont
          exact hfont
        refine Or.inr (Or.inr (Or.inl (List.mem_append_right _ ?_)))
        rw [hblock, Option.bind_some, hown]
        exact List.mem_singleton_self file

/-- The program of a scene refers to what is passed over. -/
theorem needs_prepared_of_overlooked (path : String) (h : file ∈ s.overlooked) :
    (s.prepared path).Needs file := by
  rw [needs_prepared_iff]
  rcases List.mem_append.1 h with hnode | hfont
  · obtain ⟨n, hn, hsubtitles⟩ := List.mem_filterMap.1 hnode
    exact Or.inl (Or.inr ⟨n, hn, NodeKind.mem_references_of_subtitles? hsubtitles⟩)
  · rw [Option.mem_toList] at hfont
    obtain ⟨block, hblock, hown⟩ := Option.bind_eq_some_iff.1 hfont
    have hstyle : block.style.fontFile.or block.fontPath = block.style.fontFile := by
      rw [Operation.fontFile_of_dirFont? hown, Option.some_or]
    refine Or.inr ⟨block, hblock, List.mem_cons_of_mem _ (Option.mem_toList.2 ?_)⟩
    rw [hstyle]
    exact hown

end Scene

/-! ## Programs of scenes -/

namespace Timeline

variable {t t' : Timeline} {l : Layout} {plan : Plan} {file : String}

theorem does_compileScenes {settings : Settings} {index : Nat} {scenes : List (Scene Timeline)}
    {ps : List Program} (h : compileScenes settings l index scenes = .ok ps) :
    List.Forall₂ Program.Does ps (scenes.map (·.operations settings)) := by
  induction scenes generalizing index ps with
  | nil =>
    cases h
    exact .nil
  | cons s rest ih =>
    obtain ⟨p, others, hfirst, hrest, rfl⟩ := exists_of_compileScenes_cons h
    exact .cons (Scene.does_of_compile hfirst).1 (ih hrest)

/-- The programs of the scenes refer to what the scenes need. -/
theorem mem_references_compileScenes_iff {settings : Settings} {index : Nat}
    {scenes : List (Scene Timeline)} {ps : List Program}
    (h : compileScenes settings l index scenes = .ok ps) :
    file ∈ (ps.zip (scenes.map (·.operations settings))).flatMap (fun x => x.1.references x.2) ↔
      ∃ s ∈ scenes, s.Needs file := by
  induction scenes generalizing index ps with
  | nil =>
    cases h
    simp
  | cons s rest ih =>
    obtain ⟨p, others, hfirst, hrest, rfl⟩ := exists_of_compileScenes_cons h
    rw [List.map_cons, List.zip_cons_cons, List.flatMap_cons, List.mem_append, ih hrest,
      Scene.mem_references_iff hfirst, List.exists_mem_cons_iff]

/-- The files of the rendered compositions. -/
def outputs (t : Timeline) : List String := t.scenes.flatMap Scene.outputs

/-- What `assets` passes over in the scenes. -/
def overlooked (t : Timeline) : List String := t.scenes.flatMap Scene.overlooked

theorem mem_assets_of_scene {s : Scene Timeline} (hs : s ∈ t.scenes) (h : file ∈ s.assets) :
    file ∈ t.assets := List.mem_append_right _ (List.mem_flatMap.2 ⟨s, hs, h⟩)

end Timeline

/-! ## Sounds -/

namespace Scene

variable {τ : Type} {s : Scene τ}

/-- The sounds of a scene are listed. -/
theorem path_mem_assets_of_audible {track : AudioTrack} (h : track ∈ s.audible) :
    track.path ∈ s.assets := by
  rcases List.mem_append.1 h with hscene | hnode
  · rcases List.mem_append.1 hscene with htrack | hnarration
    · exact List.mem_append_left _ (List.mem_append_left _ (List.mem_append_right _
        (List.mem_map_of_mem htrack)))
    · obtain ⟨block, hblock, hnarration⟩ :=
        Option.bind_eq_some_iff.1 (Option.mem_toList.1 hnarration)
      obtain ⟨path, hpath, rfl⟩ := Option.map_eq_some_iff.1 hnarration
      refine mem_assets_of_asset? (x := .narration) ?_
      rw [asset?, hblock]
      exact hpath
  · obtain ⟨n, hn, hsound⟩ := List.mem_filterMap.1 hnode
    refine mem_assets_of_node hn ?_
    rcases hkind : n.kind with path | ⟨path, cutFrom, cutTo, _ | _⟩ | ⟨words, style⟩ |
      ⟨path, style, vertical⟩ | track' | ⟨timeline, output⟩ <;>
      rw [Node.sound?, hkind] at hsound <;> cases hsound <;> rfl

end Scene

namespace Timeline

variable {t t' : Timeline} {l : Layout} {plan : Plan} {file : String}

/-- The sounds of a timeline are listed. -/
theorem path_mem_assets_of_audible {starts : List Float} {a : Audible} (h : a ∈ t.audible starts) :
    a.track.path ∈ t.assets := by
  rcases List.mem_append.1 h with hown | hscene
  · obtain ⟨track, htrack, rfl⟩ := List.mem_map.1 hown
    exact List.mem_append_left _ (List.mem_map_of_mem htrack)
  · obtain ⟨⟨s, start⟩, hs, ha⟩ := List.mem_flatMap.1 hscene
    obtain ⟨track, htrack, rfl⟩ := List.mem_map.1 ha
    exact mem_assets_of_scene (List.of_mem_zip hs).1 (Scene.path_mem_assets_of_audible htrack)

/-- The inputs of sounds are files that are listed. -/
theorem mem_assets_of_trackInput {starts : List Float}
    (h : file ∈
      (((t.prepare l).1.placedTracks starts).map Audio.trackInput).filterMap Input.file?) :
    file ∈ t.assets := by
  rw [placedTracks_prepare, List.map_map, List.filterMap_map] at h
  obtain ⟨a, ha, hfile⟩ := List.mem_filterMap.1 h
  have hread : (Audio.trackInput a.placed).file? = some a.track.path := by
    rw [a.trackInput_placed]
    exact Input.file?_audio ..
  rw [Function.comp_apply, Function.comp_apply, hread] at hfile
  exact Option.some.inj hfile ▸ path_mem_assets_of_audible ha

/-! ## The last step -/

theorem references_program (p : Program) :
    Finish.references (.program p) = p.inputs.filterMap Input.file? := List.append_nil _

theorem filterMap_file?_map_file (paths : List String) :
    (paths.map Input.file).filterMap Input.file? = paths := by
  rw [List.filterMap_map]
  exact List.filterMap_some

/-- What the last step refers to is made for it, or is a sound. -/
theorem of_mem_references_finish {strategy : Strategy} {last : Finish}
    (h : Consumes (t.prepare l).1 l strategy last) (hfile : file ∈ last.references) :
    file ∈ (manifestFiles l (t.prepare l).1.scenes.length strategy).map (·.path) ∨
      file ∈ scenePaths l (t.prepare l).1.scenes.length ∨ file ∈ t.assets := by
  cases h with
  | fastPath hone =>
    obtain rfl := List.mem_singleton.1 hfile
    rw [hone]
    exact Or.inr (Or.inl (List.mem_singleton_self _))
  | crossfade _ hinputs =>
    rw [references_program, hinputs, List.filterMap_append, filterMap_file?_map_file] at hfile
    exact Or.inr ((List.mem_append.1 hfile).imp_right mem_assets_of_trackInput)
  | sequence _ hinputs =>
    rw [references_program, hinputs, List.filterMap_cons, Input.file?_manifest] at hfile
    rcases List.mem_cons.1 hfile with rfl | hsound
    · exact Or.inl (List.mem_singleton_self _)
    · exact Or.inr (Or.inr (mem_assets_of_trackInput hsound))

end Timeline

/-- Splices name no files. -/
theorem Transition.namesFiles_operation (operation : Transition.Operation) :
    Filter.namesFiles operation.filter = false := by
  cases operation with
  | split => decide
  | trim start finish =>
    have htrim : Filter.Fileless "trim=" := by decide
    exact (htrim.appendAll [_, _, _]).2
  | restart =>
    have hrestart : Filter.namesFiles "setpts=PTS-STARTPTS" = false := by decide
    exact hrestart
  | crossfade transition length =>
    have hxfade : Filter.Fileless "xfade=transition=" := by decide
    exact (hxfade.appendAll [_, _, _, _]).2
  | concat count =>
    have hconcat : Filter.Fileless "concat=n=" := by decide
    exact (hconcat.append _).2

/-- The filters of a sound name no files. -/
theorem Audible.namesFiles_of_mem_filters {a : Audible} {programDuration : Float} {filter : String}
    (h : filter ∈ a.filters programDuration) : Filter.namesFiles filter = false := by
  simp only [filters, List.mem_append, List.mem_singleton, Option.mem_toList,
    Option.map_eq_some_iff] at h
  have hdelay : Filter.Fileless "adelay=" := by decide
  have hvolume : Filter.Fileless "volume=" := by decide
  have hfadeIn : Filter.Fileless "afade=t=in:st=" := by decide
  have hfadeOut : Filter.Fileless "afade=t=out:st=" := by decide
  obtain ((rfl | ⟨volume, -, rfl⟩) | ⟨length, -, rfl⟩) | ⟨length, -, rfl⟩ := h
  · exact (hdelay.appendAll [_, _, _]).2
  · exact (hvolume.append _).2
  · exact (hfadeIn.appendAll [_, _, _]).2
  · exact (hfadeOut.appendAll [_, _, _]).2

/-- Behind a picture that names no files, the sounds bring none. -/
theorem Program.Hears.namesFiles {p : Program} {front : Nat} {visual : List Step} {picture : Label}
    {raw : Bool} {sounds : List Audible} (h : p.Hears front visual picture raw sounds)
    (hvisual : ∀ s ∈ visual, Filter.namesFiles s.filter = false) :
    ∀ s ∈ p.graph.steps, Filter.namesFiles s.filter = false := by
  cases h with
  | nothing hsteps => rwa [hsteps]
  | mix _ _ hfilters hsteps =>
    have hchains : ∀ c ∈ _, ∀ s ∈ Chain.steps c, Filter.namesFiles s.filter = false :=
      fun c hc s hs => by
        have hmem := List.mem_map_of_mem (f := Chain.filters) hc
        rw [hfilters] at hmem
        obtain ⟨a, -, ha⟩ := List.mem_map.1 hmem
        exact Audible.namesFiles_of_mem_filters (ha ▸ Chain.filter_mem_filters hs)
    have hmix : Filter.Fileless "amix=inputs=" := by decide
    have hjoin : Filter.namesFiles "concat=n=1:v=1:a=1" = false := by decide
    rw [hsteps]
    simp only [List.forall_mem_append, List.forall_mem_flatMap, List.forall_mem_cons]
    exact ⟨⟨hvisual, hchains⟩, (hmix.appendAll [_, _]).2, hjoin,
      fun s hs => absurd hs List.not_mem_nil⟩

namespace Timeline

variable {t t' : Timeline} {l : Layout} {plan : Plan} {file : String}

/-- The last program names no files in its steps. -/
theorem namesFiles_of_finish {p : Program} {duration : Float} {files : List TextFile}
    (h : (t.prepare l).1.finish l = .ok (.program p, duration, files)) :
    ∀ s ∈ p.graph.steps, Filter.namesFiles s.filter = false := by
  rcases program_of_finish h with ⟨-, hprogram⟩ | ⟨-, hprogram⟩
  · obtain ⟨visual, picture, hpictured, hhears⟩ :=
      hears_crossfadeProgram hprogram (placedTracks_prepare t l _)
    refine hhears.namesFiles ?_
    obtain ⟨-, hspliced⟩ := hpictured
    rw [(Transition.extended_of_splice_eq_ok hspliced).2.1]
    exact List.forall_mem_map.2 fun action _ => Transition.namesFiles_operation action.operation
  · exact (hears_sequenceProgram hprogram (placedTracks_prepare t l _)).namesFiles
      fun s hs => absurd hs List.not_mem_nil

/-! ## Plans -/

/-- Where a plan gets the files from that it refers to. -/
structure Supplied (t t' : Timeline) (plan : Plan) : Prop where
  /-- The scenes' programs do what is said to be done for them. -/
  done : List.Forall₂ Program.Does plan.scenes t'.works
  honest : ∀ s ∈ t'.scenes, ∀ op ∈ s.operations t'.settings, op.Honest s.nodes
  /-- The last program refers to its inputs only. -/
  last : ∀ p, plan.finish = .program p → ∀ s ∈ p.graph.steps, Filter.namesFiles s.filter = false
  covered : ∀ file ∈ plan.references t'.works,
    file ∈ plan.products ∨ file ∈ t.outputs ∨ file ∈ t.assets ∨ file ∈ t.overlooked
  /-- All that the list passes over is needed. -/
  needed : ∀ file ∈ t.overlooked, file ∈ plan.references t'.works
  listed : Lists t.asset? t.assets
  /-- A file is replaced once in each field. -/
  replaced : ∀ (f : String → Id String) (x : AssetField),
    (t.mapAssets f).run.asset? x = (t.asset? x).map f

theorem subtitlePath_mem_subtitleFiles {i : Nat} {s : Scene Timeline} (hs : t.scenes[i]? = some s)
    (hblock : s.subtitle.isSome) :
    l.subtitlePath i ∈ (subtitleFiles l 0 t.scenes).map (·.path) := by
  obtain ⟨block, hblock⟩ := Option.isSome_iff_exists.1 hblock
  refine List.mem_map.2 ⟨⟨l.subtitlePath i, Subtitle.render block.cues⟩, ?_, rfl⟩
  exact List.mem_filterMap.2 ⟨(s, i), List.mk_mem_zipIdx_iff_getElem?.2 hs, by simp [hblock]⟩

/-- What a scene needs is supplied. -/
theorem covered_of_needs {i : Nat} {s : Scene Timeline} (hs : t.scenes[i]? = some s)
    (h : (s.prepared (l.subtitlePath i)).Needs file) :
    file ∈ (subtitleFiles l 0 t.scenes).map (·.path) ∨ file ∈ t.outputs ∨ file ∈ t.assets ∨
      file ∈ t.overlooked := by
  have hmem := List.mem_of_getElem? hs
  rcases Scene.of_needs_prepared h with hasset | houtput | hover | ⟨hblock, rfl⟩
  · exact Or.inr (Or.inr (Or.inl (mem_assets_of_scene hmem hasset)))
  · exact Or.inr (Or.inl (List.mem_flatMap.2 ⟨s, hmem, houtput⟩))
  · exact Or.inr (Or.inr (Or.inr (List.mem_flatMap.2 ⟨s, hmem, hover⟩)))
  · exact Or.inl (subtitlePath_mem_subtitleFiles hs hblock)

/-- The plan makes the files of subtitles, the manifest and the files of the scenes. -/
theorem products_eq_of_compile (h : t.compile l = .ok (t', plan)) :
    plan.products = (subtitleFiles l 0 t.scenes).map (·.path) ++
      (manifestFiles l t'.scenes.length plan.strategy).map (·.path) ++
      scenePaths l t'.scenes.length := by
  obtain ⟨rfl, hscenes, files, hfinish, hstrategy, hfiles⟩ := of_compile_eq_ok h
  obtain ⟨-, rfl⟩ := consumes_of_finish hfinish
  have houtputs : plan.scenes.map (·.output) = scenePaths l (t.prepare l).1.scenes.length := by
    rw [map_output_compileScenes hscenes, scenePaths, List.range_eq_range']
  rw [Plan.products, houtputs, hfiles, List.map_append, hstrategy, prepare_eq]

/-- The plan refers to what the scenes need, their blocks attached, and to what its last step refers
to. -/
theorem mem_references_iff_of_compile (h : t.compile l = .ok (t', plan)) :
    file ∈ plan.references t'.works ↔
      (∃ (i : Nat) (s : Scene Timeline), t.scenes[i]? = some s ∧
          (s.prepared (l.subtitlePath i)).Needs file) ∨
        file ∈ plan.finish.references := by
  obtain ⟨rfl, hscenes, -⟩ := of_compile_eq_ok h
  have hprepared : (∃ s' ∈ (t.prepare l).1.scenes, s'.Needs file) ↔
      ∃ (i : Nat) (s : Scene Timeline), t.scenes[i]? = some s ∧
        (s.prepared (l.subtitlePath i)).Needs file := by
    rw [prepare_eq]
    simp only [List.mem_map, Prod.exists, List.mk_mem_zipIdx_iff_getElem?]
    constructor
    · rintro ⟨_, ⟨s, i, hs, rfl⟩, hneeds⟩
      exact ⟨i, s, hs, hneeds⟩
    · rintro ⟨i, s, hs, hneeds⟩
      exact ⟨_, ⟨s, i, hs, rfl⟩, hneeds⟩
  rw [Plan.references, List.mem_append, works, mem_references_compileScenes_iff hscenes, hprepared]

/-- What a plan refers to is supplied. -/
theorem covered_of_compile (h : t.compile l = .ok (t', plan))
    (hfile : file ∈ plan.references t'.works) :
    file ∈ plan.products ∨ file ∈ t.outputs ∨ file ∈ t.assets ∨ file ∈ t.overlooked := by
  rw [products_eq_of_compile h]
  rcases (mem_references_iff_of_compile h).1 hfile with ⟨i, s, hs, hneeds⟩ | hlast
  · exact (covered_of_needs hs hneeds).imp_left fun hmem =>
      List.mem_append_left _ (List.mem_append_left _ hmem)
  · obtain ⟨rfl, -, files, hfinish, hstrategy, -⟩ := of_compile_eq_ok h
    rw [hstrategy]
    rcases of_mem_references_finish (consumes_of_finish hfinish).1 hlast with
      hmanifest | hscene | hasset
    · exact Or.inl (List.mem_append_left _ (List.mem_append_right _ hmanifest))
    · exact Or.inl (List.mem_append_right _ hscene)
    · exact Or.inr (Or.inr (Or.inl hasset))

/-- A plan refers to what the list passes over. -/
theorem needed_of_compile (h : t.compile l = .ok (t', plan)) (hfile : file ∈ t.overlooked) :
    file ∈ plan.references t'.works := by
  obtain ⟨s, hs, hover⟩ := List.mem_flatMap.1 hfile
  obtain ⟨i, hi⟩ := List.mem_iff_getElem?.1 hs
  exact (mem_references_iff_of_compile h).2
    (Or.inl ⟨i, s, hi, Scene.needs_prepared_of_overlooked _ hover⟩)

/-- A plan refers to files that it makes, to those of compositions, to listed files and to those
that the list passes over; it refers to all of the latter. -/
theorem supplied_of_compile (h : t.compile l = .ok (t', plan)) : t.Supplied t' plan := by
  obtain ⟨ht, hscenes, files, hfinish, -⟩ := of_compile_eq_ok h
  exact
    { done := does_compileScenes hscenes
      honest := fun s _ => s.honest_of_mem_operations _
      last := fun p hp => by
        rw [ht, hp] at hfinish
        exact namesFiles_of_finish hfinish
      covered := fun _ => covered_of_compile h
      needed := fun _ => needed_of_compile h
      listed := t.lists_assets
      replaced := t.asset?_mapAssets }

/-- A scene that burns in a file of its own, and then its block, in a font of the block's style. -/
def twiceSubtitled : Timeline where
  settings := { width := 640, height := 360 }
  scenes := [{
    duration := 4.0
    nodes := [{ kind := .subtitle "/subs/own.srt" {} false }]
    subtitle := some
      { cues := [⟨500, 1500, "Hello"⟩], style := { fontFile := some "/fonts/own.ttf" }
        fontPath := some "/fonts/block.ttf" } }]

theorem supplied_of_compile_twiceSubtitled :
    ∃ t' plan, twiceSubtitled.compile ⟨"cache", "out.mp4"⟩ = .ok (t', plan) ∧
      twiceSubtitled.assets = ["/fonts/block.ttf"] ∧
      twiceSubtitled.overlooked = ["/subs/own.srt", "/fonts/own.ttf"] ∧
      twiceSubtitled.Supplied t' plan := by
  have hok : (twiceSubtitled.compile ⟨"cache", "out.mp4"⟩).toOption.isSome = true := by
    decide +kernel
  rcases hcompile : twiceSubtitled.compile ⟨"cache", "out.mp4"⟩ with e | ⟨t', plan⟩ <;>
    rw [hcompile] at hok
  · cases hok
  · exact ⟨t', plan, rfl, by decide +kernel, by decide +kernel, supplied_of_compile hcompile⟩

/-- The program burns in a file and searches for a font that nobody supplies. -/
theorem not_covered_twiceSubtitled :
    ∃ t' plan, twiceSubtitled.compile ⟨"cache", "out.mp4"⟩ = .ok (t', plan) ∧
      ¬ ∀ file ∈ plan.references t'.works, file ∈ plan.products ∨
        file ∈ twiceSubtitled.outputs ∨ file ∈ twiceSubtitled.assets := by
  have hmissing : (twiceSubtitled.compile ⟨"cache", "out.mp4"⟩).toOption.map (fun r =>
      decide ("/subs/own.srt" ∈ r.2.references r.1.works ∧ "/subs/own.srt" ∉ r.2.products)) =
      some true := by
    decide +kernel
  rcases hcompile : twiceSubtitled.compile ⟨"cache", "out.mp4"⟩ with e | ⟨t', plan⟩ <;>
    rw [hcompile] at hmissing
  · cases hmissing
  · obtain ⟨hneeded, hnone⟩ := of_decide_eq_true (Option.some.inj hmissing)
    refine ⟨t', plan, rfl, fun hcovered => ?_⟩
    rcases hcovered _ hneeded with hproduct | houtput | hasset
    · exact hnone hproduct
    · revert houtput
      decide +kernel
    · revert hasset
      decide +kernel

end Timeline

end Montage
