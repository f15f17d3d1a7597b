import Montage.Proofs.Timeline.Nesting
import Montage.Render.Resolve
import Montage.Render.World

/-!
# What resolving yields

Resolving asks one question after another: first for each file that the timeline reads, then for the
size of each picture that has none.  A `Survey` is what comes of such questions: each has a fault
or has none, and the first fault ends the script (`Script.Surveys`).  So a resolved timeline is the
old one with the files in their places and the sizes measured, and the error is that of the first
source that is not there, or else of the first picture that cannot be measured
(`Resolve.timeline_outcome`).
-/

namespace Montage

/-! ## Questions one after another -/

/-- Questions that are put to the surroundings: the fault that a question ends with, if it has one,
and what is seen of it from outside. -/
structure Survey where
  fault? : String → Option RenderError
  events : String → List Event

/-- The surroundings once some events have been seen. -/
def World.seen (w : World) (events : List Event) : World := { w with log := w.log ++ events }

theorem World.seen_nil (w : World) : w.seen [] = w := by
  unfold seen
  rw [List.append_nil]

namespace Survey

variable (i : Survey) {w : World}

/-- Asks the questions in order, up to the first that has a fault. -/
def run (w : World) : List String → Option RenderError × World
  | [] => (none, w)
  | q :: rest =>
    match i.fault? q with
    | some e => (some e, w.seen (i.events q))
    | none => run (w.seen (i.events q)) rest

theorem files_run (w : World) (qs : List String) : (i.run w qs).2.files = w.files := by
  induction qs generalizing w with
  | nil => rfl
  | cons q rest ih =>
    unfold run
    split
    · rfl
    · exact ih _

theorem run_append_of_fault {e : RenderError} {w' : World} {qs : List String}
    (h : i.run w qs = (some e, w')) (rs : List String) : i.run w (qs ++ rs) = (some e, w') := by
  induction qs generalizing w with
  | nil => cases h
  | cons q rest ih =>
    rw [List.cons_append]
    unfold run at h ⊢
    split
    · next hfault =>
      rw [hfault] at h
      exact h
    · next hfault =>
      rw [hfault] at h
      exact ih h

theorem run_append {w' : World} {qs : List String} (h : i.run w qs = (none, w'))
    (rs : List String) : i.run w (qs ++ rs) = i.run w' rs := by
  induction qs generalizing w with
  | nil =>
    cases h
    rfl
  | cons q rest ih =>
    rw [List.cons_append]
    unfold run at h
    rw [run]
    split
    · next hfault =>
      rw [hfault] at h
      cases h
    · next hfault =>
      rw [hfault] at h
      exact ih h

theorem run_singleton (w : World) (q : String) :
    i.run w [q] = (i.fault? q, w.seen (i.events q)) := by
  unfold run
  split
  · next hfault => rw [hfault]
  · next hfault =>
    rw [hfault]
    rfl

/-- Without a fault all questions are asked. -/
theorem run_of_forall {qs : List String} (h : ∀ q ∈ qs, i.fault? q = none) (w : World) :
    i.run w qs = (none, w.seen (qs.flatMap i.events)) := by
  induction qs generalizing w with
  | nil => simp [run, World.seen]
  | cons q rest ih =>
    rw [List.forall_mem_cons] at h
    rw [run, h.1]
    show i.run (w.seen (i.events q)) rest = _
    rw [ih h.2, World.seen, World.seen, World.seen, List.flatMap_cons, List.append_assoc]

theorem run_of_first {before after : List String} {q : String} {e : RenderError}
    (hbefore : ∀ p ∈ before, i.fault? p = none) (hq : i.fault? q = some e) (w : World) :
    i.run w (before ++ q :: after) = (some e, w.seen ((before ++ [q]).flatMap i.events)) := by
  rw [i.run_append (i.run_of_forall hbefore w), run, hq]
  simp [World.seen]

end Survey

namespace Script

variable {α β : Type} {tools : Tools} {files : FileTree} {i : Survey} {qs rs : List String}

/-- Where the files are as given, the script asks the questions one after another, and yields the
value if none of them has a fault. -/
def Surveys (tools : Tools) (files : FileTree) (i : Survey) (s : Script α) (qs : List String)
    (x : α) : Prop :=
  ∀ w : World, w.files = files → ∀ next : α → Task, (s next).advance tools w =
    match i.run w qs with
    | (some e, w') => (.done (.error e), w')
    | (none, w') => (next x).advance tools w'

theorem surveys_pure (x : α) : Surveys tools files i (pure x) [] x := fun _ _ _ => rfl

theorem Surveys.bind {s : Script α} {k : α → Script β} {x : α} {y : β}
    (h : Surveys tools files i s qs x) (hk : Surveys tools files i (k x) rs y) :
    Surveys tools files i (s >>= k) (qs ++ rs) y := by
  intro w hw next
  have hfirst := h w hw fun a => k a next
  have hfiles := i.files_run w qs
  -- Only if the first script has no fault are the questions of the second one asked, and the files
  -- are still the same then.
  rcases hrun : i.run w qs with ⟨_ | e, w'⟩
  · rw [hrun] at hfirst hfiles
    rw [i.run_append hrun]
    exact hfirst.trans (hk w' (hfiles.trans hw) next)
  · rw [hrun] at hfirst
    rw [i.run_append_of_fault hrun]
    exact hfirst

theorem Surveys.map {s : Script α} {x : α} (h : Surveys tools files i s qs x) (f : α → β) :
    Surveys tools files i (s >>= fun a => pure (f a)) qs (f x) := by
  have hbind := h.bind (k := fun a => pure (f a)) (surveys_pure (f x))
  rwa [List.append_nil] at hbind

theorem advance_ask {a : Action} (ha : a ≠ .await) (k : a.Reply → Script α) (next : α → Task)
    (w : World) : ((ask a >>= k) next).advance tools w =
      (k (w.perform tools a).1 next).advance tools (w.perform tools a).2 := by
  show Task.advance tools (.act a fun reply => k reply next) w = _
  rw [Task.advance, if_neg fun h => ha h.1]

theorem advance_look (path : String) (k : Except Trouble Bool → Script α) (next : α → Task)
    (w : World) : ((ask (.look path) >>= k) next).advance tools w =
      (k (w.files.holds path) next).advance tools w := advance_ask (a := .look path) nofun k next w

section

variable {f : α → Script β} {questions : α → List String} {g : α → β}

theorem surveys_mapOption {o : Option α}
    (h : ∀ x ∈ o, Surveys tools files i (f x) (questions x) (g x)) :
    Surveys tools files i (mapOption f o) ((o.map questions).getD []) (o.map g) := by
  cases o with
  | none => exact surveys_pure none
  | some x => exact (h x rfl).map some

theorem surveys_mapList {xs : List α}
    (h : ∀ x ∈ xs, Surveys tools files i (f x) (questions x) (g x)) :
    Surveys tools files i (mapList f xs) (xs.flatMap questions) (xs.map g) := by
  induction xs with
  | nil => exact surveys_pure []
  | cons x rest ih =>
    rw [List.forall_mem_cons] at h
    exact h.1.bind ((ih h.2).map (g x :: ·))

end

end Script

/-! ## Files in their places -/

section

variable (place : String → String) {τ : Type}

def AudioTrack.located (t : AudioTrack) : AudioTrack := { t with path := place t.path }

def Background.located : Background → Background
  | .image path => .image (place path)
  | .color name => .color name

def SubtitleBlock.located (b : SubtitleBlock) : SubtitleBlock :=
  { b with audio := b.audio.map place, fontPath := b.fontPath.map place }

def TextStyle.located (s : TextStyle) : TextStyle := { s with fontFile := s.fontFile.map place }

def NodeKind.located : NodeKind τ → NodeKind τ
  | .image path => .image (place path)
  | .video path cutFrom cutTo muted => .video (place path) cutFrom cutTo muted
  | .text words style => .text words (style.located place)
  | .subtitle path style vertical => .subtitle path (style.located place) vertical
  | .audio track => .audio (track.located place)
  | .composition timeline output => .composition timeline output

def Node.located (n : Node τ) : Node τ := { n with kind := n.kind.located place }

def Scene.located (s : Scene τ) : Scene τ :=
  { s with
    background := s.background.map (Background.located place)
    audios := s.audios.map (AudioTrack.located place)
    subtitle := s.subtitle.map (SubtitleBlock.located place)
    nodes := s.nodes.map (Node.located place) }

/-- The timeline with each file it reads in its place; nested timelines stay as they are. -/
def Timeline.located (t : Timeline) : Timeline :=
  { t with
    audios := t.audios.map (AudioTrack.located place)
    scenes := t.scenes.map (Scene.located place) }

end

section

open Script

variable {tools : Tools} {files : FileTree} {i : Survey} {f : String → Script String}
  {place : String → String} {τ : Type}

theorem surveys_mapOption_path {o : Option String}
    (h : ∀ path ∈ o.toList, Surveys tools files i (f path) [path] (place path)) :
    Surveys tools files i (mapOption f o) o.toList (o.map place) := by
  have hmap : Surveys tools files i (mapOption f o) ((o.map fun path => [path]).getD [])
      (o.map place) := surveys_mapOption fun path hpath => h path (Option.mem_toList.2 hpath)
  cases o <;> exact hmap

theorem AudioTrack.surveys_mapAssets {t : AudioTrack}
    (h : Surveys tools files i (f t.path) [t.path] (place t.path)) :
    Surveys tools files i (t.mapAssets f) [t.path] (t.located place) :=
  h.map fun path => { t with path := path }

theorem AudioTrack.surveys_mapList {ts : List AudioTrack}
    (h : ∀ path ∈ ts.map (·.path), Surveys tools files i (f path) [path] (place path)) :
    Surveys tools files i (mapList (AudioTrack.mapAssets f) ts) (ts.map (·.path))
      (ts.map (AudioTrack.located place)) := by
  have hpaths : ts.map (·.path) = ts.flatMap fun t => [t.path] := List.map_eq_flatMap
  rw [hpaths]
  refine Script.surveys_mapList fun t ht => ?_
  exact surveys_mapAssets (h t.path (List.mem_map_of_mem ht))

theorem Background.surveys_mapAssets {b : Background}
    (h : ∀ path ∈ b.assets, Surveys tools files i (f path) [path] (place path)) :
    Surveys tools files i (b.mapAssets f) b.assets (b.located place) := by
  cases b with
  | image path => exact (h path (List.mem_singleton_self _)).map Background.image
  | color name => exact surveys_pure _

theorem SubtitleBlock.surveys_mapAssets {b : SubtitleBlock}
    (h : ∀ path ∈ b.assets, Surveys tools files i (f path) [path] (place path)) :
    Surveys tools files i (b.mapAssets f) b.assets (b.located place) := by
  unfold SubtitleBlock.assets at h
  rw [List.forall_mem_append] at h
  exact (surveys_mapOption_path h.1).bind ((surveys_mapOption_path h.2).map fun fontPath =>
    { b with audio := b.audio.map place, fontPath := fontPath })

theorem TextStyle.surveys_mapAssets {s : TextStyle}
    (h : ∀ path ∈ s.fontFile.toList, Surveys tools files i (f path) [path] (place path)) :
    Surveys tools files i (s.mapAssets f) s.fontFile.toList (s.located place) :=
  (surveys_mapOption_path h).map fun fontFile => { s with fontFile := fontFile }

theorem NodeKind.surveys_mapAssets {k : NodeKind τ}
    (h : ∀ path ∈ k.assets, Surveys tools files i (f path) [path] (place path)) :
    Surveys tools files i (k.mapAssets f) k.assets (k.located place) := by
  cases k with
  | image path => exact (h path (List.mem_singleton_self _)).map NodeKind.image
  | video path cutFrom cutTo muted =>
    exact (h path (List.mem_singleton_self _)).map (NodeKind.video · cutFrom cutTo muted)
  | text words style => exact (TextStyle.surveys_mapAssets h).map (NodeKind.text words)
  | subtitle path style vertical =>
    exact (TextStyle.surveys_mapAssets h).map (NodeKind.subtitle path · vertical)
  | audio track =>
    exact (AudioTrack.surveys_mapAssets (h _ (List.mem_singleton_self _))).map NodeKind.audio
  | composition timeline output => exact surveys_pure _

theorem Node.surveys_mapAssets {n : Node τ}
    (h : ∀ path ∈ n.kind.assets, Surveys tools files i (f path) [path] (place path)) :
    Surveys tools files i (n.mapAssets f) n.kind.assets (n.located place) :=
  (NodeKind.surveys_mapAssets h).map fun kind => { n with kind := kind }

theorem Scene.surveys_mapAssets {s : Scene τ}
    (h : ∀ path ∈ s.assets, Surveys tools files i (f path) [path] (place path)) :
    Surveys tools files i (s.mapAssets f) s.assets (s.located place) := by
  unfold Scene.assets at h ⊢
  simp only [List.forall_mem_append] at h
  obtain ⟨⟨⟨hbackground, haudios⟩, hsubtitle⟩, hnodes⟩ := h
  have hback : Surveys tools files i (mapOption (Background.mapAssets f) s.background)
      ((s.background.map Background.assets).getD []) _ :=
    surveys_mapOption fun b hb => Background.surveys_mapAssets fun path hpath =>
      hbackground path (by rwa [Option.mem_def.1 hb])
  have hblock : Surveys tools files i (mapOption (SubtitleBlock.mapAssets f) s.subtitle)
      ((s.subtitle.map SubtitleBlock.assets).getD []) _ :=
    surveys_mapOption fun b hb => SubtitleBlock.surveys_mapAssets fun path hpath =>
      hsubtitle path (by rwa [Option.mem_def.1 hb])
  have hall : Surveys tools files i (mapList (Node.mapAssets f) s.nodes)
      (s.nodes.flatMap (·.kind.assets)) _ :=
    surveys_mapList fun n hn => Node.surveys_mapAssets fun path hpath =>
      hnodes path (List.mem_flatMap.2 ⟨n, hn, hpath⟩)
  rw [List.append_assoc, List.append_assoc]
  exact hback.bind ((AudioTrack.surveys_mapList haudios).bind (hblock.bind (hall.map _)))

/-- The files of a timeline are looked up in order. -/
theorem Timeline.surveys_mapAssets {t : Timeline}
    (h : ∀ path ∈ t.assets, Surveys tools files i (f path) [path] (place path)) :
    Surveys tools files i (t.mapAssets f) t.assets (t.located place) := by
  unfold Timeline.assets at h ⊢
  rw [List.forall_mem_append] at h
  have hscenes : Surveys tools files i (mapList (Scene.mapAssets f) t.scenes)
      (t.scenes.flatMap Scene.assets) _ :=
    surveys_mapList fun s hs => Scene.surveys_mapAssets fun path hpath =>
      h.2 path (List.mem_flatMap.2 ⟨s, hs, hpath⟩)
  exact (AudioTrack.surveys_mapList h.1).bind (hscenes.map _)

end

/-! ## Sizes measured -/

section

variable {τ : Type} (probe : String → Except RenderError MediaInfo)

/-- The picture of a node that has no size yet. -/
def Node.unsized? (n : Node τ) : Option String :=
  match n.kind with
  | .image path => if 0 < n.frame.w ∧ 0 < n.frame.h then none else some path
  | _ => none

/-- The pictures without a size, in the order of the scenes and their nodes. -/
def Timeline.unsized (t : Timeline) : List String :=
  t.scenes.flatMap fun s => s.nodes.filterMap Node.unsized?

/-- The node with the size that its picture is measured with, if it has none; the place that its
frame names is then that of the centre. -/
def Node.measured (n : Node τ) : Node τ :=
  match n.unsized?.map probe with
  | some (.ok info) =>
    let w := info.width.toFloat
    let h := info.height.toFloat
    { n with frame := ⟨n.frame.x - w / 2, n.frame.y - h / 2, w, h⟩ }
  | _ => n

def Scene.measured (s : Scene τ) : Scene τ := { s with nodes := s.nodes.map (Node.measured probe) }

/-- The timeline with the sizes of its pictures. -/
def Timeline.measured (t : Timeline) : Timeline :=
  { t with scenes := t.scenes.map (Scene.measured probe) }

theorem Node.kind_measured (n : Node τ) : (n.measured probe).kind = n.kind := by
  unfold measured
  split <;> rfl

theorem Node.unsized?_of_kind {n : Node τ} {path : String} (h : n.kind = .image path) :
    n.unsized? = if 0 < n.frame.w ∧ 0 < n.frame.h then none else some path := by
  simp only [unsized?, h]

/-- Nothing but the frame of a node changes when it is measured. -/
theorem Node.measured_eq (n : Node τ) :
    n.measured probe = { n with frame := (n.measured probe).frame } := by
  unfold measured
  split <;> rfl

theorem Node.frame_measured_of_forall {n : Node τ}
    (h : ∀ path, n.kind = .image path → 0 < n.frame.w ∧ 0 < n.frame.h) :
    (n.measured probe).frame = n.frame := by
  have hsized : n.unsized? = none := by
    unfold unsized?
    split
    · next path hkind => rw [if_pos (h path hkind)]
    · rfl
  rw [measured, hsized, Option.map_none]

theorem Node.frame_measured {n : Node τ} {path : String} {info : MediaInfo}
    (hkind : n.kind = .image path) (hsize : ¬ (0 < n.frame.w ∧ 0 < n.frame.h))
    (hprobe : probe path = .ok info) :
    (n.measured probe).frame = ⟨n.frame.x - info.width.toFloat / 2,
      n.frame.y - info.height.toFloat / 2, info.width.toFloat, info.height.toFloat⟩ := by
  rw [measured, unsized?_of_kind hkind, if_neg hsize, Option.map_some, hprobe]

theorem Scene.assets_measured (s : Scene τ) : (s.measured probe).assets = s.assets := by
  simp [assets, measured, List.flatMap_map, Node.kind_measured]

theorem Timeline.assets_measured (t : Timeline) : (t.measured probe).assets = t.assets := by
  simp [assets, measured, List.flatMap_map, Scene.assets_measured]

theorem NodeKind.assets_located (place : String → String) (k : NodeKind τ) :
    (k.located place).assets = k.assets.map place := by
  cases k with
  | text words style => exact Option.toList_map
  | subtitle path style vertical => exact Option.toList_map
  | _ => rfl

theorem Scene.assets_located (place : String → String) (s : Scene τ) :
    (s.located place).assets = s.assets.map place := by
  have hbackground (b : Background) : (b.located place).assets = b.assets.map place := by
    cases b <;> rfl
  have hblock (b : SubtitleBlock) : (b.located place).assets = b.assets.map place := by
    simp [SubtitleBlock.assets, SubtitleBlock.located, Option.toList_map]
  unfold assets located
  cases s.background <;> cases s.subtitle <;>
    simp [hbackground, hblock, List.flatMap_map, List.map_flatMap, Node.located,
      NodeKind.assets_located, AudioTrack.located]

theorem Timeline.assets_located (place : String → String) (t : Timeline) :
    (t.located place).assets = t.assets.map place := by
  simp [assets, located, List.flatMap_map, List.map_flatMap, Scene.assets_located,
    AudioTrack.located]

/-- What keeps the nested timelines of each scene keeps all of them, in their places. -/
theorem compositions_map_eq {g : Scene τ → Scene τ} (scenes : List (Scene τ))
    (h : ∀ s, (g s).nodes.map (·.kind.nested?) = s.nodes.map (·.kind.nested?)) :
    compositions (scenes.map g) = compositions scenes := by
  have hscene (s : Scene τ) (i : Nat) : (s.nodes.zipIdx.filterMap fun x =>
      x.1.kind.nested?.map fun unit => (⟨i, x.2, unit⟩ : Child τ)) =
      (s.nodes.map (·.kind.nested?)).zipIdx.filterMap fun x =>
        x.1.map fun unit => ⟨i, x.2, unit⟩ := by
    rw [List.zipIdx_map, List.filterMap_map]
    rfl
  unfold compositions
  rw [List.zipIdx_map, List.flatMap_map]
  refine List.flatMap_congr fun x _ => (hscene (g x.1) x.2).trans ?_
  rw [h]
  exact (hscene x.1 x.2).symm

theorem Timeline.compositions_measured (t : Timeline) :
    compositions (t.measured probe).scenes = compositions t.scenes := by
  refine compositions_map_eq t.scenes fun s => ?_
  simp [Scene.measured, Node.kind_measured]

theorem Timeline.compositions_located (place : String → String) (t : Timeline) :
    compositions (t.located place).scenes = compositions t.scenes := by
  have hnested (k : NodeKind Timeline) : (k.located place).nested? = k.nested? := by
    cases k <;> rfl
  refine compositions_map_eq t.scenes fun s => ?_
  simp [Scene.located, Node.located, hnested]

theorem Node.unsized?_located (place : String → String) (n : Node τ) :
    (n.located place).unsized? = n.unsized?.map place := by
  unfold unsized? located
  cases n.kind with
  | image path =>
    show (if 0 < n.frame.w ∧ 0 < n.frame.h then none else some (place path)) = _
    by_cases hsized : 0 < n.frame.w ∧ 0 < n.frame.h <;> simp [hsized]
  | _ => rfl

theorem Timeline.unsized_located (place : String → String) (t : Timeline) :
    (t.located place).unsized = t.unsized.map place := by
  simp [unsized, located, Scene.located, List.flatMap_map, List.map_flatMap, List.filterMap_map,
    List.map_filterMap, Node.unsized?_located]

end

namespace Resolve

open Script

/-- The place of a source: where a web address is kept, and a local path itself. -/
def place (cacheDir source : String) : String :=
  if Asset.isRemote source then Asset.downloadPath cacheDir source else source

theorem place_of_remote {cacheDir source : String} (h : Asset.isRemote source = true) :
    place cacheDir source = Asset.downloadPath cacheDir source := if_pos h

theorem place_of_local {cacheDir source : String} (h : ¬ Asset.isRemote source = true) :
    place cacheDir source = source := if_neg h

/-- Something stands at the place of the source. -/
def Found (files : FileTree) (cacheDir source : String) : Prop :=
  files.holds (place cacheDir source) = .ok true

instance (files : FileTree) (cacheDir source : String) : Decidable (Found files cacheDir source) :=
  inferInstanceAs (Decidable (_ = _))

/-- Why a source that is not found cannot be had. -/
inductive Missing (tools : Tools) (files : FileTree) (source : String) : String → Prop
  | absent (hlocal : Asset.isRemote source = false) (h : files.holds source = .ok false) :
    Missing tools files source absent
  | trouble (hlocal : Asset.isRemote source = false) {t : Trouble}
    (h : files.holds source = .error t) : Missing tools files source t.message
  | fetch (hremote : Asset.isRemote source = true) {reason : String}
    (h : tools.fetch source = .error reason) : Missing tools files source reason

/-- Looking files up; nothing of it is seen from outside. -/
def lookups (tools : Tools) (files : FileTree) (cacheDir : String) : Survey where
  fault? source :=
    match files.holds (place cacheDir source) with
    | .ok true => none
    | reply =>
      if Asset.isRemote source then
        match tools.fetch source with
        | .error reason => some (.missingAsset source reason)
        | .ok _ => none
      else
        match reply with
        | .error t => some (.missingAsset source t.message)
        | .ok _ => some (.missingAsset source absent)
  events _ := []

/-- Measuring pictures. -/
def probes (tools : Tools) : Survey where
  fault? path :=
    match tools.probe path with
    | .error e => some e
    | .ok _ => none
  events path := [.probed path]

variable {τ : Type} {tools : Tools} {files : FileTree} {cacheDir : String}

theorem fault?_lookups_of_found {source : String} (h : Found files cacheDir source) :
    (lookups tools files cacheDir).fault? source = none := by
  unfold Found at h
  simp only [lookups, h]

/-- A source that is not found is missing, if it is not fetched either. -/
theorem exists_missing {source : String} (h : ¬ Found files cacheDir source)
    (hfetch : Asset.isRemote source → ∃ reason, tools.fetch source = .error reason) :
    ∃ reason, Missing tools files source reason ∧
      (lookups tools files cacheDir).fault? source = some (.missingAsset source reason) := by
  unfold Found at h
  by_cases hremote : Asset.isRemote source = true
  · obtain ⟨reason, hreason⟩ := hfetch hremote
    refine ⟨reason, .fetch hremote hreason, ?_⟩
    simp only [lookups, hremote, if_true, hreason]
  · have hlocal : Asset.isRemote source = false := Bool.eq_false_iff.2 hremote
    rw [place_of_local hremote] at h
    cases hholds : files.holds source with
    | error t =>
      refine ⟨t.message, .trouble hlocal hholds, ?_⟩
      simp only [lookups, place_of_local hremote, hholds, if_neg hremote]
    | ok there =>
      cases there with
      | false =>
        refine ⟨absent, .absent hlocal hholds, ?_⟩
        simp only [lookups, place_of_local hremote, hholds, if_neg hremote]
      | true => exact absurd hholds h

theorem advance_source_of_found {w : World} {source : String} (h : Found w.files cacheDir source)
    (next : String → Task) : (Resolve.source cacheDir source next).advance tools w =
      (next (place cacheDir source)).advance tools w := by
  unfold Found at h
  unfold Resolve.source
  by_cases hremote : Asset.isRemote source = true
  · rw [place_of_remote hremote] at h ⊢
    rw [if_pos hremote, advance_look, h]
    rfl
  · rw [place_of_local hremote] at h ⊢
    rw [if_neg hremote, advance_look, h]
    rfl

/-- A web address that is not kept is not fetched either. -/
theorem advance_download {url reason : String} (h : tools.fetch url = .error reason) (w : World)
    (next : String → Task) : (download cacheDir url next).advance tools w =
      (.done (.error (.missingAsset url reason)), w) := by
  unfold download
  rw [advance_ask (a := .fetch url) nofun]
  simp only [World.perform, h]
  rw [fail, Task.advance]

theorem advance_source_of_missing {w : World} {source reason : String}
    (h : ¬ Found w.files cacheDir source) (hmissing : Missing tools w.files source reason)
    (next : String → Task) : (Resolve.source cacheDir source next).advance tools w =
      (.done (.error (.missingAsset source reason)), w) := by
  unfold Resolve.source
  cases hmissing with
  | absent hlocal hholds =>
    rw [if_neg (Bool.eq_false_iff.1 hlocal), advance_look, hholds]
    rfl
  | trouble hlocal hholds =>
    rw [if_neg (Bool.eq_false_iff.1 hlocal), advance_look, hholds]
    rfl
  | fetch hremote hreason =>
    rw [Found, place_of_remote hremote] at h
    rw [if_pos hremote, advance_look]
    cases hholds : w.files.holds (Asset.downloadPath cacheDir source) with
    | error t => exact advance_download hreason w next
    | ok there =>
      cases there with
      | false => exact advance_download hreason w next
      | true => exact absurd hholds h

/-- Looking a source up yields its place; only a web address that is not kept would be fetched. -/
theorem surveys_source {source : String} (hfetch : ¬ Found files cacheDir source →
      Asset.isRemote source → ∃ reason, tools.fetch source = .error reason) :
    Surveys tools files (lookups tools files cacheDir) (Resolve.source cacheDir source) [source]
      (place cacheDir source) := by
  rintro w rfl next
  have hrun : (lookups tools w.files cacheDir).run w [source] =
      ((lookups tools w.files cacheDir).fault? source, w) := by
    rw [Survey.run_singleton]
    show (_, w.seen []) = _
    rw [World.seen_nil]
  rw [hrun]
  by_cases hfound : Found w.files cacheDir source
  · rw [fault?_lookups_of_found hfound]
    exact advance_source_of_found hfound next
  · obtain ⟨reason, hmissing, hfault⟩ := exists_missing hfound (hfetch hfound)
    rw [hfault]
    exact advance_source_of_missing hfound hmissing next

/-! ## Pictures -/

theorem measure_eq (n : Node τ) : measure n =
    match n.unsized? with
    | some path => ask (.probe path) >>= fun reply => check reply >>= fun info =>
        pure { n with
          frame := ⟨n.frame.x - info.width.toFloat / 2, n.frame.y - info.height.toFloat / 2,
            info.width.toFloat, info.height.toFloat⟩ }
    | none => pure n := by
  unfold measure Node.unsized?
  cases hkind : n.kind with
  | image path =>
    dsimp only
    by_cases hsized : n.frame.isSized = true
    · rw [if_pos hsized, if_pos (Rect.isSized_iff.1 hsized)]
    · rw [if_neg hsized, if_neg (mt Rect.isSized_iff.2 hsized)]
      simp only [Node.settle, Box.settle, if_neg hsized, hkind]
      rfl
  | _ => rfl

theorem surveys_measure (n : Node τ) :
    Surveys tools files (probes tools) (measure n) n.unsized?.toList (n.measured tools.probe) := by
  rw [measure_eq]
  unfold Node.measured
  cases n.unsized? with
  | none => exact surveys_pure n
  | some path =>
    intro w _ next
    rw [Option.toList_some, Survey.run_singleton]
    show ((ask (.probe path) >>= _) next).advance tools w = _
    rw [advance_ask (a := .probe path) nofun]
    simp only [World.perform, probes, Option.map_some]
    cases tools.probe path with
    | error e => rfl
    | ok info => rfl

theorem surveys_measureScene (s : Scene τ) :
    Surveys tools files (probes tools) (measureScene s) (s.nodes.filterMap Node.unsized?)
      (s.measured tools.probe) := by
  have hnodes : Surveys tools files (probes tools) (mapList measure s.nodes)
      (s.nodes.flatMap fun n => n.unsized?.toList) _ :=
    surveys_mapList fun n _ => surveys_measure n
  rw [← List.filterMap_eq_flatMap_toList] at hnodes
  exact hnodes.map _

/-- The sizes are asked for in order. -/
theorem surveys_measured (t : Timeline) :
    Surveys tools files (probes tools) (mapList measureScene t.scenes) t.unsized
      (t.measured tools.probe).scenes :=
  surveys_mapList fun s _ => surveys_measureScene s

/-! ## Resolving a timeline -/

theorem exists_first {α : Type} {p : α → Prop} {xs : List α} (h : ¬ ∀ x ∈ xs, p x) :
    ∃ before x after, xs = before ++ x :: after ∧ (∀ y ∈ before, p y) ∧ ¬ p x := by
  induction xs with
  | nil => exact absurd (List.forall_mem_nil p) h
  | cons x rest ih =>
    by_cases hx : p x
    · obtain ⟨before, y, after, rfl, hbefore, hy⟩ := ih fun hrest =>
        h (List.forall_mem_cons.2 ⟨hx, hrest⟩)
      exact ⟨x :: before, y, after, rfl, List.forall_mem_cons.2 ⟨hx, hbefore⟩, hy⟩
    · exact ⟨[], x, rest, rfl, List.forall_mem_nil p, hx⟩

/-- The picture can be measured. -/
def Measurable (tools : Tools) (path : String) : Prop := ∃ info, tools.probe path = .ok info

theorem fault?_probes_of_measurable {path : String} (h : Measurable tools path) :
    (probes tools).fault? path = none := by
  obtain ⟨info, hinfo⟩ := h
  simp only [probes, hinfo]

theorem exists_error_of_not_measurable {path : String} (h : ¬ Measurable tools path) :
    ∃ e, tools.probe path = .error e ∧ (probes tools).fault? path = some e := by
  cases hprobe : tools.probe path with
  | error e => exact ⟨e, rfl, by simp only [probes, hprobe]⟩
  | ok info => exact absurd ⟨info, hprobe⟩ h

theorem seen_lookups (w : World) (sources : List String) :
    w.seen (sources.flatMap (lookups tools files cacheDir).events) = w := by
  have hsilent : sources.flatMap (lookups tools files cacheDir).events = [] :=
    List.flatMap_eq_nil_iff.2 fun _ _ => rfl
  rw [hsilent, World.seen_nil]

theorem run_lookups_of_found {sources : List String}
    (h : ∀ source ∈ sources, Found files cacheDir source) (w : World) :
    (lookups tools files cacheDir).run w sources = (none, w) := by
  rw [(lookups tools files cacheDir).run_of_forall fun source hsource =>
    fault?_lookups_of_found (h source hsource), seen_lookups]

theorem flatMap_probes (pictures : List String) :
    pictures.flatMap (probes tools).events = pictures.map .probed := List.map_eq_flatMap.symm

/-- The files of the timeline are looked up, and then the sizes are asked for. -/
theorem advance_timeline {w : World} {t : Timeline}
    (hcached : ∀ url ∈ t.assets, ¬ Found w.files cacheDir url → Asset.isRemote url →
      ∃ reason, tools.fetch url = .error reason) (next : Timeline → Task) :
    (timeline cacheDir t next).advance tools w =
      match (lookups tools w.files cacheDir).run w t.assets with
      | (some e, w') => (.done (.error e), w')
      | (none, w') =>
        (mapList measureScene (t.located (place cacheDir)).scenes fun scenes =>
          next { t.located (place cacheDir) with scenes }).advance tools w' := by
  have hassets : Surveys tools w.files (lookups tools w.files cacheDir)
      (t.mapAssets (Resolve.source cacheDir)) t.assets (t.located (place cacheDir)) :=
    Timeline.surveys_mapAssets fun source hsource => surveys_source (hcached source hsource)
  exact hassets w rfl fun t' => mapList measureScene t'.scenes fun scenes => next { t' with scenes }

/-- If all files of a timeline are there, it comes down to asking for the sizes. -/
theorem advance_timeline_of_found {w : World} {t : Timeline}
    (h : ∀ source ∈ t.assets, Found w.files cacheDir source) (next : Timeline → Task) :
    (timeline cacheDir t next).advance tools w =
      match (probes tools).run w (t.unsized.map (place cacheDir)) with
      | (some e, w') => (.done (.error e), w')
      | (none, w') =>
        (next ((t.located (place cacheDir)).measured tools.probe)).advance tools w' := by
  rw [advance_timeline fun source hsource hmissing => absurd (h source hsource) hmissing,
    run_lookups_of_found h, ← Timeline.unsized_located]
  exact surveys_measured (t.located (place cacheDir)) w rfl _

/-! ## What changes -/

/-- What resolving makes of a node: its files are in their places, and a picture without a positive
size has the measured one, around the centre that its frame names. -/
structure ResolvesNode (tools : Tools) (cacheDir : String) (n n' : Node Timeline) : Prop where
  rest_eq : n' = { n with kind := n.kind.located (place cacheDir), frame := n'.frame }
  measured : ∀ path info, n.kind = .image path → ¬ (0 < n.frame.w ∧ 0 < n.frame.h) →
    tools.probe (place cacheDir path) = .ok info →
    n'.frame.x = n.frame.x - info.width.toFloat / 2 ∧
      n'.frame.y = n.frame.y - info.height.toFloat / 2 ∧
      n'.frame.w = info.width.toFloat ∧ n'.frame.h = info.height.toFloat
  kept : (∀ path, n.kind = .image path → 0 < n.frame.w ∧ 0 < n.frame.h) → n'.frame = n.frame

/-- What resolving makes of a scene. -/
structure ResolvesScene (tools : Tools) (cacheDir : String) (s s' : Scene Timeline) : Prop where
  rest_eq : s' = { s.located (place cacheDir) with nodes := s'.nodes }
  nodes : List.Forall₂ (ResolvesNode tools cacheDir) s.nodes s'.nodes

/-- What resolving makes of a timeline.  The nested timelines are the same as before. -/
structure Resolves (tools : Tools) (cacheDir : String) (t t' : Timeline) : Prop where
  rest_eq : t' = { t.located (place cacheDir) with scenes := t'.scenes }
  scenes : List.Forall₂ (ResolvesScene tools cacheDir) t.scenes t'.scenes
  assets_eq : t'.assets = t.assets.map (place cacheDir)
  compositions_eq : compositions t'.scenes = compositions t.scenes

theorem resolvesNode (tools : Tools) (cacheDir : String) (n : Node Timeline) :
    ResolvesNode tools cacheDir n ((n.located (place cacheDir)).measured tools.probe) where
  rest_eq := Node.measured_eq tools.probe _
  measured path info hkind hsize hprobe := by
    have hlocated : (n.located (place cacheDir)).kind = .image (place cacheDir path) := by
      rw [Node.located, hkind]
      rfl
    rw [Node.frame_measured tools.probe hlocated hsize hprobe]
    exact ⟨rfl, rfl, rfl, rfl⟩
  kept hsized := by
    refine Node.frame_measured_of_forall tools.probe fun path hkind => ?_
    rw [Node.located] at hkind
    cases hk : n.kind with
    | image path' => exact hsized path' hk
    | _ => rw [hk] at hkind; cases hkind

theorem resolvesScene (tools : Tools) (cacheDir : String) (s : Scene Timeline) :
    ResolvesScene tools cacheDir s ((s.located (place cacheDir)).measured tools.probe) where
  rest_eq := rfl
  nodes := by
    rw [Scene.measured, Scene.located, List.map_map, List.forall₂_map_right_iff, List.forall₂_same]
    exact fun n _ => resolvesNode tools cacheDir n

theorem resolves (tools : Tools) (cacheDir : String) (t : Timeline) :
    Resolves tools cacheDir t ((t.located (place cacheDir)).measured tools.probe) where
  rest_eq := rfl
  scenes := by
    rw [Timeline.measured, Timeline.located, List.map_map, List.forall₂_map_right_iff,
      List.forall₂_same]
    exact fun s _ => resolvesScene tools cacheDir s
  assets_eq := by rw [Timeline.assets_measured, Timeline.assets_located]
  compositions_eq := by rw [Timeline.compositions_measured, Timeline.compositions_located]

/-- What comes of resolving a timeline whose web addresses are kept or cannot be fetched.  Its files
are put in their places and its pictures without a positive size get the measured one, around the
centre that their frames name, if all of them are there and can be measured; nothing else of it
changes.  If a source is not there the error is that of the first one, and the tool has not been
asked; if a picture cannot be measured it is that of the first one. -/
theorem timeline_outcome (tools : Tools) (w : World) (cacheDir : String) (t : Timeline)
    (hcached : ∀ url ∈ t.assets, ¬ Found w.files cacheDir url → Asset.isRemote url →
      ∃ reason, tools.fetch url = .error reason) :
    let resolved := (t.located (place cacheDir)).measured tools.probe
    let pictures := t.unsized.map (place cacheDir)
    Resolves tools cacheDir t resolved ∧
    ((∀ source ∈ t.assets, Found w.files cacheDir source) →
      (∀ path ∈ pictures, Measurable tools path) → ∀ next,
        (timeline cacheDir t next).advance tools w =
          (next resolved).advance tools (w.seen (pictures.map .probed))) ∧
    ((¬ ∀ source ∈ t.assets, Found w.files cacheDir source) →
      ∃ before source after reason, t.assets = before ++ source :: after ∧
        (∀ path ∈ before, Found w.files cacheDir path) ∧ ¬ Found w.files cacheDir source ∧
        Missing tools w.files source reason ∧ ∀ next,
          (timeline cacheDir t next).advance tools w =
            (.done (.error (.missingAsset source reason)), w)) ∧
    ((∀ source ∈ t.assets, Found w.files cacheDir source) →
      (¬ ∀ path ∈ pictures, Measurable tools path) →
      ∃ before path after e, pictures = before ++ path :: after ∧
        (∀ path ∈ before, Measurable tools path) ∧ tools.probe path = .error e ∧ ∀ next,
          (timeline cacheDir t next).advance tools w =
            (.done (.error e), w.seen ((before ++ [path]).map .probed))) := by
  intro resolved pictures
  refine ⟨resolves tools cacheDir t, fun hfound hpictures next => ?_, fun hmissing => ?_,
    fun hfound hpictures => ?_⟩
  · rw [advance_timeline_of_found hfound, (probes tools).run_of_forall fun path hpath =>
      fault?_probes_of_measurable (hpictures path hpath), flatMap_probes]
  · obtain ⟨before, source, after, hsplit, hbefore, hsource⟩ := exists_first hmissing
    have hmem : source ∈ t.assets := by simp [hsplit]
    obtain ⟨reason, hreason, hfault⟩ := exists_missing hsource (hcached source hmem hsource)
    refine ⟨before, source, after, reason, hsplit, hbefore, hsource, hreason, fun next => ?_⟩
    have hnone : ∀ path ∈ before, (lookups tools w.files cacheDir).fault? path = none :=
      fun path hpath => fault?_lookups_of_found (hbefore path hpath)
    rw [advance_timeline hcached, hsplit, Survey.run_of_first _ hnone hfault, seen_lookups]
  · obtain ⟨before, path, after, hsplit, hbefore, hpath⟩ := exists_first hpictures
    obtain ⟨e, he, hfault⟩ := exists_error_of_not_measurable hpath
    refine ⟨before, path, after, e, hsplit, hbefore, he, fun next => ?_⟩
    have hnone : ∀ path ∈ before, (probes tools).fault? path = none :=
      fun path hpath => fault?_probes_of_measurable (hbefore path hpath)
    rw [advance_timeline_of_found hfound, show t.unsized.map (place cacheDir) = _ from hsplit,
      Survey.run_of_first _ hnone hfault, flatMap_probes]

def logoAddress : String := "https://x.org/logo.png"

/-- A sound, and a scene with a picture from the web that has no size, with a clip and with another
timeline. -/
def logoReel : Timeline where
  settings := { width := 640, height := 360 }
  audios := [{ path := "music.mp3" }]
  scenes := [{
    duration := 2.0
    nodes := [
      { kind := .image logoAddress, frame := ⟨320.0, 180.0, 0.0, 0.0⟩ },
      { kind := .video "clip.mp4" none none false },
      { kind := .composition { settings := { width := 320, height := 180 } } none }] }]

/-- Surroundings with the sound, the clip and the download. -/
def logoWorld : World where
  files := ⟨[(⟨false, 0, ["music.mp3"]⟩, .file ""), (⟨false, 0, ["clip.mp4"]⟩, .file ""),
    (⟨false, 0, ["cache"]⟩, .directory),
    (⟨false, 0, ["cache", Asset.downloadName logoAddress]⟩, .file "")]⟩
  board := Board.empty

/-- Surroundings with nothing. -/
def emptyWorld : World := { logoWorld with files := {} }

/-- Tools that measure every picture and fetch nothing. -/
def measuringTools : Tools where
  run _ _ := ⟨[], .success⟩
  probe _ := .ok { width := 200, height := 100 }
  fetch _ := .error "offline"

/-- Tools that cannot measure anything either. -/
def blindTools : Tools :=
  { measuringTools with probe := fun _ => .error (.toolNotFound "ffprobe" "not found") }

theorem timeline_outcome_logoReel :
    let picture := Asset.downloadPath "cache" logoAddress
    (∀ source ∈ logoReel.assets, Found logoWorld.files "cache" source) ∧
    (∃ resolved : Timeline,
      (∃ s n, resolved.scenes[0]? = some s ∧ s.nodes[0]? = some n ∧ n.kind = .image picture ∧
        n.frame = ⟨220.0, 130.0, 200.0, 100.0⟩) ∧
      ∀ next, (timeline "cache" logoReel next).advance measuringTools logoWorld =
        (next resolved).advance measuringTools (logoWorld.seen [.probed picture])) ∧
    (∃ before source after reason, logoReel.assets = before ++ source :: after ∧
      Missing measuringTools {} source reason ∧ ∀ next,
        (timeline "cache" logoReel next).advance measuringTools emptyWorld =
          (.done (.error (.missingAsset source reason)), emptyWorld)) ∧
    ∃ e, blindTools.probe picture = .error e ∧ ∀ next,
      (timeline "cache" logoReel next).advance blindTools logoWorld =
        (.done (.error e), logoWorld.seen [.probed picture]) := by
  intro picture
  have hfound : ∀ source ∈ logoReel.assets, Found logoWorld.files "cache" source := by
    decide +kernel
  have hmissing : ¬ ∀ source ∈ logoReel.assets, Found {} "cache" source := by decide +kernel
  have hplace : place "cache" logoAddress = picture := place_of_remote (by decide +kernel)
  have hpictures : logoReel.unsized.map (place "cache") = [picture] := by
    have hunsized : logoReel.unsized = [logoAddress] := by decide +kernel
    rw [hunsized, List.map_singleton, hplace]
  obtain ⟨hresolves, hresolved, -⟩ := timeline_outcome measuringTools logoWorld "cache" logoReel
    fun _ _ _ _ => ⟨"offline", rfl⟩
  obtain ⟨-, -, habsent, -⟩ := timeline_outcome measuringTools emptyWorld "cache" logoReel
    fun _ _ _ _ => ⟨"offline", rfl⟩
  obtain ⟨-, -, -, hblind⟩ := timeline_outcome blindTools logoWorld "cache" logoReel
    fun _ _ _ _ => ⟨"offline", rfl⟩
  rw [hpictures] at hresolved hblind
  have hmeasurable : ∀ path ∈ [picture], Measurable measuringTools path :=
    List.forall_mem_singleton.2 ⟨_, rfl⟩
  have hunmeasurable : ¬ ∀ path ∈ [picture], Measurable blindTools path := by
    rw [List.forall_mem_singleton]
    rintro ⟨info, hinfo⟩
    cases hinfo
  obtain ⟨before, source, after, reason, hsplit, -, -, hreason, hstops⟩ := habsent hmissing
  obtain ⟨first, path, rest, e, honly, -, he, hends⟩ := hblind hfound hunmeasurable
  obtain ⟨rfl, rfl, -⟩ : first = [] ∧ path = picture ∧ rest = [] := by
    cases first with
    | nil => simpa [eq_comm] using honly
    | cons x xs => simp at honly
  -- Around the centre of the stage, two hundred by one hundred pixels.
  obtain ⟨s, _, hscene, -, hs⟩ := List.forall₂_cons_left_iff.1 hresolves.scenes
  obtain ⟨n, _, hlogo, -, hn⟩ := List.forall₂_cons_left_iff.1 hscene.nodes
  have hsize : ¬ ((0 : Float) < 0.0 ∧ (0 : Float) < 0.0) := by decide +kernel
  obtain ⟨hx, hy, hw, hh⟩ := hlogo.measured logoAddress _ rfl hsize rfl
  have hkind : n.kind = .image picture := by
    rw [hlogo.rest_eq, ← hplace]
    rfl
  have hframe : n.frame = ⟨220.0, 130.0, 200.0, 100.0⟩ := by
    show (⟨n.frame.x, n.frame.y, n.frame.w, n.frame.h⟩ : Rect) = _
    rw [hx, hy, hw, hh]
    decide +kernel
  have hfirst : (s.nodes)[0]? = some n := by rw [hn, List.getElem?_cons_zero]
  exact ⟨hfound, ⟨_, ⟨s, n, by rw [hs, List.getElem?_cons_zero], hfirst, hkind, hframe⟩,
    hresolved hfound hmeasurable⟩,
    ⟨before, source, after, reason, hsplit, hreason, hstops⟩, e, he, hends⟩

end Resolve

end Montage
