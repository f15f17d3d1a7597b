import Montage.Proofs.Asset.Downloads
import Montage.Proofs.Render.Contracts

/-!
# What resolving leaves alone

Resolving writes into the unit's directory, but to names of its own: the files of compositions that
are there stay, and the timeline keeps its compositions (`Resolve.Beside.yields_timeline`).
-/

namespace Montage

/-! ## Resolved timelines -/

/-- The scene has a composition that was rendered into the file. -/
def Scene.Shows {τ : Type} (s : Scene τ) (output : String) : Prop :=
  ∃ n ∈ s.nodes, ∃ timeline, n.kind = .composition timeline (some output)

/-- A composition that is rendered is left as it is. -/
def Node.Retains {τ : Type} (n n' : Node τ) : Prop :=
  ∀ timeline output, n.kind = .composition timeline (some output) →
    n'.kind = .composition timeline (some output)

/-- The second scene is the first one up to files that were looked up and sizes. -/
structure Scene.Resolves {τ : Type} (s s' : Scene τ) : Prop where
  duration : s'.duration = s.duration
  transition : s'.transition = s.transition
  cues : s'.subtitle.map (·.cues) = s.subtitle.map (·.cues)
  nodes : List.Forall₂ Node.Retains s.nodes s'.nodes

/-- The second timeline is the first one up to files that were looked up and sizes. -/
structure Timeline.Resolves (t t' : Timeline) : Prop where
  settings : t'.settings = t.settings
  scenes : List.Forall₂ Scene.Resolves t.scenes t'.scenes

variable {τ : Type}

theorem exists_getElem?_of_forall₂ {α β : Type} {R : α → β → Prop} {xs : List α} {ys : List β}
    (h : List.Forall₂ R xs ys) {i : Nat} {x : α} (hx : xs[i]? = some x) :
    ∃ y, ys[i]? = some y ∧ R x y := by
  induction h generalizing i with
  | nil => cases hx
  | cons hfirst _ ih =>
    cases i with
    | zero =>
      cases hx
      exact ⟨_, rfl, hfirst⟩
    | succ i => exact ih hx

theorem forall₂_trans {α : Type} {R : α → α → Prop} (hR : ∀ x y z, R x y → R y z → R x z)
    {xs ys zs : List α} (h : List.Forall₂ R xs ys) (h' : List.Forall₂ R ys zs) :
    List.Forall₂ R xs zs := by
  induction h generalizing zs with
  | nil => exact h'
  | cons hfirst _ ih =>
    cases h' with
    | cons hfirst' hrest' => exact .cons (hR _ _ _ hfirst hfirst') (ih hrest')

theorem Node.Retains.trans {n n' n'' : Node τ} (h : n.Retains n') (h' : n'.Retains n'') :
    n.Retains n'' := fun timeline output hkind => h' timeline output (h timeline output hkind)

theorem Scene.Resolves.trans {s s' s'' : Scene τ} (h : s.Resolves s') (h' : s'.Resolves s'') :
    s.Resolves s'' where
  duration := h'.duration.trans h.duration
  transition := h'.transition.trans h.transition
  cues := h'.cues.trans h.cues
  nodes := forall₂_trans (R := Node.Retains) (fun _ _ _ => .trans) h.nodes h'.nodes

theorem Timeline.Resolves.trans {t t' t'' : Timeline} (h : t.Resolves t') (h' : t'.Resolves t'') :
    t.Resolves t'' where
  settings := h'.settings.trans h.settings
  scenes := forall₂_trans (R := Scene.Resolves) (fun _ _ _ => .trans) h.scenes h'.scenes

/-- Resolving leaves the rendered compositions of a scene where they are. -/
theorem Scene.Resolves.shows {s s' : Scene τ} (h : s.Resolves s') {output : String}
    (hshows : s.Shows output) : s'.Shows output := by
  obtain ⟨n, hn, timeline, hkind⟩ := hshows
  obtain ⟨i, hi⟩ := List.getElem?_of_mem hn
  obtain ⟨n', hn', hretains⟩ := exists_getElem?_of_forall₂ h.nodes hi
  exact ⟨n', List.mem_of_getElem? hn', timeline, hretains timeline output hkind⟩

open Script

variable {starts : Commands} {c : Contract} {I : Set Place → Prop} {m : Set Place}

/-! ## Replacing files -/

section

variable {f : String → Script String} (hf : ∀ path, Keeps starts c I (f path))

include hf

theorem AudioTrack.keeps_mapAssets (t : AudioTrack) : Keeps starts c I (t.mapAssets f) :=
  (hf t.path).bind fun _ => keeps_pure _

theorem Background.keeps_mapAssets (b : Background) : Keeps starts c I (b.mapAssets f) := by
  cases b with
  | image path => exact (hf path).bind fun _ => keeps_pure _
  | color name => exact keeps_pure _

theorem SubtitleBlock.yields_mapAssets (b : SubtitleBlock) (hI : I m) :
    Yields starts c (b.mapAssets f) m fun b' m' => b'.cues = b.cues ∧ I m' :=
  (Keeps.mapOption hf b.audio m hI).bind fun _ m₁ hI₁ =>
    (Keeps.mapOption hf b.fontPath m₁ hI₁).bind fun _ _ hI₂ => yields_pure ⟨rfl, hI₂⟩

theorem SubtitleBlock.yields_mapOption (o : Option SubtitleBlock) (hI : I m) :
    Yields starts c (mapOption (SubtitleBlock.mapAssets f) o) m fun o' m' =>
      o'.map (·.cues) = o.map (·.cues) ∧ I m' := by
  rcases o with _ | b
  · exact yields_pure ⟨rfl, hI⟩
  · exact (b.yields_mapAssets hf hI).bind fun b' m' h => yields_pure ⟨congrArg some h.1, h.2⟩

theorem TextStyle.keeps_mapAssets (s : TextStyle) : Keeps starts c I (s.mapAssets f) :=
  (Keeps.mapOption hf s.fontFile).bind fun _ => keeps_pure _

theorem NodeKind.keeps_mapAssets (k : NodeKind τ) : Keeps starts c I (k.mapAssets f) := by
  cases k with
  | image path => exact (hf path).bind fun _ => keeps_pure _
  | video path cutFrom cutTo muted => exact (hf path).bind fun _ => keeps_pure _
  | text words style => exact (style.keeps_mapAssets hf).bind fun _ => keeps_pure _
  | subtitle path style vertical => exact (style.keeps_mapAssets hf).bind fun _ => keeps_pure _
  | audio track => exact (track.keeps_mapAssets hf).bind fun _ => keeps_pure _
  | composition timeline output => exact keeps_pure _

/-- Compositions have no files to be replaced. -/
theorem Node.yields_mapAssets (n : Node τ) (hI : I m) :
    Yields starts c (n.mapAssets f) m fun n' m' => n.Retains n' ∧ I m' := by
  rcases hkind : n.kind with _ | _ | _ | _ | _ | ⟨timeline, output⟩
  case composition =>
    rw [Node.mapAssets, hkind]
    exact yields_pure ⟨fun _ _ h => (hkind.symm.trans h), hI⟩
  all_goals
    refine (n.kind.keeps_mapAssets hf m hI).bind fun kind m' hI' => yields_pure ⟨?_, hI'⟩
    intro timeline output h
    cases hkind.symm.trans h

theorem Scene.yields_mapAssets (s : Scene τ) (hI : I m) :
    Yields starts c (s.mapAssets f) m fun s' m' => s.Resolves s' ∧ I m' := by
  have hbackground := Keeps.mapOption (fun b => Background.keeps_mapAssets hf b) s.background
  have haudios := Keeps.mapList (fun t => AudioTrack.keeps_mapAssets hf t) s.audios
  refine (hbackground m hI).bind fun _ m₁ hI₁ => (haudios m₁ hI₁).bind fun _ m₂ hI₂ => ?_
  refine (SubtitleBlock.yields_mapOption hf s.subtitle hI₂).bind fun subtitle m₃ hsubtitle => ?_
  refine (yields_mapList hsubtitle.2 fun n _ m' hI' => n.yields_mapAssets hf hI').bind
    fun nodes m₄ hnodes => ?_
  exact yields_pure ⟨⟨rfl, rfl, hsubtitle.1, hnodes.1⟩, hnodes.2⟩

theorem Timeline.yields_mapAssets (t : Timeline) (hI : I m) :
    Yields starts c (t.mapAssets f) m fun t' m' => t.Resolves t' ∧ I m' := by
  have haudios := Keeps.mapList (fun t => AudioTrack.keeps_mapAssets hf t) t.audios
  refine (haudios m hI).bind fun _ m₁ hI₁ => ?_
  refine (yields_mapList hI₁ fun s _ m' hI' => s.yields_mapAssets hf hI').bind fun scenes m₂ h => ?_
  exact yields_pure ⟨⟨rfl, h.1⟩, h.2⟩

end

/-! ## Resolving -/

namespace Resolve

/-- The unit's directory belongs to the contract, and these are files of compositions in it. -/
structure Beside (c : Contract) (cacheDir : String) (files : Set Place) : Prop where
  owned : ∀ q, q.isWithin (.ofPath cacheDir) = true → q ∈ c.region
  video : ∀ q ∈ files, ∃ slot, q = (Place.ofPath cacheDir).file (.video slot)

variable {cacheDir : String} {files : Set Place}

theorem Beside.ne (h : Beside c cacheDir files) {q : Place} (hq : q ∈ files) {url name : String}
    (hname : Asset.IsDigestName url name) : q ≠ .ofPath (Path.join cacheDir name) := by
  obtain ⟨slot, rfl⟩ := h.video q hq
  exact hname.file_video_ne cacheDir slot

/-- A download is written into the unit's directory beside the files of compositions. -/
theorem Beside.keeps_download (h : Beside c cacheDir files) (url : String) :
    Keeps starts c (files ⊆ ·) (download cacheDir url) := by
  have hpart := Asset.isDigestName_part url
  have hwhole := Asset.isDigestName_download url
  have hfetch : Keeps starts c (files ⊆ ·) (ask (.fetch url)) :=
    keeps_ask_quiet ⟨fun _ _ => id, fun _ => id⟩ fun _ => trivial
  have hmakeDirs : Keeps starts c (files ⊆ ·) (ask (.makeDirs cacheDir)) :=
    keeps_ask_quiet ⟨fun _ _ => id, fun _ => id⟩ fun _ => trivial
  have hwrite (contents : String) :
      Keeps starts c (files ⊆ ·) (ask (.write (partialPath cacheDir url) contents)) := by
    intro m hm
    refine yields_ask ?_ trivial fun reply q hq => Or.inr ⟨hm hq, id⟩
    rintro q (⟨reply, hmakes⟩ | hclears)
    · cases reply with
      | error => exact absurd hmakes id
      | ok =>
        rw [show q = .ofPath (partialPath cacheDir url) from hmakes]
        exact h.owned _ (hpart.isWithin cacheDir)
    · exact absurd hclears id
  have hmove : Keeps starts c (files ⊆ ·)
      (ask (.move (partialPath cacheDir url) (Asset.downloadPath cacheDir url))) := by
    intro m hm
    refine yields_ask ?_ trivial fun reply q hq => Or.inr ⟨hm hq, h.ne hq hpart⟩
    rintro q (⟨reply, hmakes⟩ | hclears)
    · cases reply with
      | error => exact absurd hmakes id
      | ok =>
        rw [show q = .ofPath (Asset.downloadPath cacheDir url) from hmakes]
        exact h.owned _ (hwhole.isWithin cacheDir)
    · rw [show q = .ofPath (partialPath cacheDir url) from hclears]
      exact h.owned _ (hpart.isWithin cacheDir)
  refine hfetch.bind fun reply => ?_
  cases reply with
  | error reason => exact keeps_fail _
  | ok contents =>
    refine hmakeDirs.bind fun made => (keeps_checkFile made).bind fun _ => ?_
    refine (hwrite contents).bind fun written => (keeps_checkFile written).bind fun _ => ?_
    exact hmove.bind fun moved => (keeps_checkFile moved).bind fun _ => keeps_pure _

theorem keeps_look (path : String) : Keeps starts c I (ask (.look path)) :=
  keeps_ask_quiet ⟨fun _ _ => id, fun _ => id⟩ fun _ => trivial

theorem Beside.keeps_source (h : Beside c cacheDir files) (path : String) :
    Keeps starts c (files ⊆ ·) (source cacheDir path) := by
  rw [source]
  split
  · refine (keeps_look _).bind fun reply => ?_
    split
    · exact keeps_pure _
    · exact h.keeps_download path
  · refine (keeps_look _).bind fun reply => ?_
    split
    · exact keeps_pure _
    · exact keeps_fail _
    · exact keeps_fail _

/-- Measuring a picture leaves compositions alone. -/
theorem yields_measure (n : Node τ) (hI : I m) :
    Yields starts c (measure n) m fun n' m' => n.Retains n' ∧ I m' := by
  rw [measure]
  split
  · next path hkind =>
    have hretains (n' : Node τ) : n.Retains n' := fun _ _ h => by cases hkind.symm.trans h
    split
    · exact yields_pure ⟨hretains n, hI⟩
    · have hprobe : Keeps starts c I (ask (.probe path)) :=
        keeps_ask_quiet ⟨fun _ _ => id, fun _ => id⟩ fun _ => trivial
      refine (hprobe m hI).bind fun reply m₁ hI₁ => ?_
      refine (keeps_check reply m₁ hI₁).bind fun info m₂ hI₂ => ?_
      exact yields_pure ⟨hretains _, hI₂⟩
  · exact yields_pure ⟨fun _ _ => id, hI⟩

theorem yields_measureScene (s : Scene τ) (hI : I m) :
    Yields starts c (measureScene s) m fun s' m' => s.Resolves s' ∧ I m' := by
  refine (yields_mapList hI fun n _ m' hI' => yields_measure n hI').bind fun nodes m₁ h => ?_
  exact yields_pure ⟨⟨rfl, rfl, rfl, h.1⟩, h.2⟩

/-- The timeline keeps its compositions, and their files stay. -/
theorem Beside.yields_timeline (h : Beside c cacheDir files) (t : Timeline) (hm : files ⊆ m) :
    Yields starts c (timeline cacheDir t) m fun t' m' => t.Resolves t' ∧ files ⊆ m' := by
  refine (Timeline.yields_mapAssets h.keeps_source t hm).bind fun t₁ m₁ h₁ => ?_
  refine (yields_mapList h₁.2 fun s _ m' hm' => yields_measureScene s hm').bind
    fun scenes m₂ h₂ => ?_
  exact yields_pure ⟨h₁.1.trans ⟨rfl, h₂.1⟩, h₂.2⟩

end Resolve

end Montage
