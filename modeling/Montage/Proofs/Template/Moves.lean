import Mathlib.Algebra.Order.Ring.Rat
import Mathlib.Tactic.Linarith
import Mathlib.Tactic.Positivity
import Montage.Proofs.Template.Building

/-!
# Where moved pictures rest

A picture that is moved in ends at its place, and one that is moved out starts from it.  That place
is the corner of the frame with which the picture is loaded.  A frame without a size is given one
when the picture is measured, and then its place becomes the centre: such a picture rests with its
corner where its centre belongs (`Template.move_rests_iff_sized`).

The frames are computed by definitions over any numbers, which run on floats and are compared on
rationals.
-/

namespace Montage

/-! ## Boxes -/

section

variable {α : Type} [Scalar α]

def Box.corner (b : Box α) : Effect.Place α := ⟨b.x, b.y⟩

def Box.centre (b : Box α) : Effect.Place α := ⟨b.x + Scalar.half b.w, b.y + Scalar.half b.h⟩

theorem Effect.rest_move (direction : Direction) (way : Way) (frame : Box α) (stageW stageH : α) :
    (move direction way frame stageW stageH).rest direction = frame.corner := by
  cases direction <;> rfl

theorem Box.settle_of_isSized {b : Box α} (h : b.isSized) (width height : α) :
    b.settle width height = b := if_pos h

theorem Box.settle_of_not_isSized {b : Box α} (h : ¬ b.isSized) (width height : α) :
    b.settle width height =
      ⟨b.x - Scalar.half width, b.y - Scalar.half height, width, height⟩ := if_neg h

end

section

variable {b : Box Rat} {width height : Rat}

theorem Box.isSized_iff : b.isSized ↔ 0 < b.w ∧ 0 < b.h := by
  rw [isSized, Bool.and_eq_true]
  exact and_congr decide_eq_true_iff decide_eq_true_iff

/-- A box that is settled is settled around its place. -/
theorem Box.centre_settle (h : ¬ b.isSized) : (b.settle width height).centre = b.corner := by
  rw [settle_of_not_isSized h, centre, corner]
  exact congrArg₂ Effect.Place.mk (sub_add_cancel b.x _) (sub_add_cancel b.y _)

theorem Box.corner_settle_eq_iff (hwidth : 0 < width) :
    b.corner = (b.settle width height).corner ↔ b.isSized := by
  constructor
  · intro hcorner
    by_contra h
    rw [settle_of_not_isSized h] at hcorner
    have hx : b.x = b.x - width / 2 := congrArg Effect.Place.x hcorner
    linarith
  · intro h
    rw [settle_of_isSized h]

end

namespace Template

/-! ## Pictures on a stage -/

/-- What a picture says of its place on the stage. -/
structure Placement (α : Type) where
  left : Option α
  top : Option α
  width : Option α
  height : Option α
  centred : Bool
  fit : Option Fit

def LayerHead.placement (l : LayerHead) : Placement Float :=
  ⟨l.left, l.top, l.width, l.height, l.isCentred, l.fit⟩

namespace Placement

section

variable {α : Type} [Scalar α] (p : Placement α) (stage : StageSize α)

/-- The frame with which the picture is loaded. -/
def loaded : Box α :=
  pictureFrame p.fit (frameOn stage p.left p.top p.width p.height p.centred) stage

/-- The frame with which the picture is compiled, if it measures so much. -/
def compiled (width height : α) : Box α := (p.loaded stage).settle width height

/-- How the picture is moved. -/
def move (direction : Direction) (way : Effect.Way) : Effect.Move α :=
  Effect.move direction way (p.loaded stage) stage.w stage.h

/-- Where the picture rests when it is moved. -/
def rest (direction : Direction) (way : Effect.Way) : Effect.Place α :=
  (p.move stage direction way).rest direction

theorem rest_eq (direction : Direction) (way : Effect.Way) :
    p.rest stage direction way = (p.loaded stage).corner :=
  Effect.rest_move direction way (p.loaded stage) stage.w stage.h

end

/-- The size of the picture is given. -/
def GivesSize (p : Placement Rat) : Prop :=
  ∃ width height, p.width = some width ∧ p.height = some height ∧ 0 < width ∧ 0 < height

variable {p : Placement Rat} {stage : StageSize Rat}

theorem isSized_frameOn_iff (hw : 0 < stage.w) (hh : 0 < stage.h) :
    (frameOn stage p.left p.top p.width p.height p.centred).isSized ↔ p.GivesSize := by
  have hsize (width height : Rat) :
      0 < width * stage.w ∧ 0 < height * stage.h ↔ 0 < width ∧ 0 < height :=
    and_congr (mul_pos_iff_of_pos_right hw) (mul_pos_iff_of_pos_right hh)
  rw [Box.isSized_iff]
  constructor
  · intro h
    unfold frameOn at h
    split at h
    · next width height hwidth hheight =>
      refine ⟨width, height, hwidth, hheight, (hsize width height).1 ?_⟩
      split at h <;> exact h
    · exact absurd h.1 (lt_irrefl 0)
  · rintro ⟨width, height, hwidth, hheight, hpos⟩
    rw [hwidth, hheight, frameOn]
    split <;> exact (hsize width height).2 hpos

/-- On a stage, a picture is loaded with a size if it gives one or if it is fitted. -/
theorem isSized_loaded_iff (hw : 0 < stage.w) (hh : 0 < stage.h) :
    (p.loaded stage).isSized ↔ p.fit.isSome ∨ p.GivesSize := by
  have hstage : (⟨Scalar.zero, Scalar.zero, stage.w, stage.h⟩ : Box Rat).isSized :=
    Box.isSized_iff.2 ⟨hw, hh⟩
  unfold loaded pictureFrame
  cases p.fit with
  | none =>
    rw [isSized_frameOn_iff hw hh]
    simp
  | some fit =>
    dsimp only
    split
    · next hsized => simpa using (Bool.and_eq_true _ _ ▸ hsized).1
    · simpa using hstage

end Placement

/-! ## Layers with a move -/

/-- The node is loaded with the frame of the placement, and the move comes last. -/
structure IsMoved {τ : Type} (n : Node τ) (p : Placement Float) (stage : StageSize Float)
    (direction : Direction) (way : Effect.Way) : Prop where
  frame : n.frame = p.loaded stage
  settled : ∀ width height, (n.settle width height).frame = p.compiled stage width height
  moved : ∃ a, n.animations.getLast? = some a ∧ a.direction = direction ∧
    a.motion = .move (p.move stage direction way).start.toPoint
      (p.move stage direction way).finish.toPoint

section

variable {v : Json} {l : LayerHead} {path : String} {effect : EffectSpec} {direction : Direction}
  {way : Effect.Way}

theorem buildLayer_image (hl : LayerHead.ofJson? v = some l) (hkind : l.kind = "image")
    (hpath : l.path = some path) (settings : Settings) (sceneDuration : Float) :
    buildLayer settings sceneDuration v =
      .ok (l.backdrops (stageOf settings) ++
        l.imageNodes path (stageOf settings) sceneDuration) := by
  rw [buildLayer, ofJson_layer_eq, hl]
  dsimp only
  rw [Layer.build, hkind, LayerHead.requirePath, hpath]
  rfl

theorem effects_of_move (heffect : l.effect = some effect)
    (hmove : Effect.moveNames.lookup effect.name = some (direction, way)) (frame : Rect)
    (stage : StageSize Float) :
    l.effects frame stage =
      [{ motion := .move (Effect.move direction way frame stage.w stage.h).start.toPoint
           (Effect.move direction way frame stage.w stage.h).finish.toPoint
         direction, start := l.start.getD 0.0, duration := effect.time }] := by
  rw [LayerHead.effects, heffect]
  dsimp only
  unfold Effect.animations Effect.motions
  rw [hmove]
  rfl

/-- A timed picture with a move ends with it. -/
theorem isMoved_timed {τ : Type} (heffect : l.effect = some effect)
    (hmove : Effect.moveNames.lookup effect.name = some (direction, way)) {n : Node τ}
    {stage : StageSize Float} (hframe : n.frame = l.placement.loaded stage) :
    IsMoved (l.timed n stage) l.placement stage direction way where
  frame := hframe
  settled width height := congrArg (Box.settle · width height) hframe
  moved := by
    rw [LayerHead.timed, effects_of_move heffect hmove, hframe]
    exact ⟨_, List.getLast?_concat, rfl, rfl⟩

/-- The last node of a picture that is moved is made with the move and the frame of its placement.
Where the frame has a size when it is loaded, the move rests at the corner of the frame that is
compiled.  Where it has none, the move rests at its centre, so not at its corner. -/
theorem move_rests_iff_sized (hl : LayerHead.ofJson? v = some l) (hkind : l.kind = "image")
    (hpath : l.path = some path) (heffect : l.effect = some effect)
    (hmove : Effect.moveNames.lookup effect.name = some (direction, way)) (settings : Settings)
    (sceneDuration : Float) :
    (∃ front own, buildLayer settings sceneDuration v = .ok (front ++ [own]) ∧
        own.kind = .image path ∧ IsMoved own l.placement (stageOf settings) direction way) ∧
      ((l.placement.loaded (stageOf settings)).isSized → ∀ width height,
        l.placement.rest (stageOf settings) direction way =
          (l.placement.compiled (stageOf settings) width height).corner) ∧
      ∀ (p : Placement Rat) (stage : StageSize Rat) (width height : Rat),
        0 < width → 0 < height →
        (p.rest stage direction way = (p.compiled stage width height).corner ↔
            (p.loaded stage).isSized) ∧
          (¬ (p.loaded stage).isSized →
            p.rest stage direction way = (p.compiled stage width height).centre) ∧
          (0 < stage.w → 0 < stage.h →
            ((p.loaded stage).isSized ↔ p.fit.isSome ∨ p.GivesSize)) := by
  refine ⟨?_, fun hsized width height => ?_, fun p stage width height hwidth _ => ?_⟩
  · rw [buildLayer_image hl hkind hpath, LayerHead.imageNodes, ← List.append_assoc]
    exact ⟨_, _, rfl, rfl, isMoved_timed heffect hmove rfl⟩
  · rw [Placement.rest_eq, Placement.compiled, Box.settle_of_isSized hsized]
  · rw [Placement.rest_eq, Placement.compiled]
    exact ⟨Box.corner_settle_eq_iff hwidth, fun h => (Box.centre_settle h).symm,
      Placement.isSized_loaded_iff⟩

end

/-- A picture without a size that comes in from the right. -/
def slidLayer : Json :=
  .obj [("effect", .obj [("time", .int 1), ("type", .str "moveInRight")]),
    ("path", .str "a.png"), ("type", .str "image")]

/-- A picture that says nothing of its place. -/
def unplaced : Placement Rat := ⟨none, none, none, none, false, none⟩

/-- The picture rests at its place on a stage of 1280 by 720 pixels, which is its centre. -/
theorem move_rests_iff_sized_slidLayer :
    ∃ l, LayerHead.ofJson? slidLayer = some l ∧
      (∃ front own, buildLayer { width := 1280, height := 720 } 4.0 slidLayer =
          .ok (front ++ [own]) ∧ own.kind = .image "a.png" ∧
        IsMoved own l.placement (stageOf { width := 1280, height := 720 }) .entering .right) ∧
      unplaced.rest ⟨1280, 720⟩ .entering .right = ⟨640, 360⟩ ∧
      unplaced.rest ⟨1280, 720⟩ .entering .right =
        (unplaced.compiled ⟨1280, 720⟩ 200 100).centre := by
  have hcomputed : (LayerHead.ofJson? slidLayer).map (fun l =>
      (l.kind, l.path, l.effect.map (·.name))) =
        some ("image", some "a.png", some "moveInRight") := by decide +kernel
  obtain ⟨l, hl, hfields⟩ := Option.map_eq_some_iff.1 hcomputed
  obtain ⟨hkind, hpath, hname⟩ :
      l.kind = "image" ∧ l.path = some "a.png" ∧ l.effect.map (·.name) = some "moveInRight" := by
    simpa only [Prod.mk.injEq] using hfields
  obtain ⟨effect, heffect, hname⟩ := Option.map_eq_some_iff.1 hname
  have hmove : Effect.moveNames.lookup effect.name = some (.entering, .right) := by
    rw [hname]
    rfl
  obtain ⟨hbuilds, -, hrests⟩ := move_rests_iff_sized hl hkind hpath heffect hmove
    { width := 1280, height := 720 } 4.0
  obtain ⟨-, hcentre, -⟩ := hrests unplaced ⟨1280, 720⟩ 200 100 (by decide) (by decide)
  exact ⟨l, hl, hbuilds, by decide +kernel, hcentre (by decide +kernel)⟩

end Template

/-- Where the node rests that the animation moves. -/
def Animation.rest? (a : Animation) : Option Point :=
  match a.motion, a.direction with
  | .move _ finish, .entering => some finish
  | .move start _, .leaving => some start
  | _, _ => none

/-- A template with just this picture. -/
def slidTemplate : Json :=
  .obj [("clips", .arr [.obj [("duration", .int 4), ("layers", .arr [Template.slidLayer])]]),
    ("height", .int 720), ("width", .int 1280)]

/-- A picture of 200 by 100 pixels comes to rest with its corner 100 pixels right of and 50 below
the corner of its frame. -/
theorem rest_ne_corner_slidTemplate :
    ∃ t n, Timeline.ofTemplate slidTemplate = .ok t ∧ t.scenes.flatMap (·.nodes) = [n] ∧
      n.animations.map Animation.rest? = [some ⟨640.0, 360.0⟩] ∧
      (n.settle 200.0 100.0).frame.corner.toPoint = ⟨540.0, 310.0⟩ ∧
      (⟨640.0, 360.0⟩ : Point) ≠ ⟨540.0, 310.0⟩ := by
  have hcomputed : (Timeline.ofTemplate slidTemplate).toOption.map (fun t =>
      (t.scenes.flatMap (·.nodes)).map fun n =>
        (n.animations.map Animation.rest?, (n.settle 200.0 100.0).frame.corner.toPoint)) =
      some [([some ⟨640.0, 360.0⟩], ⟨540.0, 310.0⟩)] := by decide +kernel
  rcases hload : Timeline.ofTemplate slidTemplate with e | t <;> rw [hload] at hcomputed
  · cases hcomputed
  · obtain ⟨n, hn, hvalues⟩ := List.map_eq_singleton_iff.1 (Option.some.inj hcomputed)
    obtain ⟨hrest, hcorner⟩ := Prod.mk.inj hvalues
    exact ⟨t, n, rfl, hn, hrest, hcorner, by decide +kernel⟩

end Montage
