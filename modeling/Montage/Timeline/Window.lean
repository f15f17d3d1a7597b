import Montage.Timeline.Basic

/-!
# When and how large a node is shown

A node appears at its own start, or with its earliest animation, but not before the scene; it
disappears at its own end, or with the first animation that takes it away, but not after the scene
and not before it appeared.  A node without a size is given the size that was measured, around the
place that its frame names.
-/

namespace Montage

/-- A stretch of time. -/
structure Window (α : Type) where
  appear : α
  disappear : α
  deriving Repr, DecidableEq

section

variable {α : Type} [Scalar α]

/-- The least of the numbers, if there are any. -/
def earliest? : List α → Option α
  | [] => none
  | x :: rest => some (rest.foldl Scalar.least x)

/-- The window of a node with its own start and end, the starts of its animations, and the ends of
those that take it away, in a scene of the given length. -/
def Window.ofTimes (start finish : Option α) (starts leavings : List α) (duration : α) : Window α :=
  let appear := match start.or (earliest? starts) with
    | some t => if Scalar.finite t then Scalar.greatest t Scalar.zero else Scalar.zero
    | none => Scalar.zero
  let disappear := match finish with
    | some t => t
    | none => leavings.foldl Scalar.least duration
  ⟨appear, Scalar.greatest (Scalar.least disappear duration) appear⟩

def Box.isSized (b : Box α) : Bool := Scalar.less Scalar.zero b.w && Scalar.less Scalar.zero b.h

/-- A box without a size becomes one of the measured size around its place. -/
def Box.settle (b : Box α) (w h : α) : Box α :=
  if b.isSized then b else ⟨b.x - Scalar.half w, b.y - Scalar.half h, w, h⟩

end

theorem Rect.isSized_iff {r : Rect} : r.isSized = true ↔ 0 < r.w ∧ 0 < r.h := by
  rw [Box.isSized, Bool.and_eq_true]
  exact and_congr decide_eq_true_iff decide_eq_true_iff

/-- The window in which the node is shown. -/
def Node.window {τ : Type} (n : Node τ) (duration : Float) : Window Float :=
  .ofTimes n.start n.finish (n.animations.map (·.start))
    ((n.animations.filter (·.direction == .leaving)).map Animation.finish) duration

/-- The node with its measured size, if it had none. -/
def Node.settle {τ : Type} (n : Node τ) (w h : Float) : Node τ :=
  { n with frame := n.frame.settle w h }

end Montage
