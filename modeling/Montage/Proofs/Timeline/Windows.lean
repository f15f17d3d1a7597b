import Mathlib.Algebra.Order.Ring.Rat
import Mathlib.Order.Bounds.Basic
import Montage.Timeline.Window

/-!
# Windows of nodes

The window of a node follows from its own start and end and from when its animations happen
(`Node.window_eq`).  On rationals it is a greatest of least times (`Times.appear_eq`,
`Times.disappear_eq`), so it never ends before it begins, whatever the times are, and it begins and
ends with the animations where they leave room for it (`Times.window_laws`).
-/

namespace Montage

/-- When an animation happens, and which way. -/
structure Timing (α : Type) where
  direction : Direction
  start : α
  duration : α
  deriving Repr, DecidableEq

/-- All that the window of a node depends on. -/
structure Times (α : Type) where
  start : Option α
  finish : Option α
  animations : List (Timing α)
  deriving Repr, DecidableEq

section

variable {α : Type} [Scalar α]

def Timing.finish (a : Timing α) : α := a.start + a.duration

namespace Times

variable (x : Times α)

def starts : List α := x.animations.map (·.start)

/-- When the animations that take the node away are over. -/
def leavings : List α := (x.animations.filter (·.direction == .leaving)).map Timing.finish

def window (duration : α) : Window α := .ofTimes x.start x.finish x.starts x.leavings duration

end Times

end

def Animation.timing (a : Animation) : Timing Float := ⟨a.direction, a.start, a.duration⟩

def Node.times {τ : Type} (n : Node τ) : Times Float :=
  ⟨n.start, n.finish, n.animations.map Animation.timing⟩

/-- A node is shown in the window of its times. -/
theorem Node.window_eq {τ : Type} (n : Node τ) (duration : Float) :
    n.window duration = n.times.window duration := by
  unfold window Times.window Times.starts Times.leavings times
  rw [List.map_map, List.filter_map, List.map_map]
  rfl

/-! ## Least and greatest rationals -/

namespace Scalar

theorem zero_rat : (zero : ℚ) = 0 := Nat.cast_zero

theorem least_rat (a b : ℚ) : least a b = min a b := by
  show (if b < a then b else a) = min a b
  by_cases h : b < a
  · rw [if_pos h, min_eq_right h.le]
  · rw [if_neg h, min_eq_left (not_lt.1 h)]

theorem greatest_rat (a b : ℚ) : greatest a b = max a b := by
  show (if a < b then b else a) = max a b
  by_cases h : a < b
  · rw [if_pos h, max_eq_right h.le]
  · rw [if_neg h, max_eq_left (not_lt.1 h)]

theorem foldl_least_rat (a : ℚ) (ts : List ℚ) : ts.foldl least a = ts.foldl min a := by
  induction ts generalizing a with
  | nil => rfl
  | cons t rest ih =>
    rw [List.foldl_cons, List.foldl_cons, least_rat]
    exact ih _

end Scalar

theorem earliest?_rat (ts : List ℚ) : earliest? ts = ts.min? := by
  cases ts with
  | nil => rfl
  | cons t rest =>
    rw [List.min?_cons', ← Scalar.foldl_least_rat]
    rfl

theorem min?_eq_some_iff_isLeast {ts : List ℚ} {t : ℚ} :
    ts.min? = some t ↔ IsLeast {u | u ∈ ts} t := List.min?_eq_some_iff

theorem foldl_min_of_isLeast {ts : List ℚ} {t duration : ℚ} (h : IsLeast {u | u ∈ ts} t) :
    ts.foldl min duration = min duration t := by
  rw [List.foldl_min, min?_eq_some_iff_isLeast.2 h, Option.getD_some]

/-! ## Windows on rationals -/

namespace Times

variable (x : Times ℚ) (duration : ℚ)

theorem appear_eq : (x.window duration).appear =
    max ((x.start.or x.starts.min?).getD 0) 0 := by
  unfold window Window.ofTimes
  rw [earliest?_rat]
  cases x.start.or x.starts.min? with
  | none => exact Scalar.zero_rat.trans (max_self 0).symm
  | some t =>
    show (if Scalar.finite t then Scalar.greatest t Scalar.zero else Scalar.zero) = max t 0
    rw [if_pos (show Scalar.finite t from rfl), Scalar.greatest_rat, Scalar.zero_rat]

theorem disappear_eq : (x.window duration).disappear =
    max (min (x.finish.getD (x.leavings.foldl min duration)) duration)
      (x.window duration).appear := by
  unfold window Window.ofTimes
  dsimp only
  rw [Scalar.greatest_rat, Scalar.least_rat]
  cases x.finish with
  | none => rw [Scalar.foldl_least_rat, Option.getD_none]
  | some t => rw [Option.getD_some]

theorem mem_starts_iff {t : ℚ} : t ∈ x.starts ↔ ∃ a ∈ x.animations, a.start = t := List.mem_map

theorem mem_leavings_iff {t : ℚ} :
    t ∈ x.leavings ↔ ∃ a ∈ x.animations, a.direction = .leaving ∧ a.start + a.duration = t := by
  simp only [leavings, Timing.finish, List.mem_map, List.mem_filter, beq_iff_eq, and_assoc]

variable {x duration}

theorem appear_of_start {t : ℚ} (h : x.start = some t) (ht : 0 ≤ t) :
    (x.window duration).appear = t := by
  rw [appear_eq, h]
  exact max_eq_left ht

theorem appear_of_isLeast {t : ℚ} (h : x.start = none) (hleast : IsLeast {u | u ∈ x.starts} t)
    (ht : 0 ≤ t) : (x.window duration).appear = t := by
  rw [appear_eq, h, Option.none_or, min?_eq_some_iff_isLeast.2 hleast]
  exact max_eq_left ht

theorem disappear_of_isLeast {t : ℚ} (h : x.finish = none)
    (hleast : IsLeast {u | u ∈ x.leavings} t) (happear : (x.window duration).appear ≤ t)
    (ht : t ≤ duration) : (x.window duration).disappear = t := by
  rw [disappear_eq, h, Option.getD_none, foldl_min_of_isLeast hleast, min_eq_right ht,
    min_eq_left ht, max_eq_left happear]

/-- The window of a node is that of its times.  On rationals it lies behind the start of the scene
and does not end before it begins; it ends with the scene at the latest, if it is not empty.  It
begins with the node's own start or else with the earliest animation, if that is not before the
scene, and without an end of its own the node disappears with the first animation that takes it
away, if that is over between its appearance and the end of the scene. -/
theorem window_laws :
    (∀ {τ : Type} (n : Node τ) (duration : Float),
      n.window duration = n.times.window duration) ∧
    ∀ (x : Times ℚ) (duration : ℚ),
      (0 ≤ (x.window duration).appear ∧
        (x.window duration).appear ≤ (x.window duration).disappear) ∧
      ((x.window duration).disappear ≤ duration ∨
        (x.window duration).appear = (x.window duration).disappear) ∧
      (∀ t, x.start = some t → 0 ≤ t → (x.window duration).appear = t) ∧
      (∀ t, x.start = none → IsLeast {u | ∃ a ∈ x.animations, a.start = u} t → 0 ≤ t →
        (x.window duration).appear = t) ∧
      ∀ t, x.finish = none →
        IsLeast {u | ∃ a ∈ x.animations, a.direction = .leaving ∧ a.start + a.duration = u} t →
        (x.window duration).appear ≤ t → t ≤ duration → (x.window duration).disappear = t := by
  refine ⟨Node.window_eq, fun x duration => ⟨⟨?_, ?_⟩, ?_, fun t => appear_of_start,
    fun t h hleast => ?_, fun t h hleast => ?_⟩⟩
  · rw [appear_eq]
    exact le_max_right _ _
  · rw [disappear_eq]
    exact le_max_right _ _
  · rw [disappear_eq]
    rcases le_total (min (x.finish.getD (x.leavings.foldl min duration)) duration)
      (x.window duration).appear with hle | hle
    · exact Or.inr (max_eq_right hle).symm
    · rw [max_eq_left hle]
      exact Or.inl (min_le_right _ _)
  · simp only [← mem_starts_iff] at hleast
    exact appear_of_isLeast h hleast
  · simp only [← mem_leavings_iff] at hleast
    exact disappear_of_isLeast h hleast

/-- A node that is faded in from second 1 on and faded out until second 4. -/
def fadedTimes : Times ℚ := ⟨none, none, [⟨.entering, 1, 1 / 2⟩, ⟨.leaving, 3, 1⟩]⟩

theorem window_laws_fadedTimes :
    IsLeast {u | ∃ a ∈ fadedTimes.animations, a.start = u} 1 ∧
    IsLeast {u | ∃ a ∈ fadedTimes.animations, a.direction = .leaving ∧
      a.start + a.duration = u} 4 ∧
    (fadedTimes.window 10).appear = 1 ∧ (fadedTimes.window 10).disappear = 4 := by
  obtain ⟨-, -, -, hstart, hfinish⟩ := window_laws.2 fadedTimes 10
  have hfirst : IsLeast {u | ∃ a ∈ fadedTimes.animations, a.start = u} 1 := by
    have hleast : ∀ a ∈ fadedTimes.animations, 1 ≤ a.start := by decide
    refine ⟨⟨⟨.entering, 1, 1 / 2⟩, List.mem_cons_self, rfl⟩, ?_⟩
    rintro u ⟨a, ha, rfl⟩
    exact hleast a ha
  have hlast : IsLeast {u | ∃ a ∈ fadedTimes.animations, a.direction = .leaving ∧
      a.start + a.duration = u} 4 := by
    have hleast : ∀ a ∈ fadedTimes.animations, a.direction = .leaving →
        4 ≤ a.start + a.duration := by decide +kernel
    refine ⟨⟨⟨.leaving, 3, 1⟩, List.mem_cons_of_mem _ List.mem_cons_self, rfl,
      by decide +kernel⟩, ?_⟩
    rintro u ⟨a, ha, hleaving, rfl⟩
    exact hleast a ha hleaving
  have happear : (fadedTimes.window 10).appear = 1 := hstart 1 rfl hfirst (by decide)
  have hdisappear : (fadedTimes.window 10).disappear = 4 :=
    hfinish 4 rfl hlast (by rw [happear]; decide) (by decide)
  exact ⟨hfirst, hlast, happear, hdisappear⟩

end Times

end Montage
