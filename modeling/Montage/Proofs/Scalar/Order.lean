import Mathlib.Data.Prod.Lex
import Montage.Scalar

/-!
# The order of floats

Of two floats that are numbers one is no less than the other (`Scalar.le_of_not_lt`), and the order
is transitive (`Scalar.le_trans`).  So what `Scalar.greatest` yields is no less than what it starts
from (`Scalar.le_greatest`), and no less than a number that it is raised to
(`Scalar.le_greatest_right`).
-/

namespace Montage.Scalar

open Float.Model

theorem lt_iff (a b : Float) : a < b ↔ UnpackedFloat.lt a.toModel.unpack b.toModel.unpack = true :=
  decide_eq_true_iff

theorem le_iff (a b : Float) : a ≤ b ↔ UnpackedFloat.le a.toModel.unpack b.toModel.unpack = true :=
  decide_eq_true_iff

/-- Numbers are compared, and no others. -/
theorem isSome_compare (u v : UnpackedFloat) :
    (u.compare v).isSome = (!u.isNaN && !v.isNaN) := by
  rcases u with (_ | _) | _ | (_ | _) | ⟨_ | _, _, _, _⟩ <;>
    rcases v with (_ | _) | _ | (_ | _) | ⟨_ | _, _, _, _⟩ <;> rfl

theorem compare_swap (u v : UnpackedFloat) : v.compare u = (u.compare v).map Ordering.swap := by
  have hboth (e e' : Int) (m m' : Nat) : (compare e' e).then (compare m' m) =
      ((compare e e').then (compare m m')).swap := by
    rw [Ordering.swap_then, ← Std.OrientedCmp.eq_swap, ← Std.OrientedCmp.eq_swap]
  rcases u with (_ | _) | _ | (_ | _) | ⟨_ | _, m, e, _⟩ <;>
    rcases v with (_ | _) | _ | (_ | _) | ⟨_ | _, m', e', _⟩ <;>
    first
    | rfl
    | exact congrArg some (hboth e e' m m')
    | exact congrArg some (congrArg Ordering.swap (hboth e e' m m'))

theorem le_of_lt {a b : Float} (h : a < b) : a ≤ b := by
  rw [lt_iff, UnpackedFloat.lt, beq_iff_eq] at h
  rw [le_iff, UnpackedFloat.le, h]
  rfl

theorem le_of_not_lt {a b : Float} (ha : a.isNaN = false) (hb : b.isNaN = false) (h : ¬ a < b) :
    b ≤ a := by
  have hsome : (a.toModel.unpack.compare b.toModel.unpack).isSome = true := by
    have ha : a.toModel.unpack.isNaN = false := ha
    have hb : b.toModel.unpack.isNaN = false := hb
    rw [isSome_compare, ha, hb]
    rfl
  obtain ⟨o, ho⟩ := Option.isSome_iff_exists.1 hsome
  rw [lt_iff, UnpackedFloat.lt, ho] at h
  rw [le_iff, UnpackedFloat.le, compare_swap, ho]
  cases o
  · exact absurd rfl h
  · rfl
  · rfl

theorem le_self {a : Float} (h : a.isNaN = false) : a ≤ a := by
  by_cases hlt : a < a
  · exact le_of_lt hlt
  · exact le_of_not_lt h h hlt

/-- Where a number stands among the others: below or above zero, infinite or not, then its exponent
and its mantissa, which count downwards below zero. -/
def rank : UnpackedFloat → ℤ ×ₗ ℤ ×ₗ ℤ
  | .infinity .negative => toLex (-2, toLex (0, 0))
  | .finite .negative m e _ => toLex (-1, toLex (-e, -m))
  | .notANumber | .zero _ => toLex (0, toLex (0, 0))
  | .finite .positive m e _ => toLex (1, toLex (e, m))
  | .infinity .positive => toLex (2, toLex (0, 0))

theorem isLE_then_compare (e e' : Int) (m m' : Nat) :
    ((compare e e').then (compare m m')).isLE = true ↔ e < e' ∨ e = e' ∧ m ≤ m' := by
  rw [Ordering.isLE_then_iff_or, compare_lt_iff_lt, compare_eq_iff_eq, Nat.isLE_compare]

theorem isGE_then_compare (e e' : Int) (m m' : Nat) :
    ((compare e e').then (compare m m')).isGE = true ↔ e' < e ∨ e' = e ∧ m' ≤ m := by
  rw [← Ordering.isLE_swap, Ordering.swap_then, ← Std.OrientedCmp.eq_swap,
    ← Std.OrientedCmp.eq_swap, isLE_then_compare]

/-- The first place decides if it can. -/
theorem toLex_lt {a b : ℤ} (h : a < b) (x y : ℤ ×ₗ ℤ) : toLex (a, x) < toLex (b, y) :=
  Prod.Lex.toLex_lt_toLex.2 (Or.inl h)

theorem toLex_le_iff (a x x' y y' : ℤ) :
    toLex (a, toLex (x, y)) ≤ toLex (a, toLex (x', y')) ↔ x < x' ∨ x = x' ∧ y ≤ y' := by
  rw [Prod.Lex.toLex_le_toLex, Prod.Lex.toLex_le_toLex]
  dsimp only
  omega

/-- Numbers are compared by where they stand. -/
theorem le_iff_rank_le (u v : UnpackedFloat) :
    u.le v = true ↔ u.isNaN = false ∧ v.isNaN = false ∧ rank u ≤ rank v := by
  rcases u with (_ | _) | _ | _ | ⟨_ | _, m, e, hm⟩ <;>
    rcases v with (_ | _) | _ | _ | ⟨_ | _, m', e', hm'⟩
  -- The first place decides, except between two finite numbers of one sign.
  all_goals first
    | exact iff_of_true rfl ⟨rfl, rfl, le_refl _⟩
    | exact iff_of_true rfl ⟨rfl, rfl, (toLex_lt (by decide) _ _).le⟩
    | exact iff_of_false Bool.false_ne_true fun h => (toLex_lt (by decide) _ _).not_ge h.2.2
    | exact iff_of_false Bool.false_ne_true fun h => Bool.noConfusion h.1
    | exact iff_of_false Bool.false_ne_true fun h => Bool.noConfusion h.2.1
    | skip
  · refine Iff.trans ?_ ⟨fun h => ⟨rfl, rfl, h⟩, fun h => h.2.2⟩
    change ((compare e e').then (compare m m')).swap.isLE = true ↔
      toLex ((-1 : ℤ), toLex (-e, -(m : ℤ))) ≤ toLex ((-1 : ℤ), toLex (-e', -(m' : ℤ)))
    rw [Ordering.isLE_swap, isGE_then_compare, toLex_le_iff]
    omega
  · refine Iff.trans ?_ ⟨fun h => ⟨rfl, rfl, h⟩, fun h => h.2.2⟩
    change ((compare e e').then (compare m m')).isLE = true ↔
      toLex ((1 : ℤ), toLex (e, (m : ℤ))) ≤ toLex ((1 : ℤ), toLex (e', (m' : ℤ)))
    rw [isLE_then_compare, toLex_le_iff]
    omega

theorem le_trans {a b c : Float} (hab : a ≤ b) (hbc : b ≤ c) : a ≤ c := by
  rw [le_iff, le_iff_rank_le] at hab hbc ⊢
  obtain ⟨ha, -, hab⟩ := hab
  obtain ⟨-, hc, hbc⟩ := hbc
  exact ⟨ha, hc, hab.trans hbc⟩

/-! ## The greater of two -/

theorem greatest_eq (a b : Float) :
    greatest a b = if a.isNaN then b else if b.isNaN then a else if a < b then b else a := rfl

theorem greatest_of_isNaN_left {a : Float} (b : Float) (ha : a.isNaN = true) :
    greatest a b = b := if_pos ha

theorem greatest_of_isNaN_right {a b : Float} (ha : a.isNaN = false) (hb : b.isNaN = true) :
    greatest a b = a := by
  rw [greatest_eq, ha, if_neg Bool.false_ne_true, if_pos hb]

theorem greatest_of_numbers {a b : Float} (ha : a.isNaN = false) (hb : b.isNaN = false) :
    greatest a b = if a < b then b else a := by
  rw [greatest_eq, ha, if_neg Bool.false_ne_true, hb, if_neg Bool.false_ne_true]

theorem isNaN_greatest {a : Float} (b : Float) (ha : a.isNaN = false) :
    (greatest a b).isNaN = false := by
  rcases hb : b.isNaN
  · rw [greatest_of_numbers ha hb]
    split
    · exact hb
    · exact ha
  · rwa [greatest_of_isNaN_right ha hb]

theorem le_greatest {a : Float} (b : Float) (ha : a.isNaN = false) : a ≤ greatest a b := by
  rcases hb : b.isNaN
  · rw [greatest_of_numbers ha hb]
    split
    · next hlt => exact le_of_lt hlt
    · exact le_self ha
  · rw [greatest_of_isNaN_right ha hb]
    exact le_self ha

theorem le_greatest_right (a : Float) {b : Float} (hb : b.isNaN = false) :
    b ≤ greatest a b := by
  rcases ha : a.isNaN
  · rw [greatest_of_numbers ha hb]
    split
    · exact le_self hb
    · next hlt => exact le_of_not_lt ha hb hlt
  · rw [greatest_of_isNaN_left b ha]
    exact le_self hb

end Montage.Scalar
