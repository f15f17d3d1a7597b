import Montage.Transition.Catalogue
import Montage.Transition.Keystream

/-!
# Picking transitions

A picker turns names into transitions.  A random name draws from the picker's stream, every other
name is looked up and leaves the stream alone.
-/

namespace Montage.Transition

/-- A place in a seeded stream. -/
structure Picker where
  seed : UInt64
  position : Nat := 0
  deriving Repr, DecidableEq

namespace Picker

/-- Draws a word. -/
def next (p : Picker) : UInt32 × Picker :=
  (word p.seed p.position, { p with position := p.position + 1 })

/-- The high half of a product of a word and a bound: the number it picks. -/
def high (w : UInt32) (bound : Nat) : Nat := w.toNat * bound / UInt32.size

/-- The low half of that product. -/
def low (w : UInt32) (bound : Nat) : Nat := w.toNat * bound % UInt32.size

theorem high_lt (w : UInt32) {bound : Nat} (h : 0 < bound) : high w bound < bound := by
  have hw : w.toNat < UInt32.size := w.toNat_lt
  exact Nat.div_lt_of_lt_mul (Nat.mul_lt_mul_of_pos_right hw h)

theorem succ_high_lt (w : UInt32) {bound : Nat} (h : UInt32.size < low w bound + bound) :
    high w bound + 1 < bound := by
  have hw : w.toNat ≤ UInt32.size - 1 := Nat.le_pred_of_lt w.toNat_lt
  have := Nat.mul_le_mul_right bound hw
  simp only [low, high, UInt32.size] at h this ⊢
  omega

/-- Draws a number below a bound.  The number is the high half of a word's product with the bound;
where the low half comes close enough to a full word, a second word decides whether it carries. -/
def below (p : Picker) (bound : Nat) (hpos : 0 < bound) : Fin bound × Picker :=
  let (w, p) := p.next
  if h : UInt32.size < low w bound + bound then
    let (v, p) := p.next
    if UInt32.size ≤ low w bound + high v bound then (⟨high w bound + 1, succ_high_lt w h⟩, p)
    else (⟨high w bound, high_lt w hpos⟩, p)
  else (⟨high w bound, high_lt w hpos⟩, p)

/-- Draws a transition. -/
def draw (p : Picker) : String × Picker :=
  let (index, p) := p.below catalogue.length (by decide)
  (catalogue[index], p)

/-- The transition that a name asks for. -/
def resolve (p : Picker) (name : String) : Except CompileError String × Picker :=
  if isRandom name then
    let (entry, p) := p.draw
    (.ok entry, p)
  else (lookup name, p)

def resolveAll (p : Picker) : List String → List (Except CompileError String)
  | [] => []
  | name :: rest =>
    let (entry, p) := p.resolve name
    entry :: resolveAll p rest

end Picker

end Montage.Transition
