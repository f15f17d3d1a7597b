import Montage.Scalar

/-!
# Progress of several units

A board holds, for each unit of work, the greatest fraction that was reported for it.  It publishes
the mean over the units it knows, and never a lesser value than before: a unit that is made known
late lowers the mean, not what is published.
-/

namespace Montage

/-- The fractions of the units, in the order in which they were made known, and the published
value. -/
structure Board (α : Type) where
  units : List (String × α)
  published : α
  deriving Repr, DecidableEq

namespace Board

variable {α : Type} [Scalar α]

/-- The board that knows no units. -/
def empty : Board α := ⟨[], Scalar.zero⟩

def knows (b : Board α) (unit : String) : Bool := b.units.any (·.1 == unit)

def register (b : Board α) (unit : String) : Board α :=
  if b.knows unit then b else { b with units := b.units ++ [(unit, Scalar.zero)] }

def registerAll (b : Board α) (units : List String) : Board α := units.foldl register b

/-- A reported fraction moved into the range from zero to one; what is no finite number is zero. -/
def bounded (fraction : α) : α :=
  if Scalar.finite fraction then Scalar.clamp Scalar.zero Scalar.one fraction else Scalar.zero

/-- The unit's fraction, moved forward. -/
def raise (b : Board α) (unit : String) (fraction : α) : Board α :=
  { b with units := b.units.map fun (name, old) =>
      (name, if name == unit then Scalar.greatest old fraction else old) }

/-- The mean of the units' fractions. -/
def mean (b : Board α) : α :=
  (b.units.foldl (fun sum unit => sum + unit.2) Scalar.zero) / Scalar.ofNat b.units.length

/-- Publishes the mean if it is greater than what is published. -/
def publish (b : Board α) : Board α :=
  if Scalar.less b.published b.mean then { b with published := b.mean } else b

/-- Takes a report in. -/
def report (b : Board α) (unit : String) (fraction : α) : Board α :=
  ((b.register unit).raise unit (bounded fraction)).publish

end Board

end Montage
