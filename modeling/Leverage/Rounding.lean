import Leverage.Quantity

/-!
# Rounding

Fixed-point quotients are floored first and adjusted afterwards. Rounding up adds one whole unit to
the floor, also where the quotient was exact, and so always favours the side that is owed.
-/

namespace Leverage

/-- What is done to a floored quotient. -/
inductive Rounding where
  | down
  | up
deriving DecidableEq, Repr

namespace Rounding

def adjust : Rounding → Amount → Checked Amount
  | down, floored => .ok floored
  | up, floored => floored.add (.lit 1)

/-- Adjusts a floored quotient, but keeps zero at zero. -/
def adjustNonzero (rounding : Rounding) (floored : Amount) : Checked Amount :=
  if floored = 0 then .ok 0 else rounding.adjust floored

end Rounding

end Leverage
