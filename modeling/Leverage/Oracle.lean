import Leverage.Quantity

/-!
# Oracle readings

An oracle reports a price, how far that price may be off, and when it was seen. A reading is taken
as it comes: a price that is zero or negative is refused where it makes no sense, not here.
-/

namespace Leverage

structure OracleReading where
  /-- The price, on `Scale.price`. -/
  price : SignedAmount := 0
  /-- The half-width of the interval in which the price lies, on `Scale.price`. -/
  confidence : Amount := 0
  slot : Slot := 0
deriving DecidableEq, Repr, Inhabited

end Leverage
