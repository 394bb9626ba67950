import Leverage.Quantity

/-!
# Integer square root

The root is approached from above by Newton's iteration: an estimate is replaced by the mean of
itself and its cofactor for as long as that makes it smaller. The iteration starts at the value
itself, with half the value plus one as the first proposal, so it runs downhill and ends.
-/

namespace Leverage.SquareRoot

/-- The mean of an estimate and its cofactor. -/
def newtonStep (value estimate : Nat) : Nat := (estimate + value / estimate) / 2

/-- Follows proposals downhill: a proposal below the estimate replaces it and makes the next
proposal, any other ends the search. -/
def descend (value estimate proposal : Nat) : Nat :=
  if proposal < estimate then descend value proposal (newtonStep value proposal) else estimate
termination_by estimate

theorem descend_le (value estimate proposal : Nat) :
    descend value estimate proposal ≤ estimate := by
  fun_induction descend value estimate proposal with
  | case1 estimate proposal lower ih => omega
  | case2 => exact Nat.le_refl _

/-- The estimate at which the descent from the value ends. Values below two are their own roots. -/
def ofNat (value : Nat) : Nat :=
  if value < 2 then value else descend value value (value / 2 + 1)

theorem ofNat_le (value : Nat) : ofNat value ≤ value := by
  unfold ofNat
  split
  · exact Nat.le_refl _
  · exact descend_le _ _ _

end Leverage.SquareRoot

namespace Leverage.Word

def sqrt {n : Nat} (a : Unsigned n) : Unsigned n where
  val := SquareRoot.ofNat a.toNat
  lo_le := Int.natCast_nonneg _
  lt_hi := by
    have rootLe := SquareRoot.ofNat_le a.toNat
    have nonneg := unsigned_nonneg a
    have bound := a.lt_hi
    unfold toNat at *
    omega

end Leverage.Word
