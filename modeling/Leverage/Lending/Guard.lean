import Leverage.Lending.Balance

/-!
# Withdrawal guard

How much may leave a pool is held against a day's average of its two sides. The stored averages are
first blended with the present amounts; the bounds follow from the blend, and the limits say how far
the pool is from its bounds. A negative limit says by how much it is past one.
-/

namespace Leverage

/-- What may still be borrowed from and withdrawn from a pool. -/
structure WithdrawLimits where
  borrow : SignedAmount
  withdraw : SignedAmount
deriving DecidableEq, Repr

/-- A stored average blended with the present amount. The average weighs as much as is left of its
day and the present amount as much as has passed, and their sum is divided by twice the time that
has passed; before any has, the stored average stands. -/
def liveAverage (average present elapsed remaining : Amount) : Checked Amount :=
  if elapsed = 0 then .ok average
  else do
    let past ← average.mul remaining
    let total ← past.add (← present.mul elapsed)
    total.div (← elapsed.add elapsed)

/-- The most that may be borrowed: a fifth more than the average or a sixth of the deposits,
whichever is more, but no more than nine tenths of the deposits. -/
def borrowCeiling (deposits averageBorrows : Amount) : Checked Amount := do
  let sixth ← deposits.div (.lit 6)
  let grown ← averageBorrows.add (← averageBorrows.div (.lit 5))
  let lendable ← deposits.sub (← deposits.div (.lit 10))
  return min (max sixth grown) lendable

/-- The least that must stay deposited: what is left of the average after a fifth of it or the
threshold, whichever is more, is gone. -/
def depositFloor (averageDeposits threshold : Amount) : Checked Amount := do
  let fifth ← averageDeposits.div (.lit 5)
  averageDeposits.sub (min (max fifth threshold) averageDeposits)

namespace LendingPool

/-- The seconds since the averages were stored and the seconds left of their day. -/
def averageAge (pool : LendingPool) (now : Timestamp) : Checked (Amount × Amount) := do
  let elapsed ← now.sub pool.averagedAt
  if elapsed < 0 then
    throw .underflow
  else
    let remaining ← Scale.day.sub elapsed
    return (← elapsed.cast _, ← (max remaining 0).cast _)

def liveAverages (pool : LendingPool) (holdings : BySide Amount) (now : Timestamp) :
    Checked (BySide Amount) := do
  let (elapsed, remaining) ← pool.averageAge now
  let borrow ← liveAverage pool.average.borrow holdings.borrow elapsed remaining
  let deposit ← liveAverage pool.average.deposit holdings.deposit elapsed remaining
  return ⟨deposit, borrow⟩

/-- How far the pool's borrows are below their ceiling and its deposits above their floor. -/
def withdrawLimits (pool : LendingPool) (now : Timestamp) : Checked WithdrawLimits := do
  let holdings ← pool.holdings
  let averages ← pool.liveAverages holdings now
  let ceiling ← borrowCeiling holdings.deposit averages.borrow
  let floor ← depositFloor averages.deposit pool.guardThreshold
  let borrow ← (← ceiling.cast (.signed 128)).sub (← holdings.borrow.cast _)
  let withdraw ← (← holdings.deposit.cast (.signed 128)).sub (← floor.cast _)
  return ⟨borrow, withdraw⟩

end LendingPool

end Leverage
