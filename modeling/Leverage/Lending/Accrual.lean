import Leverage.Lending.Rate

/-!
# Interest

Interest is what the indices of a pool grow by from the time they were last brought up to date. The
growth charged to borrowers is rounded up, so it is never zero while something is lent, and the
growth credited to depositors is rounded down.
-/

namespace Leverage

/-- The part of an index that a rate, already multiplied by the seconds it was in force, adds. -/
def indexGrowth (index rateTime : Amount) : Checked Amount := do
  (← index.mulDiv rateTime Scale.year).div Scale.rate

namespace LendingPool

/-- The interest from the last accrual up to now, as growth of the two indices. -/
def interest (pool : LendingPool) (now : Timestamp) : Checked (BySide Amount) := do
  let utilization ← pool.utilization
  if utilization = 0 then
    return ⟨0, 0⟩
  else
    let rate ← pool.curve.rateAt utilization
    let elapsed ← (← now.sub pool.accruedAt).cast (.unsigned 128)
    let borrowTime ← rate.mul elapsed
    let depositTime ← borrowTime.mulDiv utilization Scale.utilization
    let borrow ← Rounding.up.adjust (← indexGrowth pool.index.borrow borrowTime)
    let deposit ← Rounding.down.adjust (← indexGrowth pool.index.deposit depositTime)
    return ⟨deposit, borrow⟩

/-- The pool with its interest brought up to date, and the growth of its indices. -/
def accrue (pool : LendingPool) (now : Timestamp) : Checked (BySide Amount × LendingPool) := do
  let growth ← pool.interest now
  let deposit ← pool.index.deposit.add growth.deposit
  let borrow ← pool.index.borrow.add growth.borrow
  return (growth, { pool with index := ⟨deposit, borrow⟩, accruedAt := now })

end LendingPool

end Leverage
