import Leverage.Lending.Balance

/-!
# Utilization and rates

The utilization of a pool is the part of its deposits that is borrowed. It fixes the yearly rate of
borrowing through the pool's curve, and depositors earn that rate on the part that is lent.
-/

namespace Leverage

/-- The part of the deposits that is borrowed. Borrows without deposits count as full utilization,
and an empty pool as none. -/
def utilizationOf (holdings : BySide Amount) : Checked Amount :=
  if holdings.deposit = 0 then .ok (if holdings.borrow = 0 then 0 else Scale.utilization)
  else holdings.borrow.mulDiv Scale.utilization holdings.deposit

namespace RateCurve

def slopeBelow (curve : RateCurve) : Checked Amount :=
  (curve.kinkRate.widen : Amount).mulDiv Scale.utilization curve.kink.widen

def slopeAbove (curve : RateCurve) : Checked Amount := do
  let rise ← (curve.fullRate.widen : Amount).sub curve.kinkRate.widen
  let lifted ← rise.mul Scale.utilization
  lifted.div (← Scale.utilization.sub curve.kink.widen)

/-- The rate at a utilization. An unused pool has no rate, whatever its curve. -/
def rateAt (curve : RateCurve) (utilization : Amount) : Checked Amount :=
  if utilization = 0 then .ok 0
  else if (curve.kink.widen : Amount) < utilization then do
    let surplus ← utilization.sub curve.kink.widen
    let slope ← curve.slopeAbove
    (curve.kinkRate.widen : Amount).add (← surplus.mulDiv slope Scale.utilization)
  else do
    let slope ← curve.slopeBelow
    utilization.mulDiv slope Scale.utilization

end RateCurve

namespace LendingPool

def utilization (pool : LendingPool) : Checked Amount := do
  utilizationOf (← pool.holdings)

def borrowRate (pool : LendingPool) : Checked Amount := do
  pool.curve.rateAt (← pool.utilization)

/-- The yearly rate that depositors earn: the borrowing rate on the part that is lent. -/
def depositRate (pool : LendingPool) : Checked Amount := do
  let utilization ← pool.utilization
  let rate ← pool.curve.rateAt utilization
  rate.mulDiv utilization Scale.utilization

end LendingPool

end Leverage
