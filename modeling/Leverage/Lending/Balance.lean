import Leverage.Lending.Pool

/-!
# Scaled balances and tokens

The tokens of a scaled balance are the balance times the index of its side, brought from
`Scale.balanceDecimals` decimals to the decimals of the token. Both directions floor; a borrowed
amount is rounded up on its way to a scaled balance unless its floor is zero.
-/

namespace Leverage

namespace LendingPool

/-- The factor from the token's own decimals to those of scaled balances. -/
def precisionLift (pool : LendingPool) : Checked Amount :=
  if Scale.balanceDecimals < pool.decimals.toNat then .error .invalidDecimals
  else tenPow (Scale.balanceDecimals - pool.decimals.toNat)

def scaledOfTokens (pool : LendingPool) (side : Side) (tokens : Amount) : Checked Amount := do
  let lift ← pool.precisionLift
  let floored ← tokens.mulDiv lift (pool.index.get side)
  side.rounding.adjustNonzero floored

def tokensOfScaled (pool : LendingPool) (side : Side) (scaled : Amount) : Checked Amount := do
  let lift ← pool.precisionLift
  scaled.mulDiv (pool.index.get side) lift

/-- The tokens that a scaled balance earns when its index grows by the given interest. -/
def tokensOfInterest (pool : LendingPool) (scaled interest : Amount) : Checked Amount := do
  let lift ← pool.precisionLift
  scaled.mulDiv interest lift

def tokens (pool : LendingPool) (side : Side) : Checked Amount :=
  pool.tokensOfScaled side (pool.scaled.get side)

/-- The tokens on both sides of the pool. Where both conversions fail, the fault is that of the
deposits. -/
def holdings (pool : LendingPool) : Checked (BySide Amount) := do
  let deposit ← pool.tokens .deposit
  let borrow ← pool.tokens .borrow
  return ⟨deposit, borrow⟩

end LendingPool

def PoolPosition.tokens (position : PoolPosition) (pool : LendingPool) : Checked Amount :=
  pool.tokensOfScaled position.side position.scaled

end Leverage
