import Leverage.Lending.Balance

/-!
# Ledger entries

Deposits, withdrawals, loans and repayments enter a pool as scaled balances. Each entry answers with
the scaled balance that it posts and the pool after it.
-/

namespace Leverage.LendingPool

/-- Adds an amount of tokens to one side. -/
def post (pool : LendingPool) (side : Side) (tokens : Amount) : Checked (Amount × LendingPool) := do
  let scaled ← pool.scaledOfTokens side tokens
  let total ← (pool.scaled.get side).add scaled
  return (scaled, { pool with scaled := pool.scaled.set side total })

/-- Takes an amount of tokens off one side. -/
def release (pool : LendingPool) (side : Side) (tokens : Amount) :
    Checked (Amount × LendingPool) := do
  let scaled ← pool.scaledOfTokens side tokens
  let total ← (pool.scaled.get side).sub scaled
  return (scaled, { pool with scaled := pool.scaled.set side total })

def deposit (pool : LendingPool) (tokens : Amount) : Checked (Amount × LendingPool) :=
  pool.post .deposit tokens

def withdraw (pool : LendingPool) (tokens : Amount) : Checked (Amount × LendingPool) :=
  pool.release .deposit tokens

def borrow (pool : LendingPool) (tokens : Amount) : Checked (Amount × LendingPool) :=
  pool.post .borrow tokens

def repay (pool : LendingPool) (tokens : Amount) : Checked (Amount × LendingPool) :=
  pool.release .borrow tokens

end Leverage.LendingPool
