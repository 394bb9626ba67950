import Leverage.Lending.Rate
import Leverage.Proofs.Lending.Conversion
import Mathlib.Tactic.GCongr
import Mathlib.Tactic.Ring

/-!
# Utilization

What a pool holds on its two sides, and the part of the deposits that is borrowed.

Utilization is not a share of anything by its type: either side is converted at its own index, and
borrows without deposits count as full utilization. `utilization_mul_deposit_le` is the bound that
holds all the same, for every pair of holdings.

Full utilization is the most only where nothing is deposited, or where the borrows exceed the
deposits by less than one part of the scale: `utilization_le_full_iff`. Beyond that nothing holds it
down, as `utilization_exceeds_full` shows.
-/

namespace Leverage

section UtilizationOf

variable {holdings : BySide Amount} {utilization : Amount}

theorem utilizationOf_eq_ok_iff :
    utilizationOf holdings = .ok utilization ↔
      if holdings.deposit.val = 0 then
        utilization.val = if holdings.borrow.val = 0 then 0 else Scale.utilization.val
      else
        holdings.borrow.val * Scale.utilization.val < 2 ^ 128 ∧
          utilization.val = holdings.borrow.val * Scale.utilization.val / holdings.deposit.val := by
  unfold utilizationOf
  by_cases noDeposits : holdings.deposit.val = 0
  · rw [if_pos (Word.eq_zero_iff.2 noDeposits), if_pos noDeposits, Except.ok.injEq, Word.ext_iff,
      apply_ite Word.val, Word.val_zero]
    simp only [Word.eq_zero_iff]
    exact eq_comm
  · rw [if_neg (mt Word.eq_zero_iff.1 noDeposits), if_neg noDeposits,
      Word.unsigned_mulDiv_eq_ok_iff, and_iff_right noDeposits]
    exact Iff.rfl

/-- Utilization never claims more of the deposits than is borrowed. -/
theorem utilization_mul_deposit_le (used : utilizationOf holdings = .ok utilization) :
    utilization.val * holdings.deposit.val ≤ holdings.borrow.val * Scale.utilization.val := by
  rw [utilizationOf_eq_ok_iff] at used
  by_cases noDeposits : holdings.deposit.val = 0
  · rw [noDeposits, mul_zero]
    exact mul_nonneg (Word.unsigned_nonneg _) Scale.utilization_pos.le
  · rw [if_neg noDeposits] at used
    rw [used.2]
    exact Int.ediv_mul_le _ noDeposits

/-- A pool without deposits is used in full at most, and only if something is borrowed. -/
theorem utilization_le_borrow_of_no_deposits (used : utilizationOf holdings = .ok utilization)
    (noDeposits : holdings.deposit.val = 0) :
    utilization.val ≤ holdings.borrow.val * Scale.utilization.val := by
  have borrowNonneg := Word.unsigned_nonneg holdings.borrow
  rw [utilizationOf_eq_ok_iff, if_pos noDeposits] at used
  rw [used]
  split
  · next noBorrows => rw [noBorrows, zero_mul]
  · next borrows =>
    have atLeastOne : 1 ≤ holdings.borrow.val := by omega
    exact le_mul_of_one_le_left Scale.utilization_pos.le atLeastOne

/-- The bounds with and without deposits in one: deposits that are not there count as one unit. -/
theorem utilization_mul_max_deposit_le (used : utilizationOf holdings = .ok utilization) :
    utilization.val * max holdings.deposit.val 1 ≤
      holdings.borrow.val * Scale.utilization.val := by
  have depositNonneg := Word.unsigned_nonneg holdings.deposit
  rcases eq_or_ne holdings.deposit.val 0 with noDeposits | deposits
  · rw [noDeposits, max_eq_right zero_le_one, mul_one]
    exact utilization_le_borrow_of_no_deposits used noDeposits
  · rw [max_eq_left (by omega)]
    exact utilization_mul_deposit_le used

/-- A quotient by deposits that are there stays within its scale as long as the borrows exceed the
deposits by less than one part of it. -/
theorem utilizationOf_le_full_iff (used : utilizationOf holdings = .ok utilization) :
    utilization.val ≤ Scale.utilization.val ↔
      holdings.deposit.val = 0 ∨
        holdings.borrow.val * Scale.utilization.val <
          (Scale.utilization.val + 1) * holdings.deposit.val := by
  rw [utilizationOf_eq_ok_iff] at used
  by_cases noDeposits : holdings.deposit.val = 0
  · rw [if_pos noDeposits] at used
    refine iff_of_true ?_ (Or.inl noDeposits)
    rw [used]
    split
    · exact Scale.utilization_pos.le
    · exact le_rfl
  · have depositPos : 0 < holdings.deposit.val :=
      lt_of_le_of_ne (Word.unsigned_nonneg _) (Ne.symm noDeposits)
    rw [if_neg noDeposits] at used
    rw [used.2, or_iff_right noDeposits, ← Int.lt_add_one_iff, Int.ediv_lt_iff_lt_mul depositPos]

/-- Deposits that cover the borrows are used in full at most. -/
theorem utilization_le_full_of_covered (used : utilizationOf holdings = .ok utilization)
    (covered : holdings.borrow.val ≤ holdings.deposit.val) :
    utilization.val ≤ Scale.utilization.val := by
  have depositNonneg := Word.unsigned_nonneg holdings.deposit
  have scaleNonneg := Scale.utilization_pos.le
  rw [utilizationOf_le_full_iff used]
  rcases depositNonneg.eq_or_lt with noDeposits | depositPos
  · exact Or.inl noDeposits.symm
  · right
    calc holdings.borrow.val * Scale.utilization.val
        ≤ holdings.deposit.val * Scale.utilization.val := by gcongr
      _ < holdings.deposit.val * Scale.utilization.val + holdings.deposit.val :=
        lt_add_of_pos_right _ depositPos
      _ = (Scale.utilization.val + 1) * holdings.deposit.val := by ring

/-- Where holdings have a utilization, the same deposits with less borrowed have one, and no larger
one. -/
theorem exists_utilizationOf_le {fewer : Amount} (le : fewer.val ≤ holdings.borrow.val)
    (used : utilizationOf holdings = .ok utilization) :
    ∃ less, utilizationOf { holdings with borrow := fewer } = .ok less ∧
      less.val ≤ utilization.val := by
  unfold utilizationOf at used ⊢
  by_cases noDeposits : holdings.deposit = 0
  · rw [if_pos noDeposits, Except.ok.injEq] at used
    rw [if_pos noDeposits, ← used]
    refine ⟨_, rfl, ?_⟩
    by_cases noBorrows : fewer.val = 0
    · rw [if_pos (Word.eq_zero_iff.2 noBorrows)]
      exact Word.unsigned_nonneg _
    · have fewerNonneg := Word.unsigned_nonneg fewer
      have borrows : holdings.borrow.val ≠ 0 := by omega
      rw [if_neg (mt Word.eq_zero_iff.1 noBorrows), if_neg (mt Word.eq_zero_iff.1 borrows)]
  · rw [if_neg noDeposits] at used
    rw [if_neg noDeposits]
    exact Word.exists_unsigned_mulDiv_le
      (mul_le_mul_of_nonneg_right le Scale.utilization_pos.le) used

end UtilizationOf

namespace LendingPool

variable {pool : LendingPool}

theorem holdings_eq_ok_iff {holdings : BySide Amount} :
    pool.holdings = .ok holdings ↔
      pool.tokens .deposit = .ok holdings.deposit ∧ pool.tokens .borrow = .ok holdings.borrow := by
  simp only [LendingPool.holdings, Checked.bind_eq_ok_iff, Checked.pure_eq_ok_iff]
  constructor
  · intro held
    rcases held with ⟨deposit, depositEq, borrow, borrowEq, rfl⟩
    exact ⟨depositEq, borrowEq⟩
  · intro held
    exact ⟨_, held.1, _, held.2, rfl⟩

theorem utilization_eq_ok_iff {utilization : Amount} :
    pool.utilization = .ok utilization ↔
      ∃ holdings, pool.holdings = .ok holdings ∧ utilizationOf holdings = .ok utilization :=
  Checked.bind_eq_ok_iff

/-- When the utilization of a pool is at most full, and what it is without deposits. -/
theorem utilization_le_full_iff {utilization : Amount}
    (used : pool.utilization = .ok utilization) :
    ∃ holdings, pool.holdings = .ok holdings ∧
      (utilization.val ≤ Scale.utilization.val ↔
        holdings.deposit.val = 0 ∨
          holdings.borrow.val * Scale.utilization.val <
            (Scale.utilization.val + 1) * holdings.deposit.val) ∧
      (holdings.deposit.val = 0 → holdings.borrow.val = 0 → utilization.val = 0) ∧
      (holdings.deposit.val = 0 → holdings.borrow.val ≠ 0 →
        utilization.val = Scale.utilization.val) := by
  obtain ⟨holdings, held, usedOf⟩ := utilization_eq_ok_iff.1 used
  refine ⟨holdings, held, utilizationOf_le_full_iff usedOf, ?_, ?_⟩
  · intro noDeposits noBorrows
    rwa [utilizationOf_eq_ok_iff, if_pos noDeposits, if_pos noBorrows] at usedOf
  · intro noDeposits borrows
    rwa [utilizationOf_eq_ok_iff, if_pos noDeposits, if_neg borrows] at usedOf

/-- A pool that has lent half a part of the scale more than is deposited. -/
def strainedPool : LendingPool := { scaled := ⟨.lit 2000000, .lit 2000001⟩ }

theorem utilization_le_full_of_strained :
    strainedPool.utilization = .ok Scale.utilization ∧
      strainedPool.holdings = .ok ⟨.lit 2000000, .lit 2000001⟩ ∧
      (Scale.utilization.val ≤ Scale.utilization.val ↔
        (2000000 : Int) = 0 ∨
          2000001 * Scale.utilization.val < (Scale.utilization.val + 1) * 2000000) := by
  have used : strainedPool.utilization = .ok Scale.utilization := rfl
  obtain ⟨holdings, held, withinIff, -, -⟩ := utilization_le_full_iff used
  obtain rfl : ⟨.lit 2000000, .lit 2000001⟩ = holdings := Except.ok.inj held
  exact ⟨used, held, withinIff⟩

/-- A pool whose depositors have withdrawn half of what is lent. -/
def overlentPool : LendingPool := { scaled := ⟨.lit 1000000, .lit 2000000⟩ }

/-- The utilization of that pool is twice the full one. -/
theorem utilization_exceeds_full :
    ¬ ∀ (pool : LendingPool) (utilization : Amount), pool.utilization = .ok utilization →
      utilization.val ≤ Scale.utilization.val := by
  intro bounded
  exact absurd (bounded overlentPool (.lit 2000000) rfl) (by decide)

end LendingPool

end Leverage
