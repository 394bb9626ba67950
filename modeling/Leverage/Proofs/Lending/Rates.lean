import Leverage.Proofs.Lending.RateCurve
import Leverage.Proofs.Lending.Utilization

/-!
# The rates of a pool

A pool charges the rate of its curve at its utilization and pays depositors the utilized part of it.

`rates_accurate` is about pools with a rising curve whose deposits cover what is borrowed: both rates
are there, the charge falls short of the exact curve by less than two units and is no more than the
rate at full utilization, and depositors earn no more than the charge.

`rates_le_of_borrows_le` is about every pool, whatever its curve: if its rates can be computed, they
can be with less borrowed, and are no larger. It carries that order from the tokens through the
utilization to the curve.
-/

namespace Leverage.LendingPool

variable {pool : LendingPool} {holdings : BySide Amount} {utilization rate earned : Amount}

theorem borrowRate_eq_ok_iff :
    pool.borrowRate = .ok rate ↔
      ∃ utilization, pool.utilization = .ok utilization ∧ pool.curve.rateAt utilization = .ok rate :=
  Checked.bind_eq_ok_iff

theorem depositRate_eq_ok_iff :
    pool.depositRate = .ok earned ↔
      ∃ utilization, pool.utilization = .ok utilization ∧
        ∃ rate, pool.curve.rateAt utilization = .ok rate ∧
          rate.mulDiv utilization Scale.utilization = .ok earned := by
  simp only [depositRate, Checked.bind_eq_ok_iff]

/-! ## Rates against the exact curve -/

/-- The utilized part of the rate at full utilization is far from the bound of an amount. -/
theorem exists_earned_le {curve : RateCurve} (rateLe : rate.val ≤ curve.fullRate.val)
    (within : utilization.val ≤ Scale.utilization.val) :
    ∃ earned, rate.mulDiv utilization Scale.utilization = .ok earned ∧ earned.val ≤ rate.val := by
  have scalePos := Scale.utilization_pos
  have rateNonneg := Word.unsigned_nonneg rate
  have productLe : rate.val * utilization.val ≤ rate.val * Scale.utilization.val := by gcongr
  have fits : rate.val * utilization.val < 2 ^ 128 := by
    calc rate.val * utilization.val ≤ rate.val * Scale.utilization.val := productLe
      _ ≤ curve.fullRate.val * Scale.utilization.val := by gcongr
      _ < 2 ^ 128 := RateCurve.ratio_mul_scale_lt curve.fullRate
  obtain ⟨earned, earnedEq⟩ := Word.exists_unsigned_mulDiv_eq_ok_iff.2 ⟨fits, scalePos.ne'⟩
  refine ⟨earned, earnedEq, ?_⟩
  rw [(Word.unsigned_mulDiv_eq_ok_iff.1 earnedEq).2.2]
  exact Int.ediv_le_of_le_mul scalePos productLe

/-- A rising curve whose deposits cover the borrows has both rates. The charge is the exact one to
within two units below, and depositors earn no more than that. -/
theorem rates_accurate (rising : pool.curve.Rising) (held : pool.holdings = .ok holdings)
    (covered : holdings.borrow.val ≤ holdings.deposit.val)
    (used : pool.utilization = .ok utilization) :
    ∃ rate earned, pool.borrowRate = .ok rate ∧ pool.depositRate = .ok earned ∧
      pool.curve.exactRate utilization.val - 2 < rate.val ∧
      (rate.val : ℚ) ≤ pool.curve.exactRate utilization.val ∧
      rate.val ≤ pool.curve.fullRate.val ∧ earned.val ≤ rate.val := by
  obtain ⟨holdings', held', usedOf⟩ := utilization_eq_ok_iff.1 used
  obtain rfl : holdings' = holdings := Except.ok.inj (held'.symm.trans held)
  have within := utilization_le_full_of_covered usedOf covered
  obtain ⟨rate, rated, rateLe⟩ := rising.exists_rateAt within
  obtain ⟨exactLt, leExact⟩ := RateCurve.rateAt_accurate within rated
  obtain ⟨earned, earnedEq, earnedLe⟩ := exists_earned_le rateLe within
  exact ⟨rate, earned, borrowRate_eq_ok_iff.2 ⟨utilization, used, rated⟩,
    depositRate_eq_ok_iff.2 ⟨utilization, used, rate, rated, earnedEq⟩, exactLt, leExact, rateLe,
    earnedLe⟩

/-- A pool past the kink of a curve on which both floors cost something. -/
def bentPool : LendingPool where
  scaled := ⟨.lit 1000003, .lit 900007⟩
  curve := ⟨.lit 700003, .lit 99991, .lit 1000003⟩

theorem rates_accurate_of_bentPool :
    bentPool.curve.Rising ∧ bentPool.holdings = .ok ⟨.lit 1000003, .lit 900007⟩ ∧
      bentPool.utilization = .ok (.lit 900004) ∧
      ∃ rate earned, bentPool.borrowRate = .ok rate ∧ bentPool.depositRate = .ok earned ∧
        bentPool.curve.exactRate (.lit 900004 : Amount).val - 2 < rate.val ∧
        (rate.val : ℚ) ≤ bentPool.curve.exactRate (.lit 900004 : Amount).val ∧
        rate.val ≤ 1000003 ∧
        earned.val ≤ rate.val := by
  have rising : bentPool.curve.Rising := ⟨by decide, by decide, by decide⟩
  have held : bentPool.holdings = .ok ⟨.lit 1000003, .lit 900007⟩ := rfl
  have used : bentPool.utilization = .ok (.lit 900004) := rfl
  exact ⟨rising, held, used, rates_accurate rising held (by decide) used⟩

/-! ## Rates with less borrowed -/

/-- The pool with another scaled balance borrowed, and the same in all else. -/
def withBorrows (pool : LendingPool) (scaled : Amount) : LendingPool :=
  { pool with scaled := pool.scaled.set .borrow scaled }

variable {fewer more : Amount}

/-- Where a pool has a utilization, it has one with less borrowed, and no larger one. -/
theorem exists_utilization_le (le : fewer.val ≤ more.val)
    (used : (pool.withBorrows more).utilization = .ok utilization) :
    ∃ less, (pool.withBorrows fewer).utilization = .ok less ∧ less.val ≤ utilization.val := by
  obtain ⟨holdings, held, usedOf⟩ := utilization_eq_ok_iff.1 used
  obtain ⟨heldDeposit, heldBorrow⟩ := holdings_eq_ok_iff.1 held
  obtain ⟨tokens, heldFewer, tokensLe⟩ := exists_tokensOfScaled_le le heldBorrow
  obtain ⟨less, usedFewer, lessLe⟩ := exists_utilizationOf_le tokensLe usedOf
  have heldBoth : (pool.withBorrows fewer).holdings = .ok { holdings with borrow := tokens } :=
    holdings_eq_ok_iff.2 ⟨heldDeposit, heldFewer⟩
  exact ⟨less, utilization_eq_ok_iff.2 ⟨_, heldBoth, usedFewer⟩, lessLe⟩

/-- Whatever the curve of a pool, where its rates can be computed they can be with less borrowed, and
are no larger. -/
theorem rates_le_of_borrows_le (pool : LendingPool) (le : fewer ≤ more) :
    (∀ rate, (pool.withBorrows more).borrowRate = .ok rate →
      ∃ less, (pool.withBorrows fewer).borrowRate = .ok less ∧ less ≤ rate) ∧
    ∀ earned, (pool.withBorrows more).depositRate = .ok earned →
      ∃ less, (pool.withBorrows fewer).depositRate = .ok less ∧ less ≤ earned := by
  constructor
  · intro rate charged
    obtain ⟨utilization, used, rated⟩ := borrowRate_eq_ok_iff.1 charged
    obtain ⟨lower, usedFewer, lowerLe⟩ := exists_utilization_le le used
    obtain ⟨less, ratedFewer, lessLe⟩ := RateCurve.exists_rateAt_le lowerLe rated
    exact ⟨less, borrowRate_eq_ok_iff.2 ⟨lower, usedFewer, ratedFewer⟩, lessLe⟩
  · intro earned paid
    obtain ⟨utilization, used, rate, rated, shared⟩ := depositRate_eq_ok_iff.1 paid
    obtain ⟨lower, usedFewer, lowerLe⟩ := exists_utilization_le le used
    obtain ⟨lowerRate, ratedFewer, rateLe⟩ := RateCurve.exists_rateAt_le lowerLe rated
    have productLe : lowerRate.val * lower.val ≤ rate.val * utilization.val :=
      mul_le_mul rateLe lowerLe (Word.unsigned_nonneg _) (Word.unsigned_nonneg _)
    obtain ⟨less, sharedFewer, lessLe⟩ := Word.exists_unsigned_mulDiv_le productLe shared
    exact ⟨less,
      depositRate_eq_ok_iff.2 ⟨lower, usedFewer, lowerRate, ratedFewer, sharedFewer⟩, lessLe⟩

/-- Two loans on either side of the kink. -/
theorem rates_le_of_bentPool :
    (.lit 600001 : Amount) ≤ .lit 900007 ∧
      (bentPool.withBorrows (.lit 900007)).borrowRate = .ok (.lit 700008) ∧
      (∃ less, (bentPool.withBorrows (.lit 600001)).borrowRate = .ok less ∧ less ≤ .lit 700008) ∧
      (bentPool.withBorrows (.lit 900007)).depositRate = .ok (.lit 630010) ∧
      ∃ less, (bentPool.withBorrows (.lit 600001)).depositRate = .ok less ∧ less ≤ .lit 630010 := by
  have ascending : (.lit 600001 : Amount) ≤ .lit 900007 := by decide
  obtain ⟨charged, paid⟩ := rates_le_of_borrows_le bentPool ascending
  exact ⟨ascending, rfl, charged _ rfl, rfl, paid _ rfl⟩

end Leverage.LendingPool
