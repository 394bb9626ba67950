import Leverage.Lending.Accrual
import Leverage.Proofs.Lending.Utilization
import Mathlib.Tactic.GCongr
import Mathlib.Tactic.Ring

/-!
# Interest

What the growth of the two indices is made of, and that it never credits depositors with more than
borrowers are charged.

`interest_cases` opens what an accrual returns. Both indices grow by a product divided by `rateYear`;
the two divisions one after the other floor no more than one division by the product.

`interest_backed` compares the two sides in scaled units. All floors on the way work for the pool
except that of the deposited tokens, by which the utilization is divided: it is what makes the
utilization larger than the share of the deposits that is lent. So the credit is within a factor
`(tokens + 1) / tokens` of the charge, and within the charge itself if there are no whole tokens.
-/

namespace Leverage

/-! ## Growth of one index -/

/-- What an index times a rate and the seconds it was in force is divided by. -/
def rateYear : Int := Scale.year.val * Scale.rate.val

theorem rateYear_pos : 0 < rateYear := mul_pos Scale.year_pos Scale.rate_pos

theorem indexGrowth_eq_ok_iff {index rateTime growth : Amount} :
    indexGrowth index rateTime = .ok growth ↔
      index.val * rateTime.val < 2 ^ 128 ∧ growth.val = index.val * rateTime.val / rateYear := by
  have nested : index.val * rateTime.val / Scale.year.val / Scale.rate.val =
      index.val * rateTime.val / rateYear := Int.ediv_ediv_of_nonneg Scale.year_pos.le
  simp only [indexGrowth, Checked.bind_eq_ok_iff]
  constructor
  · intro grown
    rcases grown with ⟨yearly, yearlyEq, growthEq⟩
    rw [Word.unsigned_mulDiv_eq_ok_iff] at yearlyEq
    rw [Word.unsigned_div_eq_ok_iff, yearlyEq.2.2, nested] at growthEq
    exact ⟨yearlyEq.1, growthEq.2⟩
  · intro exact
    rcases exact with ⟨fits, growthEq⟩
    obtain ⟨yearly, yearlyEq⟩ :=
      Word.exists_unsigned_mulDiv_eq_ok_iff.2 ⟨fits, Scale.year_pos.ne'⟩
    refine ⟨yearly, yearlyEq, ?_⟩
    rw [Word.unsigned_div_eq_ok_iff, (Word.unsigned_mulDiv_eq_ok_iff.1 yearlyEq).2.2, nested]
    exact ⟨Scale.rate_pos.ne', growthEq⟩

/-! ## Growth of both indices -/

namespace LendingPool

variable {pool : LendingPool} {now : Timestamp} {growth : BySide Amount}

/-- A pool that is not used earns nothing. One that is used charges its rate for the time since the
last accrual, rounded up, and credits the utilized part of that, rounded down. -/
theorem interest_cases (accrued : pool.interest now = .ok growth) :
    ∃ holdings utilization, pool.holdings = .ok holdings ∧
      utilizationOf holdings = .ok utilization ∧
      (utilization.val = 0 ∧ growth = ⟨0, 0⟩ ∨
        utilization.val ≠ 0 ∧ ∃ rate borrowTime depositTime : Amount,
          pool.curve.rateAt utilization = .ok rate ∧
          pool.accruedAt.val ≤ now.val ∧
          borrowTime.val = rate.val * (now.val - pool.accruedAt.val) ∧
          depositTime.val = borrowTime.val * utilization.val / Scale.utilization.val ∧
          growth.borrow.val = pool.index.borrow.val * borrowTime.val / rateYear + 1 ∧
          growth.deposit.val = pool.index.deposit.val * depositTime.val / rateYear) := by
  simp only [interest, Checked.bind_eq_ok_iff, utilization_eq_ok_iff] at accrued
  rcases accrued with ⟨utilization, ⟨holdings, held, used⟩, accrued⟩
  refine ⟨holdings, utilization, held, used, ?_⟩
  split at accrued
  · next unused =>
    exact Or.inl ⟨Word.eq_zero_iff.1 unused, (Checked.pure_eq_ok_iff.1 accrued).symm⟩
  · next inUse =>
    refine Or.inr ⟨mt Word.eq_zero_iff.2 inUse, ?_⟩
    simp only [Checked.bind_eq_ok_iff, Word.sub_eq_ok_iff, Word.cast_eq_ok_iff, Word.mul_eq_ok_iff,
      Word.unsigned_mulDiv_eq_ok_iff, indexGrowth_eq_ok_iff, Rounding.adjust_eq_ok_iff,
      Checked.pure_eq_ok_iff] at accrued
    rcases accrued with ⟨rate, rateEq, passed, passedEq, elapsed, elapsedEq, borrowTime,
      borrowTimeEq, depositTime, ⟨-, -, depositTimeEq⟩, chargeFloor, ⟨-, chargeFloorEq⟩, charge,
      chargeEq, creditFloor, ⟨-, creditFloorEq⟩, credit, creditEq, rfl⟩
    rw [elapsedEq, passedEq] at borrowTimeEq
    have elapsedNonneg := Word.unsigned_nonneg elapsed
    have inOrder : pool.accruedAt.val ≤ now.val := by omega
    simp only [chargeFloorEq, if_true] at chargeEq
    simp only [creditFloorEq, reduceCtorEq, if_false, add_zero] at creditEq
    exact ⟨rate, borrowTime, depositTime, rateEq, inOrder, borrowTimeEq, depositTimeEq, chargeEq,
      creditEq⟩

/-! ## Credit against charge -/

/-- The chain from the credit of the depositors to the charge of the borrowers. Each step gives up
one floor; `x` and `y` are the weights with which the utilization and the worth of the deposits are
bounded. -/
private theorem credit_mul_le_charge_mul
    {deposits depositIndex borrows borrowIndex lent lift borrowTime utilization x y : Int}
    {scale divisor : Int} (scalePos : 0 < scale) (divisorPos : 0 < divisor)
    (depositsNonneg : 0 ≤ deposits) (depositIndexNonneg : 0 ≤ depositIndex)
    (borrowsNonneg : 0 ≤ borrows) (lentNonneg : 0 ≤ lent) (borrowTimeNonneg : 0 ≤ borrowTime)
    (xNonneg : 0 ≤ x) (yNonneg : 0 ≤ y)
    (used : utilization * x ≤ lent * scale)
    (worth : deposits * depositIndex ≤ y * lift)
    (owed : lent * lift ≤ borrows * borrowIndex) :
    deposits * (depositIndex * (borrowTime * utilization / scale) / divisor) * x ≤
      borrows * (borrowIndex * borrowTime / divisor + 1) * y := by
  have creditLe := Int.ediv_mul_le (depositIndex * (borrowTime * utilization / scale)) divisorPos.ne'
  have shareLe := Int.ediv_mul_le (borrowTime * utilization) scalePos.ne'
  have chargeGe := (Int.lt_ediv_add_one_mul_self (borrowIndex * borrowTime) divisorPos).le
  generalize depositIndex * (borrowTime * utilization / scale) / divisor = credit at *
  generalize borrowTime * utilization / scale = depositTime at *
  generalize borrowIndex * borrowTime / divisor + 1 = charge at *
  refine le_of_mul_le_mul_right ?_ (mul_pos divisorPos scalePos)
  calc deposits * credit * x * (divisor * scale)
      = deposits * (credit * divisor) * x * scale := by ring
    _ ≤ deposits * (depositIndex * depositTime) * x * scale := by gcongr
    _ = deposits * depositIndex * (depositTime * scale) * x := by ring
    _ ≤ deposits * depositIndex * (borrowTime * utilization) * x := by gcongr
    _ = deposits * depositIndex * borrowTime * (utilization * x) := by ring
    _ ≤ deposits * depositIndex * borrowTime * (lent * scale) := by gcongr
    _ = deposits * depositIndex * (borrowTime * (lent * scale)) := by ring
    _ ≤ y * lift * (borrowTime * (lent * scale)) := by gcongr
    _ = borrowTime * y * scale * (lent * lift) := by ring
    _ ≤ borrowTime * y * scale * (borrows * borrowIndex) := by gcongr
    _ = borrows * (borrowIndex * borrowTime) * y * scale := by ring
    _ ≤ borrows * (charge * divisor) * y * scale := by gcongr
    _ = borrows * charge * y * (divisor * scale) := by ring

/-- Any pair of weights that bounds the utilization and the worth of the deposits also bounds the
credit by the charge. -/
theorem credit_mul_le_charge_mul_of_bounds {holdings : BySide Amount} {utilization : Amount}
    {x y : Int} (accrued : pool.interest now = .ok growth) (held : pool.holdings = .ok holdings)
    (used : utilizationOf holdings = .ok utilization) (xNonneg : 0 ≤ x) (yNonneg : 0 ≤ y)
    (usedLe : utilization.val * x ≤ holdings.borrow.val * Scale.utilization.val)
    (worthLe : pool.scaled.deposit.val * pool.index.deposit.val ≤ y * pool.lift) :
    pool.scaled.deposit.val * growth.deposit.val * x ≤
      pool.scaled.borrow.val * growth.borrow.val * y := by
  obtain ⟨holdings', utilization', held', used', growths⟩ := interest_cases accrued
  obtain rfl : holdings' = holdings := Except.ok.inj (held'.symm.trans held)
  obtain rfl : utilization' = utilization := Except.ok.inj (used'.symm.trans used)
  rcases growths with ⟨-, rfl⟩ | ⟨-, rate, borrowTime, depositTime, -, -, -, depositTimeEq,
    chargeEq, creditEq⟩
  · simp only [Word.val_zero, mul_zero, zero_mul, le_refl]
  · rw [depositTimeEq] at creditEq
    rw [creditEq, chargeEq]
    exact credit_mul_le_charge_mul Scale.utilization_pos rateYear_pos (Word.unsigned_nonneg _)
      (Word.unsigned_nonneg _) (Word.unsigned_nonneg _) (Word.unsigned_nonneg _)
      (Word.unsigned_nonneg _) xNonneg yNonneg usedLe worthLe
      (tokens_mul_lift_le (holdings_eq_ok_iff.1 held).2)

/-- In scaled units depositors are never credited with more than borrowers are charged, beyond the
factor by which flooring the deposited tokens raises the utilization. -/
theorem interest_backed (accrued : pool.interest now = .ok growth) :
    ∃ tokens, pool.tokens .deposit = .ok tokens ∧
      pool.scaled.deposit.val * growth.deposit.val * tokens.val ≤
        pool.scaled.borrow.val * growth.borrow.val * (tokens.val + 1) ∧
      (tokens.val = 0 →
        pool.scaled.deposit.val * growth.deposit.val ≤
          pool.scaled.borrow.val * growth.borrow.val) := by
  obtain ⟨holdings, utilization, held, used, -⟩ := interest_cases accrued
  have depositEq := (holdings_eq_ok_iff.1 held).1
  have tokensNonneg := Word.unsigned_nonneg holdings.deposit
  have worthLt := lt_tokens_add_one_mul_lift depositEq
  refine ⟨holdings.deposit, depositEq, ?_, ?_⟩
  · exact credit_mul_le_charge_mul_of_bounds accrued held used tokensNonneg (by omega)
      (utilization_mul_deposit_le used) worthLt.le
  · intro noTokens
    -- Without whole tokens the deposits are worth less than one, and what is lent is at least that.
    rw [noTokens, zero_add] at worthLt
    have usedLe := utilization_le_borrow_of_no_deposits used noTokens
    rw [← mul_one utilization.val] at usedLe
    have backed := credit_mul_le_charge_mul_of_bounds accrued held used zero_le_one zero_le_one
      usedLe worthLt.le
    rwa [mul_one, mul_one] at backed

/-- A pool past the kink of its curve, with indices at which no conversion is exact. -/
def lentPool : LendingPool where
  index := ⟨.lit 10300000001, .lit 10700000003⟩
  scaled := ⟨.lit 1000003, .lit 900007⟩
  curve := ⟨.lit 800000, .lit 100000, .lit 1000000⟩

theorem interest_backed_after_day :
    lentPool.interest Scale.day = .ok ⟨.lit 18661084, .lit 20734461⟩ ∧
      ∃ tokens, lentPool.tokens .deposit = .ok tokens ∧
        1000003 * 18661084 * tokens.val ≤ 900007 * 20734461 * (tokens.val + 1) ∧
        (tokens.val = 0 → (1000003 : Int) * 18661084 ≤ 900007 * 20734461) :=
  ⟨rfl, @interest_backed lentPool Scale.day ⟨.lit 18661084, .lit 20734461⟩ rfl⟩

end LendingPool

end Leverage
