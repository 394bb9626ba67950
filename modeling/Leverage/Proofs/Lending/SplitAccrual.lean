import Leverage.Proofs.Lending.Accrual
import Mathlib.Tactic.Ring

/-!
# Interest over the parts of a period

What a pool would charge and credit for the parts of a period, each read on its own from the last
accrual on, against what it charges and credits for the whole.

The utilization and the rate do not hang on the time, so two parts share them, and each growth is a
floor of something proportional to the seconds. `exists_interestAfter_add` is about two parts: no
computation for a part fails where that for the whole does not, the unit by which each charge is
rounded up makes good for what its floor leaves out, and the floors of the credits only ever lose.
`parts_favour_pool` carries this over any number of parts.
-/

namespace Leverage

/-! ## Less time -/

/-- The seconds that have passed at an earlier time, where there is a later one. -/
theorem exists_elapsed_le {start earlier later passed : Timestamp} {elapsed : Amount}
    (since : start.val ≤ earlier.val) (le : earlier.val ≤ later.val)
    (passedEq : later.sub start = .ok passed) (elapsedEq : passed.cast _ = .ok elapsed) :
    ∃ (lessPassed : Timestamp) (less : Amount), earlier.sub start = .ok lessPassed ∧
      lessPassed.cast _ = .ok less ∧ less.val ≤ elapsed.val := by
  rw [Word.sub_eq_ok_iff] at passedEq
  rw [Word.cast_eq_ok_iff] at elapsedEq
  have nonneg : 0 ≤ earlier.val - start.val := sub_nonneg.2 since
  have lessLe : earlier.val - start.val ≤ passed.val := by
    rw [passedEq]
    exact Int.sub_le_sub_right le _
  obtain ⟨lessPassed, lessPassedEq⟩ := Word.exists_val_eq_of_le passed nonneg lessLe
  rw [← lessPassedEq] at nonneg lessLe
  rw [← elapsedEq] at lessLe
  obtain ⟨less, lessEq⟩ := Word.exists_val_eq_of_le elapsed nonneg lessLe
  exact ⟨lessPassed, less, Word.sub_eq_ok_iff.2 lessPassedEq, Word.cast_eq_ok_iff.2 lessEq,
    lessEq ▸ lessLe⟩

theorem exists_indexGrowth_le {index time lessTime growth : Amount}
    (le : lessTime.val ≤ time.val) (grown : indexGrowth index time = .ok growth) :
    ∃ less, indexGrowth index lessTime = .ok less ∧ less.val ≤ growth.val := by
  have productLe : index.val * lessTime.val ≤ index.val * time.val :=
    mul_le_mul_of_nonneg_left le (Word.unsigned_nonneg index)
  simp only [indexGrowth, Checked.bind_eq_ok_iff] at grown ⊢
  rcases grown with ⟨yearly, yearlyEq, growthEq⟩
  obtain ⟨lessYearly, lessYearlyEq, yearlyLe⟩ := Word.exists_unsigned_mulDiv_le productLe yearlyEq
  obtain ⟨less, lessEq, lessLe⟩ := Word.exists_unsigned_div_le yearlyLe growthEq
  exact ⟨less, ⟨lessYearly, lessYearlyEq, lessEq⟩, lessLe⟩

theorem Rounding.exists_adjust_of_le {rounding : Rounding} {floored lower adjusted : Amount}
    (le : lower.val ≤ floored.val) (rounded : rounding.adjust floored = .ok adjusted) :
    ∃ less, rounding.adjust lower = .ok less := by
  rw [adjust_eq_ok_iff] at rounded
  have extraNonneg : (0 : Int) ≤ if rounding = .up then 1 else 0 := by split <;> decide
  have sumNonneg := add_nonneg (Word.unsigned_nonneg lower) extraNonneg
  have sumLe : lower.val + (if rounding = .up then 1 else 0) ≤ adjusted.val := by
    rw [rounded]
    exact Int.add_le_add_right le _
  obtain ⟨less, lessEq⟩ := Word.exists_val_eq_of_le adjusted sumNonneg sumLe
  exact ⟨less, adjust_eq_ok_iff.2 lessEq⟩

namespace LendingPool

variable {pool : LendingPool} {now earlier : Timestamp} {growth whole : BySide Amount}
  {fewer seconds first second : Nat} {durations : List Nat}

/-- Where a pool has interest up to a time, it has interest up to every earlier one since its last
accrual. -/
theorem exists_interest_of_le (since : pool.accruedAt.val ≤ earlier.val)
    (le : earlier.val ≤ now.val) (accrued : pool.interest now = .ok growth) :
    ∃ less, pool.interest earlier = .ok less := by
  simp only [interest, Checked.bind_eq_ok_iff] at accrued ⊢
  rcases accrued with ⟨utilization, used, accrued⟩
  by_cases unused : utilization = 0
  · refine ⟨⟨0, 0⟩, utilization, used, ?_⟩
    rw [if_pos unused]
    rfl
  rw [if_neg unused] at accrued
  simp only [Checked.bind_eq_ok_iff] at accrued
  rcases accrued with ⟨rate, rated, passed, passedEq, elapsed, elapsedEq, borrowTime, borrowTimeEq,
    depositTime, depositTimeEq, chargeFloor, chargeFloorEq, charge, chargeEq, creditFloor,
    creditFloorEq, credit, creditEq, -⟩
  -- No step on the way to the earlier time is asked for more than on the way to the later one.
  obtain ⟨lessPassed, lessElapsed, lessPassedEq, lessElapsedEq, elapsedLe⟩ :=
    exists_elapsed_le since le passedEq elapsedEq
  have borrowLe := mul_le_mul_of_nonneg_left elapsedLe (Word.unsigned_nonneg rate)
  obtain ⟨lessBorrowTime, lessBorrowTimeEq, borrowTimeLe⟩ :=
    Word.exists_unsigned_mul_le borrowLe borrowTimeEq
  have depositLe := mul_le_mul_of_nonneg_right borrowTimeLe (Word.unsigned_nonneg utilization)
  obtain ⟨lessDepositTime, lessDepositTimeEq, depositTimeLe⟩ :=
    Word.exists_unsigned_mulDiv_le depositLe depositTimeEq
  obtain ⟨lessChargeFloor, lessChargeFloorEq, chargeFloorLe⟩ :=
    exists_indexGrowth_le borrowTimeLe chargeFloorEq
  obtain ⟨lessCharge, lessChargeEq⟩ := Rounding.exists_adjust_of_le chargeFloorLe chargeEq
  obtain ⟨lessCreditFloor, lessCreditFloorEq, creditFloorLe⟩ :=
    exists_indexGrowth_le depositTimeLe creditFloorEq
  obtain ⟨lessCredit, lessCreditEq⟩ := Rounding.exists_adjust_of_le creditFloorLe creditEq
  refine ⟨⟨lessCredit, lessCharge⟩, utilization, used, ?_⟩
  rw [if_neg unused]
  simp only [Checked.bind_eq_ok_iff]
  exact ⟨rate, rated, lessPassed, lessPassedEq, lessElapsed, lessElapsedEq, lessBorrowTime,
    lessBorrowTimeEq, lessDepositTime, lessDepositTimeEq, lessChargeFloor, lessChargeFloorEq,
    lessCharge, lessChargeEq, lessCreditFloor, lessCreditFloorEq, lessCredit, lessCreditEq, rfl⟩

/-! ## What a number of seconds adds -/

/-- The interest over a number of seconds from the last accrual on. -/
def interestAfter (pool : LendingPool) (seconds : Nat) : Checked (BySide Amount) := do
  pool.interest (← Word.fit _ .overflow (pool.accruedAt.val + seconds))

theorem interestAfter_eq_ok_iff :
    pool.interestAfter seconds = .ok growth ↔
      ∃ now : Timestamp, now.val = pool.accruedAt.val + seconds ∧
        pool.interest now = .ok growth := by
  simp only [interestAfter, Checked.bind_eq_ok_iff, Word.fit_eq_ok_iff]

theorem exists_interestAfter_of_le (le : fewer ≤ seconds)
    (accrued : pool.interestAfter seconds = .ok growth) :
    ∃ less, pool.interestAfter fewer = .ok less := by
  obtain ⟨now, nowEq, accruedNow⟩ := interestAfter_eq_ok_iff.1 accrued
  have lower := pool.accruedAt.lo_le
  have upper := now.lt_hi
  obtain ⟨earlier, earlierEq⟩ : ∃ earlier : Timestamp, earlier.val = pool.accruedAt.val + fewer :=
    Word.exists_val_eq_iff.2 ⟨by omega, by omega⟩
  have since : pool.accruedAt.val ≤ earlier.val := by omega
  have notLater : earlier.val ≤ now.val := by omega
  obtain ⟨less, accruedEarlier⟩ := exists_interest_of_le since notLater accruedNow
  exact ⟨less, interestAfter_eq_ok_iff.2 ⟨earlier, earlierEq, accruedEarlier⟩⟩

/-- What borrowers are charged at a rate, as growth of their index. -/
def charge (pool : LendingPool) (rate : Amount) (seconds : Nat) : Int :=
  pool.index.borrow.val * (rate.val * seconds) / rateYear + 1

/-- What depositors are credited at a rate and a utilization, as growth of their index. -/
def credit (pool : LendingPool) (rate utilization : Amount) (seconds : Nat) : Int :=
  pool.index.deposit.val * (rate.val * seconds * utilization.val / Scale.utilization.val) / rateYear

theorem interestAfter_cases (accrued : pool.interestAfter seconds = .ok growth) :
    ∃ utilization, pool.utilization = .ok utilization ∧
      (utilization.val = 0 ∧ growth = ⟨0, 0⟩ ∨
        utilization.val ≠ 0 ∧ ∃ rate, pool.curve.rateAt utilization = .ok rate ∧
          growth.borrow.val = pool.charge rate seconds ∧
          growth.deposit.val = pool.credit rate utilization seconds) := by
  obtain ⟨now, nowEq, accruedNow⟩ := interestAfter_eq_ok_iff.1 accrued
  obtain ⟨holdings, utilization, held, used, growths⟩ := interest_cases accruedNow
  refine ⟨utilization, utilization_eq_ok_iff.2 ⟨holdings, held, used⟩, ?_⟩
  rcases growths with unused | ⟨inUse, rate, borrowTime, depositTime, rated, -, borrowTimeEq,
    depositTimeEq, chargeEq, creditEq⟩
  · exact Or.inl unused
  · rw [nowEq, add_sub_cancel_left] at borrowTimeEq
    rw [borrowTimeEq] at chargeEq depositTimeEq
    rw [depositTimeEq] at creditEq
    exact Or.inr ⟨inUse, rate, rated, chargeEq, creditEq⟩

/-- A pool earns nothing, however long it is left, or its rate and its utilization are the same for
every length of time. -/
theorem interestAfter_shared (accrued : pool.interestAfter seconds = .ok growth) :
    (∀ fewer less, pool.interestAfter fewer = .ok less → less = ⟨0, 0⟩) ∨
      ∃ rate utilization, ∀ fewer less, pool.interestAfter fewer = .ok less →
        less.borrow.val = pool.charge rate fewer ∧
        less.deposit.val = pool.credit rate utilization fewer := by
  obtain ⟨utilization, used, growths⟩ := interestAfter_cases accrued
  rcases growths with ⟨unused, -⟩ | ⟨inUse, rate, rated, -⟩
  · left
    intro fewer less accruedLess
    obtain ⟨utilization', used', growths⟩ := interestAfter_cases accruedLess
    obtain rfl : utilization' = utilization := Except.ok.inj (used'.symm.trans used)
    exact (growths.resolve_right fun inUse => inUse.1 unused).2
  · right
    refine ⟨rate, utilization, ?_⟩
    intro fewer less accruedLess
    obtain ⟨utilization', used', growths⟩ := interestAfter_cases accruedLess
    obtain rfl : utilization' = utilization := Except.ok.inj (used'.symm.trans used)
    obtain ⟨-, rate', rated', charged⟩ := growths.resolve_left fun unused => inUse unused.1
    obtain rfl : rate' = rate := Except.ok.inj (rated'.symm.trans rated)
    exact charged

/-! ## Two parts -/

theorem charge_add_bounds (pool : LendingPool) (rate : Amount) (first second : Nat) :
    pool.charge rate (first + second) ≤ pool.charge rate first + pool.charge rate second ∧
      pool.charge rate first + pool.charge rate second ≤ pool.charge rate (first + second) + 1 := by
  have parts : pool.index.borrow.val * (rate.val * (first + second : Nat)) =
      pool.index.borrow.val * (rate.val * first) + pool.index.borrow.val * (rate.val * second) := by
    rw [Nat.cast_add]
    ring
  unfold charge
  rw [parts, add_ediv_of_pos rateYear_pos]
  split
  · omega
  · omega

theorem credit_add_le (pool : LendingPool) (rate utilization : Amount) (first second : Nat) :
    pool.credit rate utilization first + pool.credit rate utilization second ≤
      pool.credit rate utilization (first + second) := by
  have indexNonneg := Word.unsigned_nonneg pool.index.deposit
  have parts : rate.val * (first + second : Nat) * utilization.val =
      rate.val * first * utilization.val + rate.val * second * utilization.val := by
    rw [Nat.cast_add]
    ring
  have timesLe := Int.ediv_add_ediv_le_add_ediv (x := rate.val * first * utilization.val)
    (y := rate.val * second * utilization.val) Scale.utilization_pos
  unfold credit
  rw [parts]
  refine le_trans (Int.ediv_add_ediv_le_add_ediv rateYear_pos) (Int.ediv_le_ediv rateYear_pos ?_)
  rw [← mul_add]
  exact mul_le_mul_of_nonneg_left timesLe indexNonneg

/-- A period in two parts: the charges for the parts come to that for the whole or to one unit more,
and the credits to no more. -/
theorem exists_interestAfter_add (accrued : pool.interestAfter (first + second) = .ok whole) :
    ∃ before after, pool.interestAfter first = .ok before ∧
      pool.interestAfter second = .ok after ∧
      whole.borrow.val ≤ before.borrow.val + after.borrow.val ∧
      before.borrow.val + after.borrow.val ≤ whole.borrow.val + 1 ∧
      before.deposit.val + after.deposit.val ≤ whole.deposit.val := by
  obtain ⟨before, accruedBefore⟩ :=
    exists_interestAfter_of_le (Nat.le_add_right first second) accrued
  obtain ⟨after, accruedAfter⟩ :=
    exists_interestAfter_of_le (Nat.le_add_left second first) accrued
  refine ⟨before, after, accruedBefore, accruedAfter, ?_⟩
  rcases interestAfter_shared accrued with nothing | ⟨rate, utilization, grows⟩
  · obtain rfl := nothing _ _ accrued
    obtain rfl := nothing _ _ accruedBefore
    obtain rfl := nothing _ _ accruedAfter
    decide
  · obtain ⟨wholeCharge, wholeCredit⟩ := grows _ _ accrued
    obtain ⟨beforeCharge, beforeCredit⟩ := grows _ _ accruedBefore
    obtain ⟨afterCharge, afterCredit⟩ := grows _ _ accruedAfter
    rw [wholeCharge, wholeCredit, beforeCharge, beforeCredit, afterCharge, afterCredit]
    obtain ⟨chargeLe, leCharge⟩ := pool.charge_add_bounds rate first second
    exact ⟨chargeLe, leCharge, pool.credit_add_le rate utilization first second⟩

/-! ## Any number of parts -/

/-- What a list of growths comes to on one side. -/
def growthTotal (side : Side) (growths : List (BySide Amount)) : Int :=
  (growths.map fun growth => (growth.get side).val).sum

@[simp] theorem growthTotal_nil (side : Side) : growthTotal side [] = 0 := rfl

@[simp] theorem growthTotal_cons (side : Side) (growth : BySide Amount)
    (growths : List (BySide Amount)) :
    growthTotal side (growth :: growths) = (growth.get side).val + growthTotal side growths :=
  List.sum_cons

theorem mapM_interestAfter_cons {growths : List (BySide Amount)}
    (accrued : pool.interestAfter seconds = .ok growth)
    (read : durations.mapM pool.interestAfter = .ok growths) :
    (seconds :: durations).mapM pool.interestAfter = .ok (growth :: growths) := by
  rw [List.mapM_cons, accrued, read]
  rfl

/-- Read in parts, a period is there whenever it is there as a whole, and the parts never favour the
holders: borrowers are charged at least as much, though by less than one unit a part, and depositors
are credited no more. -/
theorem parts_favour_pool (nonempty : durations ≠ [])
    (accrued : pool.interestAfter durations.sum = .ok whole) :
    ∃ parts, durations.mapM pool.interestAfter = .ok parts ∧
      whole.borrow.val ≤ growthTotal .borrow parts ∧
      growthTotal .borrow parts ≤ whole.borrow.val + durations.length - 1 ∧
      growthTotal .deposit parts ≤ whole.deposit.val := by
  induction durations generalizing whole with
  | nil => exact absurd rfl nonempty
  | cons first rest ih =>
    rw [List.sum_cons] at accrued
    cases rest with
    | nil =>
      rw [List.sum_nil, add_zero] at accrued
      refine ⟨[whole], mapM_interestAfter_cons accrued rfl, ?_⟩
      rw [growthTotal_cons, growthTotal_cons, growthTotal_nil, growthTotal_nil, add_zero, add_zero,
        List.length_singleton, Nat.cast_one, add_sub_cancel_right]
      exact ⟨le_rfl, le_rfl, le_rfl⟩
    | cons second others =>
      obtain ⟨before, after, accruedBefore, accruedAfter, chargeLe, leCharge, creditLe⟩ :=
        exists_interestAfter_add accrued
      obtain ⟨parts, read, restLe, leRest, restCreditLe⟩ :=
        ih (List.cons_ne_nil second others) accruedAfter
      refine ⟨before :: parts, mapM_interestAfter_cons accruedBefore read, ?_⟩
      rw [growthTotal_cons, growthTotal_cons, List.length_cons, Nat.cast_succ]
      simp only [BySide.get]
      exact ⟨by omega, by omega, by omega⟩

/-- A day of the pool past its kink, in three parts. -/
theorem parts_favour_pool_of_lentPool :
    [28800, 50000, 7600] ≠ ([] : List Nat) ∧
      lentPool.interestAfter [28800, 50000, 7600].sum = .ok ⟨.lit 18661084, .lit 20734461⟩ ∧
      ∃ parts, [28800, 50000, 7600].mapM lentPool.interestAfter = .ok parts ∧
        20734461 ≤ growthTotal .borrow parts ∧
        growthTotal .borrow parts ≤ 20734461 + ([28800, 50000, 7600] : List Nat).length - 1 ∧
        growthTotal .deposit parts ≤ 18661084 := by
  have nonempty : [28800, 50000, 7600] ≠ ([] : List Nat) := List.cons_ne_nil _ _
  have accrued : lentPool.interestAfter [28800, 50000, 7600].sum =
      .ok ⟨.lit 18661084, .lit 20734461⟩ := rfl
  exact ⟨nonempty, accrued, parts_favour_pool nonempty accrued⟩

end LendingPool

end Leverage
