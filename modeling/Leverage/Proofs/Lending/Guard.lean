import Leverage.Lending.Guard
import Leverage.Proofs.Lending.Utilization

/-!
# The withdrawal guard in closed form

`blend` is the live average of one side over exact integers, `ceilingCurve` the most that may be
borrowed and `floorCurve` the least that must stay deposited. `withdrawLimits_cases` says that the
limits of a pool are its distances from the two curves at its blended averages; nothing below it opens
the guard again.

`withdrawLimits_guarded` is the guard itself: what may be borrowed is between a sixth and nine tenths
of the deposits, whatever the averages are, and what must stay is never more than four fifths of the
average. Once the pool has tokens and the time since its averages is a timestamp, no difference and no
quotient of the guard can fail.
-/

namespace Leverage

/-! ## The guard over exact integers -/

/-- A stored average and a present amount, weighed by what is left of the average's day and by what has
passed, over twice the time that has passed. Before any has, the stored average stands. -/
def blend (stored present elapsed : Int) : Int :=
  if elapsed = 0 then stored
  else (stored * max 0 (86400 - elapsed) + present * elapsed) / (2 * elapsed)

/-- A sixth of the deposits or a fifth more than the average, whichever is more, but no more than nine
tenths of the deposits. -/
def ceilingCurve (deposits average : Int) : Int :=
  min (max (deposits / 6) (average + average / 5)) (deposits - deposits / 10)

/-- What is left of the average after a fifth of it or the threshold, whichever is more. -/
def floorCurve (average threshold : Int) : Int := max 0 (average - max (average / 5) threshold)

section Curves

variable {d a stored present elapsed : Int}

theorem blend_nonneg (storedNonneg : 0 ≤ stored) (presentNonneg : 0 ≤ present)
    (elapsedNonneg : 0 ≤ elapsed) : 0 ≤ blend stored present elapsed := by
  unfold blend
  split
  · exact storedNonneg
  · exact Int.ediv_nonneg
      (add_nonneg (mul_nonneg storedNonneg (le_max_left _ _)) (mul_nonneg presentNonneg elapsedNonneg))
      (by omega)

theorem ceilingCurve_bounds (a : Int) (nonneg : 0 ≤ d) :
    d / 6 ≤ ceilingCurve d a ∧ ceilingCurve d a ≤ d - d / 10 := by
  unfold ceilingCurve
  omega

theorem floorCurve_bounds (t : Int) (nonneg : 0 ≤ a) : 0 ≤ floorCurve a t ∧ floorCurve a t ≤ a - a / 5 := by
  unfold floorCurve
  omega

end Curves

/-! ## Its parts -/

section Parts

variable {average present elapsed remaining live deposits averageBorrows ceiling averageDeposits
  threshold floor : Amount} {fault : Fault}

theorem liveAverage_eq (averaged : liveAverage average present elapsed remaining = .ok live)
    (remainingEq : remaining.val = max 0 (86400 - elapsed.val)) :
    live.val = blend average.val present.val elapsed.val := by
  unfold liveAverage at averaged
  unfold blend
  by_cases stands : elapsed.val = 0
  · rw [if_pos (Word.eq_zero_iff.2 stands), Except.ok.injEq] at averaged
    rw [if_pos stands, averaged]
  · rw [if_neg (mt Word.eq_zero_iff.1 stands)] at averaged
    simp only [Checked.bind_eq_ok_iff, Word.mul_eq_ok_iff, Word.add_eq_ok_iff,
      Word.unsigned_div_eq_ok_iff] at averaged
    obtain ⟨past, pastEq, now, nowEq, total, totalEq, twice, twiceEq, -, liveEq⟩ := averaged
    rw [if_neg stands, liveEq, totalEq, pastEq, nowEq, twiceEq, remainingEq, two_mul]

/-- The time that has passed is not zero where it is divided by. -/
theorem liveAverage_ne_error (sums : fault ≠ .overflow) :
    liveAverage average present elapsed remaining ≠ .error fault := by
  unfold liveAverage
  split
  · exact nofun
  · next moved =>
    apply Checked.bind_ne_error (Word.mul_ne_error sums)
    intro past _
    apply Checked.bind_ne_error (Word.mul_ne_error sums)
    intro now _
    apply Checked.bind_ne_error (Word.add_ne_error sums)
    intro total _
    apply Checked.bind_ne_error (Word.add_ne_error sums)
    intro twice twiceEq
    refine Word.div_ne_error sums fun _ twiceZero => moved (Word.eq_zero_iff.2 ?_)
    rw [Word.add_eq_ok_iff] at twiceEq
    omega

theorem borrowCeiling_eq (raised : borrowCeiling deposits averageBorrows = .ok ceiling) :
    ceiling.val = ceilingCurve deposits.val averageBorrows.val := by
  simp only [borrowCeiling, Checked.bind_eq_ok_iff, Checked.pure_eq_ok_iff, Word.add_eq_ok_iff,
    Word.sub_eq_ok_iff, Word.unsigned_div_eq_ok_iff] at raised
  obtain ⟨sixth, ⟨-, sixthEq⟩, fifth, ⟨-, fifthEq⟩, grown, grownEq, tenth, ⟨-, tenthEq⟩, lendable,
    lendableEq, rfl⟩ := raised
  rw [Word.val_min, Word.val_max, sixthEq, grownEq, fifthEq, lendableEq, tenthEq]
  rfl

/-- A tenth of the deposits can always be taken off them. -/
theorem borrowCeiling_ne_error (sums : fault ≠ .overflow) :
    borrowCeiling deposits averageBorrows ≠ .error fault := by
  apply Checked.bind_ne_error (Word.div_ne_error sums fun _ => by decide)
  intro sixth _
  apply Checked.bind_ne_error (Word.div_ne_error sums fun _ => by decide)
  intro fifth _
  apply Checked.bind_ne_error (Word.add_ne_error sums)
  intro grown _
  apply Checked.bind_ne_error (Word.div_ne_error sums fun _ => by decide)
  intro tenth tenthEq
  have depositsNonneg := Word.unsigned_nonneg deposits
  have tenthLe : tenth.val ≤ deposits.val := by
    rw [(Word.unsigned_div_eq_ok_iff.1 tenthEq).2]
    exact Int.ediv_le_self _ depositsNonneg
  apply Checked.bind_ne_error (Word.unsigned_sub_ne_error tenthLe)
  intro lendable _
  exact nofun

theorem depositFloor_eq (lowered : depositFloor averageDeposits threshold = .ok floor) :
    floor.val = floorCurve averageDeposits.val threshold.val := by
  simp only [depositFloor, Checked.bind_eq_ok_iff, Word.sub_eq_ok_iff,
    Word.unsigned_div_eq_ok_iff] at lowered
  obtain ⟨fifth, ⟨-, fifthEq⟩, floorEq⟩ := lowered
  rw [floorEq, Word.val_min, Word.val_max, fifthEq]
  change _ - min (max (averageDeposits.val / 5) _) _ = _
  unfold floorCurve
  omega

/-- What is taken off the average is cut to the average. -/
theorem depositFloor_ne_error (sums : fault ≠ .overflow) :
    depositFloor averageDeposits threshold ≠ .error fault := by
  apply Checked.bind_ne_error (Word.div_ne_error sums fun _ => by decide)
  intro fifth _
  apply Word.unsigned_sub_ne_error
  rw [Word.val_min]
  exact min_le_right _ _

end Parts

namespace LendingPool

variable {pool : LendingPool} {now : Timestamp} {holdings averages : BySide Amount}
  {limits : WithdrawLimits} {elapsed remaining : Amount} {fault : Fault}

/-- The seconds since the averages of the pool were stored. -/
def age (pool : LendingPool) (now : Timestamp) : Int := now.val - pool.averagedAt.val

theorem averageAge_cases (aged : pool.averageAge now = .ok (elapsed, remaining)) :
    elapsed.val = pool.age now ∧ remaining.val = max 0 (86400 - pool.age now) := by
  simp only [averageAge, Checked.bind_eq_ok_iff, Word.sub_eq_ok_iff] at aged
  obtain ⟨since, sinceEq, aged⟩ := aged
  split at aged
  · cases aged
  · simp only [Checked.bind_eq_ok_iff, Checked.pure_eq_ok_iff, Word.sub_eq_ok_iff,
      Word.cast_eq_ok_iff, Prod.mk.injEq] at aged
    obtain ⟨left, leftEq, elapsed', elapsedEq, remaining', remainingEq, rfl, rfl⟩ := aged
    refine ⟨elapsedEq.trans sinceEq, ?_⟩
    rw [remainingEq, Word.val_max, leftEq, sinceEq, Word.val_zero, max_comm]
    rfl

/-- A time that is not before the averages leaves a part of their day that is a timestamp, if maybe a
negative one. -/
theorem averageAge_ne_error (notBefore : 0 ≤ pool.age now)
    (timestamp : (Format.signed 64).Holds (pool.age now)) (casts : fault ≠ .castFailure) :
    pool.averageAge now ≠ .error fault := by
  apply Checked.bind_ne_error (Word.sub_ne_error timestamp)
  intro since sinceEq
  rw [Word.sub_eq_ok_iff] at sinceEq
  have sinceNonneg : 0 ≤ since.val := sinceEq ▸ notBefore
  have after : ¬ since < 0 := not_lt.2 sinceNonneg
  rw [if_neg after]
  have leftNonneg : 0 ≤ Scale.day.val := by decide
  apply Checked.bind_ne_error (Word.signed_sub_ne_error leftNonneg sinceNonneg)
  intro left _
  apply Checked.bind_ne_error (Word.cast_ne_error casts)
  intro elapsed _
  apply Checked.bind_ne_error (Word.cast_ne_error casts)
  intro remaining _
  exact nofun

theorem liveAverages_cases (averaged : pool.liveAverages holdings now = .ok averages) :
    0 ≤ pool.age now ∧
      averages.borrow.val =
        blend pool.average.borrow.val holdings.borrow.val (pool.age now) ∧
      averages.deposit.val =
        blend pool.average.deposit.val holdings.deposit.val (pool.age now) := by
  simp only [liveAverages, Checked.bind_eq_ok_iff, Checked.pure_eq_ok_iff] at averaged
  obtain ⟨⟨elapsed, remaining⟩, aged, borrow, borrowEq, deposit, depositEq, rfl⟩ := averaged
  obtain ⟨elapsedEq, remainingEq⟩ := averageAge_cases aged
  rw [← elapsedEq] at remainingEq ⊢
  exact ⟨Word.unsigned_nonneg elapsed, liveAverage_eq borrowEq remainingEq,
    liveAverage_eq depositEq remainingEq⟩

/-- The limits of a pool are the distances of its tokens from the two curves. -/
theorem withdrawLimits_cases (limited : pool.withdrawLimits now = .ok limits) :
    ∃ holdings, pool.holdings = .ok holdings ∧ 0 ≤ pool.age now ∧
      limits.borrow.val =
        ceilingCurve holdings.deposit.val
          (blend pool.average.borrow.val holdings.borrow.val (pool.age now)) -
        holdings.borrow.val ∧
      limits.withdraw.val =
        holdings.deposit.val -
        floorCurve (blend pool.average.deposit.val holdings.deposit.val (pool.age now))
          pool.guardThreshold.val := by
  simp only [withdrawLimits, Checked.bind_eq_ok_iff, Checked.pure_eq_ok_iff, Word.cast_eq_ok_iff,
    Word.sub_eq_ok_iff] at limited
  obtain ⟨holdings, held, averages, averaged, ceiling, raised, floor, lowered, most, mostEq,
    borrows, borrowsEq, borrow, borrowEq, deposits, depositsEq, least, leastEq, withdraw,
    withdrawEq, rfl⟩ := limited
  obtain ⟨notBefore, averageBorrowEq, averageDepositEq⟩ := liveAverages_cases averaged
  refine ⟨holdings, held, notBefore, ?_, ?_⟩
  · rw [borrowEq, mostEq, borrowsEq, borrowCeiling_eq raised, averageBorrowEq]
  · rw [withdrawEq, depositsEq, leastEq, depositFloor_eq lowered, averageDepositEq]

/-- A pool that has tokens, at a time that is not before its averages, stops at an overflow or a
failed conversion or not at all. -/
theorem withdrawLimits_ne_error (held : pool.holdings = .ok holdings) (notBefore : 0 ≤ pool.age now)
    (timestamp : (Format.signed 64).Holds (pool.age now)) (sums : fault ≠ .overflow)
    (casts : fault ≠ .castFailure) : pool.withdrawLimits now ≠ .error fault := by
  unfold withdrawLimits
  rw [held]
  have averagesNe : pool.liveAverages holdings now ≠ .error fault := by
    apply Checked.bind_ne_error (averageAge_ne_error notBefore timestamp casts)
    intro aged _
    apply Checked.bind_ne_error (liveAverage_ne_error sums)
    intro borrow _
    apply Checked.bind_ne_error (liveAverage_ne_error sums)
    intro deposit _
    exact nofun
  apply Checked.bind_ne_error averagesNe
  intro averages _
  apply Checked.bind_ne_error (borrowCeiling_ne_error sums)
  intro ceiling _
  apply Checked.bind_ne_error (depositFloor_ne_error sums)
  intro floor _
  -- Four conversions keep the sign of an amount, so neither difference leaves its format.
  apply Checked.bind_ne_error (Word.cast_ne_error casts)
  intro most mostEq
  apply Checked.bind_ne_error (Word.cast_ne_error casts)
  intro borrows borrowsEq
  have mostNonneg : 0 ≤ most.val := Word.cast_eq_ok_iff.1 mostEq ▸ Word.unsigned_nonneg ceiling
  have borrowsNonneg : 0 ≤ borrows.val :=
    Word.cast_eq_ok_iff.1 borrowsEq ▸ Word.unsigned_nonneg holdings.borrow
  apply Checked.bind_ne_error (Word.signed_sub_ne_error mostNonneg borrowsNonneg)
  intro borrow _
  apply Checked.bind_ne_error (Word.cast_ne_error casts)
  intro deposits depositsEq
  apply Checked.bind_ne_error (Word.cast_ne_error casts)
  intro least leastEq
  have depositsNonneg : 0 ≤ deposits.val :=
    Word.cast_eq_ok_iff.1 depositsEq ▸ Word.unsigned_nonneg holdings.deposit
  have leastNonneg : 0 ≤ least.val := Word.cast_eq_ok_iff.1 leastEq ▸ Word.unsigned_nonneg floor
  apply Checked.bind_ne_error (Word.signed_sub_ne_error depositsNonneg leastNonneg)
  intro withdraw _
  exact nofun

/-- The guard of a pool. What is lent and what may still be borrowed come to between a sixth and nine
tenths of the deposits. What must stay deposited is the floor of the blended average, and so no more
than four fifths of it. Where the pool has tokens and the time since its averages is a timestamp that
is not negative, the limits are there unless an amount or a conversion does not fit. -/
theorem withdrawLimits_guarded (pool : LendingPool) (now : Timestamp) :
    (∀ limits, pool.withdrawLimits now = .ok limits →
      ∃ holdings average, pool.holdings = .ok holdings ∧
        average = blend pool.average.deposit.val holdings.deposit.val
          (now.val - pool.averagedAt.val) ∧
        holdings.deposit.val / 6 ≤ holdings.borrow.val + limits.borrow.val ∧
        holdings.borrow.val + limits.borrow.val ≤
          holdings.deposit.val - holdings.deposit.val / 10 ∧
        holdings.deposit.val - limits.withdraw.val =
          max 0 (average - max (average / 5) pool.guardThreshold.val) ∧
        0 ≤ holdings.deposit.val - limits.withdraw.val ∧
        holdings.deposit.val - limits.withdraw.val ≤ average - average / 5) ∧
    ∀ holdings fault, pool.holdings = .ok holdings → pool.averagedAt ≤ now →
      (Format.signed 64).Holds (now.val - pool.averagedAt.val) →
      pool.withdrawLimits now = .error fault → fault = .overflow ∨ fault = .castFailure := by
  refine ⟨fun limits limited => ?_, fun holdings fault held notBefore timestamp stopped => ?_⟩
  · obtain ⟨holdings, held, notBefore, borrowEq, withdrawEq⟩ := withdrawLimits_cases limited
    have depositNonneg := Word.unsigned_nonneg holdings.deposit
    have averageNonneg := blend_nonneg (Word.unsigned_nonneg pool.average.deposit) depositNonneg
      notBefore
    obtain ⟨sixthLe, leLendable⟩ :=
      ceilingCurve_bounds (blend pool.average.borrow.val holdings.borrow.val (pool.age now))
        depositNonneg
    obtain ⟨floorNonneg, floorLe⟩ := floorCurve_bounds pool.guardThreshold.val averageNonneg
    have lentEq : holdings.borrow.val + limits.borrow.val =
        ceilingCurve holdings.deposit.val
          (blend pool.average.borrow.val holdings.borrow.val (pool.age now)) := by
      rw [borrowEq, add_sub_cancel]
    have staysEq : holdings.deposit.val - limits.withdraw.val =
        floorCurve (blend pool.average.deposit.val holdings.deposit.val (pool.age now))
          pool.guardThreshold.val := by
      rw [withdrawEq, sub_sub_cancel]
    rw [← lentEq] at sixthLe leLendable
    rw [← staysEq] at floorNonneg floorLe
    exact ⟨holdings, _, held, rfl, sixthLe, leLendable, staysEq, floorNonneg, floorLe⟩
  · by_contra another
    rw [not_or] at another
    exact withdrawLimits_ne_error held (sub_nonneg.2 notBefore) timestamp another.1 another.2 stopped

/-- A pool on its way from a calmer day to one with more deposits and more borrows. -/
def guardedPool : LendingPool where
  scaled := ⟨.lit 1000003, .lit 300007⟩
  average := ⟨.lit 900001, .lit 250003⟩
  guardThreshold := .lit 100000

/-- The same pool with an average that a fifth more of it no longer fits. -/
def overAveragedPool : LendingPool :=
  { guardedPool with average := ⟨.lit 900001, .lit 340282366920938463463374607431768211455⟩ }

/-- Half a day after the averages were stored, and at the time itself. -/
theorem withdrawLimits_guarded_of_guardedPool :
    guardedPool.withdrawLimits (.lit 43201) = .ok ⟨.lit 29991, .lit 240018⟩ ∧
      guardedPool.holdings = .ok ⟨.lit 1000003, .lit 300007⟩ ∧
      (1000003 : Int) / 6 ≤ 300007 + 29991 ∧ (300007 + 29991 : Int) ≤ 1000003 - 1000003 / 10 ∧
      (∃ average, average = blend 900001 1000003 43201 ∧
        1000003 - 240018 = max 0 (average - max (average / 5) 100000) ∧
        1000003 - 240018 ≤ average - average / 5) ∧
      overAveragedPool.withdrawLimits 0 = .error .overflow ∧
      (Fault.overflow = .overflow ∨ Fault.overflow = .castFailure) := by
  have limited : guardedPool.withdrawLimits (.lit 43201) = .ok ⟨.lit 29991, .lit 240018⟩ := by
    decide +kernel
  have held : guardedPool.holdings = .ok ⟨.lit 1000003, .lit 300007⟩ := rfl
  have stopped : overAveragedPool.withdrawLimits 0 = .error .overflow := rfl
  obtain ⟨guarded, -⟩ := withdrawLimits_guarded guardedPool (.lit 43201)
  obtain ⟨holdings, average, held', averageEq, sixthLe, leLendable, staysEq, -, staysLe⟩ :=
    guarded _ limited
  obtain rfl : ⟨.lit 1000003, .lit 300007⟩ = holdings := Except.ok.inj (held.symm.trans held')
  obtain ⟨-, faults⟩ := withdrawLimits_guarded overAveragedPool 0
  exact ⟨limited, held, sixthLe, leLendable, ⟨average, averageEq, staysEq, staysLe⟩, stopped,
    faults _ _ rfl (by decide) (by decide) stopped⟩

end LendingPool

end Leverage
