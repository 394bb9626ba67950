import Leverage.Proofs.Lending.GuardOrder

/-!
# The guard as its averages age

The blend divides by twice the time that has passed and not by the day. An average that was stored at
the present amount is therefore blended to more than the amount in the first half of its day and to
less in the second (`blend_self`), and from the end of the day on the blend is half of the present
amount, whatever was stored (`blend_of_day_le`).

`withdrawLimits_of_steady` says what time does to the limits of a pool whose amounts stand still,
`withdrawLimits_forget` that an average older than its day has no say in them, nor in whether there are
any, and `withdrawLimits_free_iff` when all of the deposits may leave.
-/

namespace Leverage

section Blends

variable {stored present elapsed a t : Int}

/-- The age at which an average of what is present counts: the time that has passed, until its day is
over. An average that is read when it is stored counts as one at half its day. -/
def countedAge (elapsed : Int) : Int := if elapsed = 0 then 43200 else min elapsed 86400

theorem countedAge_pos (nonneg : 0 ≤ elapsed) : 0 < countedAge elapsed := by
  unfold countedAge
  split <;> omega

/-- An average whose day is over weighs nothing. -/
theorem blend_of_day_le (old : 86400 ≤ elapsed) : blend stored present elapsed = present / 2 := by
  have elapsedPos : 0 < elapsed := by omega
  rw [blend, if_neg elapsedPos.ne', max_eq_left (by omega), mul_zero, zero_add,
    Int.mul_ediv_mul_of_pos_left _ _ elapsedPos]

/-- An average of what is present is off by half a day over its age. -/
theorem blend_self (elapsedNonneg : 0 ≤ elapsed) :
    blend a a elapsed = a * 43200 / countedAge elapsed := by
  rcases elapsedNonneg.eq_or_lt with rfl | elapsedPos
  · exact (Int.mul_ediv_cancel a (by decide)).symm
  · rcases le_total 86400 elapsed with old | young
    · rw [blend_of_day_le old, countedAge, if_neg elapsedPos.ne', min_eq_right old]
      omega
    · have weights : a * (86400 - elapsed) + a * elapsed = 2 * (a * 43200) := by ring
      rw [blend, if_neg elapsedPos.ne', countedAge, if_neg elapsedPos.ne', min_eq_left young,
        max_eq_right (by omega), weights, Int.mul_ediv_mul_of_pos _ _ two_pos]

/-- Where stored and present amount are within a bound, so is the blend, when it is taken at the time
of the average or not before half of its day. -/
theorem blend_le_of_half_day (storedLe : stored ≤ t) (presentLe : present ≤ t) (nonneg : 0 ≤ t)
    (settled : elapsed = 0 ∨ 43200 ≤ elapsed) : blend stored present elapsed ≤ t := by
  have elapsedNonneg : 0 ≤ elapsed := by omega
  have halfLe : 43200 ≤ countedAge elapsed := by
    unfold countedAge
    split <;> omega
  calc blend stored present elapsed ≤ blend t t elapsed :=
        blend_le_blend storedLe presentLe elapsedNonneg
    _ = t * 43200 / countedAge elapsed := blend_self elapsedNonneg
    _ ≤ t * 43200 / 43200 := ediv_le_ediv_of_divisor_le (by omega) (by decide) halfLe
    _ = t := Int.mul_ediv_cancel t (by decide)

/-- Nothing has to stay exactly where the average is within the threshold. -/
theorem floorCurve_eq_zero_iff (averageNonneg : 0 ≤ a) (thresholdNonneg : 0 ≤ t) :
    floorCurve a t = 0 ↔ a ≤ t := by
  unfold floorCurve
  omega

end Blends

theorem WithdrawLimits.eq_iff {limits limits' : WithdrawLimits} :
    limits = limits' ↔
      limits.borrow.val = limits'.borrow.val ∧ limits.withdraw.val = limits'.withdraw.val := by
  cases limits
  cases limits'
  rw [WithdrawLimits.mk.injEq, Word.ext_iff, Word.ext_iff]

/-- Where nothing of the day is left, the stored average does not even decide whether there is a
blend. -/
theorem liveAverage_of_none_left (average another present : Amount) {elapsed : Amount}
    (moved : elapsed ≠ 0) :
    liveAverage average present elapsed 0 = liveAverage another present elapsed 0 := by
  have nothing (stored : Amount) : stored.mul 0 = .ok 0 :=
    Word.mul_eq_ok_iff.2 (mul_zero stored.val).symm
  rw [liveAverage, liveAverage, if_neg moved, if_neg moved, nothing, nothing]

namespace LendingPool

variable {pool : LendingPool} {now now' : Timestamp} {holdings : BySide Amount}
  {limits limits' : WithdrawLimits}

/-! ## Amounts that stand still -/

/-- The limits of a pool whose averages were stored at its present tokens. -/
theorem withdrawLimits_steady_cases (held : pool.holdings = .ok holdings)
    (steady : pool.average = holdings) (limited : pool.withdrawLimits now = .ok limits) :
    0 < countedAge (pool.age now) ∧
      limits.borrow.val =
        ceilingCurve holdings.deposit.val
          (holdings.borrow.val * 43200 / countedAge (pool.age now)) - holdings.borrow.val ∧
      limits.withdraw.val =
        holdings.deposit.val -
          floorCurve (holdings.deposit.val * 43200 / countedAge (pool.age now))
            pool.guardThreshold.val := by
  obtain ⟨_, heldToo, notBefore, borrowEq, withdrawEq⟩ := withdrawLimits_cases limited
  cases heldToo.symm.trans held
  rw [steady, blend_self notBefore] at borrowEq withdrawEq
  exact ⟨countedAge_pos notBefore, borrowEq, withdrawEq⟩

/-- What time does to the limits of a pool whose averages were stored at its present tokens. Two times
have the same limits exactly where the averages of `blend_self` set the same bounds, so two times at
which the averages count as equally old have. The older the averages count, the more may be withdrawn
and the less may be borrowed. -/
theorem withdrawLimits_of_steady (held : pool.holdings = .ok holdings)
    (steady : pool.average = holdings) (limited : pool.withdrawLimits now = .ok limits)
    (limited' : pool.withdrawLimits now' = .ok limits') :
    (limits = limits' ↔
      ceilingCurve holdings.deposit.val
          (holdings.borrow.val * 43200 / countedAge (pool.age now)) =
        ceilingCurve holdings.deposit.val
          (holdings.borrow.val * 43200 / countedAge (pool.age now')) ∧
      floorCurve (holdings.deposit.val * 43200 / countedAge (pool.age now))
          pool.guardThreshold.val =
        floorCurve (holdings.deposit.val * 43200 / countedAge (pool.age now'))
          pool.guardThreshold.val) ∧
    (countedAge (pool.age now) = countedAge (pool.age now') → limits = limits') ∧
    (countedAge (pool.age now) ≤ countedAge (pool.age now') →
      limits.withdraw ≤ limits'.withdraw ∧ limits'.borrow ≤ limits.borrow) := by
  obtain ⟨agePos, borrowEq, withdrawEq⟩ := withdrawLimits_steady_cases held steady limited
  obtain ⟨-, borrowEq', withdrawEq'⟩ := withdrawLimits_steady_cases held steady limited'
  refine ⟨?_, ?_, ?_⟩
  · rw [WithdrawLimits.eq_iff, borrowEq, borrowEq', withdrawEq, withdrawEq', sub_left_inj,
      sub_right_inj]
  · intro same
    rw [WithdrawLimits.eq_iff, borrowEq, borrowEq', withdrawEq, withdrawEq', same]
    exact ⟨rfl, rfl⟩
  · intro older
    have averageLe (tokens : Amount) :
        tokens.val * 43200 / countedAge (pool.age now') ≤
          tokens.val * 43200 / countedAge (pool.age now) :=
      ediv_le_ediv_of_divisor_le (mul_nonneg (Word.unsigned_nonneg tokens) (by decide)) agePos older
    rw [Word.le_iff, Word.le_iff, borrowEq, borrowEq', withdrawEq, withdrawEq']
    exact ⟨sub_le_sub_left (floorCurve_le_floorCurve (averageLe _) le_rfl) _,
      sub_le_sub_right (ceilingCurve_le_ceilingCurve le_rfl (averageLe _)) _⟩

/-- A pool whose averages were stored at what it holds. -/
def steadyPool : LendingPool where
  scaled := ⟨.lit 1000003, .lit 300007⟩
  average := ⟨.lit 1000003, .lit 300007⟩
  guardThreshold := .lit 100000

theorem steadyPool_holdings : steadyPool.holdings = .ok ⟨.lit 1000003, .lit 300007⟩ := rfl

theorem steadyPool_when_stored :
    steadyPool.withdrawLimits 0 = .ok ⟨.lit 60001, .lit 200000⟩ := by
  decide +kernel

theorem steadyPool_after_hour :
    steadyPool.withdrawLimits (.lit 3600) = .ok ⟨.lit 599996, .lit (-8600026)⟩ := by
  decide +kernel

/-- At the time of its averages and half a day later the pool has the same limits. From an hour after
them to the end of their day the limit of withdrawals rises and that of borrows falls. -/
theorem withdrawLimits_of_steadyPool :
    steadyPool.holdings = .ok steadyPool.average ∧
      steadyPool.withdrawLimits 0 = .ok ⟨.lit 60001, .lit 200000⟩ ∧
      countedAge (steadyPool.age 0) = countedAge (steadyPool.age (.lit 43200)) ∧
      (∃ limits, steadyPool.withdrawLimits (.lit 43200) = .ok limits ∧
        ⟨.lit 60001, .lit 200000⟩ = limits) ∧
      steadyPool.withdrawLimits (.lit 3600) = .ok ⟨.lit 599996, .lit (-8600026)⟩ ∧
      steadyPool.withdrawLimits Scale.day = .ok ⟨.lit (-120004), .lit 600002⟩ ∧
      countedAge (steadyPool.age (.lit 3600)) ≤ countedAge (steadyPool.age Scale.day) ∧
      (.lit (-8600026) : SignedAmount) ≤ .lit 600002 ∧
      (.lit (-120004) : SignedAmount) ≤ .lit 599996 := by
  have afterHalfDay :
      steadyPool.withdrawLimits (.lit 43200) = .ok ⟨.lit 60001, .lit 200000⟩ := by
    decide +kernel
  have afterDay :
      steadyPool.withdrawLimits Scale.day = .ok ⟨.lit (-120004), .lit 600002⟩ := by
    decide +kernel
  have asOld : countedAge (steadyPool.age 0) = countedAge (steadyPool.age (.lit 43200)) := by
    decide
  have older : countedAge (steadyPool.age (.lit 3600)) ≤ countedAge (steadyPool.age Scale.day) := by
    decide
  obtain ⟨-, equal, -⟩ :=
    withdrawLimits_of_steady steadyPool_holdings rfl steadyPool_when_stored afterHalfDay
  obtain ⟨-, -, ordered⟩ :=
    withdrawLimits_of_steady steadyPool_holdings rfl steadyPool_after_hour afterDay
  exact ⟨steadyPool_holdings, steadyPool_when_stored, asOld, ⟨_, afterHalfDay, equal asOld⟩,
    steadyPool_after_hour, afterDay, older, ordered older⟩

/-- The limits of that pool move within the hour, though none of its amounts does. -/
theorem withdrawLimits_of_steady_move :
    ¬ ∀ (pool : LendingPool) (holdings : BySide Amount) (now now' : Timestamp)
      (limits limits' : WithdrawLimits), pool.holdings = .ok holdings → pool.average = holdings →
      pool.averagedAt ≤ now → pool.averagedAt ≤ now' →
      pool.withdrawLimits now = .ok limits → pool.withdrawLimits now' = .ok limits' →
      limits = limits' := by
  intro still
  have equal := still _ _ _ _ _ _ steadyPool_holdings rfl (by decide) (by decide)
    steadyPool_when_stored steadyPool_after_hour
  exact absurd equal (by decide)

/-! ## Averages that are out of date -/

theorem liveAverages_forget (average : BySide Amount) (stale : 86400 ≤ pool.age now) :
    { pool with average := average }.liveAverages holdings now = pool.liveAverages holdings now := by
  -- The age is not read off the averages, so where it is a fault it is the same one.
  have sameAge : { pool with average := average }.averageAge now = pool.averageAge now := rfl
  unfold liveAverages
  rw [sameAge]
  cases aged : pool.averageAge now with
  | error fault => rfl
  | ok ages =>
    obtain ⟨elapsed, remaining⟩ := ages
    obtain ⟨elapsedEq, remainingEq⟩ := averageAge_cases aged
    obtain rfl : remaining = 0 := Word.eq_zero_iff.2 (by omega)
    have moved : elapsed ≠ 0 := mt Word.eq_zero_iff.1 (by omega)
    simp only [bind, Except.bind]
    rw [liveAverage_of_none_left average.borrow pool.average.borrow _ moved,
      liveAverage_of_none_left average.deposit pool.average.deposit _ moved]

/-- The guard reads the stored averages through the blends alone. -/
theorem withdrawLimits_forget_average (average : BySide Amount) (stale : 86400 ≤ pool.age now) :
    { pool with average := average }.withdrawLimits now = pool.withdrawLimits now := by
  have sameHoldings : { pool with average := average }.holdings = pool.holdings := rfl
  unfold withdrawLimits
  rw [sameHoldings]
  simp only [liveAverages_forget average stale]

/-- What is blended out of averages that are out of date is half of the present tokens. -/
theorem withdrawLimits_of_stale (stale : 86400 ≤ pool.age now)
    (limited : pool.withdrawLimits now = .ok limits) :
    ∃ holdings, pool.holdings = .ok holdings ∧
      limits.borrow.val =
        ceilingCurve holdings.deposit.val (holdings.borrow.val / 2) - holdings.borrow.val ∧
      limits.withdraw.val =
        holdings.deposit.val -
          floorCurve (holdings.deposit.val / 2) pool.guardThreshold.val := by
  obtain ⟨holdings, held, -, borrowEq, withdrawEq⟩ := withdrawLimits_cases limited
  rw [blend_of_day_le stale] at borrowEq withdrawEq
  exact ⟨holdings, held, borrowEq, withdrawEq⟩

/-- The averages of a pool are forgotten once their day is over. At one time the pool answers the same,
be it limits or a fault, whatever averages are stored. Limits at two such times, whatever averages are
stored at each, are the same, and are those at half of the present tokens. -/
theorem withdrawLimits_forget (average : BySide Amount)
    (stale : pool.averagedAt.val + 86400 ≤ now.val)
    (stale' : pool.averagedAt.val + 86400 ≤ now'.val) :
    { pool with average := average }.withdrawLimits now = pool.withdrawLimits now ∧
    ∀ limits limits', pool.withdrawLimits now = .ok limits →
      { pool with average := average }.withdrawLimits now' = .ok limits' →
      limits = limits' ∧
      ∃ holdings, pool.holdings = .ok holdings ∧
        limits.borrow.val =
          ceilingCurve holdings.deposit.val (holdings.borrow.val / 2) - holdings.borrow.val ∧
        limits.withdraw.val =
          holdings.deposit.val -
            floorCurve (holdings.deposit.val / 2) pool.guardThreshold.val := by
  rw [← le_sub_iff_add_le'] at stale stale'
  refine ⟨withdrawLimits_forget_average average stale, fun limits limits' limited limited' => ?_⟩
  rw [withdrawLimits_forget_average average stale'] at limited'
  obtain ⟨holdings, held, borrowEq, withdrawEq⟩ := withdrawLimits_of_stale stale limited
  obtain ⟨_, held', borrowEq', withdrawEq'⟩ := withdrawLimits_of_stale stale' limited'
  cases held'.symm.trans held
  refine ⟨?_, holdings, held, borrowEq, withdrawEq⟩
  rw [WithdrawLimits.eq_iff, borrowEq, borrowEq', withdrawEq, withdrawEq']
  exact ⟨rfl, rfl⟩

/-- A day after the averages of a pool were stored and much later, with other averages that would decide
every limit if they were read. -/
theorem withdrawLimits_forget_of_guardedPool :
    guardedPool.averagedAt.val + 86400 ≤ Scale.day.val ∧
      guardedPool.averagedAt.val + 86400 ≤ (1000000 : Int) ∧
      guardedPool.withdrawLimits Scale.day = .ok ⟨.lit (-120004), .lit 600002⟩ ∧
      { guardedPool with average := ⟨.lit 9000010, .lit 2⟩ }.withdrawLimits Scale.day =
        .ok ⟨.lit (-120004), .lit 600002⟩ ∧
      (∃ limits, { guardedPool with average := ⟨.lit 9000010, .lit 2⟩ }.withdrawLimits
        (.lit 1000000) = .ok limits ∧ ⟨.lit (-120004), .lit 600002⟩ = limits) ∧
      ∃ holdings, guardedPool.holdings = .ok holdings ∧
        -120004 = ceilingCurve holdings.deposit.val (holdings.borrow.val / 2) - holdings.borrow.val ∧
        600002 = holdings.deposit.val -
          floorCurve (holdings.deposit.val / 2) guardedPool.guardThreshold.val := by
  have limited : guardedPool.withdrawLimits Scale.day = .ok ⟨.lit (-120004), .lit 600002⟩ := by
    decide +kernel
  have later :
      { guardedPool with average := ⟨.lit 9000010, .lit 2⟩ }.withdrawLimits (.lit 1000000) =
        .ok ⟨.lit (-120004), .lit 600002⟩ := by
    decide +kernel
  have stale : guardedPool.averagedAt.val + 86400 ≤ Scale.day.val := by decide
  have stale' : guardedPool.averagedAt.val + 86400 ≤ (.lit 1000000 : Timestamp).val := by decide
  obtain ⟨same, limits⟩ := withdrawLimits_forget ⟨.lit 9000010, .lit 2⟩ stale stale'
  obtain ⟨equal, halves⟩ := limits _ _ limited later
  exact ⟨stale, stale', limited, same.trans limited, ⟨_, later, equal⟩, halves⟩

/-! ## Deposits within the threshold -/

/-- All of the deposits may leave exactly where the blended average is within the threshold. Deposits
within the threshold may all leave from a day after the averages were stored. Where the stored average
is within it too, they may from half a day on, and at the time itself. -/
theorem withdrawLimits_free_iff (limited : pool.withdrawLimits now = .ok limits) :
    ∃ holdings, pool.holdings = .ok holdings ∧
      (holdings.deposit.val ≤ limits.withdraw.val ↔
        blend pool.average.deposit.val holdings.deposit.val (now.val - pool.averagedAt.val) ≤
          pool.guardThreshold.val) ∧
      (holdings.deposit ≤ pool.guardThreshold →
        pool.averagedAt.val + 86400 ≤ now.val ∨
          pool.average.deposit ≤ pool.guardThreshold ∧
            (now = pool.averagedAt ∨ pool.averagedAt.val + 43200 ≤ now.val) →
        holdings.deposit.val ≤ limits.withdraw.val) := by
  obtain ⟨holdings, held, notBefore, -, withdrawEq⟩ := withdrawLimits_cases limited
  have depositNonneg := Word.unsigned_nonneg holdings.deposit
  have thresholdNonneg := Word.unsigned_nonneg pool.guardThreshold
  have averageNonneg := blend_nonneg (Word.unsigned_nonneg pool.average.deposit) depositNonneg
    notBefore
  have freeIff : holdings.deposit.val ≤ limits.withdraw.val ↔
      blend pool.average.deposit.val holdings.deposit.val (pool.age now) ≤
        pool.guardThreshold.val := by
    have floorNonneg := (floorCurve_bounds pool.guardThreshold.val averageNonneg).1
    rw [← floorCurve_eq_zero_iff averageNonneg thresholdNonneg, withdrawEq]
    omega
  refine ⟨holdings, held, freeIff, fun within settled => freeIff.2 ?_⟩
  rcases settled with stale | ⟨storedWithin, settled⟩
  · -- What is stored no longer counts, and half of the deposits is within the threshold.
    have old : 86400 ≤ pool.age now := le_sub_iff_add_le'.2 stale
    rw [blend_of_day_le old]
    exact (Int.ediv_le_self 2 depositNonneg).trans within
  · refine blend_le_of_half_day storedWithin within thresholdNonneg ?_
    rcases settled with rfl | half
    · exact Or.inl (sub_self _)
    · exact Or.inr (le_sub_iff_add_le'.2 half)

/-- A pool that holds just its threshold, and held less when its averages were stored. -/
def smallPool : LendingPool where
  scaled := ⟨.lit 1000000, 0⟩
  average := ⟨.lit 900000, 0⟩
  guardThreshold := .lit 1000000

theorem withdrawLimits_free_of_smallPool :
    smallPool.withdrawLimits (.lit 43200) = .ok ⟨.lit 166666, .lit 1000000⟩ ∧
      ∃ holdings, smallPool.holdings = .ok holdings ∧
        (holdings.deposit.val ≤ 1000000 ↔
          blend 900000 holdings.deposit.val 43200 ≤ smallPool.guardThreshold.val) ∧
        holdings.deposit ≤ smallPool.guardThreshold ∧ holdings.deposit.val ≤ 1000000 := by
  have limited : smallPool.withdrawLimits (.lit 43200) = .ok ⟨.lit 166666, .lit 1000000⟩ := by
    decide +kernel
  have held : smallPool.holdings = .ok ⟨.lit 1000000, 0⟩ := rfl
  obtain ⟨holdings, held', freeIff, settled⟩ := withdrawLimits_free_iff limited
  cases held'.symm.trans held
  have within : (.lit 1000000 : Amount) ≤ smallPool.guardThreshold := by decide
  exact ⟨limited, _, held, freeIff, within,
    settled within (Or.inr ⟨by decide, Or.inr (by decide)⟩)⟩

/-- The same pool after nine tenths of what it held have left. -/
def drainedPool : LendingPool := { smallPool with average := ⟨.lit 10000000, 0⟩ }

/-- The deposits of that pool are within its threshold, and none of them may leave. -/
theorem deposits_kept_within_threshold :
    ¬ ∀ (pool : LendingPool) (holdings : BySide Amount) (now : Timestamp)
      (limits : WithdrawLimits), pool.holdings = .ok holdings →
      holdings.deposit ≤ pool.guardThreshold → pool.withdrawLimits now = .ok limits →
      holdings.deposit.val ≤ limits.withdraw.val := by
  intro free
  have held : drainedPool.holdings = .ok ⟨.lit 1000000, 0⟩ := rfl
  have limited : drainedPool.withdrawLimits 0 = .ok ⟨.lit 166666, .lit (-7000000)⟩ := by
    decide +kernel
  exact absurd (free _ _ _ _ held (by decide) limited) (by decide)

end LendingPool

end Leverage
