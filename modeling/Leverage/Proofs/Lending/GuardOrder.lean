import Leverage.Proofs.Lending.Guard

/-!
# Order of the withdrawal limits

Blend, ceiling and floor keep the order of what they are taken of, so each limit moves one way with a
stored average and with the threshold. A deposit is the one change that acts on a limit from both ends:
it raises the tokens of the pool and, through the blend, the floor that they are held against. The
blend grows by no more than the tokens (`blend_sub_blend_le`), the floor by no more than the blend
(`floorCurve_sub_floorCurve_le`), and so the distance between tokens and floor does not shrink.
-/

namespace Leverage

section Curves

variable {d d' a a' t t' stored stored' present present' elapsed : Int}

theorem blend_le_blend (storedLe : stored ≤ stored') (presentLe : present ≤ present')
    (elapsedNonneg : 0 ≤ elapsed) : blend stored present elapsed ≤ blend stored' present' elapsed := by
  unfold blend
  by_cases stands : elapsed = 0
  · rwa [if_pos stands, if_pos stands]
  · have leftNonneg : 0 ≤ max 0 (86400 - elapsed) := le_max_left _ _
    have twicePos : 0 < 2 * elapsed := by omega
    rw [if_neg stands, if_neg stands]
    exact Int.ediv_le_ediv twicePos
      (add_le_add (mul_le_mul_of_nonneg_right storedLe leftNonneg)
        (mul_le_mul_of_nonneg_right presentLe elapsedNonneg))

/-- The present amount weighs a half at most. -/
theorem blend_sub_blend_le (stored : Int) (presentLe : present ≤ present') (elapsedNonneg : 0 ≤ elapsed) :
    blend stored present' elapsed - blend stored present elapsed ≤ present' - present := by
  unfold blend
  by_cases stands : elapsed = 0
  · rw [if_pos stands, if_pos stands, sub_self]
    exact sub_nonneg.2 presentLe
  · have twicePos : 0 < 2 * elapsed := by omega
    have grownNonneg : 0 ≤ (present' - present) * elapsed :=
      mul_nonneg (sub_nonneg.2 presentLe) elapsedNonneg
    rw [if_neg stands, if_neg stands, sub_le_iff_le_add',
      ← Int.add_mul_ediv_right _ _ twicePos.ne']
    apply Int.ediv_le_ediv twicePos
    linarith

theorem ceilingCurve_le_ceilingCurve (depositsLe : d ≤ d') (averageLe : a ≤ a') :
    ceilingCurve d a ≤ ceilingCurve d' a' := by
  unfold ceilingCurve
  omega

theorem floorCurve_le_floorCurve (averageLe : a ≤ a') (thresholdLe : t ≤ t') :
    floorCurve a t' ≤ floorCurve a' t := by
  unfold floorCurve
  omega

theorem floorCurve_sub_floorCurve_le (t : Int) (averageLe : a ≤ a') :
    floorCurve a' t - floorCurve a t ≤ a' - a := by
  unfold floorCurve
  omega

end Curves

namespace LendingPool

variable {pool : LendingPool} {now : Timestamp} {holdings holdings' : BySide Amount}
  {limits : WithdrawLimits} {more : Amount}

/-- A larger scaled total of deposits comes to no fewer tokens, and leaves those of the borrows. -/
theorem holdings_le_of_deposit (le : pool.scaled.deposit.val ≤ more.val)
    (held : pool.holdings = .ok holdings)
    (heldMore : { pool with scaled := pool.scaled.set .deposit more }.holdings = .ok holdings') :
    holdings.deposit.val ≤ holdings'.deposit.val ∧ holdings'.borrow = holdings.borrow := by
  obtain ⟨depositEq, borrowEq⟩ := holdings_eq_ok_iff.1 held
  obtain ⟨depositEq', borrowEq'⟩ := holdings_eq_ok_iff.1 heldMore
  obtain ⟨fewer, fewerEq, fewerLe⟩ := exists_tokensOfScaled_le le depositEq'
  obtain rfl : fewer = holdings.deposit := Except.ok.inj (fewerEq.symm.trans depositEq)
  exact ⟨fewerLe, Except.ok.inj (borrowEq'.symm.trans borrowEq)⟩

/-- How the limits of a pool move with each of four of its amounts, all else the same. More deposits
lower neither limit, a higher threshold does not lower the limit of withdrawals, a higher average of
deposits does not raise it, and a higher average of borrows does not lower the limit of borrows. -/
theorem withdrawLimits_monotone (limited : pool.withdrawLimits now = .ok limits) :
    (∀ more limits', pool.scaled.deposit ≤ more →
      { pool with scaled := pool.scaled.set .deposit more }.withdrawLimits now = .ok limits' →
      limits.withdraw ≤ limits'.withdraw ∧ limits.borrow ≤ limits'.borrow) ∧
    (∀ more limits', pool.guardThreshold ≤ more →
      { pool with guardThreshold := more }.withdrawLimits now = .ok limits' →
      limits.withdraw ≤ limits'.withdraw) ∧
    (∀ more limits', pool.average.deposit ≤ more →
      { pool with average := pool.average.set .deposit more }.withdrawLimits now = .ok limits' →
      limits'.withdraw ≤ limits.withdraw) ∧
    ∀ more limits', pool.average.borrow ≤ more →
      { pool with average := pool.average.set .borrow more }.withdrawLimits now = .ok limits' →
      limits.borrow ≤ limits'.borrow := by
  obtain ⟨holdings, held, notBefore, borrowEq, withdrawEq⟩ := withdrawLimits_cases limited
  refine ⟨?_, ?_, ?_, ?_⟩
  · intro more limits' le limited'
    obtain ⟨holdings', heldMore, -, borrowEq', withdrawEq'⟩ := withdrawLimits_cases limited'
    obtain ⟨depositLe, sameBorrow⟩ := holdings_le_of_deposit le held heldMore
    have blendLe := blend_le_blend (le_refl pool.average.deposit.val) depositLe notBefore
    have blendGrowth := blend_sub_blend_le pool.average.deposit.val depositLe notBefore
    have floorGrowth := floorCurve_sub_floorCurve_le pool.guardThreshold.val blendLe
    rw [sameBorrow] at borrowEq'
    rw [Word.le_iff, Word.le_iff, borrowEq, borrowEq', withdrawEq, withdrawEq']
    refine ⟨?_, sub_le_sub_right (ceilingCurve_le_ceilingCurve depositLe le_rfl) _⟩
    change _ ≤ _ - floorCurve (blend pool.average.deposit.val _ (pool.age now)) _
    linarith
  · intro more limits' le limited'
    obtain ⟨holdings', heldSame, -, -, withdrawEq'⟩ := withdrawLimits_cases limited'
    obtain rfl : holdings' = holdings := Except.ok.inj (heldSame.symm.trans held)
    rw [Word.le_iff, withdrawEq, withdrawEq']
    exact sub_le_sub_left (floorCurve_le_floorCurve le_rfl le) _
  · intro more limits' le limited'
    obtain ⟨holdings', heldSame, -, -, withdrawEq'⟩ := withdrawLimits_cases limited'
    obtain rfl : holdings' = holdings := Except.ok.inj (heldSame.symm.trans held)
    rw [Word.le_iff, withdrawEq, withdrawEq']
    exact sub_le_sub_left
      (floorCurve_le_floorCurve (blend_le_blend le le_rfl notBefore) le_rfl) _
  · intro more limits' le limited'
    obtain ⟨holdings', heldSame, -, borrowEq', -⟩ := withdrawLimits_cases limited'
    obtain rfl : holdings' = holdings := Except.ok.inj (heldSame.symm.trans held)
    rw [Word.le_iff, borrowEq, borrowEq']
    exact sub_le_sub_right
      (ceilingCurve_le_ceilingCurve le_rfl (blend_le_blend le le_rfl notBefore)) _

/-- A unit more is deposited, the threshold passes a fifth of the average, and each average rises. -/
theorem withdrawLimits_monotone_of_guardedPool :
    guardedPool.withdrawLimits (.lit 43201) = .ok ⟨.lit 29991, .lit 240018⟩ ∧
      guardedPool.scaled.deposit ≤ .lit 1000004 ∧
      { guardedPool with scaled := guardedPool.scaled.set .deposit (.lit 1000004) }.withdrawLimits
        (.lit 43201) = .ok ⟨.lit 29991, .lit 240019⟩ ∧
      ((.lit 240018 : SignedAmount) ≤ .lit 240019 ∧ (.lit 29991 : SignedAmount) ≤ .lit 29991) ∧
      guardedPool.guardThreshold ≤ .lit 250000 ∧
      { guardedPool with guardThreshold := .lit 250000 }.withdrawLimits (.lit 43201) =
        .ok ⟨.lit 29991, .lit 300022⟩ ∧
      (.lit 240018 : SignedAmount) ≤ .lit 300022 ∧
      guardedPool.average.deposit ≤ .lit 1100000 ∧
      { guardedPool with average := guardedPool.average.set .deposit (.lit 1100000) }.withdrawLimits
        (.lit 43201) = .ok ⟨.lit 29991, .lit 160022⟩ ∧
      (.lit 160022 : SignedAmount) ≤ .lit 240018 ∧
      guardedPool.average.borrow ≤ .lit 400000 ∧
      { guardedPool with average := guardedPool.average.set .borrow (.lit 400000) }.withdrawLimits
        (.lit 43201) = .ok ⟨.lit 119985, .lit 240018⟩ ∧
      (.lit 29991 : SignedAmount) ≤ .lit 119985 := by
  have limited : guardedPool.withdrawLimits (.lit 43201) = .ok ⟨.lit 29991, .lit 240018⟩ := by
    decide +kernel
  have deposited : { guardedPool with
      scaled := guardedPool.scaled.set .deposit (.lit 1000004) }.withdrawLimits (.lit 43201) =
      .ok ⟨.lit 29991, .lit 240019⟩ := by
    decide +kernel
  have relaxed : { guardedPool with guardThreshold := .lit 250000 }.withdrawLimits (.lit 43201) =
      .ok ⟨.lit 29991, .lit 300022⟩ := by
    decide +kernel
  have deposits : { guardedPool with
      average := guardedPool.average.set .deposit (.lit 1100000) }.withdrawLimits (.lit 43201) =
      .ok ⟨.lit 29991, .lit 160022⟩ := by
    decide +kernel
  have borrows : { guardedPool with
      average := guardedPool.average.set .borrow (.lit 400000) }.withdrawLimits (.lit 43201) =
      .ok ⟨.lit 119985, .lit 240018⟩ := by
    decide +kernel
  have scaledLe : guardedPool.scaled.deposit ≤ .lit 1000004 := by decide
  have thresholdLe : guardedPool.guardThreshold ≤ .lit 250000 := by decide
  have depositsLe : guardedPool.average.deposit ≤ .lit 1100000 := by decide
  have borrowsLe : guardedPool.average.borrow ≤ .lit 400000 := by decide
  obtain ⟨byDeposit, byThreshold, byDeposits, byBorrows⟩ := withdrawLimits_monotone limited
  exact ⟨limited, scaledLe, deposited, byDeposit _ _ scaledLe deposited, thresholdLe, relaxed,
    byThreshold _ _ thresholdLe relaxed, depositsLe, deposits, byDeposits _ _ depositsLe deposits,
    borrowsLe, borrows, byBorrows _ _ borrowsLe borrows⟩

end LendingPool

end Leverage
