import Leverage.Proofs.MarketMaker.Price
import Leverage.Proofs.MarketMaker.Repeg
import Mathlib.Algebra.Order.Group.Abs

/-!
# The mark price after a repeg

One unit of the peg is worth many units of price. So the target does not stand for the oracle's price
but for the last price up to it that a peg can give, or for that of the least peg there is.
`targetPeg_brackets` says so: the oracle's price lies between those of the target and of the next peg.

Short of the target a peg stays on its side of the oracle, and its price comes nearer. At the target
the price may have crossed the oracle's and be farther off than it was (`Oversteps`), though by no
more than one unit of the peg is worth. `repeg_approaches` says that no other repeg moves the price
away.
-/

namespace Leverage.MarketMaker

variable {maker next : MarketMaker} {reading : OracleReading} {oracle : SignedAmount}
  {target peg higher price priceHigher before after : Amount}

/-! ## Prices about the target -/

/-- What one unit of the peg is worth in price, times the base reserve. -/
def pegDepth (maker : MarketMaker) : Int :=
  maker.reserves.quote.val * Scale.priceToPeg.val

theorem pegDepth_nonneg (maker : MarketMaker) : 0 ≤ maker.pegDepth :=
  mul_nonneg (Word.unsigned_nonneg _) Scale.priceToPeg_pos.le

/-- The price at a peg is what the peg is worth over the base reserve, floored. -/
theorem price_bounds (priced : maker.reserves.price peg = .ok price) :
    0 < maker.reserves.base.val ∧
      price.val * maker.reserves.base.val ≤ maker.pegDepth * peg.val ∧
      maker.pegDepth * peg.val < (price.val + 1) * maker.reserves.base.val := by
  obtain ⟨nonzero, -, priceEq⟩ := Reserves.price_eq_ok_iff.1 priced
  have basePos := Word.unsigned_pos nonzero
  rw [priceEq, pegDepth, mul_right_comm maker.reserves.quote.val]
  exact ⟨basePos, Int.ediv_mul_le _ nonzero, Int.lt_ediv_add_one_mul_self _ basePos⟩

/-- A peg that is worth no more than a price gives no higher one. -/
theorem price_le_of_worth_le {bound : Int} (priced : maker.reserves.price peg = .ok price)
    (worthLe : maker.pegDepth * peg.val ≤ bound * maker.reserves.base.val) : price.val ≤ bound := by
  obtain ⟨basePos, priceLe, -⟩ := price_bounds priced
  exact le_of_mul_le_mul_right (priceLe.trans worthLe) basePos

/-- A peg that is worth more than a price gives no lower one. -/
theorem le_price_of_lt_worth {bound : Int} (priced : maker.reserves.price peg = .ok price)
    (ltWorth : bound * maker.reserves.base.val < maker.pegDepth * peg.val) : bound ≤ price.val := by
  obtain ⟨basePos, -, ltPrice⟩ := price_bounds priced
  exact Int.lt_add_one_iff.1 (lt_of_mul_lt_mul_right (ltWorth.trans ltPrice) basePos.le)

theorem price_le_price_of_peg_le (priced : maker.reserves.price peg = .ok price)
    (pricedHigher : maker.reserves.price higher = .ok priceHigher) (le : peg.val ≤ higher.val) :
    price.val ≤ priceHigher.val := by
  obtain ⟨basePos, priceLe, -⟩ := price_bounds priced
  obtain ⟨-, -, ltHigher⟩ := price_bounds pricedHigher
  have worthLe := mul_le_mul_of_nonneg_left le maker.pegDepth_nonneg
  exact Int.lt_add_one_iff.1 (lt_of_mul_lt_mul_right
    (priceLe.trans_lt (worthLe.trans_lt ltHigher)) basePos.le)

/-- The target is the last peg that is worth no more than the oracle's price or, where even the least
peg is worth more, that peg. -/
theorem targetPeg_bounds (aimed : maker.targetPeg oracle = .ok target) :
    oracle.val * maker.reserves.base.val < maker.pegDepth * (target.val + 1) ∧
      (maker.pegDepth * target.val ≤ oracle.val * maker.reserves.base.val ∨
        target.val = 1 ∧ oracle.val * maker.reserves.base.val < maker.pegDepth) := by
  obtain ⟨depthPos, targetEq⟩ := targetPeg_eq aimed
  change 0 < maker.pegDepth at depthPos
  change target.val = max (oracle.val * maker.reserves.base.val / maker.pegDepth) 1 at targetEq
  generalize oracle.val * maker.reserves.base.val = worth at targetEq ⊢
  rcases le_or_gt 1 (worth / maker.pegDepth) with floored | clamped
  · rw [targetEq, max_eq_left floored, mul_comm, mul_comm maker.pegDepth]
    exact ⟨Int.lt_ediv_add_one_mul_self worth depthPos,
      Or.inl (Int.ediv_mul_le worth depthPos.ne')⟩
  · rw [Int.ediv_lt_iff_lt_mul depthPos, one_mul] at clamped
    rw [targetEq, max_eq_right (Int.ediv_lt_of_lt_mul depthPos (by rwa [one_mul])).le]
    exact ⟨by linarith, Or.inr ⟨rfl, clamped⟩⟩

/-- Only prices that are not negative have a target. -/
theorem oracle_nonneg_of_targetPeg (aimed : maker.targetPeg oracle = .ok target) :
    0 ≤ oracle.val := by
  simp only [targetPeg, Checked.bind_eq_ok_iff, Word.cast_eq_ok_iff] at aimed
  obtain ⟨unsigned, unsignedEq, -⟩ := aimed
  rw [← unsignedEq]
  exact Word.unsigned_nonneg unsigned

/-- A price that is not worth one unit of the peg has the least peg for its target. -/
theorem target_eq_one_of_lt_pegDepth (aimed : maker.targetPeg oracle = .ok target)
    (below : oracle.val * maker.reserves.base.val < maker.pegDepth) : target.val = 1 := by
  obtain ⟨-, worthLe | ⟨least, -⟩⟩ := targetPeg_bounds aimed
  · have targetPos := targetPeg_pos aimed
    have depthLe : maker.pegDepth * 1 ≤ maker.pegDepth * target.val :=
      mul_le_mul_of_nonneg_left targetPos maker.pegDepth_nonneg
    linarith
  · exact least

/-- Above the target no price is below the oracle's. -/
theorem oracle_le_price_of_target_lt (aimed : maker.targetPeg oracle = .ok target)
    (priced : maker.reserves.price peg = .ok price) (lt : target.val < peg.val) :
    oracle.val ≤ price.val := by
  obtain ⟨ltNext, -⟩ := targetPeg_bounds aimed
  have worthLe : maker.pegDepth * (target.val + 1) ≤ maker.pegDepth * peg.val :=
    mul_le_mul_of_nonneg_left lt maker.pegDepth_nonneg
  exact le_price_of_lt_worth priced (ltNext.trans_le worthLe)

/-- Below the target no price is above the oracle's. -/
theorem price_le_oracle_of_lt_target (aimed : maker.targetPeg oracle = .ok target)
    (priced : maker.reserves.price peg = .ok price) (lt : peg.val < target.val) :
    price.val ≤ oracle.val := by
  obtain ⟨-, worthLe | ⟨least, -⟩⟩ := targetPeg_bounds aimed
  · have pegLe := mul_le_mul_of_nonneg_left lt.le maker.pegDepth_nonneg
    exact price_le_of_worth_le priced (pegLe.trans worthLe)
  · -- Below the least peg there is none but zero, and its price is zero.
    have pegNonneg := Word.unsigned_nonneg peg
    obtain pegZero : peg.val = 0 := by omega
    have priceLe : price.val ≤ 0 :=
      price_le_of_worth_le priced (by rw [pegZero, mul_zero, zero_mul])
    exact priceLe.trans (oracle_nonneg_of_targetPeg aimed)

/-- At the target the price is within one unit of the peg of the oracle's, and not above it but for
the least peg. -/
theorem price_of_target (aimed : maker.targetPeg oracle = .ok target)
    (priced : maker.reserves.price target = .ok price) :
    (|price.val - oracle.val| - 1) * maker.reserves.base.val < maker.pegDepth ∧
      (price.val ≤ oracle.val ∨ target.val = 1 ∧ oracle.val ≤ price.val) := by
  obtain ⟨basePos, priceLe, ltPrice⟩ := price_bounds priced
  obtain ⟨ltNext, worthLe | ⟨least, below⟩⟩ := targetPeg_bounds aimed
  · have notAbove := price_le_of_worth_le priced worthLe
    rw [abs_of_nonpos (sub_nonpos.2 notAbove)]
    exact ⟨by linarith, Or.inl notAbove⟩
  · rw [least, mul_one] at priceLe
    have notBelow : oracle.val ≤ price.val :=
      le_price_of_lt_worth priced (by rwa [least, mul_one])
    have worthNonneg := mul_nonneg (oracle_nonneg_of_targetPeg aimed) basePos.le
    rw [abs_of_nonneg (sub_nonneg.2 notBelow)]
    exact ⟨by linarith, Or.inr ⟨least, notBelow⟩⟩

/-! ## The target against the oracle's price -/

/-- An oracle's price that is worth at least one unit of the peg lies between the prices of its target
and of the next peg. A lower one has the least peg there is for its target, and is no higher than the
price of that. Every lower price that is not negative has a target too, and no higher one. -/
theorem targetPeg_brackets (aimed : maker.targetPeg oracle = .ok target) :
    (maker.pegDepth ≤ oracle.val * maker.reserves.base.val →
      (∀ price, maker.reserves.price target = .ok price → price.val ≤ oracle.val) ∧
      ∀ next price, next.val = target.val + 1 → maker.reserves.price next = .ok price →
        oracle.val ≤ price.val) ∧
    (oracle.val * maker.reserves.base.val < maker.pegDepth →
      target.val = 1 ∧ ∀ price, maker.reserves.price target = .ok price → oracle.val ≤ price.val) ∧
    ∀ lower : SignedAmount, 0 ≤ lower.val → lower ≤ oracle →
      ∃ less, maker.targetPeg lower = .ok less ∧ less.val ≤ target.val := by
  refine ⟨?_, ?_, fun lower nonneg le => exists_targetPeg_le nonneg le aimed⟩
  · intro aboveLeast
    have worthLe : maker.pegDepth * target.val ≤ oracle.val * maker.reserves.base.val :=
      (targetPeg_bounds aimed).2.resolve_right fun clamped => not_lt.2 aboveLeast clamped.2
    constructor
    · intro price priced
      exact price_le_of_worth_le priced worthLe
    · intro next price nextEq priced
      exact oracle_le_price_of_target_lt aimed priced (by omega)
  · intro belowLeast
    have least := target_eq_one_of_lt_pegDepth aimed belowLeast
    refine ⟨least, ?_⟩
    intro price priced
    exact le_price_of_lt_worth priced (by rwa [least, mul_one])

/-- A market maker with more quote than base. -/
def unevenMaker : MarketMaker where
  reserves := ⟨.lit 9900000000000000000, .lit 10101010101010101010⟩
  peg := .lit 50000

/-- A price between those of two pegs, and one below that of the least peg. -/
theorem targetPeg_brackets_of_unevenMaker :
    unevenMaker.targetPeg (.lit 510154321987) = .ok (.lit 50000) ∧
      unevenMaker.pegDepth ≤ 510154321987 * unevenMaker.reserves.base.val ∧
      unevenMaker.reserves.price (.lit 50000) = .ok (.lit 510152025303) ∧
      unevenMaker.reserves.price (.lit 50001) = .ok (.lit 510162228344) ∧
      (510152025303 : Int) ≤ 510154321987 ∧ (510154321987 : Int) ≤ 510162228344 ∧
      (∃ less, unevenMaker.targetPeg (.lit 5000000) = .ok less ∧ less.val ≤ 50000) ∧
      unevenMaker.targetPeg (.lit 5000000) = .ok (.lit 1) ∧
      5000000 * unevenMaker.reserves.base.val < unevenMaker.pegDepth ∧
      unevenMaker.reserves.price (.lit 1) = .ok (.lit 10203040) ∧
      (5000000 : Int) ≤ 10203040 := by
  have aimed : unevenMaker.targetPeg (.lit 510154321987) = .ok (.lit 50000) := rfl
  have aimedLow : unevenMaker.targetPeg (.lit 5000000) = .ok (.lit 1) := rfl
  have priced : unevenMaker.reserves.price (.lit 50000) = .ok (.lit 510152025303) := rfl
  have pricedNext : unevenMaker.reserves.price (.lit 50001) = .ok (.lit 510162228344) := rfl
  have pricedLeast : unevenMaker.reserves.price (.lit 1) = .ok (.lit 10203040) := rfl
  have aboveLeast : unevenMaker.pegDepth ≤ 510154321987 * unevenMaker.reserves.base.val := by decide
  have belowLeast : 5000000 * unevenMaker.reserves.base.val < unevenMaker.pegDepth := by decide
  obtain ⟨between, -, ordered⟩ := targetPeg_brackets aimed
  obtain ⟨notAbove, notBelow⟩ := between aboveLeast
  obtain ⟨-, clamped, -⟩ := targetPeg_brackets aimedLow
  exact ⟨aimed, aboveLeast, priced, pricedNext, notAbove _ priced, notBelow _ _ rfl pricedNext,
    ordered _ (by decide) (by decide), aimedLow, belowLeast, pricedLeast,
    (clamped belowLeast).2 _ pricedLeast⟩

/-! ## Repegs -/

/-- The peg has arrived at its target and the price has crossed the oracle's on the way: falling, or
rising from no peg to the least there is. It is off by no more than one unit of the peg. -/
structure Oversteps (maker next : MarketMaker) (reading : OracleReading) (before after : Amount) :
    Prop where
  arrived : maker.targetPeg reading.price = .ok next.peg
  crossed :
    next.peg < maker.peg ∧ after.val < reading.price.val ∧ reading.price.val ≤ before.val ∨
      maker.peg = 0 ∧ next.peg = .lit 1 ∧ reading.price.val < after.val
  near : (|after.val - reading.price.val| - 1) * maker.reserves.base.val < maker.pegDepth

namespace Repegged

/-- A rise that takes the price above the oracle's ends at the least peg there is. -/
theorem oversteps_of_rise (step : Repegged maker reading next)
    (aimed : maker.targetPeg reading.price = .ok target)
    (pricedAfter : maker.reserves.price next.peg = .ok after) (rise : maker.peg.val < next.peg.val)
    (above : reading.price.val < after.val) : maker.Oversteps next reading before after := by
  have between := step.peg_between aimed
  have notShort : ¬ next.peg.val < target.val := fun short =>
    absurd (price_le_oracle_of_lt_target aimed pricedAfter short) (not_le.2 above)
  obtain rfl : target = next.peg := Word.ext (by omega)
  obtain ⟨near, notAbove | ⟨least, -⟩⟩ := price_of_target aimed pricedAfter
  · exact absurd notAbove (not_le.2 above)
  · have currentNonneg := Word.unsigned_nonneg maker.peg
    have none : maker.peg = 0 := Word.eq_zero_iff.2 (by omega)
    exact ⟨aimed, Or.inr ⟨none, Word.ext least, above⟩, near⟩

/-- A fall that takes the price below the oracle's ends at the target, and starts above the
oracle's. -/
theorem oversteps_of_fall (step : Repegged maker reading next)
    (aimed : maker.targetPeg reading.price = .ok target)
    (priced : maker.reserves.price maker.peg = .ok before)
    (pricedAfter : maker.reserves.price next.peg = .ok after) (fall : next.peg.val < maker.peg.val)
    (below : after.val < reading.price.val) : maker.Oversteps next reading before after := by
  have between := step.peg_between aimed
  have notBeyond : ¬ target.val < next.peg.val := fun beyond =>
    absurd (oracle_le_price_of_target_lt aimed pricedAfter beyond) (not_le.2 below)
  obtain rfl : target = next.peg := Word.ext (by omega)
  have fromAbove := oracle_le_price_of_target_lt aimed priced fall
  exact ⟨aimed, Or.inl ⟨fall, below, fromAbove⟩, (price_of_target aimed pricedAfter).1⟩

end Repegged

/-- A repeg moves the price nearer to the oracle's or not at all, unless it oversteps. -/
theorem repeg_approaches (stepped : maker.repeg reading = .ok next)
    (priced : maker.price = .ok before) (pricedAfter : next.price = .ok after) :
    |after.val - reading.price.val| ≤ |before.val - reading.price.val| ∨
      maker.Oversteps next reading before after := by
  have step := Repegged.of_repeg stepped
  have sameReserves : next.reserves = maker.reserves := by rw [step.eq_with]
  unfold MarketMaker.price at priced pricedAfter
  rw [sameReserves] at pricedAfter
  by_cases still : next.peg = maker.peg
  · rw [still, priced, Except.ok.injEq] at pricedAfter
    rw [pricedAfter]
    exact Or.inl le_rfl
  obtain ⟨target, aimed⟩ := step.exists_targetPeg still
  rcases lt_or_gt_of_ne (mt Word.ext still) with fall | rise
  · have falls := price_le_price_of_peg_le pricedAfter priced fall.le
    rcases le_or_gt reading.price.val after.val with within | below
    · left
      exact abs_le_abs_of_nonneg (sub_nonneg.2 within) (sub_le_sub_right falls _)
    · exact Or.inr (step.oversteps_of_fall aimed priced pricedAfter fall below)
  · have rises := price_le_price_of_peg_le priced pricedAfter rise.le
    rcases le_or_gt after.val reading.price.val with within | above
    · left
      exact abs_le_abs_of_nonpos (sub_nonpos.2 within) (sub_le_sub_right rises _)
    · exact Or.inr (step.oversteps_of_rise aimed pricedAfter rise above)

/-- A market maker whose price is ten million times its peg, and an oracle a tenth of a unit of the peg
below it. -/
def coarseMaker : MarketMaker where
  reserves := ⟨.lit 10000000000000000000, .lit 10000000000000000000⟩
  liquidity := .lit 10000000000000000000
  peg := .lit 50001
  repegIntensity := .lit 100

@[inherit_doc coarseMaker] def justBelow : OracleReading where
  price := .lit 500009000000

theorem coarseMaker_repeg :
    coarseMaker.repeg justBelow = .ok { coarseMaker with peg := .lit 50000 } := rfl

theorem repeg_approaches_of_coarseMaker :
    coarseMaker.repeg justBelow = .ok { coarseMaker with peg := .lit 50000 } ∧
      coarseMaker.price = .ok (.lit 500010000000) ∧
      ({ coarseMaker with peg := .lit 50000 } : MarketMaker).price = .ok (.lit 500000000000) ∧
      coarseMaker.Oversteps { coarseMaker with peg := .lit 50000 } justBelow (.lit 500010000000)
        (.lit 500000000000) := by
  have priced : coarseMaker.price = .ok (.lit 500010000000) := rfl
  have pricedAfter : ({ coarseMaker with peg := .lit 50000 } : MarketMaker).price =
      .ok (.lit 500000000000) := rfl
  have farther : ¬ |(500000000000 : Int) - 500009000000| ≤ |500010000000 - 500009000000| := by
    decide
  exact ⟨coarseMaker_repeg, priced, pricedAfter,
    (repeg_approaches coarseMaker_repeg priced pricedAfter).resolve_left farther⟩

/-- A repeg may take the price away from the oracle's. -/
theorem repeg_leaves_oracle :
    ¬ ∀ (maker next : MarketMaker) (reading : OracleReading) (before after : Amount),
      0 < maker.reserves.base → 0 < maker.reserves.quote → 0 < reading.price →
      maker.repeg reading = .ok next → maker.price = .ok before → next.price = .ok after →
        |after.val - reading.price.val| ≤ |before.val - reading.price.val| := by
  intro nearer
  have priced : coarseMaker.price = .ok (.lit 500010000000) := rfl
  have pricedAfter : ({ coarseMaker with peg := .lit 50000 } : MarketMaker).price =
      .ok (.lit 500000000000) := rfl
  have distanceLe := nearer _ _ _ _ _ (by decide) (by decide) (by decide) coarseMaker_repeg priced
    pricedAfter
  exact absurd distanceLe (by decide)

end Leverage.MarketMaker
