import Leverage.Proofs.MarketMaker.Reach

/-!
# Pegs of two readings

A higher oracle price sets a higher target, and yet may lead to a lower peg: where the nearer target
is paid for by truncation alone and the farther one is short of funds, the peg that stops where the
budget ends stops before the nearer target (`Undercharges`). `repeg_peg_le_iff` says that nothing
else puts two pegs out of order, and how far apart they can be then. `repeg_peg_falls` says that
there are such pairs of readings.
-/

namespace Leverage.MarketMaker

variable {maker nextNear nextFar nextLow nextHigh : MarketMaker}
  {near far low high : OracleReading} {target targetLow targetHigh budget : Amount}
  {surplus : SignedAmount}

/-- The exact cost of the way to one reading's target is over the budget and is paid for all the
same, because it is truncated; the way to the other's is short of funds. -/
def Undercharges (maker : MarketMaker) (near far : OracleReading) : Prop :=
  ∃ reached missed budget surplus,
    maker.targetPeg near.price = .ok reached ∧ maker.ShortOfFunds far missed budget ∧
      maker.quoteSurplus = .ok surplus ∧
      budget.val * quoteUnit < maker.exactCost surplus reached ∧
      maker.exactCost surplus reached < (budget.val + 1) * quoteUnit

/-- The nearer target is reached and the farther peg stops before it, by less than one unit of quote
and one of the peg. -/
theorem Undercharges.peg_apart (undercharged : maker.Undercharges near far)
    (steppedNear : maker.repeg near = .ok nextNear) (steppedFar : maker.repeg far = .ok nextFar) :
    ∃ reached missed surplus, maker.targetPeg near.price = .ok reached ∧
      maker.targetPeg far.price = .ok missed ∧ maker.quoteSurplus = .ok surplus ∧
      0 < surplus.val * (missed.val - reached.val) ∧
      0 < surplus.val * (nextNear.peg.val - nextFar.peg.val) ∧
      (|nextNear.peg.val - nextFar.peg.val| - 1) * |surplus.val| < quoteUnit := by
  obtain ⟨reached, missed, budget, surplus, aimed, short, weighed, exceeds, truncated⟩ :=
    undercharged
  have missedGe := short.le_exactCost weighed
  obtain ⟨-, within, ltNext⟩ :=
    short.affordable_bounds weighed ((Repegged.of_repeg steppedFar).stops_of_short short)
  obtain rfl : nextNear.peg = reached := by
    rcases (Repegged.of_repeg steppedNear).arrives_or_stops short.follows with
      arrived | ⟨target, funds, shortNear, -⟩
    · exact Except.ok.inj (arrived.symm.trans aimed)
    · -- A way that is short of funds costs a whole unit more than the budget.
      obtain rfl := Except.ok.inj (shortNear.aimed.symm.trans aimed)
      obtain rfl := Except.ok.inj (shortNear.funded.symm.trans short.funded)
      exact absurd truncated (not_lt.2 (shortNear.le_exactCost weighed))
  have farther : 0 < surplus.val * (missed.val - nextNear.peg.val) := by
    rw [← exactCost_sub_exactCost]
    linarith
  have apart : 0 < surplus.val * (nextNear.peg.val - nextFar.peg.val) := by
    rw [← exactCost_sub_exactCost]
    linarith
  have near : surplus.val * (nextNear.peg.val - nextFar.peg.val) < |surplus.val| + quoteUnit := by
    rw [← exactCost_sub_exactCost]
    linarith
  exact ⟨nextNear.peg, missed, surplus, aimed, short.aimed, weighed, farther, apart,
    abs_sub_one_mul_abs_lt apart.le near⟩

/-- A surplus of whole units of quote leaves nothing to truncate. -/
theorem Undercharges.not_dvd (undercharged : maker.Undercharges near far)
    (weighed : maker.quoteSurplus = .ok surplus) : ¬ quoteUnit ∣ surplus.val := by
  obtain ⟨reached, -, budget, surplus', -, -, weighed', exceeds, truncated⟩ := undercharged
  obtain rfl : surplus' = surplus := Except.ok.inj (weighed'.symm.trans weighed)
  exact fun whole => absurd (exactCost_le_of_dvd whole truncated) (not_le.2 exceeds)

/-- A reading whose target is reached is undercharged if that costs more than the peg at which the
way to the other's stops. -/
theorem Undercharges.of_exactCost_lt (aimed : maker.targetPeg near.price = .ok nextNear.peg)
    (short : maker.ShortOfFunds far target budget) (weighed : maker.quoteSurplus = .ok surplus)
    (steppedNear : maker.repeg near = .ok nextNear)
    (affords : maker.affordablePeg target budget = .ok nextFar.peg)
    (apart : maker.exactCost surplus nextFar.peg < maker.exactCost surplus nextNear.peg) :
    maker.Undercharges near far := by
  refine ⟨nextNear.peg, target, budget, surplus, aimed, short, weighed, ?_, ?_⟩
  · by_contra within
    exact absurd (short.exactCost_le_affordable weighed affords (not_lt.1 within)) (not_le.2 apart)
  · exact (Repegged.of_repeg steppedNear).exactCost_lt short.funded weighed

section Ordered

variable (ordered : low.price ≤ high.price) (steppedLow : maker.repeg low = .ok nextLow)
  (steppedHigh : maker.repeg high = .ok nextHigh)

include ordered steppedLow steppedHigh

/-- Undercharging puts the pegs out of order, whichever of the readings is the nearer one. -/
theorem peg_lt_of_undercharges
    (undercharged : maker.Undercharges low high ∨ maker.Undercharges high low) :
    nextHigh.peg.val < nextLow.peg.val ∧ ∃ surplus, maker.quoteSurplus = .ok surplus ∧
      (nextLow.peg.val - nextHigh.peg.val - 1) * |surplus.val| < quoteUnit := by
  rcases undercharged with upward | downward
  · obtain ⟨targetLow, targetHigh, surplus, aimedLow, aimedHigh, weighed, farther, apart,
      distance⟩ := upward.peg_apart steppedLow steppedHigh
    have targetsLe := targetPeg_le_targetPeg ordered aimedLow aimedHigh
    have surplusPos : 0 < surplus.val := pos_of_mul_pos_left farther (by omega)
    have fallen := pos_of_mul_pos_right apart surplusPos.le
    rw [abs_of_pos fallen] at distance
    exact ⟨sub_pos.1 fallen, surplus, weighed, distance⟩
  · obtain ⟨targetHigh, targetLow, surplus, aimedHigh, aimedLow, weighed, farther, apart,
      distance⟩ := downward.peg_apart steppedHigh steppedLow
    have targetsLe := targetPeg_le_targetPeg ordered aimedLow aimedHigh
    have surplusNeg : surplus.val < 0 := neg_of_mul_pos_left farther (by omega)
    have fallen := neg_of_mul_pos_right apart surplusNeg.le
    rw [abs_of_neg fallen, neg_sub] at distance
    exact ⟨sub_neg.1 fallen, surplus, weighed, distance⟩

/-- Nothing but undercharging puts the pegs of two readings out of order. -/
theorem undercharges_of_peg_lt (fallen : nextHigh.peg.val < nextLow.peg.val) :
    maker.Undercharges low high ∨ maker.Undercharges high low := by
  have follows : maker.repegIntensity ≠ 0 := by
    intro off
    rw [repeg_of_off off, Except.ok.injEq] at steppedLow steppedHigh
    rw [← steppedLow, ← steppedHigh] at fallen
    exact lt_irrefl _ fallen
  rcases (Repegged.of_repeg steppedLow).arrives_or_stops follows with
    aimedLow | ⟨targetLow, budget, shortLow, affordsLow⟩
  · rcases (Repegged.of_repeg steppedHigh).arrives_or_stops follows with
      aimedHigh | ⟨targetHigh, budget, shortHigh, affordsHigh⟩
    · exact absurd fallen (not_lt.2 (targetPeg_le_targetPeg ordered aimedLow aimedHigh))
    · left
      obtain ⟨surplus, weighed, -⟩ := shortHigh.surplus_ne_zero
      have targetsLe := targetPeg_le_targetPeg ordered aimedLow shortHigh.aimed
      have surplusPos : 0 < surplus.val :=
        pos_of_mul_pos_left (shortHigh.beyond_affordable weighed affordsHigh) (by omega)
      refine .of_exactCost_lt aimedLow shortHigh weighed steppedLow affordsHigh ?_
      rw [← sub_pos, exactCost_sub_exactCost]
      exact mul_pos surplusPos (sub_pos.2 fallen)
  · rcases (Repegged.of_repeg steppedHigh).arrives_or_stops follows with
      aimedHigh | ⟨targetHigh, budget', shortHigh, affordsHigh⟩
    · right
      obtain ⟨surplus, weighed, -⟩ := shortLow.surplus_ne_zero
      have targetsLe := targetPeg_le_targetPeg ordered shortLow.aimed aimedHigh
      have surplusNeg : surplus.val < 0 :=
        neg_of_mul_pos_left (shortLow.beyond_affordable weighed affordsLow) (by omega)
      refine .of_exactCost_lt aimedHigh shortLow weighed steppedHigh affordsLow ?_
      rw [← sub_pos, exactCost_sub_exactCost]
      exact mul_pos_of_neg_of_neg surplusNeg (sub_neg.2 fallen)
    · -- Both stop where the one budget ends, at the same peg.
      obtain rfl := Except.ok.inj (shortLow.funded.symm.trans shortHigh.funded)
      obtain ⟨surplus, weighed, nonzero⟩ := shortLow.surplus_ne_zero
      have sameCost : maker.exactCost surplus nextHigh.peg = maker.exactCost surplus nextLow.peg :=
        (shortHigh.exactCost_affordable weighed affordsHigh).2.trans
          (shortLow.exactCost_affordable weighed affordsLow).2.symm
      rw [← sub_eq_zero, exactCost_sub_exactCost, mul_eq_zero_iff_left nonzero] at sameCost
      omega

end Ordered

/-- A higher price leads to no lower peg, unless the one target is reached for less than it costs
and the way to the other is short of funds. Then the pegs are out of order by at most one and what a
unit of quote moves the peg. With a surplus of whole units of quote they never are. -/
theorem repeg_peg_le_iff (ordered : low.price ≤ high.price)
    (steppedLow : maker.repeg low = .ok nextLow) (steppedHigh : maker.repeg high = .ok nextHigh) :
    (nextLow.peg ≤ nextHigh.peg ↔
        ¬ (maker.Undercharges low high ∨ maker.Undercharges high low)) ∧
      ∀ surplus, maker.quoteSurplus = .ok surplus →
        (nextLow.peg.val - nextHigh.peg.val - 1) * |surplus.val| < quoteUnit ∧
          (quoteUnit ∣ surplus.val → nextLow.peg ≤ nextHigh.peg) := by
  have outOfOrder : nextHigh.peg.val < nextLow.peg.val ↔
      maker.Undercharges low high ∨ maker.Undercharges high low :=
    ⟨undercharges_of_peg_lt ordered steppedLow steppedHigh,
      fun undercharged =>
        (peg_lt_of_undercharges ordered steppedLow steppedHigh undercharged).1⟩
  refine ⟨by rw [← outOfOrder, not_lt, Word.le_iff], fun surplus weighed => ?_⟩
  by_cases fallen : nextHigh.peg.val < nextLow.peg.val
  · have undercharged := outOfOrder.1 fallen
    obtain ⟨-, surplus', weighed', distance⟩ :=
      peg_lt_of_undercharges ordered steppedLow steppedHigh undercharged
    obtain rfl := Except.ok.inj (weighed.symm.trans weighed')
    refine ⟨distance, fun whole => ?_⟩
    rcases undercharged with upward | downward
    · exact absurd whole (upward.not_dvd weighed)
    · exact absurd whole (downward.not_dvd weighed)
  · refine ⟨?_, fun _ => Word.le_iff.2 (not_lt.1 fallen)⟩
    calc (nextLow.peg.val - nextHigh.peg.val - 1) * |surplus.val| ≤ 0 :=
          mul_nonpos_of_nonpos_of_nonneg (by omega) (abs_nonneg _)
      _ < quoteUnit := quoteUnit_pos

/-- A price a sixth below that of `rise`, where the target is ten units of the peg away. -/
def nearby : OracleReading := { price := .lit 510260000000 }

theorem tightMaker_repeg_nearby :
    tightMaker.repeg nearby =
      .ok { tightMaker with peg := .lit 50010, retainedFees := .lit 400000000 } := rfl

theorem repeg_peg_le_iff_of_nearby :
    nearby.price ≤ rise.price ∧
      tightMaker.repeg nearby =
        .ok { tightMaker with peg := .lit 50010, retainedFees := .lit 400000000 } ∧
      tightMaker.repeg rise =
        .ok { tightMaker with peg := .lit 50009, retainedFees := .lit 410101011 } ∧
      (tightMaker.Undercharges nearby rise ∨ tightMaker.Undercharges rise nearby) := by
  have ordered : nearby.price ≤ rise.price := by decide
  refine ⟨ordered, tightMaker_repeg_nearby, tightMaker_repeg_rise, ?_⟩
  by_contra none
  exact absurd
    ((repeg_peg_le_iff ordered tightMaker_repeg_nearby tightMaker_repeg_rise).1.2 none) (by decide)

/-- The pegs of two readings need not be in the order of their prices. -/
theorem repeg_peg_falls :
    ¬ ∀ (maker : MarketMaker) (low high : OracleReading) (nextLow nextHigh : MarketMaker),
      0 < low.price → low.price ≤ high.price → maker.repeg low = .ok nextLow →
        maker.repeg high = .ok nextHigh → nextLow.peg ≤ nextHigh.peg := by
  intro rises
  exact absurd
    (rises tightMaker nearby rise _ _ (by decide) (by decide) tightMaker_repeg_nearby
      tightMaker_repeg_rise)
    (by decide)

end Leverage.MarketMaker
