import Leverage.Proofs.Margin.PnlWeight

/-!
# The size of a gain

The discount is a curve over sizes on `Scale.reserve`. Deposited tokens are brought to that scale
before they are weighed. A gain is not: it goes into the curve as it comes, on `Scale.quote`, and so
counts for a ten-millionth of its size. `unsettledWeight_eq_assetWeight_iff` holds the weight of a gain
against that of as many deposited tokens on the same terms. The gain is never weighed less, and the two
weights part wherever the discount bites; a gain ten million times as large is weighed as the tokens
are.
-/

namespace Leverage

/-- The weight that the discount for a size leaves of every larger one. -/
def discountCap (size : Amount) (factor : Ratio) : Int :=
  11000000000 / (1000000 + exactRoot size * factor.val / 100000)

theorem discountedWeight_eq_min {size : Amount} {factor weight discounted : Ratio}
    (on : factor ≠ 0) (weighed : discountedWeight size factor weight = .ok discounted) :
    discounted.val = min weight.val (discountCap size factor) := by
  rw [discountedWeight_eq_fit (fits_of_discountedWeight on weighed) on, Word.fit_eq_ok_iff] at weighed
  exact weighed

namespace PerpMarket

variable {market : PerpMarket} {pool quotePool : LendingPool} {oracle : OracleReading}
  {pnl : SignedAmount} {share : Ratio} {size : Amount}

/-- Without a bound nothing is cut, whatever the oracle and the settlement pool say. -/
theorem unsettledWeight_of_no_bound (noBound : market.pnlImbalanceBound = 0) :
    market.unsettledWeight quotePool pnl .initial oracle =
      discountedWeight pnl.magnitude market.pnlSizeFactor market.pnlWeights.initial := by
  have kept : (market.pnlWeights.initial.widen : Amount).cast (.unsigned 32) =
      .ok market.pnlWeights.initial := Word.cast_eq_ok_iff.2 rfl
  unfold unsettledWeight
  rw [imbalancedWeight_of_no_bound noBound]
  simp only [bind, Except.bind, kept]

/-- A pool of quote tokens that weighs deposits on the terms on which the market weighs gains. -/
structure WeighedLike (market : PerpMarket) (pool : LendingPool) : Prop where
  noBound : market.pnlImbalanceBound = 0
  decimals_eq : pool.decimals = .lit 6
  factor_eq : pool.sizeFactor = market.pnlSizeFactor
  weight_eq : pool.assetWeights.initial = market.pnlWeights.initial

/-- On the scale of sizes a quote token is ten million units more. -/
theorem WeighedLike.sizeOfTokens_eq (alike : market.WeighedLike pool) {tokens : Amount}
    (sized : pool.sizeOfTokens tokens = .ok size) : size.val = tokens.val * 10 ^ 7 := by
  have decimalsEq : pool.decimals.toNat = 6 := by
    rw [alike.decimals_eq]
    rfl
  rw [LendingPool.sizeOfTokens_eq sized, decimalsEq]
  change tokens.val * 10000000000000 / 10 ^ 6 = _
  omega

/-- Where as many deposited tokens have a weight, the gain has one, and no smaller one. The two are the
same where the tokens keep their full weight, or where the size of the gain and a size ten million
times as large are held to the same weight, and nowhere else. It takes a gain ten million times as
large to be weighed as the tokens are. -/
theorem unsettledWeight_eq_assetWeight_iff (alike : market.WeighedLike pool)
    (weighed : pool.assetWeight pnl.magnitude .initial = .ok share) :
    ∃ (size : Amount) (weight : Ratio), size.val = pnl.magnitude.val * 10 ^ 7 ∧
      market.unsettledWeight quotePool pnl .initial oracle = .ok weight ∧ share ≤ weight ∧
      (weight = share ↔ share = market.pnlWeights.initial ∨
        discountCap pnl.magnitude market.pnlSizeFactor =
          discountCap size market.pnlSizeFactor) ∧
      ∀ larger : SignedAmount, larger.magnitude = size →
        market.unsettledWeight quotePool larger .initial oracle = .ok share := by
  obtain ⟨size, sized, discounted⟩ := LendingPool.assetWeight_eq_ok_iff.1 weighed
  change discountedWeight size pool.sizeFactor pool.assetWeights.initial = .ok share at discounted
  rw [alike.factor_eq, alike.weight_eq] at discounted
  have sizeEq := alike.sizeOfTokens_eq sized
  have sizeGe : pnl.magnitude.val ≤ size.val := by
    have magnitudeNonneg := Word.unsigned_nonneg pnl.magnitude
    omega
  obtain ⟨weight, discountedGain, shareLe⟩ := exists_discountedWeight_ge sizeGe le_rfl discounted
  refine ⟨size, weight, sizeEq, ?_, shareLe, ?_, ?_⟩
  · rw [unsettledWeight_of_no_bound alike.noBound, discountedGain]
  · by_cases off : market.pnlSizeFactor = 0
    · rw [discountedWeight_of_no_factor off, Except.ok.injEq] at discounted discountedGain
      exact iff_of_true (discountedGain.symm.trans discounted) (Or.inl discounted.symm)
    · have shareEq := discountedWeight_eq_min off discounted
      have weightEq := discountedWeight_eq_min off discountedGain
      rw [Word.ext_iff, Word.ext_iff]
      omega
  · intro larger largerEq
    rw [unsettledWeight_of_no_bound alike.noBound, largerEq, discounted]

/-- A market that bounds no imbalance and discounts gains by their size. -/
def openMarket : PerpMarket where
  pnlWeights := ⟨.lit 8000, .lit 9000⟩
  pnlSizeFactor := .lit 1000

/-- Quote tokens on the same terms. -/
def quoteTokens : LendingPool where
  sizeFactor := .lit 1000
  assetWeights := ⟨.lit 8000, .lit 9000⟩

theorem openMarket_weighedLike : openMarket.WeighedLike quoteTokens := ⟨rfl, rfl, rfl, rfl⟩

theorem quoteTokens_assetWeight :
    quoteTokens.assetWeight (.lit 1000000000000 : SignedAmount).magnitude .initial =
      .ok (.lit 108) := by
  decide +kernel

theorem openMarket_unsettledWeight :
    openMarket.unsettledWeight {} (.lit 1000000000000) .initial {} = .ok (.lit 8000) := by
  decide +kernel

/-- A million in quote, and ten million times as much. -/
theorem unsettledWeight_eq_assetWeight_iff_of_million :
    openMarket.WeighedLike quoteTokens ∧
      quoteTokens.assetWeight (.lit 1000000000000 : SignedAmount).magnitude .initial =
        .ok (.lit 108) ∧
      openMarket.unsettledWeight {} (.lit 1000000000000) .initial {} = .ok (.lit 8000) ∧
      (.lit 108 : Ratio) ≤ .lit 8000 ∧
      discountCap (.lit 1000000000000) (.lit 1000) ≠
        discountCap (.lit 10000000000000000000) (.lit 1000) ∧
      openMarket.unsettledWeight {} (.lit 10000000000000000000) .initial {} = .ok (.lit 108) := by
  obtain ⟨size, weight, sizeEq, gained, shareLe, sameIff, larger⟩ :=
    @unsettledWeight_eq_assetWeight_iff openMarket quoteTokens {} {} _ _ openMarket_weighedLike
      quoteTokens_assetWeight
  obtain rfl : .lit 8000 = weight := Except.ok.inj (openMarket_unsettledWeight.symm.trans gained)
  obtain rfl : .lit 10000000000000000000 = size := Word.ext sizeEq.symm
  refine ⟨openMarket_weighedLike, quoteTokens_assetWeight, gained, shareLe, fun sameCap => ?_,
    larger _ rfl⟩
  exact absurd (sameIff.2 (Or.inr sameCap)) (by decide)

/-- A gain need not be weighed as the same amount of deposited tokens is. -/
theorem unsettledWeight_exceeds_assetWeight :
    ¬ ∀ (market : PerpMarket) (pool quotePool : LendingPool) (oracle : OracleReading)
      (pnl : SignedAmount) (weight share : Ratio), market.WeighedLike pool →
      market.unsettledWeight quotePool pnl .initial oracle = .ok weight →
      pool.assetWeight pnl.magnitude .initial = .ok share → weight = share := by
  intro same
  exact absurd
    (same _ _ _ _ _ _ _ openMarket_weighedLike openMarket_unsettledWeight quoteTokens_assetWeight)
    (by decide)

end PerpMarket

end Leverage
