import Leverage.Margin.PnlWeight
import Leverage.Proofs.Margin.SizeOrder

/-!
# Weights of unsettled gains

Two things take from the initial weight of a gain, one after the other: the haircut for imbalance and
the discount for size. `imbalancedWeight_eq_ok_iff` and `unsettledWeight_eq_ok_iff` open the two once,
and each lowers the weight in what it is for, so the weight falls with the imbalance and with the size
of the gain: `unsettledWeight_capped`. The haircut leaves no more than the bound's part of the
imbalance.
-/

namespace Leverage

/-! ## The haircut over exact integers -/

/-- What an imbalance leaves of a weight. Beyond the bound the weight falls in inverse proportion; a
bound of zero is none. -/
def haircut (weight bound imbalance : Int) : Int :=
  if bound ≠ 0 ∧ bound < imbalance then weight * bound / imbalance else weight

section Haircut

variable {w b x x' : Int}

theorem haircut_of_no_bound (noBound : b = 0) : haircut w b x = w :=
  if_neg fun beyond => beyond.1 noBound

theorem haircut_of_le (within : x ≤ b) : haircut w b x = w :=
  if_neg fun beyond => absurd beyond.2 (not_lt.2 within)

theorem haircut_of_lt (bounded : b ≠ 0) (beyond : b < x) : haircut w b x = w * b / x :=
  if_pos ⟨bounded, beyond⟩

theorem haircut_bounds (x : Int) (weightNonneg : 0 ≤ w) (boundNonneg : 0 ≤ b) :
    0 ≤ haircut w b x ∧ haircut w b x ≤ w := by
  unfold haircut
  split
  · next beyond =>
    have xPos : 0 < x := boundNonneg.trans_lt beyond.2
    exact ⟨Int.ediv_nonneg (mul_nonneg weightNonneg boundNonneg) xPos.le,
      Int.ediv_le_of_le_mul xPos (mul_le_mul_of_nonneg_left beyond.2.le weightNonneg)⟩
  · exact ⟨weightNonneg, le_rfl⟩

/-- Beyond the bound the imbalance counts for no more than the bound did. -/
theorem haircut_mul_le (boundNonneg : 0 ≤ b) (bounded : b ≠ 0) (beyond : b < x) :
    haircut w b x * x ≤ w * b := by
  have xPos : 0 < x := boundNonneg.trans_lt beyond
  rw [haircut_of_lt bounded beyond]
  exact Int.ediv_mul_le _ xPos.ne'

theorem haircut_le_haircut (weightNonneg : 0 ≤ w) (boundNonneg : 0 ≤ b) (imbalanceLe : x ≤ x') :
    haircut w b x' ≤ haircut w b x := by
  by_cases noBound : b = 0
  · rw [haircut_of_no_bound noBound, haircut_of_no_bound noBound]
  by_cases within : x ≤ b
  · rw [haircut_of_le within]
    exact (haircut_bounds x' weightNonneg boundNonneg).2
  have beyond := not_le.1 within
  rw [haircut_of_lt noBound beyond, haircut_of_lt noBound (beyond.trans_le imbalanceLe)]
  exact ediv_le_ediv_of_divisor_le (mul_nonneg weightNonneg boundNonneg) (boundNonneg.trans_lt beyond)
    imbalanceLe

end Haircut

namespace PerpMarket

variable {market calmer : PerpMarket} {pool calmerPool : LendingPool}
  {oracle calmerOracle : OracleReading} {pnl milder imbalance lower : SignedAmount}
  {amount : Amount} {weight base more : Ratio}

/-! ## The haircut of a market -/

theorem imbalancedWeight_of_no_bound (noBound : market.pnlImbalanceBound = 0) :
    market.imbalancedWeight pool oracle = .ok market.pnlWeights.initial.widen := if_pos noBound

/-- With a bound the imbalance is needed. The bound has to be one that an imbalance can be held
against, and beyond it the product with the weight has to fit. -/
theorem imbalancedWeight_eq_ok_iff (bounded : market.pnlImbalanceBound ≠ 0) :
    market.imbalancedWeight pool oracle = .ok amount ↔
      ∃ imbalance, market.pnlImbalance pool oracle = .ok imbalance ∧
        (Format.signed 128).Holds market.pnlImbalanceBound.val ∧
        (market.pnlImbalanceBound.val < imbalance.val →
          market.pnlWeights.initial.val * market.pnlImbalanceBound.val < 2 ^ 128) ∧
        amount.val =
          haircut market.pnlWeights.initial.val market.pnlImbalanceBound.val imbalance.val := by
  have boundedVal : market.pnlImbalanceBound.val ≠ 0 := mt Word.eq_zero_iff.2 bounded
  have boundNonneg := Word.unsigned_nonneg market.pnlImbalanceBound
  unfold imbalancedWeight
  simp only [if_neg bounded, Checked.bind_eq_ok_iff, Word.cast_eq_ok_iff]
  constructor
  · intro weighed
    obtain ⟨imbalance, imbalanced, limit, limitEq, weighed⟩ := weighed
    refine ⟨imbalance, imbalanced, limitEq ▸ limit.holds, ?_⟩
    rw [← limitEq]
    by_cases beyond : limit < imbalance
    · simp only [if_pos beyond, Checked.bind_eq_ok_iff, Word.mul_eq_ok_iff, Word.cast_eq_ok_iff,
        Word.unsigned_div_eq_ok_iff, val_widen_ratio] at weighed
      obtain ⟨lifted, liftedEq, divisor, divisorEq, -, amountEq⟩ := weighed
      rw [limitEq, ← liftedEq, haircut_of_lt boundedVal (limitEq ▸ beyond), ← liftedEq, ← divisorEq]
      exact ⟨fun _ => Word.unsigned_lt lifted, amountEq⟩
    · rw [if_neg beyond, Checked.pure_eq_ok_iff] at weighed
      have within := not_lt.1 (mt Word.lt_iff.2 beyond)
      rw [haircut_of_le within, ← weighed]
      exact ⟨fun beyond' => absurd beyond' beyond, rfl⟩
  · intro exact
    obtain ⟨imbalance, imbalanced, boundHeld, fits, amountEq⟩ := exact
    obtain ⟨limit, limitEq⟩ := Word.exists_val_eq_iff.2 boundHeld
    refine ⟨imbalance, imbalanced, limit, limitEq, ?_⟩
    by_cases beyond : limit < imbalance
    · have beyondVal : market.pnlImbalanceBound.val < imbalance.val := limitEq ▸ beyond
      have imbalancePos : 0 < imbalance.val := boundNonneg.trans_lt beyondVal
      obtain ⟨lifted, multiplied⟩ : ∃ lifted,
          (market.pnlWeights.initial.widen : Amount).mul market.pnlImbalanceBound = .ok lifted :=
        Word.exists_unsigned_mul_eq_ok_iff.2 (fits beyondVal)
      have divisorEq : imbalance.magnitude.val = imbalance.val := Int.natAbs_of_nonneg imbalancePos.le
      have divisorNonzero : imbalance.magnitude.val ≠ 0 := divisorEq ▸ imbalancePos.ne'
      rw [haircut_of_lt boundedVal beyondVal, ← divisorEq] at amountEq
      simp only [if_pos beyond, Checked.bind_eq_ok_iff, Word.cast_eq_ok_iff,
        Word.unsigned_div_eq_ok_iff]
      refine ⟨lifted, multiplied, imbalance.magnitude, divisorEq, divisorNonzero, ?_⟩
      rw [amountEq, Word.mul_eq_ok_iff.1 multiplied, val_widen_ratio]
    · have within : imbalance.val ≤ market.pnlImbalanceBound.val :=
        limitEq ▸ not_lt.1 (mt Word.lt_iff.2 beyond)
      rw [if_neg beyond, Checked.pure_eq_ok_iff, Word.ext_iff, val_widen_ratio, amountEq,
        haircut_of_le within]

/-- A haircut leaves a ratio, which is then discounted for the size of the gain. -/
theorem unsettledWeight_eq_ok_iff :
    market.unsettledWeight pool pnl .initial oracle = .ok weight ↔
      ∃ base : Ratio, market.imbalancedWeight pool oracle = .ok base.widen ∧
        discountedWeight pnl.magnitude market.pnlSizeFactor base = .ok weight := by
  simp only [unsettledWeight, Checked.bind_eq_ok_iff, Word.cast_eq_ok_iff]
  constructor
  · intro weighed
    obtain ⟨amount, cut, base, baseEq, discounted⟩ := weighed
    obtain rfl : base.widen = amount := Word.ext baseEq
    exact ⟨base, cut, discounted⟩
  · intro weighed
    obtain ⟨base, cut, discounted⟩ := weighed
    exact ⟨base.widen, cut, base, rfl, discounted⟩

/-- The haircut never adds to a weight. -/
theorem base_le_initial (cut : market.imbalancedWeight pool oracle = .ok base.widen) :
    base.val ≤ market.pnlWeights.initial.val := by
  by_cases noBound : market.pnlImbalanceBound = 0
  · rw [imbalancedWeight_of_no_bound noBound, Except.ok.injEq, Word.ext_iff] at cut
    exact cut.symm.le
  · obtain ⟨imbalance, -, -, -, baseEq⟩ := (imbalancedWeight_eq_ok_iff noBound).1 cut
    rw [val_widen_ratio] at baseEq
    rw [baseEq]
    exact (haircut_bounds imbalance.val (Word.unsigned_nonneg _) (Word.unsigned_nonneg _)).2

/-- Two markets that weigh gains on the same terms. -/
structure SameGainTerms (market other : PerpMarket) : Prop where
  weight_eq : other.pnlWeights.initial = market.pnlWeights.initial
  bound_eq : other.pnlImbalanceBound = market.pnlImbalanceBound
  factor_eq : other.pnlSizeFactor = market.pnlSizeFactor

/-- On the same terms, where the haircut for one imbalance can be computed, that for a lower one can,
and leaves no less. -/
theorem SameGainTerms.exists_base_ge (terms : market.SameGainTerms calmer)
    (imbalanced : market.pnlImbalance pool oracle = .ok imbalance)
    (calmed : calmer.pnlImbalance calmerPool calmerOracle = .ok lower) (lowerLe : lower ≤ imbalance)
    (cut : market.imbalancedWeight pool oracle = .ok base.widen) :
    ∃ more : Ratio, calmer.imbalancedWeight calmerPool calmerOracle = .ok more.widen ∧
      base.val ≤ more.val := by
  have weightNonneg := Word.unsigned_nonneg market.pnlWeights.initial
  have boundNonneg := Word.unsigned_nonneg market.pnlImbalanceBound
  by_cases noBound : market.pnlImbalanceBound = 0
  · refine ⟨calmer.pnlWeights.initial,
      imbalancedWeight_of_no_bound (terms.bound_eq.trans noBound), ?_⟩
    rw [terms.weight_eq]
    exact base_le_initial cut
  obtain ⟨imbalance', imbalanced', boundHeld, fits, baseEq⟩ :=
    (imbalancedWeight_eq_ok_iff noBound).1 cut
  obtain rfl : imbalance' = imbalance := Except.ok.inj (imbalanced'.symm.trans imbalanced)
  obtain ⟨nonneg, le⟩ := haircut_bounds lower.val weightNonneg boundNonneg
  obtain ⟨more, moreEq⟩ := Word.exists_val_eq_of_le market.pnlWeights.initial nonneg le
  rw [← terms.bound_eq] at noBound
  refine ⟨more, (imbalancedWeight_eq_ok_iff noBound).2 ⟨lower, calmed, ?_⟩, ?_⟩
  · rw [terms.bound_eq, terms.weight_eq]
    exact ⟨boundHeld, fun beyond => fits (beyond.trans_le lowerLe), moreEq⟩
  · rw [← val_widen_ratio base, baseEq, moreEq]
    exact haircut_le_haircut weightNonneg boundNonneg lowerLe

/-- The initial weight of a gain is no more than configured, and beyond the bound it makes no more of
the imbalance than the configured weight makes of the bound. On the same terms it falls with the
imbalance and with the size of the gain: what can be computed for more of both can be computed for
less. -/
theorem unsettledWeight_capped
    (weighed : market.unsettledWeight pool pnl .initial oracle = .ok weight) :
    weight ≤ market.pnlWeights.initial ∧
    (market.pnlImbalanceBound ≠ 0 →
      ∃ imbalance, market.pnlImbalance pool oracle = .ok imbalance ∧
        (market.pnlImbalanceBound.val < imbalance.val →
          weight.val * imbalance.val ≤
            market.pnlWeights.initial.val * market.pnlImbalanceBound.val)) ∧
    ∀ calmer calmerPool calmerOracle milder imbalance lower, market.SameGainTerms calmer →
      market.pnlImbalance pool oracle = .ok imbalance →
      calmer.pnlImbalance calmerPool calmerOracle = .ok lower → lower ≤ imbalance →
      milder.magnitude ≤ pnl.magnitude →
      ∃ more, calmer.unsettledWeight calmerPool milder .initial calmerOracle = .ok more ∧
        weight ≤ more := by
  obtain ⟨base, cut, discounted⟩ := unsettledWeight_eq_ok_iff.1 weighed
  have weightLe := discountedWeight_le discounted
  refine ⟨weightLe.trans (base_le_initial cut), fun bounded => ?_, ?_⟩
  · obtain ⟨imbalance, imbalanced, -, -, baseEq⟩ := (imbalancedWeight_eq_ok_iff bounded).1 cut
    refine ⟨imbalance, imbalanced, fun beyond => ?_⟩
    have boundNonneg := Word.unsigned_nonneg market.pnlImbalanceBound
    have imbalanceNonneg : 0 ≤ imbalance.val := boundNonneg.trans beyond.le
    rw [val_widen_ratio] at baseEq
    calc weight.val * imbalance.val ≤ base.val * imbalance.val :=
          mul_le_mul_of_nonneg_right weightLe imbalanceNonneg
      _ ≤ market.pnlWeights.initial.val * market.pnlImbalanceBound.val := by
        rw [baseEq]
        exact haircut_mul_le boundNonneg (mt Word.eq_zero_iff.2 bounded) beyond
  · intro calmer calmerPool calmerOracle milder imbalance lower terms imbalanced calmed lowerLe
      sizeLe
    obtain ⟨heavier, cutLess, baseLe⟩ := terms.exists_base_ge imbalanced calmed lowerLe cut
    obtain ⟨between, discountedLess, betweenLe⟩ :=
      exists_discountedWeight_ge sizeLe le_rfl discounted
    obtain ⟨more, discountedLeast, moreLe⟩ :=
      exists_discountedWeight_ge_of_weight baseLe discountedLess
    rw [← terms.factor_eq] at discountedLeast
    exact ⟨more, unsettledWeight_eq_ok_iff.2 ⟨heavier, cutLess, discountedLeast⟩,
      betweenLe.trans moreLe⟩

/-- A market whose users have gained three times its bound, with nothing in the settlement pool. -/
def wonMarket : PerpMarket where
  maker := { netQuote := .lit 300000000 }
  pnlWeights := ⟨.lit 8000, .lit 9000⟩
  pnlSizeFactor := .lit 1000
  pnlImbalanceBound := .lit 100000000

/-- The same market after its users have lost half of that again. -/
def calmedMarket : PerpMarket := { wonMarket with maker := { netQuote := .lit 150000000 } }

/-- A gain of ten thousand million in one market and a loss of a million in the other. -/
theorem unsettledWeight_capped_of_wonMarket :
    wonMarket.unsettledWeight {} (.lit 10000000000000000) .initial {} = .ok (.lit 2642) ∧
      (.lit 2642 : Ratio) ≤ .lit 8000 ∧ wonMarket.pnlImbalanceBound ≠ 0 ∧
      wonMarket.pnlImbalance {} {} = .ok (.lit 300000000) ∧
      (2642 : Int) * 300000000 ≤ 8000 * 100000000 ∧
      wonMarket.SameGainTerms calmedMarket ∧
      calmedMarket.pnlImbalance {} {} = .ok (.lit 150000000) ∧
      ∃ more, calmedMarket.unsettledWeight {} (.lit (-1000000000000)) .initial {} = .ok more ∧
        .lit 2642 ≤ more := by
  have weighed : wonMarket.unsettledWeight {} (.lit 10000000000000000) .initial {} =
      .ok (.lit 2642) := by
    decide +kernel
  have bounded : wonMarket.pnlImbalanceBound ≠ 0 := by decide
  have imbalanced : wonMarket.pnlImbalance {} {} = .ok (.lit 300000000) := rfl
  have calmed : calmedMarket.pnlImbalance {} {} = .ok (.lit 150000000) := rfl
  have terms : wonMarket.SameGainTerms calmedMarket := ⟨rfl, rfl, rfl⟩
  obtain ⟨weightLe, capped, falls⟩ := unsettledWeight_capped weighed
  obtain ⟨imbalance, imbalanced', cap⟩ := capped bounded
  obtain rfl : .lit 300000000 = imbalance := Except.ok.inj (imbalanced.symm.trans imbalanced')
  exact ⟨weighed, weightLe, bounded, imbalanced, cap (by decide), terms, calmed,
    falls _ _ _ _ _ _ terms imbalanced calmed (by decide) (by decide)⟩

end PerpMarket

end Leverage
