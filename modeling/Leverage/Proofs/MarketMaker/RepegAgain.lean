import Leverage.Proofs.MarketMaker.Reach

/-!
# A second repeg on the same reading

A repeg that arrives at its target leaves nothing for a second one to do. A repeg that is short of
funds leaves what it could not spend, and since its cost is truncated that can be more than one unit
of the peg costs: then a second repeg on the same reading moves the peg on. `repeg_again` says
exactly when it does and bounds the move; `repeg_not_idempotent` says that there are market makers
that move twice.
-/

namespace Leverage.MarketMaker

variable {maker next once twice : MarketMaker} {reading : OracleReading}
  {target budget left : Amount} {surplus : SignedAmount}

/-! ## Market makers that stay -/

/-- The market maker is where the reading lets it go: its peg does not follow the oracle, or is at
its target, or it is short of funds with a budget of less than one unit of the peg costs. -/
def Settled (maker : MarketMaker) (reading : OracleReading) : Prop :=
  maker.repegIntensity = 0 ∨ maker.targetPeg reading.price = .ok maker.peg ∨
    ∃ target budget surplus, maker.ShortOfFunds reading target budget ∧
      maker.quoteSurplus = .ok surplus ∧ budget.val * quoteUnit < |surplus.val|

/-- A repeg changes something exactly where the market maker is not settled. -/
theorem repeg_eq_self_iff (stepped : maker.repeg reading = .ok next) :
    next = maker ↔ maker.Settled reading := by
  have step := Repegged.of_repeg stepped
  constructor
  · intro same
    by_cases off : maker.repegIntensity = 0
    · exact Or.inl off
    rcases step.arrives_or_stops off with aimed | ⟨target, budget, short, affords⟩
    · exact Or.inr (Or.inl (same ▸ aimed))
    · obtain ⟨surplus, weighed, -⟩ := short.surplus_ne_zero
      obtain ⟨-, -, ltNext⟩ := short.affordable_bounds weighed affords
      rw [same, exactCost, sub_self, mul_zero, zero_add] at ltNext
      exact Or.inr (Or.inr ⟨target, budget, surplus, short, weighed, ltNext⟩)
  · rintro (off | aimed | ⟨target, budget, surplus, short, weighed, low⟩)
    · rw [repeg_of_off off, Except.ok.injEq] at stepped
      exact stepped.symm
    · refine step.eq_self_of_peg_eq (Word.ext ?_)
      have between := step.peg_between aimed
      omega
    · refine step.eq_self_of_peg_eq (Word.ext ?_)
      obtain ⟨nonzero, costEq⟩ :=
        short.exactCost_affordable weighed (step.stops_of_short short)
      have fundsNonneg : 0 ≤ budget.val * quoteUnit :=
        mul_nonneg (Word.unsigned_nonneg budget) quoteUnit_pos.le
      rw [Int.ediv_eq_zero_of_lt fundsNonneg low, zero_mul, exactCost,
        mul_eq_zero_iff_left nonzero] at costEq
      omega

/-! ## What is left for a second repeg -/

namespace ShortOfFunds

variable (short : maker.ShortOfFunds reading target budget) (first : Repegged maker reading once)
  (weighed : maker.quoteSurplus = .ok surplus)

include short first weighed

/-- A repeg that was short of funds leaves its budget less the whole units of quote in its cost. -/
theorem left_eq (funded : once.repegBudget = .ok left) :
    left.val = budget.val - maker.exactCost surplus once.peg / quoteUnit := by
  obtain ⟨costNonneg, within, -⟩ := short.affordable_bounds weighed (first.stops_of_short short)
  have budgetEq := repegBudget_eq short.funded
  have leftEq := repegBudget_eq funded
  have paid := first.retainedFees_eq weighed
  have reserveEq : once.exchangeFees = maker.exchangeFees := by
    rw [first.eq_with]
  rw [Int.tdiv_eq_ediv_of_nonneg costNonneg] at paid
  rw [reserveEq, paid] at leftEq
  have wholeNonneg : 0 ≤ maker.exactCost surplus once.peg / quoteUnit :=
    Int.ediv_nonneg costNonneg quoteUnit_pos.le
  have wholeLe : maker.exactCost surplus once.peg / quoteUnit ≤ budget.val :=
    Int.ediv_le_of_le_mul quoteUnit_pos within
  omega

/-- What is left is less than one unit of the peg costs, but for what truncation has spared. -/
theorem left_lt (funded : once.repegBudget = .ok left) :
    left.val * quoteUnit < |surplus.val| + quoteUnit := by
  obtain ⟨-, -, ltNext⟩ := short.affordable_bounds weighed (first.stops_of_short short)
  have spared := Int.lt_ediv_add_one_mul_self (maker.exactCost surplus once.peg) quoteUnit_pos
  rw [short.left_eq first weighed funded]
  linarith

/-- A second repeg goes on toward the same target. -/
theorem second_toward (second : Repegged once reading twice) :
    0 ≤ surplus.val * (twice.peg.val - once.peg.val) := by
  have aimed : once.targetPeg reading.price = .ok target := by
    rw [first.keeps_targetPeg, short.aimed]
  have between := second.peg_between aimed
  have beyond := short.beyond_affordable weighed (first.stops_of_short short)
  rcases pos_and_pos_or_neg_and_neg_of_mul_pos beyond with
    ⟨surplusPos, above⟩ | ⟨surplusNeg, below⟩
  · exact mul_nonneg surplusPos.le (by omega)
  · exact mul_nonneg_of_nonpos_of_nonpos surplusNeg.le (by omega)

/-- A second repeg goes on by less than two units of quote and one of the peg. -/
theorem second_lt (second : Repegged once reading twice) (funded : once.repegBudget = .ok left) :
    (|twice.peg.val - once.peg.val| - 1) * |surplus.val| < 2 * quoteUnit := by
  refine abs_sub_one_mul_abs_lt (short.second_toward first weighed second) ?_
  have weighedOnce : once.quoteSurplus = .ok surplus := first.keeps_quoteSurplus.trans weighed
  calc surplus.val * (twice.peg.val - once.peg.val)
      = once.exactCost surplus twice.peg := rfl
    _ < (left.val + 1) * quoteUnit := second.exactCost_lt funded weighedOnce
    _ = left.val * quoteUnit + quoteUnit := by ring
    _ < |surplus.val| + 2 * quoteUnit := by linarith [short.left_lt first weighed funded]

/-- Where nothing is truncated, a second repeg stays. -/
theorem second_stays (second : Repegged once reading twice)
    (funded : once.repegBudget = .ok left) (whole : quoteUnit ∣ surplus.val) : twice = once := by
  have toward := short.second_toward first weighed second
  have weighedOnce : once.quoteSurplus = .ok surplus := first.keeps_quoteSurplus.trans weighed
  have leftEq : left.val * quoteUnit =
      budget.val * quoteUnit - maker.exactCost surplus once.peg := by
    rw [short.left_eq first weighed funded, sub_mul,
      Int.ediv_mul_cancel (quoteUnit_dvd_exactCost whole)]
  have secondLe := exactCost_le_of_dvd whole (second.exactCost_lt funded weighedOnce)
  -- The budget pays for both moves together, and the first has gone as far as it pays for.
  have within : maker.exactCost surplus twice.peg ≤ budget.val * quoteUnit := by
    calc maker.exactCost surplus twice.peg
        = maker.exactCost surplus once.peg + once.exactCost surplus twice.peg := by
          unfold exactCost
          ring
      _ ≤ budget.val * quoteUnit := by linarith
  have noFarther := short.exactCost_le_affordable weighed (first.stops_of_short short) within
  rw [← sub_nonpos, exactCost_sub_exactCost] at noFarther
  obtain ⟨nonzero, -⟩ := short.exactCost_affordable weighed (first.stops_of_short short)
  have stays := le_antisymm noFarther toward
  rw [mul_eq_zero_iff_left nonzero] at stays
  exact second.eq_self_of_peg_eq (Word.ext (by omega))

end ShortOfFunds

/-- A second repeg on the same reading changes nothing exactly where the first has left the market
maker settled. It moves the peg on only where the first was short of funds and the surplus is not one
of whole units of quote, and then by at most one and what two units of quote move the peg. -/
theorem repeg_again (first : maker.repeg reading = .ok once)
    (second : once.repeg reading = .ok twice) :
    (twice = once ↔ once.Settled reading) ∧
      (twice ≠ once → ∃ target budget surplus, maker.ShortOfFunds reading target budget ∧
        maker.quoteSurplus = .ok surplus ∧ ¬ quoteUnit ∣ surplus.val ∧
          (|twice.peg.val - once.peg.val| - 1) * |surplus.val| < 2 * quoteUnit) := by
  have stays := repeg_eq_self_iff second
  refine ⟨stays, fun moved => ?_⟩
  have stepFirst := Repegged.of_repeg first
  have stepSecond := Repegged.of_repeg second
  have follows : maker.repegIntensity ≠ 0 := by
    intro off
    have offOnce : once.repegIntensity = 0 := by
      rw [stepFirst.eq_with]
      exact off
    exact moved (stays.2 (Or.inl offOnce))
  rcases stepFirst.arrives_or_stops follows with arrived | ⟨target, budget, short, -⟩
  · rw [← stepFirst.keeps_targetPeg] at arrived
    exact absurd (stays.2 (Or.inr (Or.inl arrived))) moved
  obtain ⟨surplus, weighed, -⟩ := short.surplus_ne_zero
  obtain ⟨left, funded⟩ := stepSecond.exists_repegBudget moved
  exact ⟨target, budget, surplus, short, weighed,
    fun whole => moved (short.second_stays stepFirst weighed stepSecond funded whole),
    short.second_lt stepFirst weighed stepSecond funded⟩

theorem tightMaker_repeg_rise_twice :
    { tightMaker with peg := .lit 50009, retainedFees := .lit 410101011 : MarketMaker }.repeg rise =
      .ok { tightMaker with peg := .lit 50010, retainedFees := .lit 400000001 } := rfl

theorem repeg_again_of_tightMaker :
    ∃ once twice, tightMaker.repeg rise = .ok once ∧ once.repeg rise = .ok twice ∧
      twice.peg = .lit 50010 ∧ ¬ once.Settled rise ∧
      ∃ target budget surplus, tightMaker.ShortOfFunds rise target budget ∧
        tightMaker.quoteSurplus = .ok surplus ∧ ¬ quoteUnit ∣ surplus.val := by
  obtain ⟨settledIff, onward⟩ := repeg_again tightMaker_repeg_rise tightMaker_repeg_rise_twice
  obtain ⟨target, budget, surplus, short, weighed, broken, -⟩ := onward (by decide)
  exact ⟨_, _, tightMaker_repeg_rise, tightMaker_repeg_rise_twice, rfl,
    fun settled => absurd (settledIff.2 settled) (by decide), target, budget, surplus, short,
    weighed, broken⟩

/-- A second repeg on the same reading need not leave the market maker as it is. -/
theorem repeg_not_idempotent :
    ¬ ∀ (maker : MarketMaker) (reading : OracleReading) (once twice : MarketMaker),
      maker.repeg reading = .ok once → once.repeg reading = .ok twice → twice = once := by
  intro stays
  exact absurd (stays tightMaker rise _ _ tightMaker_repeg_rise tightMaker_repeg_rise_twice)
    (by decide)

end Leverage.MarketMaker
