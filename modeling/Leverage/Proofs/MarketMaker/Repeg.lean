import Leverage.MarketMaker.Repeg
import Mathlib.Tactic.GCongr
import Mathlib.Tactic.Linarith
import Mathlib.Tactic.Ring

/-!
# What a repeg can do

The functions of a repeg are opened here, one lemma each, and `Repegged` lists the four ways in which
a repeg succeeds. Every fact about repegs is read off that list.

The cost of a move is truncated toward zero and may be negative, while the distance that a budget
pays for is the floor of an unsigned quotient. `cost_le_budget_of_distance_le` is where the two
meet: within that distance no move costs more than the budget, in either direction.
-/

namespace Leverage.MarketMaker

variable {maker next : MarketMaker} {reading : OracleReading} {target budget peg : Amount}
  {cost : SignedAmount}

/-! ## The functions of a repeg -/

theorem targetPeg_eq {price : SignedAmount} (aimed : maker.targetPeg price = .ok target) :
    0 < maker.reserves.quote.val * Scale.priceToPeg.val ∧
      target.val = max (price.val * maker.reserves.base.val /
        (maker.reserves.quote.val * Scale.priceToPeg.val)) 1 := by
  simp only [targetPeg, Checked.bind_eq_ok_iff, Checked.pure_eq_ok_iff, Word.cast_eq_ok_iff,
    Word.mul_eq_ok_iff, Word.unsigned_div_eq_ok_iff] at aimed
  rcases aimed with ⟨unsigned, unsignedEq, lifted, liftedEq, depth, depthEq, raw, ⟨nonzero, rawEq⟩,
    rfl⟩
  have depthNonneg := Word.unsigned_nonneg depth
  rw [Word.val_max, rawEq, liftedEq, unsignedEq, ← depthEq]
  exact ⟨by omega, rfl⟩

theorem targetPeg_pos {price : SignedAmount} (aimed : maker.targetPeg price = .ok target) :
    1 ≤ target.val := by
  rw [(targetPeg_eq aimed).2]
  exact le_max_right _ 1

/-- A higher price sets no lower target. -/
theorem targetPeg_le_targetPeg {price higher : SignedAmount} {targetLow targetHigh : Amount}
    (ordered : price ≤ higher) (aimedLow : maker.targetPeg price = .ok targetLow)
    (aimedHigh : maker.targetPeg higher = .ok targetHigh) : targetLow.val ≤ targetHigh.val := by
  obtain ⟨depthPos, lowEq⟩ := targetPeg_eq aimedLow
  obtain ⟨-, highEq⟩ := targetPeg_eq aimedHigh
  have worthLe : price.val * maker.reserves.base.val ≤ higher.val * maker.reserves.base.val :=
    mul_le_mul_of_nonneg_right ordered (Word.unsigned_nonneg _)
  rw [lowEq, highEq]
  exact max_le_max_right 1 (Int.ediv_le_ediv depthPos worthLe)

/-- Where a price has a target, every lower price that is not negative has one, and no higher one. -/
theorem exists_targetPeg_le {price lower : SignedAmount} (nonneg : 0 ≤ lower.val)
    (le : lower ≤ price) (aimed : maker.targetPeg price = .ok target) :
    ∃ less, maker.targetPeg lower = .ok less ∧ less.val ≤ target.val := by
  obtain ⟨less, aimedLower⟩ : ∃ less, maker.targetPeg lower = .ok less := by
    simp only [targetPeg, Checked.bind_eq_ok_iff, Word.cast_eq_ok_iff] at aimed ⊢
    rcases aimed with ⟨unsigned, unsignedEq, lifted, liftedEq, depth, depthEq, raw, rawEq, -⟩
    rw [Word.le_iff, ← unsignedEq] at le
    obtain ⟨lowerUnsigned, lowerUnsignedEq⟩ := Word.exists_val_eq_of_le unsigned nonneg le
    rw [← lowerUnsignedEq] at le
    obtain ⟨lowerLifted, lowerLiftedEq, liftedLe⟩ := Word.exists_unsigned_mul_le
      (mul_le_mul_of_nonneg_right le (Word.unsigned_nonneg maker.reserves.base)) liftedEq
    obtain ⟨lowerRaw, lowerRawEq, -⟩ := Word.exists_unsigned_div_le liftedLe rawEq
    exact ⟨_, lowerUnsigned, lowerUnsignedEq, lowerLifted, lowerLiftedEq, depth, depthEq, lowerRaw,
      lowerRawEq, rfl⟩
  exact ⟨less, aimedLower, targetPeg_le_targetPeg le aimedLower aimed⟩

theorem repegBudget_eq (funded : maker.repegBudget = .ok budget) :
    budget.val = max (maker.retainedFees.val - maker.exchangeFees.val / 2) 0 := by
  simp only [repegBudget, Checked.bind_eq_ok_iff, Checked.pure_eq_ok_iff, Word.sub_eq_ok_iff,
    Word.cast_eq_ok_iff, Word.unsigned_div_eq_ok_iff] at funded
  rcases funded with ⟨half, ⟨-, halfEq⟩, reserved, reservedEq, free, freeEq, rfl⟩
  rw [Word.val_magnitude, Word.val_max, freeEq, reservedEq, halfEq]
  exact Int.natAbs_of_nonneg (le_max_right _ _)

theorem repegCost_eq (priced : maker.repegCost peg = .ok cost) :
    ∃ surplus, maker.quoteSurplus = .ok surplus ∧
      cost.val = (surplus.val * (peg.val - maker.peg.val)).tdiv Scale.peggedReserveToQuote.val := by
  simp only [repegCost, Checked.bind_eq_ok_iff, Word.sub_eq_ok_iff, Word.cast_eq_ok_iff,
    Word.mulDiv_eq_ok_iff] at priced
  rcases priced with ⟨surplus, surplusEq, raised, raisedEq, current, currentEq, move, moveEq, -, -,
    costEq⟩
  rw [moveEq, raisedEq, currentEq] at costEq
  exact ⟨surplus, surplusEq, costEq⟩

theorem affordablePeg_eq (affords : maker.affordablePeg target budget = .ok peg) :
    ∃ surplus reach, maker.quoteSurplus = .ok surplus ∧ surplus.val ≠ 0 ∧
      reach = budget.val * Scale.peggedReserveToQuote.val / surplus.val.natAbs ∧
      peg.val =
        if maker.peg.val < target.val then min (maker.peg.val + reach) target.val
        else max (max (max 0 (maker.peg.val - reach)) target.val) 1 := by
  simp only [affordablePeg, Checked.bind_eq_ok_iff, Word.unsigned_mulDiv_eq_ok_iff,
    Word.lt_iff] at affords
  rcases affords with ⟨surplus, surplusEq, reach, ⟨-, nonzero, reachEq⟩, moved⟩
  rw [Word.val_magnitude] at nonzero reachEq
  refine ⟨surplus, reach.val, surplusEq, by omega, reachEq, ?_⟩
  split at moved
  · next up =>
    simp only [Checked.bind_eq_ok_iff, Checked.pure_eq_ok_iff, Word.add_eq_ok_iff] at moved
    rcases moved with ⟨raised, raisedEq, rfl⟩
    rw [if_pos up, Word.val_min, raisedEq]
  · next notUp =>
    rw [Checked.pure_eq_ok_iff] at moved
    rw [if_neg notUp, ← moved, Word.val_max, Word.val_max, Word.val_monus]
    rfl

theorem settlePeg_eq_ok_iff :
    maker.settlePeg peg cost = .ok next ↔
      ∃ fees : SignedAmount, fees.val = maker.retainedFees.val - cost.val ∧
        { maker with peg := peg, retainedFees := fees } = next := by
  simp only [settlePeg, Checked.bind_eq_ok_iff, Checked.pure_eq_ok_iff, Word.sub_eq_ok_iff]

/-! ## The ways in which a repeg succeeds -/

/-- A repeg is short of funds when the way to its target costs more than may be spent. -/
structure ShortOfFunds (maker : MarketMaker) (reading : OracleReading) (target budget : Amount) :
    Prop where
  follows : maker.repegIntensity ≠ 0
  positive : 0 < reading.price
  aimed : maker.targetPeg reading.price = .ok target
  away : target ≠ maker.peg
  funded : maker.repegBudget = .ok budget
  short : ∃ limit cost, budget.cast (.signed 128) = .ok limit ∧
    maker.repegCost target = .ok cost ∧ limit < cost

/-- The ways in which a repeg succeeds. -/
inductive Repegged (maker : MarketMaker) (reading : OracleReading) : MarketMaker → Prop
  /-- The peg does not follow the oracle. -/
  | still (off : maker.repegIntensity = 0) : Repegged maker reading maker
  /-- The peg is where the oracle wants it. -/
  | onTarget (aimed : maker.targetPeg reading.price = .ok maker.peg) :
    Repegged maker reading maker
  /-- The budget pays for the whole way. -/
  | reached {target budget : Amount} {cost fees : SignedAmount}
    (aimed : maker.targetPeg reading.price = .ok target)
    (away : target ≠ maker.peg)
    (funded : maker.repegBudget = .ok budget)
    (priced : maker.repegCost target = .ok cost)
    (enough : cost.val ≤ budget.val)
    (paid : fees.val = maker.retainedFees.val - cost.val) :
    Repegged maker reading { maker with peg := target, retainedFees := fees }
  /-- The peg goes as far as the budget pays for. -/
  | limited {target budget peg : Amount} {cost fees : SignedAmount}
    (short : maker.ShortOfFunds reading target budget)
    (affords : maker.affordablePeg target budget = .ok peg)
    (priced : maker.repegCost peg = .ok cost)
    (paid : fees.val = maker.retainedFees.val - cost.val) :
    Repegged maker reading { maker with peg := peg, retainedFees := fees }

/-- A market maker that is short of funds is moved to what is affordable. -/
theorem ShortOfFunds.repeg_eq (short : maker.ShortOfFunds reading target budget) :
    maker.repeg reading = (do
      let peg ← maker.affordablePeg target budget
      maker.settlePeg peg (← maker.repegCost peg)) := by
  obtain ⟨limit, cost, limitEq, priced, costly⟩ := short.short
  have notPositive : ¬ reading.price ≤ 0 := not_le.2 (Word.lt_iff.1 short.positive)
  unfold repeg moveToward
  rw [if_neg short.follows, if_neg notPositive, short.aimed]
  simp only [bind, Except.bind, if_neg short.away, short.funded, limitEq, priced, if_pos costly]

theorem Repegged.of_repeg (stepped : maker.repeg reading = .ok next) :
    Repegged maker reading next := by
  unfold repeg at stepped
  by_cases off : maker.repegIntensity = 0
  · rw [if_pos off, Except.ok.injEq] at stepped
    exact stepped ▸ .still off
  by_cases notPositive : reading.price ≤ 0
  · rw [if_neg off, if_pos notPositive] at stepped
    cases stepped
  rw [if_neg off, if_neg notPositive, Checked.bind_eq_ok_iff] at stepped
  rcases stepped with ⟨target, aimed, stepped⟩
  by_cases there : target = maker.peg
  · rw [if_pos there, Checked.pure_eq_ok_iff] at stepped
    exact stepped ▸ .onTarget (there ▸ aimed)
  rw [if_neg there, Checked.bind_eq_ok_iff] at stepped
  rcases stepped with ⟨budget, funded, moved⟩
  simp only [moveToward, Checked.bind_eq_ok_iff] at moved
  rcases moved with ⟨limit, limitEq, cost, priced, moved⟩
  by_cases short : limit < cost
  · rw [if_pos short, Checked.bind_eq_ok_iff] at moved
    rcases moved with ⟨peg, affords, moved⟩
    rw [Checked.bind_eq_ok_iff] at moved
    rcases moved with ⟨spent, spentEq, settled⟩
    rw [settlePeg_eq_ok_iff] at settled
    rcases settled with ⟨fees, paid, rfl⟩
    have positive : 0 < reading.price := Word.lt_iff.2 (not_le.1 notPositive)
    exact .limited ⟨off, positive, aimed, there, funded, limit, cost, limitEq, priced, short⟩
      affords spentEq paid
  · rw [if_neg short, settlePeg_eq_ok_iff] at moved
    rcases moved with ⟨fees, paid, rfl⟩
    rw [Word.lt_iff, Word.cast_eq_ok_iff.1 limitEq] at short
    exact .reached aimed there funded priced (not_lt.1 short) paid

/-! ## Costs and budgets -/

/-- Within the distance that a budget pays for no move costs more than the budget. -/
theorem cost_le_budget_of_distance_le {surplus move budget unit : Int} (unitPos : 0 < unit)
    (nonzero : surplus ≠ 0) (near : move.natAbs ≤ budget * unit / surplus.natAbs) :
    (surplus * move).tdiv unit ≤ budget := by
  have swept : surplus.natAbs * move.natAbs ≤ budget * unit := by
    calc (surplus.natAbs : Int) * move.natAbs
        ≤ surplus.natAbs * (budget * unit / surplus.natAbs) := by gcongr
      _ ≤ budget * unit := Int.mul_ediv_self_le (by omega)
  have worth : surplus * move ≤ budget * unit := by
    calc surplus * move ≤ (surplus * move).natAbs := Int.le_natAbs
      _ = surplus.natAbs * move.natAbs := by rw [Int.natAbs_mul, Nat.cast_mul]
      _ ≤ budget * unit := swept
  calc (surplus * move).tdiv unit ≤ (budget * unit).tdiv unit := Int.tdiv_le_tdiv unitPos worth
    _ = budget := Int.mul_tdiv_cancel _ unitPos.ne'

/-- A move that costs something changes the worth of a surplus that is there. -/
theorem ShortOfFunds.surplus_ne_zero (short : maker.ShortOfFunds reading target budget) :
    ∃ surplus, maker.quoteSurplus = .ok surplus ∧ surplus.val ≠ 0 := by
  obtain ⟨limit, cost, limitEq, priced, costly⟩ := short.short
  obtain ⟨surplus, surplusEq, costEq⟩ := repegCost_eq priced
  refine ⟨surplus, surplusEq, ?_⟩
  intro none
  rw [none, zero_mul, Int.zero_tdiv] at costEq
  rw [Word.lt_iff, Word.cast_eq_ok_iff.1 limitEq] at costly
  have budgetNonneg := Word.unsigned_nonneg budget
  omega

/-- The affordable peg lies on the way to the target, no farther off than the budget reaches. -/
theorem affordablePeg_near (affords : maker.affordablePeg target budget = .ok peg)
    (targetPos : 1 ≤ target.val) :
    ∃ surplus, maker.quoteSurplus = .ok surplus ∧ surplus.val ≠ 0 ∧
      (peg.val - maker.peg.val).natAbs ≤
        budget.val * Scale.peggedReserveToQuote.val / surplus.val.natAbs ∧
      min maker.peg.val target.val ≤ peg.val ∧ peg.val ≤ max maker.peg.val target.val := by
  obtain ⟨surplus, reach, surplusEq, nonzero, reachEq, pegEq⟩ := affordablePeg_eq affords
  have reachNonneg : 0 ≤ reach := by
    rw [reachEq]
    exact Int.ediv_nonneg
      (mul_nonneg (Word.unsigned_nonneg budget) Scale.peggedReserveToQuote_pos.le)
      (Int.natCast_nonneg _)
  have currentNonneg := Word.unsigned_nonneg maker.peg
  refine ⟨surplus, surplusEq, nonzero, ?_⟩
  rw [← reachEq]
  split at pegEq
  · next up => omega
  · next notUp => omega

/-- A peg that is affordable is paid for by the budget. -/
theorem cost_le_budget_of_affordablePeg (affords : maker.affordablePeg target budget = .ok peg)
    (targetPos : 1 ≤ target.val) (priced : maker.repegCost peg = .ok cost) :
    cost.val ≤ budget.val := by
  obtain ⟨surplus, surplusEq, nonzero, near, -⟩ := affordablePeg_near affords targetPos
  obtain ⟨surplus', surplusEq', costEq⟩ := repegCost_eq priced
  obtain rfl : surplus' = surplus := Except.ok.inj (surplusEq'.symm.trans surplusEq)
  rw [costEq]
  exact cost_le_budget_of_distance_le Scale.peggedReserveToQuote_pos nonzero near

/-- Paying no more than the budget leaves half the exchange fees, or what there was if that is
less. -/
theorem reserve_le_of_cost_le_budget (funded : maker.repegBudget = .ok budget)
    (enough : cost.val ≤ budget.val) :
    min maker.retainedFees.val (maker.exchangeFees.val / 2) ≤
      maker.retainedFees.val - cost.val := by
  have budgetEq := repegBudget_eq funded
  omega

/-! ## What every repeg keeps -/

namespace Repegged

/-- A repeg moves the peg and pays for it, and touches nothing else. -/
theorem eq_with (stepped : Repegged maker reading next) :
    next = { maker with peg := next.peg, retainedFees := next.retainedFees } := by
  cases stepped <;> rfl

/-- A repeg never spends half the exchange fees. -/
theorem reserve_le (stepped : Repegged maker reading next) :
    min maker.retainedFees.val (maker.exchangeFees.val / 2) ≤ next.retainedFees.val := by
  cases stepped with
  | still => exact min_le_left _ _
  | onTarget => exact min_le_left _ _
  | reached aimed away funded priced enough paid =>
    rw [paid]
    exact reserve_le_of_cost_le_budget funded enough
  | limited short affords priced paid =>
    rw [paid]
    exact reserve_le_of_cost_le_budget short.funded
      (cost_le_budget_of_affordablePeg affords (targetPeg_pos short.aimed) priced)

/-- A repeg moves the peg toward its target and not beyond. -/
theorem peg_between (stepped : Repegged maker reading next)
    (aimed : maker.targetPeg reading.price = .ok target) :
    min maker.peg.val target.val ≤ next.peg.val ∧
      next.peg.val ≤ max maker.peg.val target.val := by
  cases stepped with
  | still => exact ⟨min_le_left _ _, le_max_left _ _⟩
  | onTarget => exact ⟨min_le_left _ _, le_max_left _ _⟩
  | reached aimed' =>
    obtain rfl := Except.ok.inj (aimed'.symm.trans aimed)
    exact ⟨min_le_right _ _, le_max_right _ _⟩
  | limited short affords =>
    obtain rfl := Except.ok.inj (short.aimed.symm.trans aimed)
    obtain ⟨_, -, -, -, between⟩ := affordablePeg_near affords (targetPeg_pos aimed)
    exact between

/-- A peg that has moved had a target. -/
theorem exists_targetPeg (stepped : Repegged maker reading next) (moved : next.peg ≠ maker.peg) :
    ∃ target, maker.targetPeg reading.price = .ok target := by
  cases stepped with
  | still => exact absurd rfl moved
  | onTarget aimed => exact ⟨_, aimed⟩
  | reached aimed => exact ⟨_, aimed⟩
  | limited short => exact ⟨_, short.aimed⟩

end Repegged

end Leverage.MarketMaker
