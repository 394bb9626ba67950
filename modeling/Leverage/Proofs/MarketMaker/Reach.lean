import Leverage.Proofs.MarketMaker.RepegRun
import Mathlib.Algebra.Order.Ring.Abs

/-!
# How far a repeg reaches

`exactCost` is the cost of a move of the peg before it is truncated to whole units of quote. In its
terms a target is paid for as long as its exact cost is less than a unit over the budget
(`cost_le_iff`), while a peg that is only moved as far as the budget pays for stops before its exact
cost is over the budget at all (`ShortOfFunds.affordable_bounds`). Between the two lie the targets
that are paid for by truncation alone.

Every repeg that follows the oracle either arrives at its target or stops where the budget ends
(`Repegged.arrives_or_stops`), and none goes a whole unit over it (`Repegged.exactCost_lt`).
-/

namespace Leverage.MarketMaker

variable {maker next : MarketMaker} {reading : OracleReading} {target budget peg : Amount}
  {surplus cost : SignedAmount}

/-! ## Exact costs -/

/-- What one unit of quote comes to in exact costs. -/
def quoteUnit : Int := Scale.peggedReserveToQuote.val

theorem quoteUnit_pos : 0 < quoteUnit := Scale.peggedReserveToQuote_pos

/-- The cost of moving the peg, before it is brought to quote and truncated: the move times the
surplus that it revalues. -/
def exactCost (maker : MarketMaker) (surplus : SignedAmount) (peg : Amount) : Int :=
  surplus.val * (peg.val - maker.peg.val)

theorem exactCost_sub_exactCost {other : Amount} :
    maker.exactCost surplus peg - maker.exactCost surplus other =
      surplus.val * (peg.val - other.val) := by
  unfold exactCost
  ring

theorem quoteUnit_dvd_exactCost (whole : quoteUnit ∣ surplus.val) :
    quoteUnit ∣ maker.exactCost surplus peg := Dvd.dvd.mul_right whole _

/-- With a surplus of whole units of quote there is nothing between a cost that is less than a unit
over a limit and one that is within it. -/
theorem exactCost_le_of_dvd (whole : quoteUnit ∣ surplus.val) {limit : Int}
    (short : maker.exactCost surplus peg < (limit + 1) * quoteUnit) :
    maker.exactCost surplus peg ≤ limit * quoteUnit := by
  obtain ⟨units, costEq⟩ : quoteUnit ∣ maker.exactCost surplus peg :=
    quoteUnit_dvd_exactCost whole
  rw [costEq, mul_comm quoteUnit] at short ⊢
  have unitsLe := Int.lt_add_one_iff.1 (lt_of_mul_lt_mul_right short quoteUnit_pos.le)
  exact mul_le_mul_of_nonneg_right unitsLe quoteUnit_pos.le

/-- A move that costs less than a limit beyond one unit of the peg is longer than one unit by less
than the limit moves it. -/
theorem abs_sub_one_mul_abs_lt {surplus move limit : Int} (costs : 0 ≤ surplus * move)
    (near : surplus * move < |surplus| + limit) : (|move| - 1) * |surplus| < limit := by
  calc (|move| - 1) * |surplus| = |surplus * move| - |surplus| := by
        rw [abs_mul]
        ring
    _ = surplus * move - |surplus| := by rw [abs_of_nonneg costs]
    _ < limit := by linarith

theorem repegCost_eq_tdiv (weighed : maker.quoteSurplus = .ok surplus)
    (priced : maker.repegCost peg = .ok cost) :
    cost.val = (maker.exactCost surplus peg).tdiv quoteUnit := by
  obtain ⟨surplus', weighed', costEq⟩ := repegCost_eq priced
  obtain rfl : surplus' = surplus := Except.ok.inj (weighed'.symm.trans weighed)
  exact costEq

/-- Truncation leaves a cost within a limit until its exact value is a whole unit over the limit. -/
theorem cost_le_iff (weighed : maker.quoteSurplus = .ok surplus)
    (priced : maker.repegCost peg = .ok cost) {limit : Int} (limitNonneg : 0 ≤ limit) :
    cost.val ≤ limit ↔ maker.exactCost surplus peg < (limit + 1) * quoteUnit := by
  have unitPos := quoteUnit_pos
  rw [repegCost_eq_tdiv weighed priced]
  rcases le_total 0 (maker.exactCost surplus peg) with costs | earns
  · rw [Int.tdiv_eq_ediv_of_nonneg costs, ← Int.lt_add_one_iff, Int.ediv_lt_iff_lt_mul unitPos]
  · have truncatedLe := Int.tdiv_le_tdiv unitPos earns
    rw [Int.zero_tdiv] at truncatedLe
    exact iff_of_true (truncatedLe.trans limitNonneg)
      (lt_of_le_of_lt earns (mul_pos (by omega) unitPos))

theorem ShortOfFunds.le_exactCost (short : maker.ShortOfFunds reading target budget)
    (weighed : maker.quoteSurplus = .ok surplus) :
    (budget.val + 1) * quoteUnit ≤ maker.exactCost surplus target := by
  obtain ⟨limit, cost, limitEq, priced, costly⟩ := short.short
  rw [Word.lt_iff, Word.cast_eq_ok_iff.1 limitEq, ← not_le,
    cost_le_iff weighed priced (Word.unsigned_nonneg budget)] at costly
  exact not_lt.1 costly

/-- The affordable peg lies short of the target, by the whole distance that the budget reaches. -/
theorem ShortOfFunds.exactCost_affordable (short : maker.ShortOfFunds reading target budget)
    (weighed : maker.quoteSurplus = .ok surplus)
    (affords : maker.affordablePeg target budget = .ok peg) :
    surplus.val ≠ 0 ∧ maker.exactCost surplus peg =
      budget.val * quoteUnit / |surplus.val| * |surplus.val| := by
  obtain ⟨surplus', reach, weighed', nonzero, reachEq, pegEq⟩ := affordablePeg_eq affords
  obtain rfl : surplus' = surplus := Except.ok.inj (weighed'.symm.trans weighed)
  refine ⟨nonzero, ?_⟩
  have targetPos := targetPeg_pos short.aimed
  have budgetNonneg := Word.unsigned_nonneg budget
  have unitPos := quoteUnit_pos
  have magnitudePos : 0 < |surplus'.val| := abs_pos.2 nonzero
  rw [Int.natCast_natAbs] at reachEq
  change reach = budget.val * quoteUnit / |surplus'.val| at reachEq
  have reachNonneg : 0 ≤ reach := by
    rw [reachEq]
    exact Int.ediv_nonneg (mul_nonneg budgetNonneg unitPos.le) magnitudePos.le
  -- The way to the target costs more than what the reach was divided from.
  have reachLt : reach * |surplus'.val| < maker.exactCost surplus' target := by
    calc reach * |surplus'.val| ≤ budget.val * quoteUnit := by
          rw [reachEq]
          exact Int.ediv_mul_le _ magnitudePos.ne'
      _ < (budget.val + 1) * quoteUnit := by linarith
      _ ≤ maker.exactCost surplus' target := short.le_exactCost weighed
  rw [← reachEq]
  unfold exactCost at reachLt ⊢
  rcases lt_or_gt_of_ne nonzero with negative | positive
  · rw [abs_of_neg negative] at reachLt ⊢
    have below : reach < maker.peg.val - target.val := by
      refine lt_of_mul_lt_mul_right ?_ (neg_pos.2 negative).le
      linarith
    have pegIs : peg.val = maker.peg.val - reach := by
      split at pegEq
      · omega
      · omega
    rw [pegIs]
    ring
  · rw [abs_of_pos positive] at reachLt ⊢
    have above : reach < target.val - maker.peg.val := by
      refine lt_of_mul_lt_mul_right ?_ positive.le
      linarith
    have pegIs : peg.val = maker.peg.val + reach := by
      split at pegEq
      · omega
      · omega
    rw [pegIs]
    ring

/-- The affordable peg is paid for in full, and one unit more of the peg would not be. -/
theorem ShortOfFunds.affordable_bounds (short : maker.ShortOfFunds reading target budget)
    (weighed : maker.quoteSurplus = .ok surplus)
    (affords : maker.affordablePeg target budget = .ok peg) :
    0 ≤ maker.exactCost surplus peg ∧ maker.exactCost surplus peg ≤ budget.val * quoteUnit ∧
      budget.val * quoteUnit < maker.exactCost surplus peg + |surplus.val| := by
  obtain ⟨nonzero, costEq⟩ := short.exactCost_affordable weighed affords
  have magnitudePos : 0 < |surplus.val| := abs_pos.2 nonzero
  have fundsNonneg : 0 ≤ budget.val * quoteUnit :=
    mul_nonneg (Word.unsigned_nonneg budget) quoteUnit_pos.le
  have ltNext := Int.lt_ediv_add_one_mul_self (budget.val * quoteUnit) magnitudePos
  rw [costEq]
  refine ⟨?_, Int.ediv_mul_le _ magnitudePos.ne', by linarith⟩
  exact mul_nonneg (Int.ediv_nonneg fundsNonneg magnitudePos.le) magnitudePos.le

/-- The target lies beyond the affordable peg. -/
theorem ShortOfFunds.beyond_affordable (short : maker.ShortOfFunds reading target budget)
    (weighed : maker.quoteSurplus = .ok surplus)
    (affords : maker.affordablePeg target budget = .ok peg) :
    0 < surplus.val * (target.val - peg.val) := by
  have targetGe := short.le_exactCost weighed
  obtain ⟨-, within, -⟩ := short.affordable_bounds weighed affords
  calc (0 : Int) < maker.exactCost surplus target - maker.exactCost surplus peg := by
        linarith [quoteUnit_pos]
    _ = surplus.val * (target.val - peg.val) := exactCost_sub_exactCost

/-- No peg that is exactly within the budget lies beyond the affordable one. -/
theorem ShortOfFunds.exactCost_le_affordable (short : maker.ShortOfFunds reading target budget)
    (weighed : maker.quoteSurplus = .ok surplus)
    (affords : maker.affordablePeg target budget = .ok peg) {other : Amount}
    (within : maker.exactCost surplus other ≤ budget.val * quoteUnit) :
    maker.exactCost surplus other ≤ maker.exactCost surplus peg := by
  obtain ⟨-, -, ltNext⟩ := short.affordable_bounds weighed affords
  have apart : maker.exactCost surplus other - maker.exactCost surplus peg < |surplus.val| := by
    linarith
  rw [exactCost_sub_exactCost] at apart
  -- Exact costs differ by whole multiples of the surplus.
  have notBeyond : surplus.val * (other.val - peg.val) ≤ 0 := by
    by_contra beyond
    have distant : other.val - peg.val ≠ 0 := by
      rintro same
      exact beyond (by rw [same, mul_zero])
    have multiple : |surplus.val| ≤ surplus.val * (other.val - peg.val) := by
      calc |surplus.val| ≤ |surplus.val| * |other.val - peg.val| :=
            le_mul_of_one_le_right (abs_nonneg _) (Int.one_le_abs distant)
        _ = |surplus.val * (other.val - peg.val)| := (abs_mul _ _).symm
        _ = surplus.val * (other.val - peg.val) := abs_of_pos (not_le.1 beyond)
    exact absurd apart (not_lt.2 multiple)
  rwa [← exactCost_sub_exactCost, sub_nonpos] at notBeyond

/-! ## Where a repeg ends -/

theorem repeg_of_off (off : maker.repegIntensity = 0) : maker.repeg reading = .ok maker :=
  if_pos off

namespace Repegged

/-- A peg that follows the oracle arrives at its target or stops where the budget ends. -/
theorem arrives_or_stops (stepped : Repegged maker reading next)
    (follows : maker.repegIntensity ≠ 0) :
    maker.targetPeg reading.price = .ok next.peg ∨
      ∃ target budget, maker.ShortOfFunds reading target budget ∧
        maker.affordablePeg target budget = .ok next.peg := by
  cases stepped with
  | still off => exact absurd off follows
  | onTarget aimed => exact Or.inl aimed
  | reached aimed => exact Or.inl aimed
  | limited short affords => exact Or.inr ⟨_, _, short, affords⟩

/-- A peg that is short of funds on its way stops where the budget ends. -/
theorem stops_of_short (stepped : Repegged maker reading next)
    (short : maker.ShortOfFunds reading target budget) :
    maker.affordablePeg target budget = .ok next.peg := by
  cases stepped with
  | still off => exact absurd off short.follows
  | onTarget aimed => exact absurd (Except.ok.inj (short.aimed.symm.trans aimed)) short.away
  | reached aimed away funded priced enough =>
    obtain rfl := Except.ok.inj (aimed.symm.trans short.aimed)
    obtain rfl := Except.ok.inj (funded.symm.trans short.funded)
    obtain ⟨limit, cost, limitEq, priced', costly⟩ := short.short
    obtain rfl := Except.ok.inj (priced'.symm.trans priced)
    rw [Word.lt_iff, Word.cast_eq_ok_iff.1 limitEq] at costly
    exact absurd enough (not_le.2 costly)
  | limited short' affords =>
    obtain rfl := Except.ok.inj (short'.aimed.symm.trans short.aimed)
    obtain rfl := Except.ok.inj (short'.funded.symm.trans short.funded)
    exact affords

/-- No repeg costs a whole unit more than the budget. -/
theorem exactCost_lt (stepped : Repegged maker reading next)
    (funded : maker.repegBudget = .ok budget) (weighed : maker.quoteSurplus = .ok surplus) :
    maker.exactCost surplus next.peg < (budget.val + 1) * quoteUnit := by
  have budgetNonneg := Word.unsigned_nonneg budget
  have stayingLt : maker.exactCost surplus maker.peg < (budget.val + 1) * quoteUnit := by
    rw [exactCost, sub_self, mul_zero]
    exact mul_pos (by omega) quoteUnit_pos
  cases stepped with
  | still => exact stayingLt
  | onTarget => exact stayingLt
  | reached aimed away funded' priced enough =>
    obtain rfl := Except.ok.inj (funded'.symm.trans funded)
    exact (cost_le_iff weighed priced budgetNonneg).1 enough
  | limited short affords =>
    obtain rfl := Except.ok.inj (short.funded.symm.trans funded)
    obtain ⟨-, within, -⟩ := short.affordable_bounds weighed affords
    linarith [quoteUnit_pos]

/-- Every repeg takes the truncated cost of its move from the fees. -/
theorem retainedFees_eq (stepped : Repegged maker reading next)
    (weighed : maker.quoteSurplus = .ok surplus) :
    next.retainedFees.val =
      maker.retainedFees.val - (maker.exactCost surplus next.peg).tdiv quoteUnit := by
  cases stepped with
  | still => simp [exactCost]
  | onTarget => simp [exactCost]
  | reached aimed away funded priced enough paid => rw [paid, repegCost_eq_tdiv weighed priced]
  | limited short affords priced paid => rw [paid, repegCost_eq_tdiv weighed priced]

/-- A repeg that leaves the peg where it is costs nothing. -/
theorem eq_self_of_peg_eq (stepped : Repegged maker reading next)
    (same : next.peg = maker.peg) : next = maker := by
  cases stepped with
  | still => rfl
  | onTarget => rfl
  | reached aimed away => exact absurd same away
  | @limited _ _ peg cost fees short affords priced paid =>
    obtain ⟨surplus, weighed, -⟩ := short.surplus_ne_zero
    have costEq := repegCost_eq_tdiv weighed priced
    change peg = maker.peg at same
    rw [same, exactCost, sub_self, mul_zero, Int.zero_tdiv] at costEq
    have feesEq : fees = maker.retainedFees := Word.ext (by omega)
    rw [same, feesEq]

/-- A repeg that changes something had a budget. -/
theorem exists_repegBudget (stepped : Repegged maker reading next)
    (moved : next ≠ maker) : ∃ budget, maker.repegBudget = .ok budget := by
  cases stepped with
  | still => exact absurd rfl moved
  | onTarget => exact absurd rfl moved
  | reached aimed away funded => exact ⟨_, funded⟩
  | limited short => exact ⟨_, short.funded⟩

/-- A repeg leaves the surplus and the targets of a next one as they are. -/
theorem keeps_quoteSurplus (stepped : Repegged maker reading next) :
    next.quoteSurplus = maker.quoteSurplus := by
  rw [stepped.eq_with]
  rfl

theorem keeps_targetPeg (stepped : Repegged maker reading next) (price : SignedAmount) :
    next.targetPeg price = maker.targetPeg price := by
  rw [stepped.eq_with]
  rfl

end Repegged

/-- `longMaker` with a budget of 101010101, a hundredth of a unit of quote short of what ten units
of the peg cost. -/
def tightMaker : MarketMaker := { longMaker with retainedFees := .lit 501010101 }

theorem tightMaker_repeg_rise :
    tightMaker.repeg rise =
      .ok { tightMaker with peg := .lit 50009, retainedFees := .lit 410101011 } := rfl

end Leverage.MarketMaker
