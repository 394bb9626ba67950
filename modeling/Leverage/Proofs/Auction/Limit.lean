import Leverage.Proofs.Auction.Walk

/-!
# The limit of an auction

A new order gets its auction from its limit or, without one, from the oracle. Either way the range
runs toward the counterparty: `ofOrder_cases`. That is all the walk needs to stay clear of
differences below zero, and with the grid on the side of the order its price cannot pass the limit
in any slot: `auctionPrice_within_limit`.
-/

namespace Leverage

namespace AuctionRange

variable {range : AuctionRange} {direction : Direction} {oracle : OracleReading}
  {limit : OrderPrice}

/-- With a limit the range is a hundredth of it long, and stops there. -/
theorem ofLimit_cases (opened : ofLimit direction limit = .ok range) :
    range.stop = limit ∧ range.way direction = limit.val / 100 := by
  cases direction with
  | long =>
    simp only [ofLimit, Checked.bind_eq_ok_iff, Checked.pure_eq_ok_iff, Word.sub_eq_ok_iff,
      Word.unsigned_div_eq_ok_iff] at opened
    obtain ⟨improvement, ⟨-, improvementEq⟩, start, startEq, rfl⟩ := opened
    refine ⟨rfl, ?_⟩
    change limit.val - start.val = _
    rw [startEq, sub_sub_cancel]
    exact improvementEq
  | short =>
    simp only [ofLimit, Checked.bind_eq_ok_iff, Checked.pure_eq_ok_iff, Word.add_eq_ok_iff,
      Word.unsigned_div_eq_ok_iff] at opened
    obtain ⟨improvement, ⟨-, improvementEq⟩, start, startEq, rfl⟩ := opened
    refine ⟨rfl, ?_⟩
    change start.val - limit.val = _
    rw [startEq, add_sub_cancel_left]
    exact improvementEq

/-- Without a limit the range starts at the oracle's price, and its end is floored. -/
theorem ofOracle_cases (opened : ofOracle direction oracle = .ok range) :
    range.start.val = oracle.price.val ∧
      range.stop.val = range.start.val * (marketReach direction).val / Scale.spread.val := by
  simp only [ofOracle, Checked.bind_eq_ok_iff, Checked.pure_eq_ok_iff,
    Word.unsigned_mulDiv_eq_ok_iff, Word.cast_eq_ok_iff, Word.val_magnitude] at opened
  obtain ⟨reached, ⟨-, -, reachedEq⟩, stop, stopEq, start, startEq, rfl⟩ := opened
  have startNonneg := Word.unsigned_nonneg start
  have magnitudeEq : (oracle.price.val.natAbs : Int) = start.val := by omega
  rw [magnitudeEq] at reachedEq
  exact ⟨startEq, stopEq.trans reachedEq⟩

/-- The oracle's price is reached or passed, by a hundredth of it that is rounded up for a seller. -/
theorem ofOracle_way_bounds (opened : ofOracle direction oracle = .ok range) :
    0 ≤ range.way direction ∧ 100 * range.way direction ≤ range.start.val + 99 := by
  obtain ⟨-, stopEq⟩ := ofOracle_cases opened
  have startNonneg := Word.unsigned_nonneg range.start
  cases direction with
  | long =>
    change range.stop.val = range.start.val * 1010000 / 1000000 at stopEq
    change 0 ≤ range.stop.val - range.start.val ∧ 100 * (range.stop.val - range.start.val) ≤ _
    omega
  | short =>
    change range.stop.val = range.start.val * 990000 / 1000000 at stopEq
    change 0 ≤ range.start.val - range.stop.val ∧ 100 * (range.start.val - range.stop.val) ≤ _
    omega

/-- The range of a new order runs toward the counterparty and, if the order has a limit, stops
there. -/
theorem ofOrder_cases (opened : ofOrder oracle direction limit = .ok range) :
    direction.Concedes range.start.val range.stop.val ∧ (0 < limit → range.stop = limit) := by
  unfold ofOrder at opened
  split at opened
  · obtain ⟨stopEq, wayEq⟩ := ofLimit_cases opened
    have rightWay : 0 ≤ range.way direction := by
      rw [wayEq]
      exact Int.ediv_nonneg (Word.unsigned_nonneg limit) (by decide)
    exact ⟨Direction.concession_nonneg_iff.1 rightWay, fun _ => stopEq⟩
  · next unlimited =>
    exact ⟨Direction.concession_nonneg_iff.1 (ofOracle_way_bounds opened).1,
      fun limited => absurd limited unlimited⟩

/-- The range of a new order is no longer than a ninety-ninth part of its start, rounded up. -/
theorem way_le_of_ofOrder (opened : ofOrder oracle direction limit = .ok range) :
    99 * range.way direction ≤ range.start.val + 98 := by
  unfold ofOrder at opened
  split at opened
  · obtain ⟨rfl, wayEq⟩ := ofLimit_cases opened
    have limitNonneg := Word.unsigned_nonneg range.stop
    cases direction with
    | long =>
      change range.stop.val - range.start.val = _ at wayEq
      change 99 * (range.stop.val - range.start.val) ≤ _
      omega
    | short =>
      change range.start.val - range.stop.val = _ at wayEq
      change 99 * (range.start.val - range.stop.val) ≤ _
      omega
  · obtain ⟨rightWay, wayLe⟩ := ofOracle_way_bounds opened
    have startNonneg := Word.unsigned_nonneg range.start
    omega

end AuctionRange

namespace Order

variable {order : Order} {slot : Slot} {tick limit : OrderPrice} {oracle : OracleReading}

theorem auctionPrice_ne_underflow (rightWay : 0 ≤ order.auction.way order.direction)
    (placed : order.slot ≤ slot) : order.auctionPrice slot tick ≠ .error .underflow := by
  apply Checked.bind_ne_error (Word.unsigned_sub_ne_error placed)
  intro elapsed _
  split
  · intro failed
    cases failed
  · have takenLe : (min elapsed (order.duration.widen : Slot)).val ≤ order.duration.val := by
      rw [Word.val_min]
      exact min_le_right _ _
    apply Checked.bind_ne_error (AuctionRange.priceAfter_ne_underflow rightWay takenLe)
    intro price _
    exact snapToTick_ne_underflow price tick order.direction

/-- An order that keeps the range it was opened with is priced without underflow in every slot from
its own on, for every duration and tick, and never beyond the end of that range, which is its limit
if it has one. -/
theorem auctionPrice_within_limit
    (opened : AuctionRange.ofOrder oracle order.direction limit = .ok order.auction)
    (placed : order.slot ≤ slot) :
    order.auctionPrice slot tick ≠ .error .underflow ∧
      ∀ price, order.auctionPrice slot tick = .ok price →
        order.direction.Concedes price.val order.auction.stop.val ∧
          (0 < limit → order.direction.Concedes price.val limit.val) := by
  obtain ⟨concedes, stopEq⟩ := AuctionRange.ofOrder_cases opened
  have rightWay := Direction.concession_nonneg_iff.2 concedes
  refine ⟨auctionPrice_ne_underflow rightWay placed, ?_⟩
  intro price priced
  have within := auctionPrice_concedes_stop priced
  refine ⟨within, ?_⟩
  intro limited
  rw [stopEq limited] at within
  exact within

/-- A seller whose limit is off the grid, in the middle of the auction that it was given. -/
def limitedSeller : Order where
  slot := .lit 100
  direction := .short
  duration := .lit 9
  auction := ⟨.lit 10107, .lit 10007⟩

theorem auctionPrice_within_limit_of_limitedSeller :
    AuctionRange.ofOrder {} .short (.lit 10007) = .ok limitedSeller.auction ∧
      limitedSeller.slot ≤ .lit 106 ∧
      limitedSeller.auctionPrice (.lit 106) (.lit 50) ≠ .error .underflow ∧
      limitedSeller.auctionPrice (.lit 106) (.lit 50) = .ok (.lit 10050) ∧
      Direction.short.Concedes 10050 10007 := by
  have opened : AuctionRange.ofOrder {} .short (.lit 10007) = .ok limitedSeller.auction := rfl
  have placed : limitedSeller.slot ≤ .lit 106 := by decide
  have priced : limitedSeller.auctionPrice (.lit 106) (.lit 50) = .ok (.lit 10050) := rfl
  obtain ⟨neverUnder, within⟩ :=
    @auctionPrice_within_limit limitedSeller (.lit 106) (.lit 50) (.lit 10007) {} opened placed
  exact ⟨opened, placed, neverUnder, priced, (within _ priced).2 (by decide)⟩

end Order

end Leverage
