import Leverage.Perp.Market
import Leverage.Proofs.MarketMaker.Swap
import Mathlib.Algebra.BigOperators.Group.List.Basic
import Mathlib.Tactic.Ring

/-!
# Runs of trades

A market after one trade of base after the other. `TradedBy` relates the market before and after: it
holds of one trade, adds up over two, and leaves only one market after, so all that remains of a run
is the base that it has brought in. With the two floors of the quote reserve this gives
`tradeAll_path_independent`.

A run of no trades is not of that kind. It leaves the quote reserve as it is, which need not be the
one that follows from the invariant.
-/

namespace Leverage

/-- A trade of base. The sign of the amount has no meaning of its own. -/
structure Trade where
  amount : SignedAmount
  direction : Direction
deriving DecidableEq, Repr

namespace Trade

/-- The base traded in one direction. -/
def volume (direction : Direction) (trades : List Trade) : Int :=
  ((trades.filter fun trade => trade.direction = direction).map
    fun trade => (trade.amount.val.natAbs : Int)).sum

/-- The base that trades bring into the reserve. -/
def netInflow (trades : List Trade) : Int := volume .short trades - volume .long trades

@[simp] theorem netInflow_nil : netInflow [] = 0 := rfl

theorem volume_cons (direction : Direction) (trade : Trade) (trades : List Trade) :
    volume direction (trade :: trades) =
      (if trade.direction = direction then (trade.amount.val.natAbs : Int) else 0) +
        volume direction trades := by
  unfold volume
  by_cases same : trade.direction = direction
  · rw [List.filter_cons, if_pos (decide_eq_true same), List.map_cons, List.sum_cons, if_pos same]
  · rw [List.filter_cons, if_neg (mt of_decide_eq_true same), if_neg same, zero_add]

/-- Each trade brings in what its flow says. -/
theorem netInflow_cons (trade : Trade) (trades : List Trade) :
    netInflow (trade :: trades) =
      (trade.direction.flow .base).sign * trade.amount.val.natAbs + netInflow trades := by
  rcases trade with ⟨amount, direction⟩
  unfold netInflow
  rw [volume_cons, volume_cons]
  cases direction with
  | long =>
    simp only [Direction.flow, Flow.sign, reduceCtorEq, if_true, if_false]
    ring
  | short =>
    simp only [Direction.flow, Flow.sign, reduceCtorEq, if_true, if_false]
    ring

end Trade

namespace PerpMarket

open Trade

/-- The market after each of the trades in turn. -/
def tradeAll (market : PerpMarket) (trades : List Trade) : Checked PerpMarket :=
  trades.foldlM (fun market trade => market.trade trade.amount trade.direction) market

variable {market middle next other final : PerpMarket} {trades : List Trade}
  {first second inflow : Int}

/-- `next` is `market` with an amount of base brought into its reserve and its quote reserve read off
the invariant. -/
structure TradedBy (market : PerpMarket) (inflow : Int) (next : PerpMarket) : Prop where
  base_eq : next.maker.reserves.base.val = market.maker.reserves.base.val + inflow
  base_ne_zero : next.maker.reserves.base.val ≠ 0
  quote_eq : next.maker.reserves.quote.val =
    market.maker.liquidity.val * market.maker.liquidity.val / next.maker.reserves.base.val
  eq_with : next = { market with maker := { market.maker with reserves := next.maker.reserves } }

namespace TradedBy

/-! ## One trade -/

theorem of_trade {amount : SignedAmount} {direction : Direction}
    (traded : market.trade amount direction = .ok next) :
    TradedBy market ((direction.flow .base).sign * amount.val.natAbs) next := by
  simp only [trade, swap, MarketMaker.swap, Checked.bind_eq_ok_iff,
    Checked.pure_eq_ok_iff] at traded
  rcases traded with ⟨_, ⟨reserves, swapped, rfl⟩, rfl⟩
  obtain ⟨units, base, quote, unitsEq, rfl, baseEq, nonzero, quoteEq⟩ :=
    MarketMaker.reservesAfter_cases swapped
  -- An amount of base is in reserve units already.
  obtain rfl : amount.magnitude = units := Except.ok.inj unitsEq
  exact ⟨baseEq, nonzero, quoteEq, rfl⟩

/-! ## Several trades -/

theorem liquidity_eq (traded : TradedBy market inflow next) :
    next.maker.liquidity = market.maker.liquidity := by
  rw [traded.eq_with]

/-- The second trade forgets the quote reserve of the first and only adds to its base. -/
theorem trans (before : TradedBy market first middle) (after : TradedBy middle second next) :
    TradedBy market (first + second) next where
  base_eq := by rw [after.base_eq, before.base_eq, add_assoc]
  base_ne_zero := after.base_ne_zero
  quote_eq := by rw [after.quote_eq, before.liquidity_eq]
  eq_with := by rw [after.eq_with, before.eq_with]

/-- The base brought in fixes the market. -/
theorem unique (traded : TradedBy market inflow next) (otherwise : TradedBy market inflow other) :
    next = other := by
  have baseEq : next.maker.reserves.base = other.maker.reserves.base :=
    Word.ext (traded.base_eq.trans otherwise.base_eq.symm)
  have quoteEq : next.maker.reserves.quote = other.maker.reserves.quote := by
    refine Word.ext ?_
    rw [traded.quote_eq, otherwise.quote_eq, baseEq]
  have reservesEq : next.maker.reserves = other.maker.reserves := Reserves.ext baseEq quoteEq
  rw [traded.eq_with, otherwise.eq_with, reservesEq]

theorem of_tradeAll (run : market.tradeAll trades = .ok final) (nonempty : trades ≠ []) :
    TradedBy market (netInflow trades) final := by
  induction trades generalizing market with
  | nil => exact absurd rfl nonempty
  | cons trade trades ih =>
    rw [tradeAll, List.foldlM_cons, Checked.bind_eq_ok_iff] at run
    rcases run with ⟨middle, traded, rest⟩
    have step := of_trade traded
    rw [netInflow_cons]
    cases trades with
    | nil =>
      obtain rfl := Checked.pure_eq_ok_iff.1 rest
      rwa [netInflow_nil, add_zero]
    | cons => exact step.trans (ih rest (List.cons_ne_nil _ _))

end TradedBy

/-! ## Where a run of trades ends -/

/-- A run of trades that succeeds ends on the curve, with the base reserve moved by what was sold
less what was bought and with nothing else changed. So every other run of the same net amount ends
in the same market, however it is ordered or split. -/
theorem tradeAll_path_independent (run : market.tradeAll trades = .ok final) (nonempty : trades ≠ []) :
    final.maker.reserves.base.val =
        market.maker.reserves.base.val + volume .short trades - volume .long trades ∧
      final.maker.reserves.quote.val =
        market.maker.liquidity.val * market.maker.liquidity.val / final.maker.reserves.base.val ∧
      final.maker.reserves.base.val * final.maker.reserves.quote.val ≤
        market.maker.liquidity.val * market.maker.liquidity.val ∧
      market.maker.liquidity.val * market.maker.liquidity.val <
        final.maker.reserves.base.val * (final.maker.reserves.quote.val + 1) ∧
      final = { market with maker := { market.maker with reserves := final.maker.reserves } } ∧
      ∀ others reached, market.tradeAll others = .ok reached → others ≠ [] →
        netInflow others = netInflow trades → reached = final := by
  have traded := TradedBy.of_tradeAll run nonempty
  have basePos : 0 < final.maker.reserves.base.val :=
    lt_of_le_of_ne (Word.unsigned_nonneg _) traded.base_ne_zero.symm
  refine ⟨?_, traded.quote_eq, ?_, ?_, traded.eq_with, ?_⟩
  · rw [traded.base_eq, netInflow, add_sub_assoc]
  · rw [traded.quote_eq]
    exact Int.mul_ediv_self_le traded.base_ne_zero
  · rw [mul_comm final.maker.reserves.base.val, traded.quote_eq]
    exact Int.lt_ediv_add_one_mul_self _ basePos
  · intro others reached otherRun otherNonempty sameNet
    have otherwise := TradedBy.of_tradeAll otherRun otherNonempty
    rw [sameNet] at otherwise
    exact otherwise.unique traded

/-- A market off its curve, and where it is after a hundred and fifty of base are sold to it. -/
def skewedMarket : PerpMarket where
  maker := { reserves := ⟨.lit 1000, .lit 5⟩, liquidity := .lit 1000, peg := .lit 1000 }

@[inherit_doc skewedMarket] def settledMarket : PerpMarket where
  maker := { reserves := ⟨.lit 1150, .lit 869⟩, liquidity := .lit 1000, peg := .lit 1000 }

/-- A way there that buys first. The amount of its first trade is negative. -/
def detour : List Trade := [⟨.lit (-300), .long⟩, ⟨.lit 500, .short⟩, ⟨.lit 50, .long⟩]

theorem tradeAll_path_independent_of_detour :
    skewedMarket.tradeAll detour = .ok settledMarket ∧ detour ≠ [] ∧
      (1150 : Int) = 1000 + volume .short detour - volume .long detour ∧
      (1150 : Int) * 869 ≤ 1000 * 1000 ∧ (1000 : Int) * 1000 < 1150 * (869 + 1) ∧
      ∀ others reached, skewedMarket.tradeAll others = .ok reached → others ≠ [] →
        netInflow others = netInflow detour → reached = settledMarket := by
  have run : skewedMarket.tradeAll detour = .ok settledMarket := rfl
  have nonempty : detour ≠ [] := List.cons_ne_nil _ _
  obtain ⟨baseEq, -, productLe, ltProduct, -, sameNet⟩ := tradeAll_path_independent run nonempty
  exact ⟨run, nonempty, baseEq, productLe, ltProduct, sameNet⟩

end PerpMarket

end Leverage
