import Leverage.MarketMaker.Spread
import Mathlib.Tactic.GCongr
import Mathlib.Tactic.Linarith

/-!
# Which way a spread shifts the reserves

A spread moves the quote reserve, and the base reserve is the floor of the invariant over it. The
floor works for the taker: it lowers the base reserve also where the quote reserve falls, and where
the quote reserve rises by too little it may leave the base reserve above the one there was. On the
curve one unit of quote outweighs it, and a quote reserve of `Scale.spread` moves by a unit or more.
-/

namespace Leverage

/-- The way in which a trade moves the quote reserve. -/
def Direction.sign : Direction → Int
  | long => 1
  | short => -1

namespace MarketMaker

variable {maker : MarketMaker} {direction : Direction} {spread : Amount} {shifted : Reserves}
  {reading : OracleReading} {quoted : Quotation}

/-- The reserves are held at the square of the liquidity, as far as whole units allow: a swap leaves
the reserve that it computes up to one unit short. -/
structure OnCurve (maker : MarketMaker) : Prop where
  product_le : maker.reserves.base.val * maker.reserves.quote.val ≤
    maker.liquidity.val * maker.liquidity.val
  lt_product_succ : maker.liquidity.val * maker.liquidity.val <
    (maker.reserves.base.val + 1) * (maker.reserves.quote.val + 1)

/-! ## The functions of a spread -/

/-- How far a spread moves the quote reserve. -/
def quoteShift (maker : MarketMaker) (spread : Amount) : Int :=
  maker.reserves.quote.val * max (spread.val / 2) 1 / Scale.spread.val

/-- The reserves of a quote reserve, with the base reserve that follows from the invariant. -/
theorem reserves_of_quote {quote : Amount}
    (followed : (do
      let base ← (← maker.invariant).div quote
      return (⟨base, quote⟩ : Reserves)) = .ok shifted) :
    shifted.quote = quote ∧ quote.val ≠ 0 ∧
      shifted.base.val = maker.liquidity.val * maker.liquidity.val / quote.val := by
  simp only [invariant, Checked.bind_eq_ok_iff, Checked.pure_eq_ok_iff, Word.mul_eq_ok_iff,
    Word.unsigned_div_eq_ok_iff] at followed
  rcases followed with ⟨product, productEq, base, ⟨nonzero, baseEq⟩, rfl⟩
  rw [productEq] at baseEq
  exact ⟨rfl, nonzero, baseEq⟩

theorem shiftReserves_cases (moved : maker.shiftReserves direction spread = .ok shifted) :
    spread = 0 ∧ shifted = maker.reserves ∨
      spread ≠ 0 ∧
        shifted.quote.val = maker.reserves.quote.val + direction.sign * maker.quoteShift spread ∧
        shifted.quote.val ≠ 0 ∧
        shifted.base.val = maker.liquidity.val * maker.liquidity.val / shifted.quote.val := by
  unfold shiftReserves at moved
  by_cases none : spread = 0
  · rw [if_pos none, Except.ok.injEq] at moved
    exact .inl ⟨none, moved.symm⟩
  rw [if_neg none] at moved
  simp only [Checked.bind_eq_ok_iff, Word.unsigned_mulDiv_eq_ok_iff,
    Word.unsigned_div_eq_ok_iff] at moved
  rcases moved with ⟨half, ⟨-, halfEq⟩, shift, ⟨-, -, shiftEq⟩, moved⟩
  have shiftIs : shift.val = maker.quoteShift spread := by
    rw [shiftEq, Word.val_max, halfEq]
    rfl
  cases direction with
  | long =>
    rw [Checked.bind_eq_ok_iff] at moved
    rcases moved with ⟨quote, quoteEq, followed⟩
    obtain ⟨rfl, nonzero, baseEq⟩ := reserves_of_quote followed
    rw [Word.add_eq_ok_iff, shiftIs] at quoteEq
    exact .inr ⟨none, by rw [quoteEq, Direction.sign, one_mul], nonzero, baseEq⟩
  | short =>
    rw [Checked.bind_eq_ok_iff] at moved
    rcases moved with ⟨quote, quoteEq, followed⟩
    obtain ⟨rfl, nonzero, baseEq⟩ := reserves_of_quote followed
    rw [Word.sub_eq_ok_iff, shiftIs, sub_eq_add_neg] at quoteEq
    exact .inr ⟨none, by rw [quoteEq, Direction.sign, neg_one_mul], nonzero, baseEq⟩

theorem quotation_cases (succeeds : maker.quotation direction reading = .ok quoted) :
    ∃ next price sides, maker.repeg reading = .ok next ∧ next.price = .ok price ∧
      next.spread reading price = .ok sides ∧
      next.shiftReserves direction (sides.get direction) = .ok quoted.reserves ∧
      quoted.peg = next.peg := by
  simp only [quotation, Checked.bind_eq_ok_iff, Checked.pure_eq_ok_iff] at succeeds
  rcases succeeds with ⟨next, stepped, price, priced, sides, spreadEq, reserves, shifted, rfl⟩
  exact ⟨next, price, sides, stepped, priced, spreadEq, shifted, rfl⟩

/-! ## Against the taker -/

theorem quoteShift_nonneg : 0 ≤ maker.quoteShift spread := by
  have quoteNonneg := Word.unsigned_nonneg maker.reserves.quote
  unfold quoteShift
  exact Int.ediv_nonneg (mul_nonneg quoteNonneg (le_max_of_le_right zero_le_one))
    Scale.spread_pos.le

/-- A quote reserve of one unit for each part of the spread's scale moves by a unit or more. -/
theorem one_le_quoteShift (deep : Scale.spread.val ≤ maker.reserves.quote.val) :
    1 ≤ maker.quoteShift spread := by
  have quoteNonneg := Word.unsigned_nonneg maker.reserves.quote
  unfold quoteShift
  rw [Int.le_ediv_iff_mul_le Scale.spread_pos]
  calc 1 * Scale.spread.val
      ≤ maker.reserves.quote.val * 1 := by omega
    _ ≤ maker.reserves.quote.val * max (spread.val / 2) 1 := by
      gcongr
      exact le_max_right _ _

/-- A taker who buys finds no less quote and no more base. -/
theorem shiftReserves_long (curve : maker.OnCurve)
    (deep : Scale.spread.val ≤ maker.reserves.quote.val)
    (moved : maker.shiftReserves .long spread = .ok shifted) :
    maker.reserves.quote.val ≤ shifted.quote.val ∧
      shifted.base.val ≤ maker.reserves.base.val := by
  rcases shiftReserves_cases moved with ⟨-, rfl⟩ | ⟨-, quoteEq, -, baseEq⟩
  · exact ⟨le_rfl, le_rfl⟩
  have shiftLe : 1 ≤ maker.quoteShift spread := one_le_quoteShift deep
  rw [Direction.sign, one_mul] at quoteEq
  have quoteNonneg := Word.unsigned_nonneg maker.reserves.quote
  have baseNonneg := Word.unsigned_nonneg maker.reserves.base
  refine ⟨by omega, Int.lt_add_one_iff.1 ?_⟩
  rw [baseEq, Int.ediv_lt_iff_lt_mul (by omega)]
  calc maker.liquidity.val * maker.liquidity.val
      < (maker.reserves.base.val + 1) * (maker.reserves.quote.val + 1) := curve.lt_product_succ
    _ ≤ (maker.reserves.base.val + 1) * shifted.quote.val := by
      gcongr
      omega

/-- A taker who sells finds no more quote and no less base. -/
theorem shiftReserves_short (curve : maker.OnCurve)
    (moved : maker.shiftReserves .short spread = .ok shifted) :
    shifted.quote.val ≤ maker.reserves.quote.val ∧
      maker.reserves.base.val ≤ shifted.base.val := by
  rcases shiftReserves_cases moved with ⟨-, rfl⟩ | ⟨-, quoteEq, nonzero, baseEq⟩
  · exact ⟨le_rfl, le_rfl⟩
  have shiftNonneg : 0 ≤ maker.quoteShift spread := quoteShift_nonneg
  rw [Direction.sign, neg_one_mul] at quoteEq
  have quoteNonneg := Word.unsigned_nonneg shifted.quote
  have baseNonneg := Word.unsigned_nonneg maker.reserves.base
  refine ⟨by omega, ?_⟩
  rw [baseEq, Int.le_ediv_iff_mul_le (by omega)]
  calc maker.reserves.base.val * shifted.quote.val
      ≤ maker.reserves.base.val * maker.reserves.quote.val := by
        gcongr
        omega
    _ ≤ maker.liquidity.val * maker.liquidity.val := curve.product_le

end MarketMaker

end Leverage
