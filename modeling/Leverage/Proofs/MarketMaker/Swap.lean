import Leverage.MarketMaker.Swap
import Mathlib.Tactic.Linarith

/-!
# What a swap can do

A swap moves one reserve by an amount and reads the other one off the invariant, so the second
reserve does not hang on what it was before.
-/

namespace Leverage

/-- The way in which a flow moves the reserve in which it is denominated. -/
def Flow.sign : Flow → Int
  | add => 1
  | remove => -1

theorem swapOutput_cases {reserve amount invariant own other : Amount} {flow : Flow}
    (swapped : swapOutput reserve amount flow invariant = .ok (own, other)) :
    own.val = reserve.val + flow.sign * amount.val ∧ own.val ≠ 0 ∧
      other.val = invariant.val / own.val := by
  unfold swapOutput at swapped
  cases flow with
  | add =>
    simp only [Checked.bind_eq_ok_iff, Checked.pure_eq_ok_iff, Word.add_eq_ok_iff,
      Word.unsigned_div_eq_ok_iff, Prod.mk.injEq] at swapped
    rcases swapped with ⟨moved, movedEq, followed, ⟨nonzero, followedEq⟩, rfl, rfl⟩
    rw [Flow.sign, one_mul]
    exact ⟨movedEq, nonzero, followedEq⟩
  | remove =>
    simp only [Checked.bind_eq_ok_iff, Checked.pure_eq_ok_iff, Word.sub_eq_ok_iff,
      Word.unsigned_div_eq_ok_iff, Prod.mk.injEq] at swapped
    rcases swapped with ⟨moved, movedEq, followed, ⟨nonzero, followedEq⟩, rfl, rfl⟩
    rw [Flow.sign, neg_one_mul, ← sub_eq_add_neg]
    exact ⟨movedEq, nonzero, followedEq⟩

namespace MarketMaker

variable {maker : MarketMaker} {asset : Asset} {amount : Amount} {flow : Flow}
  {reserves : Reserves}

theorem reservesAfter_cases (swapped : maker.reservesAfter asset amount flow = .ok reserves) :
    ∃ units own other, maker.reserveUnits asset amount = .ok units ∧
      reserves = .ofAsset asset own other ∧
      own.val = (maker.reserves.get asset).val + flow.sign * units.val ∧ own.val ≠ 0 ∧
      other.val = maker.liquidity.val * maker.liquidity.val / own.val := by
  simp only [reservesAfter, invariant, Checked.bind_eq_ok_iff, Checked.pure_eq_ok_iff,
    Word.mul_eq_ok_iff] at swapped
  rcases swapped with ⟨product, productEq, units, unitsEq, ⟨own, other⟩, output, rfl⟩
  obtain ⟨ownEq, nonzero, otherEq⟩ := swapOutput_cases output
  rw [productEq] at otherEq
  exact ⟨units, own, other, unitsEq, rfl, ownEq, nonzero, otherEq⟩

end MarketMaker

end Leverage
