import Leverage.MarketMaker.Basic
import Mathlib.Tactic.GCongr
import Mathlib.Tactic.Linarith

/-!
# Prices of reserves

The price of a pair of reserves is a floored quotient of the two. At one peg it rises with the quote
reserve and falls with the base reserve.
-/

namespace Leverage.Reserves

variable {reserves before after : Reserves} {peg price priceBefore priceAfter : Amount}

theorem price_eq_ok_iff :
    reserves.price peg = .ok price ↔
      reserves.base.val ≠ 0 ∧
        reserves.quote.val * peg.val * Scale.priceToPeg.val < 2 ^ 128 ∧
        price.val = reserves.quote.val * peg.val * Scale.priceToPeg.val / reserves.base.val := by
  have peggedNonneg : 0 ≤ reserves.quote.val * peg.val :=
    mul_nonneg (Word.unsigned_nonneg _) (Word.unsigned_nonneg _)
  unfold Reserves.price
  by_cases empty : reserves.base = 0
  · rw [if_pos empty]
    exact ⟨nofun, fun priced => absurd (Word.eq_zero_iff.1 empty) priced.1⟩
  rw [if_neg empty]
  simp only [Checked.bind_eq_ok_iff, Word.mul_eq_ok_iff, Word.unsigned_mulDiv_eq_ok_iff]
  constructor
  · intro priced
    rcases priced with ⟨pegged, peggedEq, fits, nonzero, priceEq⟩
    rw [peggedEq] at fits priceEq
    exact ⟨nonzero, fits, priceEq⟩
  · intro exact
    rcases exact with ⟨nonzero, fits, priceEq⟩
    have peggedLe : reserves.quote.val * peg.val ≤
        reserves.quote.val * peg.val * Scale.priceToPeg.val :=
      le_mul_of_one_le_right peggedNonneg Scale.priceToPeg_pos
    obtain ⟨pegged, peggedEq⟩ := Word.exists_val_eq_iff.2
      (Format.unsigned_holds_iff.2 ⟨peggedNonneg, lt_of_le_of_lt peggedLe fits⟩)
    rw [← peggedEq] at fits priceEq
    exact ⟨pegged, peggedEq, fits, nonzero, priceEq⟩

/-- More quote and less base make no lower price. -/
theorem price_le_price (pricedBefore : before.price peg = .ok priceBefore)
    (pricedAfter : after.price peg = .ok priceAfter)
    (quoteLe : before.quote.val ≤ after.quote.val) (baseLe : after.base.val ≤ before.base.val) :
    priceBefore.val ≤ priceAfter.val := by
  obtain ⟨nonzeroBefore, -, beforeEq⟩ := price_eq_ok_iff.1 pricedBefore
  obtain ⟨nonzeroAfter, -, afterEq⟩ := price_eq_ok_iff.1 pricedAfter
  have priceNonneg := Word.unsigned_nonneg priceBefore
  have pegNonneg := Word.unsigned_nonneg peg
  have baseNonneg := Word.unsigned_nonneg after.base
  have ratioNonneg := Scale.priceToPeg_pos.le
  rw [afterEq, Int.le_ediv_iff_mul_le (lt_of_le_of_ne baseNonneg nonzeroAfter.symm)]
  calc priceBefore.val * after.base.val
      ≤ priceBefore.val * before.base.val := by gcongr
    _ ≤ before.quote.val * peg.val * Scale.priceToPeg.val := by
      rw [beforeEq]
      exact Int.ediv_mul_le _ nonzeroBefore
    _ ≤ after.quote.val * peg.val * Scale.priceToPeg.val := by gcongr

end Leverage.Reserves
