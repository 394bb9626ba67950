import Leverage.Margin.Weight
import Mathlib.Algebra.GroupWithZero.Divisibility
import Mathlib.Tactic.Linarith
import Mathlib.Tactic.Positivity

/-!
# Rescaled amounts and sizes

`rescale` takes one of two ways, and between scales of which one divides the other both come to the
same floored quotient: `rescale_eq_ok_iff`. Units of tokens and `Scale.reserve` are powers of ten,
so the size of an amount of tokens is that quotient whatever the decimals are.

Either way keeps the order of amounts, and what can be rescaled can be with less. There and back an
amount loses what is less than a unit of the coarser scale, and nothing else:
`rescale_truncates_once`.
-/

namespace Leverage

variable {amount fewer source target result unit : Amount} {exponent : Nat}

theorem rescale_eq_ok_iff (sourceNonzero : source.val ≠ 0) (targetNonzero : target.val ≠ 0)
    (commensurable : source.val ∣ target.val ∨ target.val ∣ source.val) :
    rescale amount source target = .ok result ↔
      (source.val ≤ target.val → amount.val * target.val < 2 ^ 128) ∧
        result.val = amount.val * target.val / source.val := by
  have targetPos := Word.unsigned_pos targetNonzero
  unfold rescale
  by_cases coarser : target < source
  · obtain ⟨ratio, ratioEq⟩ : target.val ∣ source.val :=
      commensurable.resolve_left fun dvd => not_lt.2 (Int.le_of_dvd targetPos dvd) coarser
    have quotientEq : source.val / target.val = ratio := by
      rw [ratioEq, Int.mul_ediv_cancel_left _ targetNonzero]
    have ratioNonzero : ratio ≠ 0 := by
      rintro rfl
      exact sourceNonzero (by rw [ratioEq, mul_zero])
    -- The scales cancel: what is divided by their ratio is the amount itself.
    have resultEq : amount.val * target.val / source.val = amount.val / ratio := by
      rw [ratioEq, mul_comm target.val ratio, Int.mul_ediv_mul_of_pos_left _ _ targetPos]
    rw [if_pos coarser, resultEq, and_iff_right fun le => absurd coarser (not_lt.2 le)]
    simp only [Checked.bind_eq_ok_iff, Word.unsigned_div_eq_ok_iff, quotientEq]
    constructor
    · rintro ⟨divisor, ⟨-, divisorEq⟩, -, resultEq⟩
      rw [resultEq, divisorEq]
    · intro resultEq
      have quotientLe := Int.ediv_le_self target.val (Word.unsigned_nonneg source)
      have quotientNonneg := Int.ediv_nonneg (Word.unsigned_nonneg source) targetPos.le
      rw [quotientEq] at quotientLe quotientNonneg
      obtain ⟨divisor, divisorEq⟩ := Word.exists_val_eq_of_le source quotientNonneg quotientLe
      exact ⟨divisor, ⟨targetNonzero, divisorEq⟩, divisorEq ▸ ratioNonzero, divisorEq ▸ resultEq⟩
  · rw [if_neg coarser, Word.unsigned_mulDiv_eq_ok_iff, and_iff_right sourceNonzero,
      forall_prop_of_true (not_lt.1 (mt Word.lt_iff.2 coarser))]
    exact Iff.rfl

theorem tenPow_eq_ok_iff : tenPow exponent = .ok unit ↔ unit.val = 10 ^ exponent :=
  Word.pow_eq_ok_iff

/-- Powers of ten divide one another. -/
theorem rescale_tenPow (scaled : tenPow exponent = .ok unit)
    (rescaled : rescale amount unit Scale.reserve = .ok result) :
    result.val = amount.val * Scale.reserve.val / 10 ^ exponent := by
  rw [tenPow_eq_ok_iff] at scaled
  have reserveEq : Scale.reserve.val = 10 ^ 13 := by decide
  have unitNonzero : unit.val ≠ 0 := by
    rw [scaled]
    positivity
  have commensurable : unit.val ∣ Scale.reserve.val ∨ Scale.reserve.val ∣ unit.val := by
    rw [scaled, reserveEq]
    rcases le_total exponent 13 with le | le
    · exact Or.inl (pow_dvd_pow 10 le)
    · exact Or.inr (pow_dvd_pow 10 le)
  rw [((rescale_eq_ok_iff unitNonzero (by decide) commensurable).1 rescaled).2, scaled]

/-- The size of an amount of tokens. -/
theorem LendingPool.sizeOfTokens_eq {pool : LendingPool} {tokens size : Amount}
    (sized : pool.sizeOfTokens tokens = .ok size) :
    size.val = tokens.val * Scale.reserve.val / 10 ^ pool.decimals.toNat := by
  rw [sizeOfTokens, Checked.bind_eq_ok_iff] at sized
  obtain ⟨unit, scaled, rescaled⟩ := sized
  exact rescale_tenPow scaled rescaled

/-! ## Order -/

/-- Where an amount can be rescaled, a smaller one can, and comes to no more. -/
theorem exists_rescale_le (le : fewer.val ≤ amount.val)
    (rescaled : rescale amount source target = .ok result) :
    ∃ less, rescale fewer source target = .ok less ∧ less.val ≤ result.val := by
  unfold rescale at rescaled ⊢
  by_cases coarser : target < source
  · rw [if_pos coarser, Checked.bind_eq_ok_iff] at rescaled
    obtain ⟨ratio, divided, reduced⟩ := rescaled
    obtain ⟨less, reducedToo, lessLe⟩ := Word.exists_unsigned_div_le le reduced
    rw [if_pos coarser]
    exact ⟨less, Checked.bind_eq_ok_iff.2 ⟨ratio, divided, reducedToo⟩, lessLe⟩
  · rw [if_neg coarser] at rescaled ⊢
    exact Word.exists_unsigned_mulDiv_le
      (mul_le_mul_of_nonneg_right le (Word.unsigned_nonneg target)) rescaled

/-- Where tokens have a size, fewer tokens have one, and it is no larger. -/
theorem LendingPool.exists_sizeOfTokens_le {pool : LendingPool} {tokens size : Amount}
    (le : fewer.val ≤ tokens.val) (sized : pool.sizeOfTokens tokens = .ok size) :
    ∃ smaller, pool.sizeOfTokens fewer = .ok smaller ∧ smaller.val ≤ size.val := by
  rw [sizeOfTokens, Checked.bind_eq_ok_iff] at sized
  obtain ⟨unit, scaled, rescaled⟩ := sized
  obtain ⟨smaller, rescaledToo, smallerLe⟩ := exists_rescale_le le rescaled
  exact ⟨smaller, Checked.bind_eq_ok_iff.2 ⟨unit, scaled, rescaledToo⟩, smallerLe⟩

/-! ## There and back -/

section Commensurable

variable {there back : Amount}

/-- Of two scales that are commensurable the coarser one divides the finer one. -/
theorem dvd_of_commensurable_of_le (targetNonzero : target.val ≠ 0)
    (commensurable : source.val ∣ target.val ∨ target.val ∣ source.val)
    (le : target.val ≤ source.val) : target.val ∣ source.val := by
  rcases commensurable with divides | divides
  · have targetPos := Word.unsigned_pos targetNonzero
    rw [le_antisymm le (Int.le_of_dvd targetPos divides)]
  · exact divides

variable (sourceNonzero : source.val ≠ 0) (targetNonzero : target.val ≠ 0)
  (commensurable : source.val ∣ target.val ∨ target.val ∣ source.val)

include sourceNonzero targetNonzero commensurable

/-- Only a product on the way to a finer scale can leave the format. -/
theorem exists_rescale_eq_ok_iff :
    (∃ result, rescale amount source target = .ok result) ↔
      (source.val ≤ target.val → amount.val * target.val < 2 ^ 128) := by
  simp only [rescale_eq_ok_iff sourceNonzero targetNonzero commensurable]
  constructor
  · rintro ⟨result, fits, -⟩
    exact fits
  · intro fits
    have amountNonneg := Word.unsigned_nonneg amount
    have productNonneg := mul_nonneg amountNonneg (Word.unsigned_nonneg target)
    have quotientNonneg := Int.ediv_nonneg productNonneg (Word.unsigned_nonneg source)
    rcases le_or_gt source.val target.val with finer | coarser
    · have quotientLe := Int.ediv_le_self source.val productNonneg
      obtain ⟨result, resultEq⟩ := Word.exists_val_eq_iff.2
        (Format.unsigned_holds_iff.2 ⟨quotientNonneg, quotientLe.trans_lt (fits finer)⟩)
      exact ⟨result, fits, resultEq⟩
    · have quotientLe : amount.val * target.val / source.val ≤ amount.val :=
        Int.ediv_le_of_le_mul (Word.unsigned_pos sourceNonzero)
          (mul_le_mul_of_nonneg_left coarser.le amountNonneg)
      obtain ⟨result, resultEq⟩ := Word.exists_val_eq_of_le amount quotientNonneg quotientLe
      exact ⟨result, fits, resultEq⟩

/-- On a finer scale an amount keeps all that it has. -/
theorem rescale_back_of_finer (finer : source.val ≤ target.val)
    (went : rescale amount source target = .ok there)
    (came : rescale there target source = .ok back) : back = amount := by
  obtain ⟨ratio, ratioEq⟩ := dvd_of_commensurable_of_le sourceNonzero commensurable.symm finer
  have thereEq : there.val * source.val = amount.val * target.val := by
    rw [((rescale_eq_ok_iff sourceNonzero targetNonzero commensurable).1 went).2, ratioEq,
      mul_left_comm, Int.mul_ediv_cancel_left _ sourceNonzero, mul_comm source.val, mul_assoc]
  apply Word.ext
  rw [((rescale_eq_ok_iff targetNonzero sourceNonzero commensurable.symm).1 came).2, thereEq,
    Int.mul_ediv_cancel _ targetNonzero]

/-- On a coarser scale an amount loses what is less than one unit there, and nothing on the way
back. -/
theorem rescale_back_of_coarser (coarser : target.val < source.val)
    (went : rescale amount source target = .ok there)
    (came : rescale there target source = .ok back) :
    back.val ≤ amount.val ∧ amount.val - back.val < source.val / target.val := by
  have targetPos := Word.unsigned_pos targetNonzero
  have sourcePos := Word.unsigned_pos sourceNonzero
  obtain ⟨ratio, ratioEq⟩ := dvd_of_commensurable_of_le targetNonzero commensurable coarser.le
  have ratioPos : 0 < ratio := by
    rw [ratioEq] at sourcePos
    exact (mul_pos_iff_of_pos_left targetPos).1 sourcePos
  have thereEq : there.val = amount.val / ratio := by
    rw [((rescale_eq_ok_iff sourceNonzero targetNonzero commensurable).1 went).2, ratioEq,
      mul_comm target.val ratio, Int.mul_ediv_mul_of_pos_left _ _ targetPos]
  have backEq : back.val = amount.val / ratio * ratio := by
    rw [((rescale_eq_ok_iff targetNonzero sourceNonzero commensurable.symm).1 came).2, thereEq,
      ratioEq, mul_left_comm, Int.mul_ediv_cancel_left _ targetNonzero]
  have amountLt := Int.lt_ediv_add_one_mul_self amount.val ratioPos
  rw [ratioEq, Int.mul_ediv_cancel_left _ targetNonzero, backEq]
  exact ⟨Int.ediv_mul_le _ ratioPos.ne', by linarith⟩

end Commensurable

/-- Between commensurable scales an amount is truncated once at most, and has no other scale only
where the product that a finer one takes leaves the format. On a finer scale and back it is the same
amount, on a coarser one and back it has lost less than one unit of the coarser scale. -/
theorem rescale_truncates_once (sourceNonzero : source.val ≠ 0) (targetNonzero : target.val ≠ 0)
    (commensurable : source.val ∣ target.val ∨ target.val ∣ source.val) :
    (∀ result, rescale amount source target = .ok result →
      result.val = amount.val * target.val / source.val) ∧
    (target.val < source.val → ∃ result, rescale amount source target = .ok result) ∧
    (source.val ≤ target.val →
      ((∃ result, rescale amount source target = .ok result) ↔
        amount.val * target.val < 2 ^ 128)) ∧
    ∀ there back, rescale amount source target = .ok there →
      rescale there target source = .ok back →
        (source.val ≤ target.val → back = amount) ∧
        (target.val < source.val →
          back.val ≤ amount.val ∧ amount.val - back.val < source.val / target.val) := by
  have succeedsIff : (∃ result, rescale amount source target = .ok result) ↔
      (source.val ≤ target.val → amount.val * target.val < 2 ^ 128) :=
    exists_rescale_eq_ok_iff sourceNonzero targetNonzero commensurable
  refine ⟨?_, ?_, ?_, ?_⟩
  · intro result rescaled
    exact ((rescale_eq_ok_iff sourceNonzero targetNonzero commensurable).1 rescaled).2
  · intro coarser
    exact succeedsIff.2 fun finer => absurd coarser (not_lt.2 finer)
  · intro finer
    rw [succeedsIff, forall_prop_of_true finer]
  · intro there back went came
    constructor
    · intro finer
      exact rescale_back_of_finer sourceNonzero targetNonzero commensurable finer went came
    · intro coarser
      exact rescale_back_of_coarser sourceNonzero targetNonzero commensurable coarser went came

/-- Two units and a little of eighteen decimals lose nearly all of that little on a scale of
thirteen. -/
theorem rescale_truncates_once_of_eighteen_decimals :
    (.lit 1000000000000000000 : Amount).val ≠ 0 ∧ Scale.reserve.val ≠ 0 ∧
      ((.lit 1000000000000000000 : Amount).val ∣ Scale.reserve.val ∨
        Scale.reserve.val ∣ (.lit 1000000000000000000 : Amount).val) ∧
      rescale (.lit 2000000000000199999) (.lit 1000000000000000000) Scale.reserve =
        .ok (.lit 20000000000001) ∧
      rescale (.lit 20000000000001) Scale.reserve (.lit 1000000000000000000) =
        .ok (.lit 2000000000000100000) ∧
      (.lit 2000000000000100000 : Amount).val ≤ (.lit 2000000000000199999 : Amount).val ∧
      (.lit 2000000000000199999 : Amount).val - (.lit 2000000000000100000 : Amount).val <
        (.lit 1000000000000000000 : Amount).val / Scale.reserve.val := by
  have unitNonzero : (.lit 1000000000000000000 : Amount).val ≠ 0 := by decide
  have reserveNonzero : Scale.reserve.val ≠ 0 := by decide
  have commensurable : (.lit 1000000000000000000 : Amount).val ∣ Scale.reserve.val ∨
      Scale.reserve.val ∣ (.lit 1000000000000000000 : Amount).val := Or.inr (by decide)
  have went : rescale (.lit 2000000000000199999) (.lit 1000000000000000000) Scale.reserve =
      .ok (.lit 20000000000001) := rfl
  have came : rescale (.lit 20000000000001) Scale.reserve (.lit 1000000000000000000) =
      .ok (.lit 2000000000000100000) := rfl
  obtain ⟨-, -, -, roundTrip⟩ := rescale_truncates_once unitNonzero reserveNonzero commensurable
  exact ⟨unitNonzero, reserveNonzero, commensurable, went, came,
    (roundTrip _ _ went came).2 (by decide)⟩

end Leverage
