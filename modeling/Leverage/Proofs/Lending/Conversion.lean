import Leverage.Lending.Balance
import Mathlib.Tactic.Linarith
import Mathlib.Tactic.Positivity

/-!
# Conversion between tokens and scaled balances

`LendingPool.lift` is the factor between the two units as an exact integer. In terms of it
`scaledOfTokens_eq_ok_iff`, `tokensOfInterest_eq_ok_iff` and `tokensOfScaled_eq_ok_iff` say when each
conversion succeeds and what it gives, and no proof outside this module opens the conversions
themselves.

The bounds on the rounding of each conversion are stated as products, since the lift and the index
both vary from pool to pool.
-/

namespace Leverage

/-! ## Rounding -/

namespace Rounding

variable {rounding : Rounding} {floored adjusted : Amount}

theorem adjust_eq_ok_iff :
    rounding.adjust floored = .ok adjusted ↔
      adjusted.val = floored.val + if rounding = .up then 1 else 0 := by
  cases rounding with
  | down => simp [adjust, Word.ext_iff, eq_comm]
  | up => exact Word.add_eq_ok_iff

theorem adjustNonzero_eq_ok_iff :
    rounding.adjustNonzero floored = .ok adjusted ↔
      adjusted.val = floored.val + if rounding = .up ∧ floored.val ≠ 0 then 1 else 0 := by
  unfold adjustNonzero
  by_cases zero : floored = 0
  · simp [zero, Word.ext_iff, eq_comm]
  · have nonzero : floored.val ≠ 0 := mt Word.eq_zero_iff.2 zero
    rw [if_neg zero, adjust_eq_ok_iff]
    simp only [nonzero, ne_eq, not_false_eq_true, and_true]

end Rounding

namespace LendingPool

/-! ## The lift -/

/-- How many units of a scaled balance times its index make one unit of the token. -/
def lift (pool : LendingPool) : Int := 10 ^ (Scale.balanceDecimals - pool.decimals.toNat)

theorem lift_pos (pool : LendingPool) : 0 < pool.lift := by
  unfold lift
  positivity

theorem lift_le (pool : LendingPool) : pool.lift ≤ 10 ^ Scale.balanceDecimals :=
  pow_le_pow_right₀ (by decide) (Nat.sub_le _ _)

/-- No pool has so few decimals that a word could not hold its lift. -/
theorem exists_val_eq_lift (pool : LendingPool) : ∃ factor : Amount, factor.val = pool.lift := by
  have below : pool.lift < 2 ^ 128 := lt_of_le_of_lt pool.lift_le (by decide)
  exact Word.exists_val_eq_iff.2 (Format.unsigned_holds_iff.2 ⟨pool.lift_pos.le, below⟩)

theorem precisionLift_eq_ok_iff {pool : LendingPool} {factor : Amount} :
    pool.precisionLift = .ok factor ↔
      pool.decimals.toNat ≤ Scale.balanceDecimals ∧ factor.val = pool.lift := by
  unfold precisionLift tenPow
  split
  · next large => simp [Nat.not_le.2 large]
  · next small =>
    rw [Word.pow_eq_ok_iff, and_iff_right (Nat.not_lt.1 small)]
    exact Iff.rfl

/-! ## The conversions -/

variable {pool : LendingPool} {side : Side} {tokens scaled : Amount}

theorem scaledOfTokens_eq_ok_iff :
    pool.scaledOfTokens side tokens = .ok scaled ↔
      pool.decimals.toNat ≤ Scale.balanceDecimals ∧ tokens.val * pool.lift < 2 ^ 128 ∧
        (pool.index.get side).val ≠ 0 ∧
        scaled.val = tokens.val * pool.lift / (pool.index.get side).val +
          if side = .borrow ∧ tokens.val * pool.lift / (pool.index.get side).val ≠ 0
          then 1 else 0 := by
  have roundsUp : side.rounding = .up ↔ side = .borrow := by cases side <;> decide
  simp only [scaledOfTokens, Checked.bind_eq_ok_iff, precisionLift_eq_ok_iff,
    Rounding.adjustNonzero_eq_ok_iff, roundsUp]
  constructor
  · intro posted
    rcases posted with ⟨factor, ⟨small, factorEq⟩, floored, flooredEq, scaledEq⟩
    rw [Word.unsigned_mulDiv_eq_ok_iff, factorEq] at flooredEq
    rw [flooredEq.2.2] at scaledEq
    exact ⟨small, flooredEq.1, flooredEq.2.1, scaledEq⟩
  · intro exact
    rcases exact with ⟨small, fits, nonzero, scaledEq⟩
    obtain ⟨factor, factorEq⟩ := pool.exists_val_eq_lift
    rw [← factorEq] at fits scaledEq
    obtain ⟨floored, flooredEq⟩ := Word.exists_unsigned_mulDiv_eq_ok_iff.2 ⟨fits, nonzero⟩
    refine ⟨factor, ⟨small, factorEq⟩, floored, flooredEq, ?_⟩
    rw [(Word.unsigned_mulDiv_eq_ok_iff.1 flooredEq).2.2]
    exact scaledEq

theorem tokensOfInterest_eq_ok_iff {interest : Amount} :
    pool.tokensOfInterest scaled interest = .ok tokens ↔
      pool.decimals.toNat ≤ Scale.balanceDecimals ∧ scaled.val * interest.val < 2 ^ 128 ∧
        tokens.val = scaled.val * interest.val / pool.lift := by
  simp only [tokensOfInterest, Checked.bind_eq_ok_iff, precisionLift_eq_ok_iff,
    Word.unsigned_mulDiv_eq_ok_iff]
  constructor
  · intro converted
    rcases converted with ⟨factor, ⟨small, factorEq⟩, fits, -, tokensEq⟩
    exact ⟨small, fits, factorEq ▸ tokensEq⟩
  · intro exact
    rcases exact with ⟨small, fits, tokensEq⟩
    obtain ⟨factor, factorEq⟩ := pool.exists_val_eq_lift
    have factorNonzero : factor.val ≠ 0 := factorEq ▸ pool.lift_pos.ne'
    exact ⟨factor, ⟨small, factorEq⟩, fits, factorNonzero, factorEq.symm ▸ tokensEq⟩

/-- Interest on a scaled balance has tokens unless the token has too many decimals or its worth leaves
the format. -/
theorem exists_tokensOfInterest_eq_ok_iff {interest : Amount} :
    (∃ tokens, pool.tokensOfInterest scaled interest = .ok tokens) ↔
      pool.decimals.toNat ≤ Scale.balanceDecimals ∧ scaled.val * interest.val < 2 ^ 128 := by
  simp only [tokensOfInterest_eq_ok_iff]
  constructor
  · intro converts
    rcases converts with ⟨tokens, small, fits, -⟩
    exact ⟨small, fits⟩
  · intro sound
    rcases sound with ⟨small, fits⟩
    have worthNonneg := mul_nonneg (Word.unsigned_nonneg scaled) (Word.unsigned_nonneg interest)
    -- The lift is at least one, so the floor is no more than the worth.
    have floorLe := Int.ediv_le_self pool.lift worthNonneg
    have floorNonneg := Int.ediv_nonneg worthNonneg pool.lift_pos.le
    obtain ⟨tokens, tokensEq⟩ :=
      Word.exists_val_eq_iff.2 (Format.unsigned_holds_iff.2 ⟨floorNonneg, floorLe.trans_lt fits⟩)
    exact ⟨tokens, small, fits, tokensEq⟩

/-- A scaled balance is read as if the whole index of its side were interest on it. -/
theorem tokensOfScaled_eq_tokensOfInterest (pool : LendingPool) (side : Side) (scaled : Amount) :
    pool.tokensOfScaled side scaled = pool.tokensOfInterest scaled (pool.index.get side) := rfl

theorem tokensOfScaled_eq_ok_iff :
    pool.tokensOfScaled side scaled = .ok tokens ↔
      pool.decimals.toNat ≤ Scale.balanceDecimals ∧
        scaled.val * (pool.index.get side).val < 2 ^ 128 ∧
        tokens.val = scaled.val * (pool.index.get side).val / pool.lift := by
  rw [tokensOfScaled_eq_tokensOfInterest]
  exact tokensOfInterest_eq_ok_iff

theorem exists_tokensOfScaled_eq_ok_iff :
    (∃ tokens, pool.tokensOfScaled side scaled = .ok tokens) ↔
      pool.decimals.toNat ≤ Scale.balanceDecimals ∧
        scaled.val * (pool.index.get side).val < 2 ^ 128 := by
  simp only [tokensOfScaled_eq_tokensOfInterest]
  exact exists_tokensOfInterest_eq_ok_iff

/-- Where a balance converts, every smaller one converts, and to no more tokens. -/
theorem exists_tokensOfScaled_le {fewer : Amount} (le : fewer.val ≤ scaled.val)
    (converted : pool.tokensOfScaled side scaled = .ok tokens) :
    ∃ less, pool.tokensOfScaled side fewer = .ok less ∧ less.val ≤ tokens.val := by
  obtain ⟨small, fits, tokensEq⟩ := tokensOfScaled_eq_ok_iff.1 converted
  have worthLe : fewer.val * (pool.index.get side).val ≤ scaled.val * (pool.index.get side).val :=
    mul_le_mul_of_nonneg_right le (Word.unsigned_nonneg _)
  obtain ⟨less, convertedToo⟩ :=
    exists_tokensOfScaled_eq_ok_iff.2 ⟨small, lt_of_le_of_lt worthLe fits⟩
  refine ⟨less, convertedToo, ?_⟩
  rw [(tokensOfScaled_eq_ok_iff.1 convertedToo).2.2, tokensEq]
  exact Int.ediv_le_ediv pool.lift_pos worthLe

/-! ## Rounding of the tokens of a scaled balance -/

/-- The tokens of a balance are worth no more than the balance. -/
theorem tokens_mul_lift_le (converted : pool.tokensOfScaled side scaled = .ok tokens) :
    tokens.val * pool.lift ≤ scaled.val * (pool.index.get side).val := by
  rw [(tokensOfScaled_eq_ok_iff.1 converted).2.2]
  exact Int.ediv_mul_le _ pool.lift_pos.ne'

/-- The tokens of a balance fall short of its worth by less than one token unit. -/
theorem lt_tokens_add_one_mul_lift (converted : pool.tokensOfScaled side scaled = .ok tokens) :
    scaled.val * (pool.index.get side).val < (tokens.val + 1) * pool.lift := by
  rw [(tokensOfScaled_eq_ok_iff.1 converted).2.2]
  exact Int.lt_ediv_add_one_mul_self _ pool.lift_pos

end LendingPool

end Leverage
