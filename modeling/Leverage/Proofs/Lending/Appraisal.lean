import Leverage.Proofs.Lending.Conversion
import Leverage.Proofs.Lending.Valuation

/-!
# Appraisals of positions

The value of a position is computed in two ways: without sign, from the tokens that it comes to, and
with the sign of its side, from its signed tokens. `appraisal_eq_ok_iff` opens the first way and
`tokenValue_of_signed` the second. A signed value is truncated toward zero and so is the sign of the
side times the floor; its format reaches half as far, so there is an appraisal wherever there is a
signed value: `appraisal_of_tokenValue`.

The two part at prices below zero, which an appraisal refuses.
-/

namespace Leverage

variable {tokens : Amount} {owed price value : SignedAmount} {decimals : Decimals}

/-! ## Signs -/

namespace Side

variable {side : Side} {worth unit : Int}

/-- How a side counts for the holder. -/
def sign : Side → Int
  | deposit => 1
  | borrow => -1

theorem signed_eq_ok_iff :
    side.signed tokens = .ok owed ↔
      (Format.signed 128).Holds tokens.val ∧ owed.val = side.sign * tokens.val := by
  cases side with
  | deposit =>
    rw [signed, Word.cast_eq_ok_iff, sign, one_mul]
    exact ⟨fun owedEq => ⟨owedEq ▸ owed.holds, owedEq⟩, And.right⟩
  | borrow =>
    simp only [signed, Checked.bind_eq_ok_iff, Word.cast_eq_ok_iff, Word.neg_eq_ok_iff, sign,
      neg_one_mul]
    constructor
    · rintro ⟨debt, debtEq, owedEq⟩
      exact ⟨debtEq ▸ debt.holds, debtEq ▸ owedEq⟩
    · rintro ⟨held, owedEq⟩
      exact ⟨.ofHolds _ held, rfl, owedEq⟩

theorem natAbs_sign_mul (side : Side) (nonneg : 0 ≤ worth) :
    ((side.sign * worth).natAbs : Int) = worth := by
  cases side with
  | deposit => rw [sign, one_mul, Int.natAbs_of_nonneg nonneg]
  | borrow => rw [sign, neg_one_mul, Int.natAbs_neg, Int.natAbs_of_nonneg nonneg]

/-- Truncation keeps the sign out of the quotient. -/
theorem sign_mul_tdiv (side : Side) (nonneg : 0 ≤ worth) :
    (side.sign * worth).tdiv unit = side.sign * (worth / unit) := by
  cases side with
  | deposit => rw [sign, one_mul, one_mul, Int.tdiv_eq_ediv_of_nonneg nonneg]
  | borrow => rw [sign, neg_one_mul, neg_one_mul, Int.neg_tdiv, Int.tdiv_eq_ediv_of_nonneg nonneg]

end Side

/-! ## Signed values -/

/-- Tokens that have a value come to less than twice what the signed format reaches, also where there
are none of them. -/
theorem natAbs_mul_lt_of_tokenValue (valued : tokenValue owed decimals price = .ok value) :
    ((owed.val * price.val).natAbs : Int) < 2 ^ 128 := by
  by_cases nothing : owed.val = 0
  · rw [nothing, zero_mul]
    decide
  · exact Word.natAbs_lt_of_holds ((tokenValue_eq_ok_iff.1 valued).1 nothing).2

theorem tokenValue_of_signed {side : Side} (priceNonneg : 0 ≤ price.val)
    (owes : side.signed tokens = .ok owed) (valued : tokenValue owed decimals price = .ok value) :
    tokens.val * price.val < 2 ^ 128 ∧
      value.val = side.sign * (tokens.val * price.val / 10 ^ decimals.toNat) := by
  have worthNonneg : 0 ≤ tokens.val * price.val :=
    mul_nonneg (Word.unsigned_nonneg tokens) priceNonneg
  have worthEq : owed.val * price.val = side.sign * (tokens.val * price.val) := by
    rw [(Side.signed_eq_ok_iff.1 owes).2, mul_assoc]
  have worthLt := natAbs_mul_lt_of_tokenValue valued
  rw [worthEq, Side.natAbs_sign_mul side worthNonneg] at worthLt
  refine ⟨worthLt, ?_⟩
  rw [(tokenValue_eq_ok_iff.1 valued).2, worthEq, Side.sign_mul_tdiv side worthNonneg]

/-! ## Appraisals -/

/-- Tokens of no more decimals than scaled balances keep have a unit. -/
theorem exists_val_eq_unit (small : decimals.toNat ≤ Scale.balanceDecimals) :
    ∃ unit : Amount, unit.val = 10 ^ decimals.toNat := by
  have unitNonneg : (0 : Int) ≤ 10 ^ decimals.toNat := by positivity
  have unitLe : (10 : Int) ^ decimals.toNat ≤ 10 ^ Scale.balanceDecimals :=
    pow_le_pow_right₀ (by decide) small
  exact Word.exists_val_eq_iff.2
    (Format.unsigned_holds_iff.2 ⟨unitNonneg, unitLe.trans_lt (by decide)⟩)

namespace PoolPosition

variable {position : PoolPosition} {pool : LendingPool} {oracle : OracleReading}
  {appraised : Appraisal}

/-- A position that comes to tokens has decimals with a unit, so all that its appraisal needs besides
is a price that is not negative and a product that fits. -/
theorem appraisal_eq_ok_iff :
    position.appraisal pool oracle = .ok appraised ↔
      position.tokens pool = .ok appraised.tokens ∧ 0 ≤ oracle.price.val ∧
        appraised.tokens.val * oracle.price.val < 2 ^ 128 ∧
        appraised.value.val =
          appraised.tokens.val * oracle.price.val / 10 ^ pool.decimals.toNat := by
  simp only [appraisal, tenPow, Checked.bind_eq_ok_iff, Checked.pure_eq_ok_iff, Word.pow_eq_ok_iff,
    Word.cast_eq_ok_iff, Word.unsigned_mulDiv_eq_ok_iff]
  constructor
  · rintro ⟨tokens, counted, unit, unitEq, price, priceEq, value, ⟨fits, -, valueEq⟩, rfl⟩
    rw [priceEq] at fits valueEq
    rw [unitEq] at valueEq
    exact ⟨counted, priceEq ▸ Word.unsigned_nonneg price, fits, valueEq⟩
  · rintro ⟨counted, priceNonneg, fits, valueEq⟩
    obtain ⟨small, -⟩ := LendingPool.tokensOfScaled_eq_ok_iff.1 counted
    obtain ⟨unit, unitEq⟩ := exists_val_eq_unit small
    have unitNonzero : unit.val ≠ 0 := by
      rw [unitEq]
      positivity
    have priceEq : oracle.price.magnitude.val = oracle.price.val :=
      Int.natAbs_of_nonneg priceNonneg
    rw [← priceEq] at fits valueEq
    rw [← unitEq] at valueEq
    exact ⟨appraised.tokens, counted, unit, unitEq, oracle.price.magnitude, priceEq,
      appraised.value, ⟨fits, unitNonzero, valueEq⟩, rfl⟩

/-- Where the signed tokens of a position have a value at a price that is not negative, the appraisal
of the position is that value without its sign and the tokens themselves, and the sign is that of the
side. -/
theorem appraisal_of_tokenValue (priceNonneg : 0 ≤ oracle.price.val)
    (counted : position.tokens pool = .ok tokens) (owes : position.side.signed tokens = .ok owed)
    (valued : tokenValue owed pool.decimals oracle.price = .ok value) :
    position.appraisal pool oracle = .ok ⟨value.magnitude, tokens⟩ ∧
      position.value pool oracle = .ok value.magnitude ∧
      (position.side = .deposit → 0 ≤ value.val) ∧
      (position.side = .borrow → value.val ≤ 0) := by
  obtain ⟨fits, valueEq⟩ := tokenValue_of_signed priceNonneg owes valued
  have quotientNonneg : 0 ≤ tokens.val * oracle.price.val / 10 ^ pool.decimals.toNat :=
    Int.ediv_nonneg (mul_nonneg (Word.unsigned_nonneg tokens) priceNonneg) (by positivity)
  have magnitudeEq :
      value.magnitude.val = tokens.val * oracle.price.val / 10 ^ pool.decimals.toNat := by
    rw [Word.val_magnitude, valueEq, Side.natAbs_sign_mul _ quotientNonneg]
  have appraises : position.appraisal pool oracle = .ok ⟨value.magnitude, tokens⟩ :=
    appraisal_eq_ok_iff.2 ⟨counted, priceNonneg, fits, magnitudeEq⟩
  refine ⟨appraises, ?_, ?_, ?_⟩
  · rw [PoolPosition.value, appraises]
    rfl
  · intro deposits
    rw [valueEq, deposits, Side.sign, one_mul]
    exact quotientNonneg
  · intro borrows
    rw [valueEq, borrows, Side.sign, neg_one_mul]
    exact Int.neg_nonpos_of_nonneg quotientNonneg

/-- A debt of a little more than one unit of nine decimals, at an index that has grown. -/
def unitDebt : PoolPosition where
  side := .borrow
  scaled := .lit 1000001

def ninePool : LendingPool where
  decimals := .lit 9
  index := ⟨.lit 10100000000, .lit 10500000001⟩

def dearReading : OracleReading where
  price := .lit 12345678901

/-- Neither the tokens of the debt nor their value are whole before they are truncated. -/
theorem appraisal_of_tokenValue_of_unitDebt :
    0 ≤ dearReading.price.val ∧
      unitDebt.tokens ninePool = .ok (.lit 1050001050) ∧
      unitDebt.side.signed (.lit 1050001050) = .ok (.lit (-1050001050)) ∧
      tokenValue (.lit (-1050001050)) ninePool.decimals dearReading.price =
        .ok (.lit (-12962975809)) ∧
      unitDebt.appraisal ninePool dearReading = .ok ⟨.lit 12962975809, .lit 1050001050⟩ ∧
      unitDebt.value ninePool dearReading = .ok (.lit 12962975809) ∧
      (.lit (-12962975809) : SignedAmount).val ≤ 0 := by
  have priceNonneg : 0 ≤ dearReading.price.val := by decide
  have counted : unitDebt.tokens ninePool = .ok (.lit 1050001050) := rfl
  have owes : unitDebt.side.signed (.lit 1050001050) = .ok (.lit (-1050001050)) := rfl
  have valued : tokenValue (.lit (-1050001050)) ninePool.decimals dearReading.price =
      .ok (.lit (-12962975809)) := rfl
  obtain ⟨appraises, isWorth, -, counts⟩ :=
    appraisal_of_tokenValue priceNonneg counted owes valued
  exact ⟨priceNonneg, counted, owes, valued, appraises, isWorth, counts rfl⟩

end PoolPosition

end Leverage
