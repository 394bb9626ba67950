import Leverage.Proofs.Lending.Conversion
import Leverage.Proofs.Lending.Valuation
import Leverage.Proofs.Margin.Size

/-!
# Decimals as a unit of account

Two pools that differ in their decimals alone count the same tokens in different units. Three places
bring tokens to a common scale, each in its own way: scaled balances lift them, sizes are rescaled
up or down, and values are divided by a whole unit with its sign. `decimals_are_units` holds all
three against the finer count, in which an amount is a multiple of itself by a power of ten.

Only where a coarser count cannot say what a finer one can is anything lost, and that is one floor.
-/

namespace Leverage.LendingPool

/-- The pool with other decimals, and the same in all else. -/
def withDecimals (pool : LendingPool) (decimals : Decimals) : LendingPool :=
  { pool with decimals := decimals }

@[simp] theorem withDecimals_decimals (pool : LendingPool) (decimals : Decimals) :
    (pool.withDecimals decimals).decimals = decimals := rfl

@[simp] theorem withDecimals_index (pool : LendingPool) (decimals : Decimals) :
    (pool.withDecimals decimals).index = pool.index := rfl

variable {pool : LendingPool} {fine : Decimals} {more : Nat} {side : Side}
  {tokens fineTokens scaled size fineSize : Amount}

/-- What the units are finer by, the lift is less by. -/
theorem lift_eq_mul_pow (finer : fine.toNat = pool.decimals.toNat + more)
    (within : fine.toNat ≤ Scale.balanceDecimals) :
    pool.lift = (pool.withDecimals fine).lift * 10 ^ more := by
  have exponentEq : Scale.balanceDecimals - pool.decimals.toNat =
      Scale.balanceDecimals - fine.toNat + more := by omega
  rw [lift, lift, withDecimals_decimals, exponentEq, pow_add]

/-- The same tokens are posted as the same scaled balance. -/
theorem scaledOfTokens_withDecimals_iff (finer : fine.toNat = pool.decimals.toNat + more)
    (within : fine.toNat ≤ Scale.balanceDecimals)
    (tokensEq : fineTokens.val = tokens.val * 10 ^ more) :
    (pool.withDecimals fine).scaledOfTokens side fineTokens = .ok scaled ↔
      pool.scaledOfTokens side tokens = .ok scaled := by
  have coarseWithin : pool.decimals.toNat ≤ Scale.balanceDecimals := by omega
  have liftedEq : fineTokens.val * (pool.withDecimals fine).lift = tokens.val * pool.lift := by
    rw [tokensEq, lift_eq_mul_pow finer within]
    ring
  rw [scaledOfTokens_eq_ok_iff, scaledOfTokens_eq_ok_iff, liftedEq, withDecimals_decimals,
    withDecimals_index, and_iff_right within, and_iff_right coarseWithin]

/-- A scaled balance reads as the same tokens, floored to the coarser unit. -/
theorem tokensOfScaled_withDecimals_iff (finer : fine.toNat = pool.decimals.toNat + more)
    (within : fine.toNat ≤ Scale.balanceDecimals) :
    pool.tokensOfScaled side scaled = .ok tokens ↔
      ∃ fineTokens, (pool.withDecimals fine).tokensOfScaled side scaled = .ok fineTokens ∧
        tokens.val = fineTokens.val / 10 ^ more := by
  have coarseWithin : pool.decimals.toNat ≤ Scale.balanceDecimals := by omega
  have liftNonneg := (pool.withDecimals fine).lift_pos.le
  have flooredTwice : scaled.val * (pool.index.get side).val / pool.lift =
      scaled.val * (pool.index.get side).val / (pool.withDecimals fine).lift / 10 ^ more := by
    rw [lift_eq_mul_pow finer within, Int.ediv_ediv_of_nonneg liftNonneg]
  rw [tokensOfScaled_eq_ok_iff, flooredTwice, and_iff_right coarseWithin]
  constructor
  · rintro ⟨fits, tokensEq⟩
    obtain ⟨fineTokens, converted⟩ :
        ∃ fineTokens, (pool.withDecimals fine).tokensOfScaled side scaled = .ok fineTokens :=
      exists_tokensOfScaled_eq_ok_iff.2 ⟨within, fits⟩
    refine ⟨fineTokens, converted, ?_⟩
    rw [tokensEq, (tokensOfScaled_eq_ok_iff.1 converted).2.2, withDecimals_index]
  · rintro ⟨fineTokens, converted, tokensEq⟩
    obtain ⟨-, fits, fineEq⟩ := tokensOfScaled_eq_ok_iff.1 converted
    rw [fineEq] at tokensEq
    exact ⟨fits, tokensEq⟩

/-- The same tokens have the same size, whether they are brought up to its scale or down. -/
theorem sizeOfTokens_withDecimals_eq (finer : fine.toNat = pool.decimals.toNat + more)
    (tokensEq : fineTokens.val = tokens.val * 10 ^ more)
    (sized : pool.sizeOfTokens tokens = .ok size)
    (fineSized : (pool.withDecimals fine).sizeOfTokens fineTokens = .ok fineSize) :
    fineSize = size := by
  have factorPos : (0 : Int) < 10 ^ more := by positivity
  apply Word.ext
  rw [sizeOfTokens_eq fineSized, sizeOfTokens_eq sized, withDecimals_decimals, tokensEq, finer,
    pow_add, mul_right_comm, Int.mul_ediv_mul_of_pos_left _ _ factorPos]

/-- What is read off the size alone does not see the decimals. -/
theorem eq_of_size {curve : Amount → Checked Ratio} {weight fineWeight : Ratio}
    (finer : fine.toNat = pool.decimals.toNat + more)
    (tokensEq : fineTokens.val = tokens.val * 10 ^ more)
    (weighed : pool.sizeOfTokens tokens >>= curve = .ok weight)
    (fineWeighed : (pool.withDecimals fine).sizeOfTokens fineTokens >>= curve = .ok fineWeight) :
    fineWeight = weight := by
  rw [Checked.bind_eq_ok_iff] at weighed fineWeighed
  obtain ⟨size, sized, weightEq⟩ := weighed
  obtain ⟨fineSize, fineSized, fineWeightEq⟩ := fineWeighed
  obtain rfl := sizeOfTokens_withDecimals_eq finer tokensEq sized fineSized
  exact Except.ok.inj (fineWeightEq.symm.trans weightEq)

/-- Counting in finer decimals changes nothing but the count. The same tokens are posted as the same
scaled balance, have the same weights under both tiers and, with a sign, the same value at every
price; and a scaled balance reads as the same tokens up to the floor of the coarser unit. -/
theorem decimals_are_units (finer : fine.toNat = pool.decimals.toNat + more)
    (within : fine.toNat ≤ Scale.balanceDecimals) :
    (∀ side (tokens fineTokens scaled : Amount), fineTokens.val = tokens.val * 10 ^ more →
      ((pool.withDecimals fine).scaledOfTokens side fineTokens = .ok scaled ↔
        pool.scaledOfTokens side tokens = .ok scaled)) ∧
    (∀ side (scaled tokens : Amount), pool.tokensOfScaled side scaled = .ok tokens ↔
      ∃ fineTokens, (pool.withDecimals fine).tokensOfScaled side scaled = .ok fineTokens ∧
        tokens.val = fineTokens.val / 10 ^ more) ∧
    (∀ tier (tokens fineTokens : Amount) (weight fineWeight : Ratio),
      fineTokens.val = tokens.val * 10 ^ more →
      pool.assetWeight tokens tier = .ok weight →
      (pool.withDecimals fine).assetWeight fineTokens tier = .ok fineWeight →
      fineWeight = weight) ∧
    (∀ tier (tokens fineTokens : Amount) (weight fineWeight : Ratio),
      fineTokens.val = tokens.val * 10 ^ more →
      pool.liabilityWeight tokens tier = .ok weight →
      (pool.withDecimals fine).liabilityWeight fineTokens tier = .ok fineWeight →
      fineWeight = weight) ∧
    ∀ (tokens fineTokens price value : SignedAmount),
      fineTokens.val = tokens.val * 10 ^ more →
      tokenValue fineTokens fine price = .ok value →
      tokenValue tokens pool.decimals price = .ok value := by
  refine ⟨?_, ?_, ?_, ?_, ?_⟩
  · intro side tokens fineTokens scaled tokensEq
    exact scaledOfTokens_withDecimals_iff finer within tokensEq
  · intro side scaled tokens
    exact tokensOfScaled_withDecimals_iff finer within
  · intro tier tokens fineTokens weight fineWeight tokensEq weighed fineWeighed
    exact eq_of_size finer tokensEq weighed fineWeighed
  · intro tier tokens fineTokens weight fineWeight tokensEq weighed fineWeighed
    exact eq_of_size finer tokensEq weighed fineWeighed
  · intro tokens fineTokens price value tokensEq valued
    exact tokenValue_of_finer finer tokensEq valued

/-- A pool of six decimals on which sizes matter and no conversion is exact. -/
def steepPool : LendingPool where
  index := ⟨Scale.index, .lit 13000000000⟩
  sizeFactor := .lit 10000
  assetWeights := ⟨.lit 8000, .lit 9000⟩
  liabilityWeights := ⟨.lit 12000, .lit 11000⟩

/-- The same pool counted in sixteen decimals, beyond those of the size curves. -/
def finePool : LendingPool := steepPool.withDecimals (.lit 16)

/-- A million and one units of the coarser count are posted, weighed and valued in either count, and
one scaled balance is read in both. -/
theorem decimals_are_units_of_steepPool :
    (.lit 16 : Decimals).toNat = steepPool.decimals.toNat + 10 ∧
      (.lit 16 : Decimals).toNat ≤ Scale.balanceDecimals ∧
      steepPool.scaledOfTokens .borrow (.lit 1000001) = .ok (.lit 769232) ∧
      finePool.scaledOfTokens .borrow (.lit 10000010000000000) = .ok (.lit 769232) ∧
      steepPool.tokensOfScaled .borrow (.lit 769232) = .ok (.lit 1000001) ∧
      (∃ fineTokens, finePool.tokensOfScaled .borrow (.lit 769232) = .ok fineTokens ∧
        1000001 = fineTokens.val / 10 ^ 10) ∧
      steepPool.assetWeight (.lit 1000001) .initial = .ok (.lit 5500) ∧
      (∃ fineWeight, finePool.assetWeight (.lit 10000010000000000) .initial = .ok fineWeight ∧
        fineWeight = .lit 5500) ∧
      steepPool.liabilityWeight (.lit 1000001) .initial = .ok (.lit 19600) ∧
      (∃ fineWeight, finePool.liabilityWeight (.lit 10000010000000000) .initial = .ok fineWeight ∧
        fineWeight = .lit 19600) ∧
      tokenValue (.lit (-10000010000000000)) (.lit 16) (.lit 123456789) =
        .ok (.lit (-123456912)) ∧
      tokenValue (.lit (-1000001)) (.lit 6) (.lit 123456789) = .ok (.lit (-123456912)) := by
  have finer : (.lit 16 : Decimals).toNat = steepPool.decimals.toNat + 10 := by decide
  have within : (.lit 16 : Decimals).toNat ≤ Scale.balanceDecimals := by decide
  have posted : steepPool.scaledOfTokens .borrow (.lit 1000001) = .ok (.lit 769232) := rfl
  have read : steepPool.tokensOfScaled .borrow (.lit 769232) = .ok (.lit 1000001) := rfl
  have asset : steepPool.assetWeight (.lit 1000001) .initial = .ok (.lit 5500) := by
    decide +kernel
  have fineAsset : finePool.assetWeight (.lit 10000010000000000) .initial = .ok (.lit 5500) := by
    decide +kernel
  have liability : steepPool.liabilityWeight (.lit 1000001) .initial = .ok (.lit 19600) := by
    decide +kernel
  have fineLiability :
      finePool.liabilityWeight (.lit 10000010000000000) .initial = .ok (.lit 19600) := by
    decide +kernel
  have fineValued : tokenValue (.lit (-10000010000000000)) (.lit 16) (.lit 123456789) =
      .ok (.lit (-123456912)) := rfl
  obtain ⟨posts, reads, weighsAsset, weighsLiability, values⟩ := decimals_are_units finer within
  exact ⟨finer, within, posted, (posts .borrow _ _ _ (by decide)).2 posted, read,
    (reads .borrow _ _).1 read, asset,
    ⟨_, fineAsset, weighsAsset .initial _ _ _ _ (by decide) asset fineAsset⟩, liability,
    ⟨_, fineLiability, weighsLiability .initial _ _ _ _ (by decide) liability fineLiability⟩,
    fineValued, values _ _ _ _ (by decide) fineValued⟩

end Leverage.LendingPool
