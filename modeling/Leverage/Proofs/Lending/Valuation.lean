import Leverage.Lending.Valuation
import Mathlib.Tactic.Linarith
import Mathlib.Tactic.Positivity
import Mathlib.Tactic.Ring

/-!
# Values of tokens

`tokenValue_eq_ok_iff` opens the value of a signed amount of tokens: the exact product with the
price, truncated once, if there is any amount at all. Truncation keeps the order of the products, so
the price at which the tokens come to less gives the lower value, whatever the signs are:
`strictTokenValue_eq_min`.
-/

namespace Leverage

/-- A format that holds a multiple of an integer holds the integer. -/
theorem Format.Holds.of_mul {f : Format} {v factor : Int} (held : f.Holds (v * factor))
    (factorPos : 0 < factor) : f.Holds v := by
  have zeroHeld := f.holds_zero
  rcases le_total 0 v with nonneg | nonpos
  · have le : v ≤ v * factor := le_mul_of_one_le_right nonneg factorPos
    exact ⟨le_trans zeroHeld.1 nonneg, lt_of_le_of_lt le held.2⟩
  · have le : v * factor ≤ v := mul_le_of_one_le_right nonpos factorPos
    exact ⟨le_trans held.1 le, lt_of_le_of_lt nonpos zeroHeld.2⟩

variable {tokens price average value : SignedAmount} {decimals : Decimals}

theorem tokenValue_eq_ok_iff :
    tokenValue tokens decimals price = .ok value ↔
      (tokens.val ≠ 0 → (Format.signed 128).Holds (10 ^ decimals.toNat) ∧
        (Format.signed 128).Holds (tokens.val * price.val)) ∧
      value.val = (tokens.val * price.val).tdiv (10 ^ decimals.toNat) := by
  unfold tokenValue
  by_cases nothing : tokens = 0
  · rw [if_pos nothing, Except.ok.injEq]
    rw [Word.eq_zero_iff] at nothing
    simp [nothing, Word.ext_iff, eq_comm]
  · have someTokens : tokens.val ≠ 0 := mt Word.eq_zero_iff.2 nothing
    rw [if_neg nothing, forall_prop_of_true someTokens]
    simp only [Checked.bind_eq_ok_iff, Word.pow_eq_ok_iff, Word.mulDiv_eq_ok_iff]
    constructor
    · rintro ⟨unit, unitEq, fits, -, valueEq⟩
      change unit.val = 10 ^ decimals.toNat at unitEq
      rw [unitEq] at valueEq
      exact ⟨⟨unitEq ▸ unit.holds, fits⟩, valueEq⟩
    · rintro ⟨⟨unitFits, fits⟩, valueEq⟩
      have unitPos : (0 : Int) < 10 ^ decimals.toNat := by positivity
      exact ⟨.ofHolds _ unitFits, rfl, fits, unitPos.ne', valueEq⟩

/-- The value of tokens does not hang on how finely they are counted. The coarser count never fails
where the finer one does not, since all its numbers are smaller. -/
theorem tokenValue_of_finer {fineTokens : SignedAmount} {fine : Decimals} {more : Nat}
    (finer : fine.toNat = decimals.toNat + more)
    (tokensEq : fineTokens.val = tokens.val * 10 ^ more)
    (valued : tokenValue fineTokens fine price = .ok value) :
    tokenValue tokens decimals price = .ok value := by
  have factorPos : (0 : Int) < 10 ^ more := by positivity
  have productEq : fineTokens.val * price.val = tokens.val * price.val * 10 ^ more := by
    rw [tokensEq]
    ring
  obtain ⟨fits, valueEq⟩ := tokenValue_eq_ok_iff.1 valued
  rw [productEq, finer, pow_add] at fits valueEq
  rw [Int.mul_tdiv_mul_of_pos_left _ _ factorPos] at valueEq
  refine tokenValue_eq_ok_iff.2 ⟨?_, valueEq⟩
  intro someTokens
  have someFine : fineTokens.val ≠ 0 := by
    rw [tokensEq]
    exact mul_ne_zero someTokens factorPos.ne'
  obtain ⟨unitFits, productFits⟩ := fits someFine
  exact ⟨unitFits.of_mul factorPos, productFits.of_mul factorPos⟩

/-! ## Strict values -/

/-- At the pessimistic price tokens come to the lesser of what they come to at the two prices. -/
theorem mul_pessimisticPrice (tokens price average : SignedAmount) :
    tokens.val * (pessimisticPrice tokens price average).val =
      min (tokens.val * price.val) (tokens.val * average.val) := by
  unfold pessimisticPrice
  by_cases asset : 0 < tokens
  · have tokensNonneg : 0 ≤ tokens.val := (Word.lt_iff.1 asset).le
    rw [if_pos asset, Word.val_min]
    exact (monotone_mul_left_of_nonneg tokensNonneg).map_min
  · have tokensNonpos : tokens.val ≤ 0 := not_lt.1 fun positive => asset positive
    rw [if_neg asset, Word.val_max]
    exact (antitone_mul_left tokensNonpos).map_max

theorem strictTokenValue_of_pos (averagePos : 0 < average) :
    strictTokenValue tokens decimals price average =
      tokenValue tokens decimals (pessimisticPrice tokens price average) := by
  unfold strictTokenValue
  split
  · next nothing => rw [tokenValue, if_pos nothing]
  · exact if_neg (not_le.2 (Word.lt_iff.1 averagePos))

/-- With a positive average the strict value is the lower one of the values at the price and at the
average. So it never exceeds the plain value, neither that of an asset nor that of a liability, also
where there is no value at the average. -/
theorem strictTokenValue_eq_min (averagePos : 0 < average)
    (valued : tokenValue tokens decimals price = .ok value) :
    (∀ averageValue, tokenValue tokens decimals average = .ok averageValue →
      strictTokenValue tokens decimals price average = .ok (min value averageValue)) ∧
    ∀ strict, strictTokenValue tokens decimals price average = .ok strict → strict ≤ value := by
  have truncates : Monotone fun product : Int => product.tdiv (10 ^ decimals.toNat) :=
    fun _ _ le => Int.tdiv_le_tdiv (by positivity) le
  obtain ⟨fits, valueEq⟩ := tokenValue_eq_ok_iff.1 valued
  simp only [strictTokenValue_of_pos averagePos, tokenValue_eq_ok_iff, mul_pessimisticPrice]
  constructor
  · intro averageValue averaged
    obtain ⟨averageFits, averageEq⟩ := averaged
    refine ⟨fun someTokens => ⟨(fits someTokens).1, ?_⟩, ?_⟩
    · exact min_rec' _ (fits someTokens).2 (averageFits someTokens).2
    · rw [Word.val_min, valueEq, averageEq]
      exact truncates.map_min.symm
  · intro strict strictIs
    rw [Word.le_iff, strictIs.2, valueEq]
    exact truncates (min_le_left _ _)

/-- A debt of seven tenths of a unit, at an oracle's price below zero. -/
theorem strictTokenValue_eq_min_of_debt :
    (0 : SignedAmount) < .lit 5 ∧
      tokenValue (.lit (-7)) (.lit 1) (.lit (-3)) = .ok (.lit 2) ∧
      tokenValue (.lit (-7)) (.lit 1) (.lit 5) = .ok (.lit (-3)) ∧
      strictTokenValue (.lit (-7)) (.lit 1) (.lit (-3)) (.lit 5) =
        .ok (min (.lit 2) (.lit (-3))) ∧
      (.lit (-3) : SignedAmount) ≤ .lit 2 := by
  have averagePos : (0 : SignedAmount) < .lit 5 := by decide
  have valued : tokenValue (.lit (-7)) (.lit 1) (.lit (-3)) = .ok (.lit 2) := rfl
  have averaged : tokenValue (.lit (-7)) (.lit 1) (.lit 5) = .ok (.lit (-3)) := rfl
  obtain ⟨strictEq, neverMore⟩ := strictTokenValue_eq_min averagePos valued
  exact ⟨averagePos, valued, averaged, strictEq _ averaged, neverMore _ (strictEq _ averaged)⟩

end Leverage
