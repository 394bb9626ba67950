import Leverage.Margin.SizeCurve
import Leverage.Proofs.SquareRoot
import Mathlib.Tactic.GCongr
import Mathlib.Tactic.Linarith

/-!
# The size curves in closed form

The radicand of a size is one more than a multiple of ten and so never two: its root is the exact
one. A root of a word has half the bits of the word, which leaves room for every later step of either
curve. What is left is one expression of the exact root for each curve, `discountCurve` and
`premiumCurve`, and the conversion of its value to a ratio. `discountedWeight_eq_fit` and
`premiumWeight_eq_fit` say so, and nothing below opens a curve again.

A discount is bounded by the weight it starts from and always fits. A premium may be too much for a
ratio, and that is the only fault of a size whose radicand is an amount.
-/

namespace Leverage

variable {size smaller root scale divisor : Amount}
  {factor weaker weight lighter discounted premium : Ratio}

/-! ## Roots of sizes -/

/-- The square root of ten times a size plus one, floored. -/
def exactRoot (size : Amount) : Int := Nat.sqrt (10 * size.toNat + 1)

theorem exactRoot_nonneg (size : Amount) : 0 ≤ exactRoot size := Int.natCast_nonneg _

theorem exactRoot_le_exactRoot (le : smaller.val ≤ size.val) :
    exactRoot smaller ≤ exactRoot size := by
  have toNatLe : smaller.toNat ≤ size.toNat := Int.toNat_le_toNat le
  exact Int.ofNat_le.2 (Nat.sqrt_le_sqrt (by omega))

theorem exactRoot_lt (fits : 10 * size.val + 1 < 2 ^ 128) : exactRoot size < 2 ^ 64 := by
  rw [Word.val_eq_toNat] at fits
  have radicandLt : 10 * size.toNat + 1 < (2 ^ 64) ^ 2 := by
    norm_num
    omega
  have rootLt := Nat.sqrt_lt'.2 radicandLt
  unfold exactRoot
  exact_mod_cast rootLt

/-- The radicand of a size is never two, so the root of a size is exact. -/
theorem sqrt_radicand {radicand : Amount} (radicandEq : radicand.val = size.val * 10 + 1) :
    radicand.sqrt.val = exactRoot size := by
  have sizeNonneg := Word.unsigned_nonneg size
  have toNatEq : radicand.toNat = 10 * size.toNat + 1 := by
    unfold Word.toNat
    omega
  rw [Word.sqrt_eq (by omega), toNatEq, exactRoot]

theorem sizeRoot_eq_ok_iff :
    sizeRoot size = .ok root ↔ 10 * size.val + 1 < 2 ^ 128 ∧ root.val = exactRoot size := by
  have sizeNonneg := Word.unsigned_nonneg size
  simp only [sizeRoot, Checked.bind_eq_ok_iff, Checked.pure_eq_ok_iff, Word.mul_eq_ok_iff,
    Word.add_eq_ok_iff]
  constructor
  · intro rooted
    rcases rooted with ⟨tenfold, tenfoldEq, radicand, radicandEq, rfl⟩
    change tenfold.val = size.val * 10 at tenfoldEq
    change radicand.val = tenfold.val + 1 at radicandEq
    rw [tenfoldEq] at radicandEq
    have radicandLt : radicand.val < 2 ^ 128 := Word.unsigned_lt radicand
    exact ⟨by omega, sqrt_radicand radicandEq⟩
  · intro exact
    rcases exact with ⟨fits, rootEq⟩
    have tenfoldLt : size.val * (.lit 10 : Amount).val < Int.pow 2 128 := by
      change size.val * 10 < (2 : Int) ^ 128
      omega
    obtain ⟨tenfold, multiplied⟩ := Word.exists_unsigned_mul_eq_ok_iff.2 tenfoldLt
    have tenfoldEq : tenfold.val = size.val * 10 := Word.mul_eq_ok_iff.1 multiplied
    have radicandLt : tenfold.val + (.lit 1 : Amount).val < Int.pow 2 128 := by
      change tenfold.val + 1 < (2 : Int) ^ 128
      omega
    obtain ⟨radicand, added⟩ := Word.exists_unsigned_add_eq_ok_iff.2 radicandLt
    have radicandEq : radicand.val = tenfold.val + 1 := Word.add_eq_ok_iff.1 added
    refine ⟨tenfold, tenfoldEq, radicand, radicandEq, Word.ext ?_⟩
    rw [sqrt_radicand (radicandEq.trans (congrArg (· + 1) tenfoldEq)), rootEq]

theorem exists_sizeRoot (fits : 10 * size.val + 1 < 2 ^ 128) :
    ∃ root, sizeRoot size = .ok root ∧ root.val = exactRoot size := by
  have rootLt : exactRoot size < Int.pow 2 128 := (exactRoot_lt fits).trans (by decide)
  obtain ⟨root, rootEq⟩ : ∃ root : Amount, root.val = exactRoot size :=
    Word.exists_val_eq_iff.2 (Format.unsigned_holds_iff.2 ⟨exactRoot_nonneg size, rootLt⟩)
  exact ⟨root, sizeRoot_eq_ok_iff.2 ⟨fits, rootEq⟩, rootEq⟩

/-! ## The curves over exact integers -/

/-- A little more than one, less with the root and the factor, and at most the weight. -/
def discountCurve (root factor weight : Int) : Int :=
  min weight (11000000000 / (1000000 + root * factor / 100000))

/-- Four fifths of the weight, rounded up, and more with the root and the factor; at least the
weight. -/
def premiumCurve (root factor weight scale : Int) : Int :=
  max weight (weight - weight / 5 + root * factor / (10 ^ 11 / scale))

section Curves

variable {r r' f f' w w' s : Int}

/-- The discount goes down where root and factor go up. -/
theorem discountCurve_le_discountCurve (rootNonneg : 0 ≤ r) (rootLe : r ≤ r')
    (factorNonneg : 0 ≤ f) (factorLe : f ≤ f') :
    discountCurve r' f' w ≤ discountCurve r f w := by
  have productNonneg : 0 ≤ r * f := mul_nonneg rootNonneg factorNonneg
  have productLe : r * f ≤ r' * f' := mul_le_mul rootLe factorLe factorNonneg (by omega)
  have dragNonneg : 0 ≤ r * f / 100000 := Int.ediv_nonneg productNonneg (by decide)
  have dragLe : r * f / 100000 ≤ r' * f' / 100000 := Int.ediv_le_ediv (by decide) productLe
  exact min_le_min_left w (ediv_le_ediv_of_divisor_le (by decide) (by omega) (by omega))

theorem discountCurve_bounds (rootNonneg : 0 ≤ r) (factorNonneg : 0 ≤ f) (weightNonneg : 0 ≤ w) :
    0 ≤ discountCurve r f w ∧ discountCurve r f w ≤ w := by
  have dragNonneg : 0 ≤ r * f / 100000 :=
    Int.ediv_nonneg (mul_nonneg rootNonneg factorNonneg) (by decide)
  exact ⟨le_min weightNonneg (Int.ediv_nonneg (by decide) (by omega)), min_le_left _ _⟩

theorem premiumDivisor_pos (scalePos : 0 < s) (scaleLe : s ≤ 10 ^ 11) :
    0 < (10 : Int) ^ 11 / s :=
  (Int.le_ediv_iff_mul_le scalePos).2 (by rwa [zero_add, one_mul])

/-- The premium goes up with root, factor and weight. -/
theorem premiumCurve_le_premiumCurve (rootNonneg : 0 ≤ r) (rootLe : r ≤ r')
    (factorNonneg : 0 ≤ f) (factorLe : f ≤ f') (weightLe : w ≤ w') (scalePos : 0 < s)
    (scaleLe : s ≤ 10 ^ 11) : premiumCurve r f w s ≤ premiumCurve r' f' w' s := by
  have productLe : r * f ≤ r' * f' := mul_le_mul rootLe factorLe factorNonneg (by omega)
  have partLe : r * f / (10 ^ 11 / s) ≤ r' * f' / (10 ^ 11 / s) :=
    Int.ediv_le_ediv (premiumDivisor_pos scalePos scaleLe) productLe
  unfold premiumCurve
  omega

/-- Premiums of weights at least two units apart are apart. -/
theorem premiumCurve_lt_premiumCurve (apart : w + 2 ≤ w') :
    premiumCurve r f w s < premiumCurve r f w' s := by
  unfold premiumCurve
  omega

/-- Without a factor the premium is the weight. -/
theorem premiumCurve_zero (weightNonneg : 0 ≤ w) : premiumCurve r 0 w s = w := by
  rw [premiumCurve, mul_zero, Int.zero_ediv]
  omega

end Curves

/-! ## The curves of the library -/

/-- The product of a root and a factor is far from the bound of an amount. -/
theorem exists_share (fits : 10 * size.val + 1 < 2 ^ 128) (rootEq : root.val = exactRoot size)
    (factor : Ratio) (nonzero : divisor.val ≠ 0) :
    ∃ share, root.mulDiv factor.widen divisor = .ok share ∧
      share.val = exactRoot size * factor.val / divisor.val ∧ share.val < 2 ^ 96 := by
  have rootNonneg := exactRoot_nonneg size
  have rootLt := exactRoot_lt fits
  have factorNonneg := Word.unsigned_nonneg factor
  have factorLt : factor.val < 2 ^ 32 := Word.unsigned_lt factor
  have productLt : root.val * (factor.widen : Amount).val < 2 ^ 96 := by
    rw [rootEq, val_widen_ratio]
    calc exactRoot size * factor.val ≤ 2 ^ 64 * factor.val := by gcongr
      _ < 2 ^ 64 * 2 ^ 32 := by gcongr
      _ = 2 ^ 96 := by norm_num
  have productFits : root.val * (factor.widen : Amount).val < Int.pow 2 128 :=
    productLt.trans (by decide)
  obtain ⟨share, shared⟩ := Word.exists_unsigned_mulDiv_eq_ok_iff.2 ⟨productFits, nonzero⟩
  have shareEq := (Word.unsigned_mulDiv_eq_ok_iff.1 shared).2.2
  have quotientLe := Int.ediv_le_self divisor.val
    (mul_nonneg (Word.unsigned_nonneg root) (Word.unsigned_nonneg (factor.widen : Amount)))
  refine ⟨share, shared, ?_, ?_⟩
  · rw [shareEq, rootEq, val_widen_ratio]
  · rw [shareEq]
    exact quotientLe.trans_lt productLt

/-- A discount with a factor is the value of the curve, as a ratio. -/
theorem discountedWeight_eq_fit (fits : 10 * size.val + 1 < 2 ^ 128) (on : factor ≠ 0) :
    discountedWeight size factor weight =
      Word.fit _ .castFailure (discountCurve (exactRoot size) factor.val weight.val) := by
  obtain ⟨root, rooted, rootEq⟩ := exists_sizeRoot fits
  have rootScaleNonzero : Scale.sizeRoot.val ≠ 0 := by decide
  obtain ⟨drag, dragged, dragEq, dragLt⟩ := exists_share fits rootEq factor rootScaleNonzero
  have dragNonneg := Word.unsigned_nonneg drag
  have loweredLt : Scale.sizeFactor.val + drag.val < Int.pow 2 128 := by
    change 1000000 + drag.val < (2 : Int) ^ 128
    linarith
  obtain ⟨lowered, added⟩ := Word.exists_unsigned_add_eq_ok_iff.2 loweredLt
  have loweredEq : lowered.val = 1000000 + drag.val := Word.add_eq_ok_iff.1 added
  have loweredNonzero : lowered.val ≠ 0 := by omega
  obtain ⟨part, divided⟩ : ∃ part, discountNumerator.div lowered = .ok part :=
    Word.exists_unsigned_div_eq_ok_iff.2 loweredNonzero
  have partEq : part.val = 11000000000 / lowered.val :=
    (Word.unsigned_div_eq_ok_iff.1 divided).2
  have curveEq : (min part weight.widen).val =
      discountCurve (exactRoot size) factor.val weight.val := by
    rw [Word.val_min, val_widen_ratio, partEq, loweredEq, dragEq, min_comm]
    rfl
  rw [← curveEq, discountedWeight, if_neg on]
  simp only [rooted, dragged, added, divided, bind, Except.bind]
  rfl

theorem discountedWeight_of_no_factor (off : factor = 0) :
    discountedWeight size factor weight = .ok weight := if_pos off

theorem exists_discountedWeight (fits : 10 * size.val + 1 < 2 ^ 128) (on : factor ≠ 0) :
    ∃ discounted, discountedWeight size factor weight = .ok discounted ∧
      discounted.val = discountCurve (exactRoot size) factor.val weight.val := by
  obtain ⟨nonneg, le⟩ := discountCurve_bounds (exactRoot_nonneg size)
    (Word.unsigned_nonneg factor) (Word.unsigned_nonneg weight)
  obtain ⟨discounted, discountedEq⟩ := Word.exists_val_eq_of_le weight nonneg le
  refine ⟨discounted, ?_, discountedEq⟩
  rw [discountedWeight_eq_fit fits on, Word.fit_eq_ok_iff, discountedEq]

/-- A size that has a discount has a root. -/
theorem fits_of_discountedWeight (on : factor ≠ 0)
    (weighed : discountedWeight size factor weight = .ok discounted) :
    10 * size.val + 1 < 2 ^ 128 := by
  rw [discountedWeight, if_neg on, Checked.bind_eq_ok_iff] at weighed
  obtain ⟨root, rooted, -⟩ := weighed
  exact (sizeRoot_eq_ok_iff.1 rooted).1

theorem premiumDivisor_eq_ok_iff :
    premiumDivisor scale = .ok divisor ↔
      scale.val ≠ 0 ∧ divisor.val = 10 ^ 11 / scale.val := by
  have productFits : Scale.sizeRoot.val * Scale.sizeFactor.val < Int.pow 2 128 := by decide
  rw [premiumDivisor, Word.unsigned_mulDiv_eq_ok_iff, and_iff_right productFits]
  exact Iff.rfl

theorem exists_premiumDivisor (scalePos : 0 < scale.val) (scaleLe : scale.val ≤ 10 ^ 11) :
    ∃ divisor, premiumDivisor scale = .ok divisor ∧ divisor.val = 10 ^ 11 / scale.val := by
  obtain ⟨divisor, divisorEq⟩ : ∃ divisor : Amount, divisor.val = 10 ^ 11 / scale.val :=
    Word.exists_val_eq_of_le (.lit 100000000000) (premiumDivisor_pos scalePos scaleLe).le
      (Int.ediv_le_self _ (by decide))
  exact ⟨divisor, premiumDivisor_eq_ok_iff.2 ⟨scalePos.ne', divisorEq⟩, divisorEq⟩

/-- The four fifths of a weight from which a premium starts. -/
theorem exists_premiumStart (weight : Ratio) :
    ∃ fifth start : Amount, (weight.widen : Amount).div (.lit 5) = .ok fifth ∧
      (weight.widen : Amount).sub fifth = .ok start ∧
      start.val = weight.val - weight.val / 5 := by
  have weightNonneg := Word.unsigned_nonneg weight
  have fiveNonzero : (.lit 5 : Amount).val ≠ 0 := by decide
  obtain ⟨fifth, divided⟩ : ∃ fifth, (weight.widen : Amount).div (.lit 5) = .ok fifth :=
    Word.exists_unsigned_div_eq_ok_iff.2 fiveNonzero
  have fifthEq : fifth.val = weight.val / 5 := (Word.unsigned_div_eq_ok_iff.1 divided).2
  have fifthLe : fifth.val ≤ (weight.widen : Amount).val := by
    rw [val_widen_ratio]
    omega
  obtain ⟨start, started⟩ := Word.exists_unsigned_sub_eq_ok_iff.2 fifthLe
  refine ⟨fifth, start, divided, started, ?_⟩
  rw [Word.sub_eq_ok_iff.1 started, val_widen_ratio, fifthEq]

theorem premiumWeight_of_no_factor (off : factor = 0) :
    premiumWeight size factor weight scale = .ok weight := if_pos off

/-- A premium is the value of the curve, as a ratio. -/
theorem premiumWeight_eq_fit (fits : 10 * size.val + 1 < 2 ^ 128) (scalePos : 0 < scale.val)
    (scaleLe : scale.val ≤ 10 ^ 11) :
    premiumWeight size factor weight scale =
      Word.fit _ .castFailure
        (premiumCurve (exactRoot size) factor.val weight.val scale.val) := by
  have weightNonneg := Word.unsigned_nonneg weight
  -- Without a factor no root is taken; the value of the curve is the weight there as well, which is
  -- not so of a discount.
  by_cases off : factor = 0
  · rw [premiumWeight_of_no_factor off, off, Word.val_zero, premiumCurve_zero weightNonneg]
    exact (Word.fit_eq_ok_iff.2 rfl).symm
  obtain ⟨root, rooted, rootEq⟩ := exists_sizeRoot fits
  obtain ⟨fifth, start, divided, started, startEq⟩ := exists_premiumStart weight
  obtain ⟨divisor, divisorOf, divisorEq⟩ := exists_premiumDivisor scalePos scaleLe
  have divisorNonzero : divisor.val ≠ 0 := by
    rw [divisorEq]
    exact (premiumDivisor_pos scalePos scaleLe).ne'
  obtain ⟨share, shared, shareEq, shareLt⟩ := exists_share fits rootEq factor divisorNonzero
  have raisedLt : start.val + share.val < Int.pow 2 128 := by
    have weightLt : weight.val < 2 ^ 32 := Word.unsigned_lt weight
    have startLe : start.val ≤ weight.val := by omega
    change _ < (2 : Int) ^ 128
    linarith
  obtain ⟨raised, added⟩ := Word.exists_unsigned_add_eq_ok_iff.2 raisedLt
  have curveEq : (max raised weight.widen).val =
      premiumCurve (exactRoot size) factor.val weight.val scale.val := by
    rw [Word.val_max, val_widen_ratio, Word.add_eq_ok_iff.1 added, startEq, shareEq, divisorEq,
      max_comm]
    rfl
  rw [← curveEq, premiumWeight, if_neg off]
  simp only [rooted, divided, started, divisorOf, shared, added, bind, Except.bind]
  rfl

theorem premiumWeight_eq_ok_iff :
    premiumWeight size factor weight scale = .ok premium ↔
      (factor ≠ 0 → 10 * size.val + 1 < 2 ^ 128 ∧ 0 < scale.val ∧ scale.val ≤ 10 ^ 11) ∧
        premium.val = premiumCurve (exactRoot size) factor.val weight.val scale.val := by
  by_cases off : factor = 0
  · rw [premiumWeight_of_no_factor off, off, Word.val_zero,
      premiumCurve_zero (Word.unsigned_nonneg weight), Except.ok.injEq, Word.ext_iff,
      and_iff_right fun on => absurd rfl on]
    exact eq_comm
  constructor
  · intro weighed
    have run := weighed
    rw [premiumWeight, if_neg off] at run
    simp only [Checked.bind_eq_ok_iff] at run
    obtain ⟨root, rooted, fifth, -, start, -, divisor, divisorOf, share, shared, -⟩ := run
    obtain ⟨fits, -⟩ := sizeRoot_eq_ok_iff.1 rooted
    obtain ⟨scaleNonzero, divisorEq⟩ := premiumDivisor_eq_ok_iff.1 divisorOf
    obtain ⟨-, divisorNonzero, -⟩ := Word.unsigned_mulDiv_eq_ok_iff.1 shared
    have scalePos := Word.unsigned_pos scaleNonzero
    have scaleLe : scale.val ≤ 10 ^ 11 := by
      by_contra tooFine
      exact divisorNonzero (divisorEq.trans (Int.ediv_eq_zero_of_lt (by decide) (not_le.1 tooFine)))
    rw [premiumWeight_eq_fit fits scalePos scaleLe, Word.fit_eq_ok_iff] at weighed
    exact ⟨fun _ => ⟨fits, scalePos, scaleLe⟩, weighed⟩
  · intro exact
    obtain ⟨fits, scalePos, scaleLe⟩ := exact.1 off
    rw [premiumWeight_eq_fit fits scalePos scaleLe, Word.fit_eq_ok_iff]
    exact exact.2

/-! ## Order -/

theorem discountedWeight_le (weighed : discountedWeight size factor weight = .ok discounted) :
    discounted.val ≤ weight.val := by
  by_cases off : factor = 0
  · rw [discountedWeight_of_no_factor off, Except.ok.injEq] at weighed
    rw [weighed]
  · have fits := fits_of_discountedWeight off weighed
    rw [discountedWeight_eq_fit fits off, Word.fit_eq_ok_iff] at weighed
    rw [weighed]
    exact min_le_left _ _

theorem ne_zero_of_weaker (factorLe : weaker.val ≤ factor.val) (on : weaker ≠ 0) : factor ≠ 0 := by
  have weakerNonneg := Word.unsigned_nonneg weaker
  rw [ne_eq, Word.eq_zero_iff] at on ⊢
  omega

/-- Where there is a discount, there is one for a smaller size and a smaller factor, and the weight is
no less. -/
theorem exists_discountedWeight_ge (sizeLe : smaller.val ≤ size.val)
    (factorLe : weaker.val ≤ factor.val)
    (weighed : discountedWeight size factor weight = .ok discounted) :
    ∃ more, discountedWeight smaller weaker weight = .ok more ∧ discounted.val ≤ more.val := by
  by_cases off : weaker = 0
  · exact ⟨weight, discountedWeight_of_no_factor off, discountedWeight_le weighed⟩
  · have on := ne_zero_of_weaker factorLe off
    have fits := fits_of_discountedWeight on weighed
    obtain ⟨more, weighedMore, moreEq⟩ :
        ∃ more, discountedWeight smaller weaker weight = .ok more ∧
          more.val = discountCurve (exactRoot smaller) weaker.val weight.val :=
      exists_discountedWeight (by omega) off
    rw [discountedWeight_eq_fit fits on, Word.fit_eq_ok_iff] at weighed
    refine ⟨more, weighedMore, ?_⟩
    rw [weighed, moreEq]
    exact discountCurve_le_discountCurve (exactRoot_nonneg smaller) (exactRoot_le_exactRoot sizeLe)
      (Word.unsigned_nonneg weaker) factorLe

/-- Where there is a discount, there is one for a larger weight, and it leaves no less of it. -/
theorem exists_discountedWeight_ge_of_weight (weightLe : lighter.val ≤ weight.val)
    (weighed : discountedWeight size factor lighter = .ok discounted) :
    ∃ more, discountedWeight size factor weight = .ok more ∧ discounted.val ≤ more.val := by
  by_cases off : factor = 0
  · exact ⟨weight, discountedWeight_of_no_factor off, (discountedWeight_le weighed).trans weightLe⟩
  · have fits := fits_of_discountedWeight off weighed
    obtain ⟨more, weighedMore, moreEq⟩ :
        ∃ more, discountedWeight size factor weight = .ok more ∧
          more.val = discountCurve (exactRoot size) factor.val weight.val :=
      exists_discountedWeight fits off
    rw [discountedWeight_eq_fit fits off, Word.fit_eq_ok_iff] at weighed
    refine ⟨more, weighedMore, ?_⟩
    rw [weighed, moreEq]
    exact min_le_min_right _ weightLe

theorem le_premiumWeight (weighed : premiumWeight size factor weight scale = .ok premium) :
    weight.val ≤ premium.val := by
  rw [(premiumWeight_eq_ok_iff.1 weighed).2]
  exact le_max_left _ _

/-- Where there is a premium, there is one for a smaller size, a smaller factor and a smaller weight,
and it is no more. -/
theorem exists_premiumWeight_le (sizeLe : smaller.val ≤ size.val)
    (factorLe : weaker.val ≤ factor.val) (weightLe : lighter.val ≤ weight.val)
    (weighed : premiumWeight size factor weight scale = .ok premium) :
    ∃ less, premiumWeight smaller weaker lighter scale = .ok less ∧ less.val ≤ premium.val := by
  have lighterNonneg := Word.unsigned_nonneg lighter
  obtain ⟨needs, premiumEq⟩ := premiumWeight_eq_ok_iff.1 weighed
  by_cases off : weaker = 0
  · exact ⟨lighter, premiumWeight_of_no_factor off, weightLe.trans (le_premiumWeight weighed)⟩
  · obtain ⟨fits, scalePos, scaleLe⟩ := needs (ne_zero_of_weaker factorLe off)
    have curveLe := premiumCurve_le_premiumCurve (exactRoot_nonneg smaller)
      (exactRoot_le_exactRoot sizeLe) (Word.unsigned_nonneg weaker) factorLe weightLe scalePos scaleLe
    rw [← premiumEq] at curveLe
    obtain ⟨less, lessEq⟩ := Word.exists_val_eq_of_le premium
      (lighterNonneg.trans (le_max_left _ _)) curveLe
    exact ⟨less, premiumWeight_eq_ok_iff.2 ⟨fun _ => ⟨by omega, scalePos, scaleLe⟩, lessEq⟩,
      lessEq.trans_le curveLe⟩

/-- Both curves in closed form for a size whose radicand is an amount and a factor that is not zero.
There is always a discount; there is a premium where its value is a ratio, and a cast failure is the
only other outcome. More of either, size or factor, makes the discounted weight no larger and the
premium no smaller. -/
theorem sizeCurves_closed (weight : Ratio) (fits : 10 * size.val + 1 < 2 ^ 128) (on : factor ≠ 0) :
    (∃ discounted, discountedWeight size factor weight = .ok discounted ∧
      discounted.val =
        min weight.val (11000000000 / (1000000 + exactRoot size * factor.val / 100000))) ∧
    (∀ scale : Amount, 1 ≤ scale.val → scale.val ≤ 10 ^ 11 →
      premiumWeight size factor weight scale =
        Word.fit (.unsigned 32) .castFailure
          (max weight.val (weight.val - weight.val / 5 +
            exactRoot size * factor.val / (10 ^ 11 / scale.val)))) ∧
    ∀ smaller weaker, smaller ≤ size → weaker ≤ factor →
      (∀ discounted, discountedWeight size factor weight = .ok discounted →
        ∃ more, discountedWeight smaller weaker weight = .ok more ∧ discounted ≤ more) ∧
      ∀ scale premium, premiumWeight size factor weight scale = .ok premium →
        ∃ less, premiumWeight smaller weaker weight scale = .ok less ∧ less ≤ premium := by
  refine ⟨exists_discountedWeight fits on, ?_, ?_⟩
  · intro scale scalePos scaleLe
    exact premiumWeight_eq_fit fits scalePos scaleLe
  · intro smaller weaker sizeLe factorLe
    constructor
    · intro discounted weighed
      exact exists_discountedWeight_ge sizeLe factorLe weighed
    · intro scale premium weighed
      exact exists_premiumWeight_le sizeLe factorLe le_rfl weighed

/-- Ten million whole units, on `Scale.reserve`. -/
def whale : Amount := .lit 100000000000000000000

theorem exactRoot_whale : exactRoot whale = 31622776601 := by decide +kernel

/-- A weight of twelve tenths falls to almost nothing or rises to more than three hundred. On the
finest scale the premium is too much for a ratio. -/
theorem sizeCurves_closed_of_whale :
    10 * whale.val + 1 < 2 ^ 128 ∧ (.lit 1000 : Ratio) ≠ 0 ∧
      (∃ discounted, discountedWeight whale (.lit 1000) (.lit 12000) = .ok discounted ∧
        discounted.val = 34) ∧
      premiumWeight whale (.lit 1000) (.lit 12000) Scale.weight = .ok (.lit 3171877) ∧
      premiumWeight whale (.lit 1000) (.lit 12000) (.lit 100000000000) = .error .castFailure ∧
      ∃ less, premiumWeight (.lit 5000000000000) (.lit 999) (.lit 12000) Scale.weight = .ok less ∧
        less ≤ .lit 3171877 := by
  have fits : 10 * whale.val + 1 < 2 ^ 128 := by decide
  have on : (.lit 1000 : Ratio) ≠ 0 := by decide
  obtain ⟨discounts, premiums, ordered⟩ := sizeCurves_closed (.lit 12000) fits on
  rw [exactRoot_whale] at discounts premiums
  have raised : premiumWeight whale (.lit 1000) (.lit 12000) Scale.weight = .ok (.lit 3171877) :=
    premiums Scale.weight (by decide) (by decide)
  exact ⟨fits, on, discounts, raised, premiums (.lit 100000000000) (by decide) (by decide),
    (ordered _ _ (by decide) (by decide)).2 _ _ raised⟩

end Leverage
