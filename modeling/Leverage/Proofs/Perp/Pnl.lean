import Leverage.Perp.Pnl
import Mathlib.Tactic.Linarith

/-!
# Gains and the value of positions

What all users hold in base is valued in two ways: with its sign and divided by one scale after the
other, as a part of their gains, and without sign and divided once by the product of the two scales.
`netPnl_eq_ok_iff` and `basePositionValue_eq_ok_iff` open the two. Truncated quotients compose, and
the value without sign has the wider format, so gains are what is held in quote plus or minus that
value: `netPnl_eq_positionValue`.
-/

namespace Leverage

/-! ## Truncated quotients -/

theorem sign_mul_tdiv_left (a n b : Int) : (a.sign * n).tdiv b = a.sign * n.tdiv b := by
  rcases Int.sign_trichotomy a with positive | zero | negative
  · rw [positive, one_mul, one_mul]
  · rw [zero, zero_mul, zero_mul, Int.zero_tdiv]
  · rw [negative, neg_one_mul, neg_one_mul, Int.neg_tdiv]

/-- A truncated quotient is the floor of the size of its dividend, with the sign of its dividend. -/
theorem tdiv_eq_sign_mul (a b : Int) : a.tdiv b = a.sign * ((a.natAbs : Int) / b) := by
  rw [← Int.tdiv_eq_ediv_of_nonneg (Int.natCast_nonneg a.natAbs), ← sign_mul_tdiv_left,
    Int.sign_mul_natAbs]

/-- Two truncations, one after the other, come to one. -/
theorem tdiv_tdiv (a c : Int) {b : Int} (nonneg : 0 ≤ b) : (a.tdiv b).tdiv c = a.tdiv (b * c) := by
  have floorNonneg : 0 ≤ (a.natAbs : Int) / b := Int.ediv_nonneg (Int.natCast_nonneg _) nonneg
  rw [tdiv_eq_sign_mul a b, sign_mul_tdiv_left, Int.tdiv_eq_ediv_of_nonneg floorNonneg,
    Int.ediv_ediv_of_nonneg nonneg, ← tdiv_eq_sign_mul]

theorem sign_eq_one_or_neg_one {a : Int} (nonzero : a ≠ 0) : a.sign = 1 ∨ a.sign = -1 := by
  rcases lt_or_gt_of_ne nonzero with negative | positive
  · exact Or.inr (Int.sign_eq_neg_one_of_neg negative)
  · exact Or.inl (Int.sign_eq_one_of_pos positive)

/-- A product that is not zero is positive where its factors have one sign. -/
theorem sign_mul_eq_ite {a b : Int} (nonzero : a * b ≠ 0) :
    (a * b).sign = if a.sign = b.sign then 1 else -1 := by
  rw [Int.sign_mul]
  rcases sign_eq_one_or_neg_one (left_ne_zero_of_mul nonzero) with aSign | aSign <;>
    rcases sign_eq_one_or_neg_one (right_ne_zero_of_mul nonzero) with bSign | bSign <;>
    rw [aSign, bSign] <;> rfl

/-- A format that holds an integer holds its quotients. -/
theorem Format.Holds.tdiv {f : Format} {v d : Int} (held : f.Holds v) (pos : 0 < d) :
    f.Holds (v.tdiv d) := by
  have zeroHeld := f.holds_zero
  have sizeLe := Int.natAbs_tdiv_le_natAbs v d
  rcases le_total 0 v with nonneg | nonpos
  · have quotientNonneg := Int.tdiv_nonneg nonneg pos.le
    have quotientLe : v.tdiv d ≤ v := by omega
    exact ⟨zeroHeld.1.trans quotientNonneg, quotientLe.trans_lt held.2⟩
  · have quotientNonpos : v.tdiv d ≤ 0 := by
      rw [← Int.zero_tdiv d]
      exact Int.tdiv_le_tdiv pos nonpos
    have leQuotient : v ≤ v.tdiv d := by omega
    exact ⟨held.1.trans leQuotient, quotientNonpos.trans_lt zeroHeld.2⟩

/-! ## The value of a position -/

variable {base price : SignedAmount} {value : Amount}

theorem basePositionValue_eq_ok_iff :
    basePositionValue base price = .ok value ↔
      ((base.val * price.val).natAbs : Int) < 2 ^ 128 ∧
        value.val = (base.val * price.val).natAbs / Scale.pricedReserveToQuote.val := by
  have scaleNonzero : Scale.pricedReserveToQuote.val ≠ 0 := by decide
  rw [basePositionValue, Word.unsigned_mulDiv_eq_ok_iff, and_iff_right scaleNonzero,
    Word.val_magnitude, Word.val_magnitude, Int.natAbs_mul, Nat.cast_mul]
  exact Iff.rfl

/-- A product that has a sign has a value without it, the least signed one included. -/
theorem exists_basePositionValue (held : (Format.signed 128).Holds (base.val * price.val)) :
    ∃ value, basePositionValue base price = .ok value := by
  have scaleNonzero : Scale.pricedReserveToQuote.val ≠ 0 := by decide
  have fits := Word.natAbs_lt_of_holds held
  rw [Int.natAbs_mul, Nat.cast_mul] at fits
  exact Word.exists_unsigned_mulDiv_eq_ok_iff.2 ⟨fits, scaleNonzero⟩

/-! ## Gains -/

namespace PerpMarket

variable {market : PerpMarket} {oracle : OracleReading} {gains : SignedAmount}

theorem netPnl_eq_ok_iff :
    market.netPnl oracle = .ok gains ↔
      (Format.signed 128).Holds (market.maker.netBase.val * oracle.price.val) ∧
        gains.val = (market.maker.netBase.val * oracle.price.val).tdiv
          Scale.pricedReserveToQuote.val + market.maker.netQuote.val := by
  have scalesEq : (signedScale Scale.base).val * (signedScale Scale.priceToQuote).val =
    Scale.pricedReserveToQuote.val := by decide
  have basePos : 0 < (signedScale Scale.base).val := by decide
  have quotePos : 0 < (signedScale Scale.priceToQuote).val := by decide
  simp only [netPnl, Checked.bind_eq_ok_iff, Word.mulDiv_eq_ok_iff, Word.div_eq_ok_iff,
    Word.add_eq_ok_iff]
  rw [← scalesEq, ← tdiv_tdiv _ _ basePos.le]
  constructor
  · rintro ⟨priced, ⟨held, -, pricedEq⟩, value, ⟨-, valueEq⟩, gainsEq⟩
    rw [gainsEq, valueEq, pricedEq]
    exact ⟨held, rfl⟩
  · rintro ⟨held, gainsEq⟩
    have pricedHeld := held.tdiv basePos
    exact ⟨.ofHolds _ pricedHeld, ⟨held, basePos.ne', rfl⟩,
      .ofHolds _ (pricedHeld.tdiv quotePos), ⟨quotePos.ne', rfl⟩, gainsEq⟩

/-- Where all users together have gains, what they hold in base has a value without sign. Their gains
are what they hold in quote plus that value where base and price have the same sign, and minus it
otherwise. -/
theorem netPnl_eq_positionValue (gained : market.netPnl oracle = .ok gains) :
    ∃ value, basePositionValue market.maker.netBase oracle.price = .ok value ∧
      gains.val = market.maker.netQuote.val +
        if market.maker.netBase.val.sign = oracle.price.val.sign then value.val
        else -value.val := by
  obtain ⟨held, gainsEq⟩ := netPnl_eq_ok_iff.1 gained
  obtain ⟨value, valued⟩ := exists_basePositionValue held
  have valueEq := (basePositionValue_eq_ok_iff.1 valued).2
  refine ⟨value, valued, ?_⟩
  rw [gainsEq, tdiv_eq_sign_mul, ← valueEq, add_comm]
  by_cases nothing : market.maker.netBase.val * oracle.price.val = 0
  · -- Nothing is worth nothing, whichever sign is asked for.
    have worthless : value.val = 0 := by
      rw [valueEq, nothing]
      rfl
    rw [worthless, mul_zero, neg_zero, ite_self]
  · rw [sign_mul_eq_ite nothing, ite_mul, one_mul, neg_one_mul]

/-- A market whose users are short by as much base as a word can say. -/
def shortMarket : PerpMarket where
  maker := { netBase := .lit (-170141183460469231731687303715884105728), netQuote := .lit 5 }

def leastReading : OracleReading where
  price := .lit 1

/-- The least signed product has a value without sign too. -/
theorem netPnl_eq_positionValue_of_shortMarket :
    shortMarket.netPnl leastReading = .ok (.lit (-1701411834604692317311)) ∧
      basePositionValue shortMarket.maker.netBase leastReading.price =
        .ok (.lit 1701411834604692317316) ∧
      (.lit (-1701411834604692317311) : SignedAmount).val =
        shortMarket.maker.netQuote.val + -(.lit 1701411834604692317316 : Amount).val := by
  have gained : shortMarket.netPnl leastReading = .ok (.lit (-1701411834604692317311)) := rfl
  have worth : basePositionValue shortMarket.maker.netBase leastReading.price =
      .ok (.lit 1701411834604692317316) := rfl
  have apart : ¬ shortMarket.maker.netBase.val.sign = leastReading.price.val.sign := by decide
  obtain ⟨value, valued, gainsEq⟩ := netPnl_eq_positionValue gained
  obtain rfl := Except.ok.inj (valued.symm.trans worth)
  rw [if_neg apart] at gainsEq
  exact ⟨gained, worth, gainsEq⟩

end PerpMarket

end Leverage
