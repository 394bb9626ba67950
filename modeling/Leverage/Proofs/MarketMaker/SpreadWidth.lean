import Leverage.MarketMaker.Spread
import Mathlib.Algebra.Order.Ring.Abs
import Mathlib.Tactic.Linarith
import Mathlib.Tactic.Ring

/-!
# The width of a spread

`spread_get_eq` says how wide each side of a spread is. One side is widened by the gap between the
price and the oracle's and by the oracle's doubt, and then both are scaled down to the bound on their
sum. Scaled widths are floored one by one, which costs no more than one part of the sum and leaves the
wider side the wider one: `spread_bounded`.

The side that is widened is told from the truncated gap. A price that is below the oracle's by less
than one part of `Scale.spread` has no gap and counts as one above. Then the doubt goes to the wrong
side, which makes a difference where it is more than half of the base spread: `spread_widened_iff`.
-/

namespace Leverage

/-- A truncated quotient is the floored one but for its sign. -/
theorem abs_tdiv (a b : Int) : |a.tdiv b| = |a| / |b| := by
  rw [← Int.natCast_natAbs, Int.natAbs_tdiv, ← Int.natCast_natAbs a, ← Int.natCast_natAbs b]
  exact Int.natCast_ediv _ _

/-- A truncated quotient has the sign of its dividend or is zero. -/
theorem tdiv_neg_iff {a b : Int} (pos : 0 < b) : a.tdiv b < 0 ↔ a < 0 ∧ a.tdiv b ≠ 0 := by
  constructor
  · intro negative
    refine ⟨?_, negative.ne⟩
    by_contra notNegative
    exact absurd negative (not_lt.2 (Int.tdiv_nonneg (not_lt.1 notNegative) pos.le))
  · rintro ⟨negative, nonzero⟩
    have notPositive := Int.tdiv_le_tdiv pos negative.le
    rw [Int.zero_tdiv] at notPositive
    exact lt_of_le_of_ne notPositive nonzero

theorem ByDirection.get_ite {α : Type} {p : Prop} [Decidable p] (wide narrow : α)
    (direction : Direction) :
    (if p then (⟨wide, narrow⟩ : ByDirection α) else ⟨narrow, wide⟩).get direction =
      if direction = (if p then .long else .short) then wide else narrow := by
  split
  · cases direction with
    | long => rfl
    | short => rfl
  · cases direction with
    | long => rfl
    | short => rfl

namespace MarketMaker

variable {maker : MarketMaker} {reading : OracleReading} {price bound doubt : Amount}
  {sides capped : ByDirection Amount}

/-! ## Widths before the bound -/

/-- How far a price stands from the oracle's, as a part of itself on `Scale.spread`. -/
def gapWidth (reading : OracleReading) (price : Amount) : Int :=
  |price.val - reading.price.val| * Scale.spread.val / price.val

/-- The oracle's doubt as a part of a price, on `Scale.spread`. -/
def doubtWidth (reading : OracleReading) (price : Amount) : Int :=
  reading.confidence.val * Scale.spread.val / price.val

/-- The width of a side that is not widened. -/
def halfWidth (maker : MarketMaker) : Int := maker.baseSpread.val / 2

/-- The width of the side that is widened. -/
def widenedWidth (maker : MarketMaker) (reading : OracleReading) (price : Amount) : Int :=
  max maker.halfWidth (gapWidth reading price + doubtWidth reading price)

/-- The side of buyers where the price is below the oracle's by one part of the scale or more, and
that of sellers everywhere else. -/
def widenedSide (reading : OracleReading) (price : Amount) : Direction :=
  if price.val < reading.price.val ∧ gapWidth reading price ≠ 0 then .long else .short

/-- The width of a side before both are scaled down. -/
def sideWidth (maker : MarketMaker) (reading : OracleReading) (price : Amount)
    (direction : Direction) : Int :=
  if direction = widenedSide reading price then maker.widenedWidth reading price else maker.halfWidth

def totalWidth (maker : MarketMaker) (reading : OracleReading) (price : Amount) : Int :=
  maker.sideWidth reading price .long + maker.sideWidth reading price .short

theorem halfWidth_le_sideWidth (maker : MarketMaker) (reading : OracleReading) (price : Amount)
    (direction : Direction) : maker.halfWidth ≤ maker.sideWidth reading price direction := by
  unfold sideWidth
  split
  · exact le_max_left _ _
  · exact le_rfl

/-- The gap is negative exactly where the price is below the oracle's and the quotient is not zero. -/
theorem oracleGap_cases {gap : SignedAmount} (measured : oracleGap price reading = .ok gap) :
    |gap.val| = gapWidth reading price ∧
      (gap < 0 ↔ price.val < reading.price.val ∧ gapWidth reading price ≠ 0) := by
  simp only [oracleGap, Checked.bind_eq_ok_iff, Word.cast_eq_ok_iff, Word.sub_eq_ok_iff,
    Word.mulDiv_eq_ok_iff] at measured
  obtain ⟨own, ownEq, difference, differenceEq, -, nonzero, gapEq⟩ := measured
  rw [ownEq] at nonzero differenceEq gapEq
  rw [differenceEq] at gapEq
  change gap.val = ((price.val - reading.price.val) * Scale.spread.val).tdiv price.val at gapEq
  have pricePos := Word.unsigned_pos nonzero
  have widthEq : |gap.val| = gapWidth reading price := by
    rw [gapEq, abs_tdiv, abs_mul, abs_of_pos Scale.spread_pos, abs_of_pos pricePos, gapWidth]
  have belowIff : (price.val - reading.price.val) * Scale.spread.val < 0 ↔
      price.val < reading.price.val := by
    change (price.val - reading.price.val) * 1000000 < 0 ↔ _
    omega
  refine ⟨widthEq, ?_⟩
  rw [Word.lt_iff, Word.val_zero, gapEq, tdiv_neg_iff pricePos, ← gapEq, belowIff, ← widthEq,
    abs_ne_zero]

theorem oracleDoubt_eq (measured : oracleDoubt price reading = .ok doubt) :
    doubt.val = doubtWidth reading price :=
  (Word.unsigned_mulDiv_eq_ok_iff.1 measured).2.2

/-! ## The bound -/

/-- A width of a total, scaled down where the total is beyond a bound. -/
def scaledWidth (bound total width : Int) : Int :=
  if bound < total then width * bound / total else width

theorem scaledWidth_of_le {bound total : Int} (within : total ≤ bound) (width : Int) :
    scaledWidth bound total width = width :=
  if_neg (not_lt.2 within)

theorem scaledWidth_le_scaledWidth {bound narrow wide : Int} (boundNonneg : 0 ≤ bound)
    (total : Int) (le : narrow ≤ wide) :
    scaledWidth bound total narrow ≤ scaledWidth bound total wide := by
  unfold scaledWidth
  split
  · next beyond =>
    exact Int.ediv_le_ediv (boundNonneg.trans_lt beyond) (mul_le_mul_of_nonneg_right le boundNonneg)
  · exact le

/-- The exact shares of two widths come to the bound, and their floors to one less where they are not
whole. -/
theorem scaledWidth_add_scaledWidth {bound first second : Int} (boundNonneg : 0 ≤ bound)
    (beyond : bound < first + second) :
    scaledWidth bound (first + second) first + scaledWidth bound (first + second) second = bound ∨
      scaledWidth bound (first + second) first + scaledWidth bound (first + second) second =
        bound - 1 := by
  have totalPos : 0 < first + second := boundNonneg.trans_lt beyond
  have shares := add_ediv_of_pos (a := first * bound) (b := second * bound) totalPos
  rw [← add_mul, Int.mul_ediv_cancel_left _ totalPos.ne'] at shares
  rw [scaledWidth, scaledWidth, if_pos beyond, if_pos beyond]
  split at shares
  · exact Or.inr (by omega)
  · exact Or.inl (by omega)

theorem capSpread_get_eq (within : capSpread sides bound = .ok capped) (direction : Direction) :
    (capped.get direction).val =
      scaledWidth bound.val (sides.long.val + sides.short.val) (sides.get direction).val := by
  rw [capSpread, Checked.bind_eq_ok_iff] at within
  obtain ⟨total, totalEq, within⟩ := within
  rw [Word.add_eq_ok_iff] at totalEq
  rw [← totalEq, scaledWidth]
  split at within
  · next beyond =>
    rw [if_pos (Word.lt_iff.1 beyond)]
    simp only [Checked.bind_eq_ok_iff, Checked.pure_eq_ok_iff,
      Word.unsigned_mulDiv_eq_ok_iff] at within
    obtain ⟨long, ⟨-, -, longEq⟩, short, ⟨-, -, shortEq⟩, rfl⟩ := within
    cases direction with
    | long => exact longEq
    | short => exact shortEq
  · next notBeyond =>
    rw [Checked.pure_eq_ok_iff] at within
    rw [if_neg (mt Word.lt_iff.2 notBeyond), within]

/-- Each side of a spread is one of the two widths, scaled down to the bound on both. -/
theorem spread_get_eq (quoted : maker.spread reading price = .ok sides) (direction : Direction) :
    (sides.get direction).val =
      scaledWidth maker.maxSpread.val (maker.totalWidth reading price)
        (maker.sideWidth reading price direction) := by
  simp only [spread, Checked.bind_eq_ok_iff, Word.unsigned_div_eq_ok_iff] at quoted
  obtain ⟨half, ⟨-, halfEq⟩, gap, measured, doubt, doubted, widened, added, within⟩ := quoted
  obtain ⟨gapEq, negativeIff⟩ := oracleGap_cases measured
  change half.val = maker.halfWidth at halfEq
  have widenedEq : max half.val widened.val = maker.widenedWidth reading price := by
    rw [Word.add_eq_ok_iff, Word.val_magnitude, Int.natCast_natAbs, gapEq,
      oracleDoubt_eq doubted] at added
    rw [halfEq, added, widenedWidth]
  have sideEq : (if gap < 0 then Direction.long else .short) = widenedSide reading price :=
    if_congr negativeIff rfl rfl
  have widths : ∀ side,
      ((if gap < 0 then (⟨max half widened, half⟩ : ByDirection Amount)
        else ⟨half, max half widened⟩).get side).val = maker.sideWidth reading price side := by
    intro side
    rw [ByDirection.get_ite, sideEq, apply_ite Word.val, Word.val_max, widenedEq, halfEq, sideWidth]
  rw [capSpread_get_eq within, widths direction, totalWidth, ← widths .long, ← widths .short]
  rfl

section Quoted

variable (quoted : maker.spread reading price = .ok sides)

include quoted

theorem spread_get_of_le (within : maker.totalWidth reading price ≤ maker.maxSpread.val)
    (direction : Direction) :
    (sides.get direction).val = maker.sideWidth reading price direction := by
  rw [spread_get_eq quoted, scaledWidth_of_le within]

theorem spread_total_of_le (within : maker.totalWidth reading price ≤ maker.maxSpread.val) :
    sides.long.val + sides.short.val = maker.totalWidth reading price :=
  congrArg₂ (· + ·) (spread_get_of_le quoted within .long) (spread_get_of_le quoted within .short)

theorem spread_total_of_lt (beyond : maker.maxSpread.val < maker.totalWidth reading price) :
    sides.long.val + sides.short.val = maker.maxSpread.val ∨
      sides.long.val + sides.short.val = maker.maxSpread.val - 1 := by
  have longEq : sides.long.val = _ := spread_get_eq quoted .long
  have shortEq : sides.short.val = _ := spread_get_eq quoted .short
  rw [longEq, shortEq]
  exact scaledWidth_add_scaledWidth (Word.unsigned_nonneg maker.maxSpread) beyond

theorem spread_get_le_get {narrow wide : Direction}
    (le : maker.sideWidth reading price narrow ≤ maker.sideWidth reading price wide) :
    (sides.get narrow).val ≤ (sides.get wide).val := by
  rw [spread_get_eq quoted, spread_get_eq quoted]
  exact scaledWidth_le_scaledWidth (Word.unsigned_nonneg maker.maxSpread) _ le

end Quoted

/-- A spread is never wider than its bound. Where it would be, it is scaled down to the bound, less at
most one part, and no side comes to be wider than one that was at least as wide. Otherwise both sides
stay as they are, and neither is narrower than half of the base spread. -/
theorem spread_bounded (quoted : maker.spread reading price = .ok sides) :
    sides.long.val + sides.short.val ≤ maker.maxSpread.val ∧
      (maker.maxSpread.val < maker.totalWidth reading price →
        (sides.long.val + sides.short.val = maker.maxSpread.val ∨
          sides.long.val + sides.short.val = maker.maxSpread.val - 1) ∧
        ∀ narrow wide, maker.sideWidth reading price narrow ≤ maker.sideWidth reading price wide →
          (sides.get narrow).val ≤ (sides.get wide).val) ∧
      (maker.totalWidth reading price ≤ maker.maxSpread.val →
        ∀ direction, (sides.get direction).val = maker.sideWidth reading price direction ∧
          maker.baseSpread.val / 2 ≤ (sides.get direction).val) := by
  refine ⟨?_, fun beyond => ⟨spread_total_of_lt quoted beyond, ?_⟩, ?_⟩
  · rcases lt_or_ge maker.maxSpread.val (maker.totalWidth reading price) with beyond | within
    · rcases spread_total_of_lt quoted beyond with whole | short
      · exact whole.le
      · exact short.le.trans (Int.sub_le_self _ zero_le_one)
    · exact (spread_total_of_le quoted within).le.trans within
  · intro narrow wide le
    exact spread_get_le_get quoted le
  · intro within direction
    have widthEq := spread_get_of_le quoted within direction
    refine ⟨widthEq, ?_⟩
    rw [widthEq]
    exact maker.halfWidth_le_sideWidth reading price direction

/-- A market maker that bounds its spread to a twentieth of the price, and a price of fifty. -/
def boundedMaker : MarketMaker where
  baseSpread := .lit 1000
  maxSpread := .lit 50000

@[inherit_doc boundedMaker] def fifty : Amount := .lit 500000000000

/-- An oracle far above that price, in some doubt. -/
def farReading : OracleReading where
  price := .lit 600000000000
  confidence := .lit 1000000000

theorem spread_bounded_of_farReading :
    boundedMaker.spread farReading fifty = .ok ⟨.lit 49876, .lit 123⟩ ∧
      boundedMaker.maxSpread.val < boundedMaker.totalWidth farReading fifty ∧
      (49876 + 123 : Int) ≤ 50000 ∧
      ((49876 + 123 : Int) = 50000 ∨ (49876 + 123 : Int) = 50000 - 1) ∧
      boundedMaker.sideWidth farReading fifty .short ≤
        boundedMaker.sideWidth farReading fifty .long ∧
      (123 : Int) ≤ 49876 := by
  have quoted : boundedMaker.spread farReading fifty = .ok ⟨.lit 49876, .lit 123⟩ := rfl
  have beyond : boundedMaker.maxSpread.val < boundedMaker.totalWidth farReading fifty := by decide
  have narrower : boundedMaker.sideWidth farReading fifty .short ≤
      boundedMaker.sideWidth farReading fifty .long := by decide
  obtain ⟨bounded, scaled, -⟩ := spread_bounded quoted
  obtain ⟨total, inOrder⟩ := scaled beyond
  exact ⟨quoted, beyond, bounded, total, narrower, inOrder .short .long narrower⟩

/-! ## The side that is widened -/

theorem sideWidth_of_widenedSide (maker : MarketMaker) {widened : Direction}
    (widenedEq : widenedSide reading price = widened) :
    maker.sideWidth reading price widened = maker.widenedWidth reading price ∧
      ∀ other, other ≠ widened → maker.sideWidth reading price other = maker.halfWidth := by
  unfold sideWidth
  rw [widenedEq]
  exact ⟨if_pos rfl, fun other ne => if_neg ne⟩

theorem widenedSide_eq_long (below : price.val < reading.price.val)
    (apart : gapWidth reading price ≠ 0) : widenedSide reading price = .long :=
  if_pos ⟨below, apart⟩

theorem widenedSide_eq_short (none : price.val < reading.price.val → gapWidth reading price = 0) :
    widenedSide reading price = .short :=
  if_neg fun both => both.2 (none both.1)

/-- A spread within its bound is widened for sellers where the price is at the oracle's or above.
Where the price is below, it is widened for buyers if the gap comes to one part of the scale. If not,
sellers get what the doubt adds, and only a doubt of no more than half of the base spread leaves both
sides as wide as they should be. -/
theorem spread_widened_iff (quoted : maker.spread reading price = .ok sides)
    (within : maker.totalWidth reading price ≤ maker.maxSpread.val) :
    (price.val < reading.price.val →
      (sides.long.val = maker.widenedWidth reading price ∧ sides.short.val = maker.halfWidth ↔
        gapWidth reading price ≠ 0 ∨ doubtWidth reading price ≤ maker.halfWidth) ∧
      (gapWidth reading price = 0 →
        sides.short.val = maker.widenedWidth reading price ∧ sides.long.val = maker.halfWidth)) ∧
    (reading.price.val ≤ price.val →
      sides.short.val = maker.widenedWidth reading price ∧ sides.long.val = maker.halfWidth) := by
  have longEq : sides.long.val = _ := spread_get_of_le quoted within .long
  have shortEq : sides.short.val = _ := spread_get_of_le quoted within .short
  rw [longEq, shortEq]
  have forSellers : (price.val < reading.price.val → gapWidth reading price = 0) →
      maker.sideWidth reading price .short = maker.widenedWidth reading price ∧
        maker.sideWidth reading price .long = maker.halfWidth := by
    intro none
    obtain ⟨widened, kept⟩ := maker.sideWidth_of_widenedSide (widenedSide_eq_short none)
    exact ⟨widened, kept .long nofun⟩
  refine ⟨fun below => ⟨?_, fun gapless => forSellers fun _ => gapless⟩,
    fun notBelow => forSellers fun below => absurd below (not_lt.2 notBelow)⟩
  by_cases gapless : gapWidth reading price = 0
  · -- The sides are exchanged, which is right only where they are equally wide.
    obtain ⟨widened, kept⟩ := forSellers fun _ => gapless
    rw [widened, kept, or_iff_right (not_not.2 gapless), widenedWidth, gapless, zero_add,
      eq_comm, and_self]
    exact max_eq_left_iff
  · obtain ⟨widened, kept⟩ := maker.sideWidth_of_widenedSide (widenedSide_eq_long below gapless)
    exact iff_of_true ⟨widened, kept .short nofun⟩ (Or.inl gapless)

/-- Oracles above that price: by one part of the scale, and by less. Both are in more doubt than the
base spread covers. -/
def nearReading : OracleReading where
  price := .lit 500000500000
  confidence := .lit 1000000000

@[inherit_doc nearReading] def hairAbove : OracleReading where
  price := .lit 500000000001
  confidence := .lit 1000000000

theorem hairAbove_spread :
    boundedMaker.spread hairAbove fifty = .ok ⟨.lit 500, .lit 2000⟩ := rfl

theorem spread_widened_of_near :
    boundedMaker.spread nearReading fifty = .ok ⟨.lit 2001, .lit 500⟩ ∧
      boundedMaker.totalWidth nearReading fifty ≤ boundedMaker.maxSpread.val ∧
      fifty.val < nearReading.price.val ∧ gapWidth nearReading fifty ≠ 0 ∧
      (2001 : Int) = boundedMaker.widenedWidth nearReading fifty ∧
      boundedMaker.spread hairAbove fifty = .ok ⟨.lit 500, .lit 2000⟩ ∧
      boundedMaker.totalWidth hairAbove fifty ≤ boundedMaker.maxSpread.val ∧
      fifty.val < hairAbove.price.val ∧ gapWidth hairAbove fifty = 0 ∧
      (2000 : Int) = boundedMaker.widenedWidth hairAbove fifty := by
  have quoted : boundedMaker.spread nearReading fifty = .ok ⟨.lit 2001, .lit 500⟩ := rfl
  have within : boundedMaker.totalWidth nearReading fifty ≤ boundedMaker.maxSpread.val := by decide
  have below : fifty.val < nearReading.price.val := by decide
  have apart : gapWidth nearReading fifty ≠ 0 := by decide
  have withinToo : boundedMaker.totalWidth hairAbove fifty ≤ boundedMaker.maxSpread.val := by decide
  have belowToo : fifty.val < hairAbove.price.val := by decide
  have gapless : gapWidth hairAbove fifty = 0 := by decide
  obtain ⟨forBuyers, -⟩ := (spread_widened_iff quoted within).1 below
  obtain ⟨-, forSellers⟩ := (spread_widened_iff hairAbove_spread withinToo).1 belowToo
  exact ⟨quoted, within, below, apart, (forBuyers.2 (Or.inl apart)).1, hairAbove_spread, withinToo,
    belowToo, gapless, (forSellers gapless).1⟩

/-- The spread may be widened on the side that does not trade away from the oracle. -/
theorem spread_widened_away :
    ¬ ∀ (maker : MarketMaker) (reading : OracleReading) (price : Amount)
        (sides : ByDirection Amount), 0 < price → maker.spread reading price = .ok sides →
      maker.totalWidth reading price ≤ maker.maxSpread.val → price.val < reading.price.val →
        sides.long.val = maker.widenedWidth reading price ∧ sides.short.val = maker.halfWidth := by
  intro widened
  obtain ⟨longEq, -⟩ := widened boundedMaker hairAbove fifty _ (by decide)
    hairAbove_spread (by decide) (by decide)
  exact absurd longEq (by decide)

end MarketMaker

end Leverage
