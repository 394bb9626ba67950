import Leverage.Auction.Price
import Mathlib.Tactic.Linarith
import Mathlib.Tactic.Ring

/-!
# Prices on the grid of ticks

`Direction.Concedes` orders prices by what they are worth to whoever trades against an order, so
that what holds of buyers and of sellers is stated once.

A price is put on the grid at the expense of the counterparty, but by no more than it takes:
`SnapsTo` says that no other grid price lies between the two. That alone fixes how prices of one
order stay in order on the grid (`SnapsTo.concedes_of_concedes`), whatever the tick is.
-/

namespace Leverage

namespace Direction

/-- From the first price to the second an order of the direction gives nothing back: a buyer pays no
less and a seller takes no more. -/
def Concedes : Direction → Int → Int → Prop
  | long, first, second => first ≤ second
  | short, first, second => second ≤ first

variable {direction : Direction} {first second third : Int}

theorem Concedes.refl (direction : Direction) (price : Int) : direction.Concedes price price := by
  cases direction with
  | long => exact le_refl price
  | short => exact le_refl price

theorem Concedes.trans (before : direction.Concedes first second)
    (after : direction.Concedes second third) : direction.Concedes first third := by
  cases direction with
  | long => exact le_trans before after
  | short => exact le_trans after before

/-- `grid` is a multiple of the tick at which an order of the direction concedes no more than at the
price, and no other such multiple is better for the counterparty. -/
structure SnapsTo (direction : Direction) (tick price grid : Int) : Prop where
  dvd : tick ∣ grid
  concedes : direction.Concedes grid price
  nearest : ∀ other, tick ∣ other → direction.Concedes other price → direction.Concedes other grid

namespace SnapsTo

variable {tick price grid otherPrice otherGrid : Int}

/-- A concession is kept on the grid: the first grid price competes for the place of the second. -/
theorem concedes_of_concedes (snapped : direction.SnapsTo tick price grid)
    (snappedToo : direction.SnapsTo tick otherPrice otherGrid)
    (concedes : direction.Concedes price otherPrice) : direction.Concedes grid otherGrid :=
  snappedToo.nearest grid snapped.dvd (snapped.concedes.trans concedes)

theorem of_dvd (direction : Direction) (onGrid : tick ∣ price) :
    direction.SnapsTo tick price price where
  dvd := onGrid
  concedes := .refl direction price
  nearest := fun _ _ concedes => concedes

/-- A buyer's price loses its excess over the grid. -/
theorem long_sub_emod (tickPos : 0 < tick) : long.SnapsTo tick price (price - price % tick) where
  dvd := Int.dvd_self_sub_emod
  concedes := sub_le_self price (Int.emod_nonneg price tickPos.ne')
  nearest := by
    rintro other ⟨count, rfl⟩ below
    change tick * count ≤ price at below
    have countLe : count ≤ price / tick := by
      rwa [Int.le_ediv_iff_mul_le tickPos, mul_comm]
    calc tick * count ≤ tick * (price / tick) := mul_le_mul_of_nonneg_left countLe tickPos.le
      _ = price - price % tick := by rw [Int.emod_def, sub_sub_cancel]

/-- A seller's price off the grid is filled up to the next tick. -/
theorem short_add_sub_emod (tickPos : 0 < tick) (off : price % tick ≠ 0) :
    short.SnapsTo tick price (price + tick - price % tick) where
  dvd := by
    have floorDvd : tick ∣ price - price % tick := Int.dvd_self_sub_emod
    rw [add_sub_right_comm]
    exact Int.dvd_add floorDvd (Int.dvd_refl tick)
  concedes := by
    have excessLt := Int.emod_lt_of_pos price tickPos
    change price ≤ price + tick - price % tick
    omega
  nearest := by
    rintro other ⟨count, rfl⟩ above
    change price ≤ tick * count at above
    -- The multiple is not the floor, since the price is off the grid.
    have excessPos : 0 < price % tick := lt_of_le_of_ne (Int.emod_nonneg price tickPos.ne') off.symm
    have floorLt : tick * (price / tick) < tick * count := by
      rw [Int.emod_def] at excessPos
      omega
    have succLe : price / tick + 1 ≤ count :=
      Int.add_one_le_iff.2 (lt_of_mul_lt_mul_left floorLt tickPos.le)
    calc price + tick - price % tick = tick * (price / tick + 1) := by rw [Int.emod_def]; ring
      _ ≤ tick * count := mul_le_mul_of_nonneg_left succLe tickPos.le

end SnapsTo

end Direction

variable {price tick grid : OrderPrice} {direction : Direction}

/-- What is put on the grid at all is put on the nearest grid price. A price of zero is on every
grid, that of a zero tick included. -/
theorem snapsTo_of_snapToTick (snapped : snapToTick price tick direction = .ok grid) :
    direction.SnapsTo tick.val price.val grid.val := by
  unfold snapToTick at snapped
  split at snapped
  · next zero =>
    obtain rfl : 0 = grid := Except.ok.inj snapped
    rw [zero]
    exact .of_dvd direction (dvd_zero tick.val)
  simp only [Checked.bind_eq_ok_iff, Word.rem_eq_ok_iff] at snapped
  obtain ⟨excess, ⟨tickNonzero, excessEq⟩, snapped⟩ := snapped
  have tickPos := Word.unsigned_pos tickNonzero
  split at snapped
  · next onGrid =>
    obtain rfl : price = grid := Except.ok.inj snapped
    rw [Word.eq_zero_iff, excessEq] at onGrid
    exact .of_dvd direction (Int.dvd_of_emod_eq_zero onGrid)
  · next off =>
    rw [Word.eq_zero_iff, excessEq] at off
    cases direction with
    | long =>
      rw [Word.sub_eq_ok_iff, excessEq] at snapped
      rw [snapped]
      exact .long_sub_emod tickPos
    | short =>
      simp only [Checked.bind_eq_ok_iff, Word.add_eq_ok_iff, Word.sub_eq_ok_iff] at snapped
      obtain ⟨raised, raisedEq, gridEq⟩ := snapped
      rw [gridEq, raisedEq, excessEq]
      exact .short_add_sub_emod tickPos off

/-- Every price is on the grid of ticks of one. -/
theorem snapToTick_one (price : OrderPrice) (direction : Direction) :
    snapToTick price (.lit 1) direction = .ok price := by
  have whole : price.rem (.lit 1) = .ok 0 :=
    Word.rem_eq_ok_iff.2 ⟨by decide, (Int.emod_one price.val).symm⟩
  unfold snapToTick
  split
  · next zero => rw [zero]
  · rw [whole]
    rfl

/-- The excess is only ever taken off what exceeds it. -/
theorem snapToTick_ne_underflow (price tick : OrderPrice) (direction : Direction) :
    snapToTick price tick direction ≠ .error .underflow := by
  unfold snapToTick
  split
  · exact nofun
  apply Checked.bind_ne_error (Word.rem_ne_underflow price tick)
  intro excess excessEq
  obtain ⟨tickNonzero, excessEq⟩ := Word.rem_eq_ok_iff.1 excessEq
  have tickPos := Word.unsigned_pos tickNonzero
  split
  · exact nofun
  cases direction with
  | long =>
    -- Zero is on the grid, so what is left of the price without its excess is no less.
    have leftNonneg : 0 ≤ price.val - price.val % tick.val :=
      (Direction.SnapsTo.long_sub_emod tickPos).nearest 0 (dvd_zero tick.val)
        (Word.unsigned_nonneg price)
    exact Word.unsigned_sub_ne_error (by omega)
  | short =>
    apply Checked.bind_ne_error (Word.add_ne_underflow price tick)
    intro raised raisedEq
    rw [Word.add_eq_ok_iff] at raisedEq
    have priceNonneg := Word.unsigned_nonneg price
    have excessLt : excess.val < tick.val := by
      rw [excessEq]
      exact Int.emod_lt_of_pos price.val tickPos
    exact Word.unsigned_sub_ne_error (by omega)

end Leverage
