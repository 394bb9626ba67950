import Leverage.Proofs.Auction.Tick

/-!
# The walk of an auction

An auction walks from one end of its range to the other and concedes more with every slot, until all
its steps are taken. `auctionPrice_eq_ok_iff` opens the price of an order once: the slot is not
before the order, the range runs the right way, and the price is that of the steps taken, put on the
grid.

`auctionPrice_concedes` follows the price of one order from slot to slot. It only moves in favour of
whoever trades against the order, it never passes the end of the range, and so a resting order that
accepts it once accepts it from then on.
-/

namespace Leverage

namespace Direction

/-- What an order of the direction concedes from the first price to the second. -/
def concession : Direction → Int → Int → Int
  | long, first, second => second - first
  | short, first, second => first - second

/-- The price at which an order of the direction has conceded an amount. -/
def conceding : Direction → Int → Int → Int
  | long, price, amount => price + amount
  | short, price, amount => price - amount

variable {direction : Direction} {first second price less more : Int}

theorem concession_nonneg_iff :
    0 ≤ direction.concession first second ↔ direction.Concedes first second := by
  cases direction with
  | long => exact sub_nonneg
  | short => exact sub_nonneg

theorem conceding_concession (direction : Direction) (first second : Int) :
    direction.conceding first (direction.concession first second) = second := by
  cases direction with
  | long => exact add_sub_cancel first second
  | short => exact sub_sub_cancel first second

theorem concedes_conceding_iff :
    direction.Concedes (direction.conceding price less) (direction.conceding price more) ↔
      less ≤ more := by
  cases direction with
  | long => exact add_le_add_iff_left price
  | short => exact sub_le_sub_iff_left price

end Direction

/-! ## Ranges -/

namespace AuctionRange

/-- What an auction of the direction concedes from the start of its range to the end. -/
def way (range : AuctionRange) (direction : Direction) : Int :=
  direction.concession range.start.val range.stop.val

/-- The price after some of the steps, before it is put on the grid: each step concedes an equal
part of the way, and what the steps concede together is floored. -/
def walked (range : AuctionRange) (direction : Direction) (taken steps : Int) : Int :=
  direction.conceding range.start.val (range.way direction * taken / steps)

/-- Either direction takes a difference, then a part of it, and goes on with that part. -/
private theorem exists_part_iff {n : Nat} {far near taken steps : Unsigned n}
    (goesOn : Int → Prop) :
    (∃ way : Unsigned n, way.val = far.val - near.val ∧
        ∃ part, way.mulDiv taken steps = .ok part ∧ goesOn part.val) ↔
      0 ≤ far.val - near.val ∧ (far.val - near.val) * taken.val < 2 ^ n ∧ steps.val ≠ 0 ∧
        goesOn ((far.val - near.val) * taken.val / steps.val) := by
  constructor
  · rintro ⟨way, wayEq, part, partEq, rest⟩
    obtain ⟨fits, nonzero, partEq⟩ := Word.unsigned_mulDiv_eq_ok_iff.1 partEq
    have wayNonneg := Word.unsigned_nonneg way
    rw [partEq] at rest
    rw [wayEq] at wayNonneg fits rest
    exact ⟨wayNonneg, fits, nonzero, rest⟩
  · rintro ⟨wayNonneg, fits, nonzero, rest⟩
    obtain ⟨way, subtracted⟩ := Word.exists_unsigned_sub_eq_ok_iff.2 (sub_nonneg.1 wayNonneg)
    have wayEq := Word.sub_eq_ok_iff.1 subtracted
    rw [← wayEq] at fits rest
    obtain ⟨part, partEq⟩ := Word.exists_unsigned_mulDiv_eq_ok_iff.2 ⟨fits, nonzero⟩
    refine ⟨way, wayEq, part, partEq, ?_⟩
    rwa [(Word.unsigned_mulDiv_eq_ok_iff.1 partEq).2.2]

/-- Either direction takes a difference and then a part of it, and stops where the product is beyond
the format. -/
private theorem part_eq_overflow {n : Nat} {far near taken : Unsigned n} (le : near.val ≤ far.val)
    (beyond : 2 ^ n ≤ (far.val - near.val) * taken.val) (steps : Unsigned n)
    (goesOn : Unsigned n → Checked (Unsigned n)) :
    (do
      let way ← far.sub near
      goesOn (← way.mulDiv taken steps)) = .error .overflow := by
  obtain ⟨way, subtracted⟩ := Word.exists_unsigned_sub_eq_ok_iff.2 le
  have outside : ¬ (Format.unsigned n).Holds (way.val * taken.val) := by
    rw [Word.sub_eq_ok_iff.1 subtracted]
    exact fun held => not_lt.2 beyond (Format.unsigned_holds_iff.1 held).2
  rw [subtracted]
  change (way.mulDiv taken steps >>= goesOn) = _
  rw [Word.mulDiv_eq_overflow outside]
  rfl

variable {range : AuctionRange} {direction : Direction} {taken steps : Slot} {price : OrderPrice}
  {fewer more all : Int}

theorem priceAfter_eq_ok_iff :
    range.priceAfter direction taken steps = .ok price ↔
      0 ≤ range.way direction ∧ range.way direction * taken.val < 2 ^ 64 ∧ steps.val ≠ 0 ∧
        price.val = range.walked direction taken.val steps.val := by
  cases direction with
  | long =>
    simp only [priceAfter, Checked.bind_eq_ok_iff, Word.sub_eq_ok_iff, Word.add_eq_ok_iff]
    exact exists_part_iff fun part => price.val = range.start.val + part
  | short =>
    simp only [priceAfter, Checked.bind_eq_ok_iff, Word.sub_eq_ok_iff]
    exact exists_part_iff fun part => price.val = range.start.val - part

/-- The way has to fit once it is multiplied by the steps taken. -/
theorem priceAfter_eq_overflow (rightWay : 0 ≤ range.way direction)
    (beyond : 2 ^ 64 ≤ range.way direction * taken.val) :
    range.priceAfter direction taken steps = .error .overflow := by
  cases direction with
  | long => exact part_eq_overflow (sub_nonneg.1 rightWay) beyond steps range.start.add
  | short => exact part_eq_overflow (sub_nonneg.1 rightWay) beyond steps range.start.sub

/-- More steps concede more. -/
theorem walked_concedes_walked (rightWay : 0 ≤ range.way direction) (allPos : 0 < all)
    (le : fewer ≤ more) :
    direction.Concedes (range.walked direction fewer all) (range.walked direction more all) := by
  apply Direction.concedes_conceding_iff.2
  apply Int.ediv_le_ediv allPos
  exact mul_le_mul_of_nonneg_left le rightWay

theorem walked_none (range : AuctionRange) (direction : Direction) (all : Int) :
    range.walked direction 0 all = range.start.val := by
  rw [walked, mul_zero, Int.zero_ediv]
  cases direction with
  | long => exact add_zero _
  | short => exact sub_zero _

/-- All steps together take the whole way. -/
theorem walked_all (nonzero : all ≠ 0) : range.walked direction all all = range.stop.val := by
  rw [walked, Int.mul_ediv_cancel _ nonzero]
  exact direction.conceding_concession range.start.val range.stop.val

/-- Neither end of the way is missed: the difference is there, and no part of it exceeds the price
that it is taken from. -/
theorem priceAfter_ne_underflow (rightWay : 0 ≤ range.way direction) (le : taken.val ≤ steps.val) :
    range.priceAfter direction taken steps ≠ .error .underflow := by
  cases direction with
  | long =>
    apply Checked.bind_ne_error (Word.unsigned_sub_ne_error (sub_nonneg.1 rightWay))
    intro way _
    apply Checked.bind_ne_error (Word.mulDiv_ne_underflow way taken steps)
    intro part _
    exact Word.add_ne_underflow range.start part
  | short =>
    apply Checked.bind_ne_error (Word.unsigned_sub_ne_error (sub_nonneg.1 rightWay))
    intro way wayEq
    apply Checked.bind_ne_error (Word.mulDiv_ne_underflow way taken steps)
    intro part partEq
    rw [Word.sub_eq_ok_iff] at wayEq
    obtain ⟨-, nonzero, partEq⟩ := Word.unsigned_mulDiv_eq_ok_iff.1 partEq
    have stopNonneg := Word.unsigned_nonneg range.stop
    have wayNonneg := Word.unsigned_nonneg way
    have stepsPos := Word.unsigned_pos nonzero
    have partLe : part.val ≤ way.val := by
      rw [partEq]
      exact Int.ediv_le_of_le_mul stepsPos (mul_le_mul_of_nonneg_left le wayNonneg)
    exact Word.unsigned_sub_ne_error (by omega)

end AuctionRange

/-! ## Orders -/

namespace Order

/-- How many steps of its auction an order has taken by a slot. -/
def stepsTaken (order : Order) (slot : Slot) : Int :=
  min (slot.val - order.slot.val) order.duration.val

/-- Where the auction of an order has come to with some of its steps, before the price is put on the
grid. An order without an auction is at the end of its range. -/
def walked (order : Order) (taken : Int) : Int :=
  if order.duration.val = 0 then order.auction.stop.val
  else order.auction.walked order.direction taken order.duration.val

variable {order maker taker : Order} {slot earlier later : Slot}
  {tick price first second : OrderPrice} {fewer more : Int}

theorem stepsTaken_le (order : Order) (slot : Slot) : order.stepsTaken slot ≤ order.duration.val :=
  min_le_right _ _

theorem stepsTaken_le_stepsTaken (order : Order) (inOrder : earlier ≤ later) :
    order.stepsTaken earlier ≤ order.stepsTaken later :=
  min_le_min_right _ (sub_le_sub_right (Word.le_iff.1 inOrder) _)

theorem walked_concedes_walked (rightWay : 0 ≤ order.auction.way order.direction)
    (le : fewer ≤ more) : order.direction.Concedes (order.walked fewer) (order.walked more) := by
  unfold walked
  split
  · exact .refl order.direction order.auction.stop.val
  · next auctioned =>
    exact AuctionRange.walked_concedes_walked rightWay (Word.unsigned_pos auctioned) le

theorem walked_duration (order : Order) :
    order.walked order.duration.val = order.auction.stop.val := by
  unfold walked
  split
  · rfl
  · next auctioned => exact AuctionRange.walked_all auctioned

theorem auctionPrice_eq_ok_iff :
    order.auctionPrice slot tick = .ok price ↔
      order.slot.val ≤ slot.val ∧
        if order.duration.val = 0 then price = order.auction.stop
        else
          0 ≤ order.auction.way order.direction ∧
            order.auction.way order.direction * order.stepsTaken slot < 2 ^ 64 ∧
            ∃ walked : OrderPrice, walked.val = order.walked (order.stepsTaken slot) ∧
              snapToTick walked tick order.direction = .ok price := by
  unfold auctionPrice
  simp only [Checked.bind_eq_ok_iff]
  by_cases none : order.duration.val = 0
  · simp only [if_pos none, if_pos (Word.eq_zero_iff.2 none), Checked.pure_eq_ok_iff]
    rw [← Word.exists_unsigned_sub_eq_ok_iff, exists_and_right, eq_comm]
  · simp only [if_neg none, if_neg (mt Word.eq_zero_iff.1 none), walked,
      Checked.bind_eq_ok_iff, AuctionRange.priceAfter_eq_ok_iff, Word.val_min]
    constructor
    · rintro ⟨elapsed, subtracted, walked, ⟨rightWay, fits, -, walkedEq⟩, snapped⟩
      have slotLe := Word.exists_unsigned_sub_eq_ok_iff.1 ⟨elapsed, subtracted⟩
      rw [Word.sub_eq_ok_iff.1 subtracted] at fits walkedEq
      exact ⟨slotLe, rightWay, fits, walked, walkedEq, snapped⟩
    · rintro ⟨slotLe, rightWay, fits, walked, walkedEq, snapped⟩
      obtain ⟨elapsed, subtracted⟩ := Word.exists_unsigned_sub_eq_ok_iff.2 slotLe
      refine ⟨elapsed, subtracted, walked, ⟨rightWay, ?_, none, ?_⟩, snapped⟩
      · rw [Word.sub_eq_ok_iff.1 subtracted]
        exact fits
      · rw [Word.sub_eq_ok_iff.1 subtracted]
        exact walkedEq

/-- The price that an order without an auction asks for is where its range stops. Any other price is
where the auction has come to, put on the grid. -/
theorem auctionPrice_cases (priced : order.auctionPrice slot tick = .ok price) :
    order.duration.val = 0 ∧ price = order.auction.stop ∨
      order.duration.val ≠ 0 ∧ 0 ≤ order.auction.way order.direction ∧
        order.direction.SnapsTo tick.val (order.walked (order.stepsTaken slot)) price.val := by
  obtain ⟨-, priced⟩ := auctionPrice_eq_ok_iff.1 priced
  split at priced
  · next none => exact Or.inl ⟨none, priced⟩
  · next auctioned =>
    obtain ⟨rightWay, -, walked, walkedEq, snapped⟩ := priced
    exact Or.inr ⟨auctioned, rightWay, walkedEq ▸ snapsTo_of_snapToTick snapped⟩

/-- A price never passes the end of the range: the grid takes it back if anything. -/
theorem auctionPrice_concedes_stop (priced : order.auctionPrice slot tick = .ok price) :
    order.direction.Concedes price.val order.auction.stop.val := by
  rcases auctionPrice_cases priced with ⟨-, rfl⟩ | ⟨-, rightWay, snapped⟩
  · exact .refl order.direction order.auction.stop.val
  · rw [← order.walked_duration]
    exact snapped.concedes.trans (walked_concedes_walked rightWay (order.stepsTaken_le slot))

/-- A resting order keeps accepting a taker who concedes more. -/
theorem accepts_of_concedes (accepted : maker.Accepts taker first)
    (concedes : taker.direction.Concedes first.val second.val) : maker.Accepts taker second := by
  obtain ⟨faces, sameMarket, within⟩ := accepted
  refine ⟨faces, sameMarket, ?_⟩
  cases makerSide : maker.direction with
  | long =>
    cases takerSide : taker.direction with
    | long => exact absurd (makerSide.trans takerSide.symm) faces
    | short =>
      rw [makerSide] at within
      rw [takerSide] at concedes
      exact le_trans concedes within
  | short =>
    cases takerSide : taker.direction with
    | long =>
      rw [makerSide] at within
      rw [takerSide] at concedes
      exact le_trans within concedes
    | short => exact absurd (makerSide.trans takerSide.symm) faces

/-- From slot to slot the price of an order only moves toward the end of its range, whatever the
tick is, and never beyond. So whoever accepts it in one slot accepts it in every later one. -/
theorem auctionPrice_concedes (inOrder : earlier ≤ later)
    (pricedFirst : order.auctionPrice earlier tick = .ok first)
    (pricedSecond : order.auctionPrice later tick = .ok second) :
    order.direction.Concedes first.val second.val ∧
      order.direction.Concedes second.val order.auction.stop.val ∧
      ∀ maker : Order, maker.Accepts order first → maker.Accepts order second := by
  have moves : order.direction.Concedes first.val second.val := by
    rcases auctionPrice_cases pricedSecond with ⟨none, rfl⟩ | ⟨auctioned, rightWay, snapped⟩
    · exact auctionPrice_concedes_stop pricedFirst
    · rcases auctionPrice_cases pricedFirst with ⟨none, -⟩ | ⟨-, -, snappedFirst⟩
      · exact absurd none auctioned
      · exact snappedFirst.concedes_of_concedes snapped
          (walked_concedes_walked rightWay (order.stepsTaken_le_stepsTaken inOrder))
  exact ⟨moves, auctionPrice_concedes_stop pricedSecond, fun _ accepted =>
    accepts_of_concedes accepted moves⟩

/-- A seller whose auction stops between two ticks, and a buyer who waits for it. -/
def offGridSeller : Order where
  slot := .lit 100
  direction := .short
  duration := .lit 7
  auction := ⟨.lit 1000, .lit 907⟩

@[inherit_doc offGridSeller] def waitingBuyer : Order where
  price := .lit 975

theorem auctionPrice_concedes_of_offGridSeller :
    (.lit 103 : Slot) ≤ .lit 109 ∧
      offGridSeller.auctionPrice (.lit 103) (.lit 10) = .ok (.lit 970) ∧
      offGridSeller.auctionPrice (.lit 109) (.lit 10) = .ok (.lit 910) ∧
      Direction.short.Concedes 970 910 ∧ Direction.short.Concedes 910 907 ∧
      waitingBuyer.Accepts offGridSeller (.lit 970) ∧
      waitingBuyer.Accepts offGridSeller (.lit 910) := by
  have inOrder : (.lit 103 : Slot) ≤ .lit 109 := by decide
  have pricedFirst : offGridSeller.auctionPrice (.lit 103) (.lit 10) = .ok (.lit 970) := rfl
  have pricedSecond : offGridSeller.auctionPrice (.lit 109) (.lit 10) = .ok (.lit 910) := rfl
  have accepted : waitingBuyer.Accepts offGridSeller (.lit 970) := by decide
  obtain ⟨moves, within, accepts⟩ := auctionPrice_concedes inOrder pricedFirst pricedSecond
  exact ⟨inOrder, pricedFirst, pricedSecond, moves, within, accepted, accepts _ accepted⟩

end Order

end Leverage
