import Leverage.Proofs.Auction.Tick
import Leverage.Proofs.MarketMaker.Price
import Leverage.Proofs.MarketMaker.Swap

/-!
# The price after a swap

A swap moves the reserve of one asset by what is traded and the reserve of the other against it. Both
moves take the price the same way: up where base leaves or quote comes in, and so against the taker,
who asked for just that.

The reserve that follows is a floor, so this needs a market maker whose own reserves are what a swap
of nothing would leave (`HeldBy`). Then its price before a swap is the first of a chain, along which
`swap_price_concedes` orders the prices by the amounts that are traded.
-/

namespace Leverage

/-- The other asset of a pair of reserves. -/
def Asset.other : Asset → Asset
  | base => quote
  | quote => base

/-! ## Moves along a flow -/

namespace Flow

/-- From the first amount to the second a reserve moves with the flow, if it moves at all. -/
def Leads : Flow → Int → Int → Prop
  | add, first, second => first ≤ second
  | remove, first, second => second ≤ first

variable {flow : Flow} {amount first second less more product : Int}

theorem Leads.of_le (le : less ≤ more) :
    flow.Leads (amount + flow.sign * less) (amount + flow.sign * more) := by
  cases flow with
  | add =>
    change amount + 1 * less ≤ amount + 1 * more
    linarith
  | remove =>
    change amount + -1 * more ≤ amount + -1 * less
    linarith

/-- What follows from a product moves against the flow. -/
theorem Leads.ediv (leads : flow.Leads first second) (productNonneg : 0 ≤ product)
    (firstPos : 0 < first) (secondPos : 0 < second) :
    flow.Leads (product / second) (product / first) := by
  cases flow with
  | add => exact ediv_le_ediv_of_divisor_le productNonneg firstPos leads
  | remove => exact ediv_le_ediv_of_divisor_le productNonneg secondPos leads

end Flow

/-- Where an asset moves with what a trade asks for and the other asset moves against it, the price
moves against the taker. -/
theorem Reserves.price_concedes {near far : Reserves} {asset : Asset} {direction : Direction}
    {peg priceNear priceFar : Amount}
    (moved : (direction.flow asset).Leads (near.get asset).val (far.get asset).val)
    (followed : (direction.flow asset).Leads (far.get asset.other).val (near.get asset.other).val)
    (pricedNear : near.price peg = .ok priceNear) (pricedFar : far.price peg = .ok priceFar) :
    direction.Concedes priceNear.val priceFar.val := by
  cases direction with
  | long =>
    cases asset with
    | base => exact price_le_price pricedNear pricedFar followed moved
    | quote => exact price_le_price pricedNear pricedFar moved followed
  | short =>
    cases asset with
    | base => exact price_le_price pricedFar pricedNear followed moved
    | quote => exact price_le_price pricedFar pricedNear moved followed

namespace MarketMaker

variable {maker : MarketMaker} {asset : Asset} {direction : Direction} {flow : Flow}
  {units less more : Int} {amount smaller larger fewer greater : Amount}
  {near far after : Reserves} {peg before priceNear priceFar : Amount}

/-! ## What a swap leaves -/

/-- `after` is what a swap leaves that moves the reserve of an asset by a number of units. -/
structure SwappedBy (maker : MarketMaker) (asset : Asset) (flow : Flow) (units : Int)
    (after : Reserves) : Prop where
  own_eq : (after.get asset).val = (maker.reserves.get asset).val + flow.sign * units
  own_pos : 0 < (after.get asset).val
  other_eq : (after.get asset.other).val =
    maker.liquidity.val * maker.liquidity.val / (after.get asset).val

/-- The reserves are held at the square of the liquidity by the reserve of the other asset: it is as
large as whole units allow. Every swap that is denominated in the asset leaves them so. -/
structure HeldBy (maker : MarketMaker) (asset : Asset) : Prop where
  product_le : (maker.reserves.get asset).val * (maker.reserves.get asset.other).val ≤
    maker.liquidity.val * maker.liquidity.val
  lt_product_succ : maker.liquidity.val * maker.liquidity.val <
    (maker.reserves.get asset).val * ((maker.reserves.get asset.other).val + 1)

namespace SwappedBy

theorem of_reservesAfter (swapped : maker.reservesAfter asset amount flow = .ok after) :
    ∃ units, maker.reserveUnits asset amount = .ok units ∧
      maker.SwappedBy asset flow units.val after := by
  obtain ⟨units, own, other, unitsEq, rfl, ownEq, nonzero, otherEq⟩ := reservesAfter_cases swapped
  have ownPos := Word.unsigned_pos nonzero
  refine ⟨units, unitsEq, ?_⟩
  cases asset with
  | base => exact ⟨ownEq, ownPos, otherEq⟩
  | quote => exact ⟨ownEq, ownPos, otherEq⟩

/-- A market maker on its curve is where a swap of nothing leaves it. -/
theorem of_heldBy (held : maker.HeldBy asset) (flow : Flow) :
    maker.SwappedBy asset flow 0 maker.reserves := by
  have productPos := lt_of_le_of_lt (mul_self_nonneg maker.liquidity.val) held.lt_product_succ
  have otherNonneg := Word.unsigned_nonneg (maker.reserves.get asset.other)
  have ownPos : 0 < (maker.reserves.get asset).val := pos_of_mul_pos_left productPos (by omega)
  have otherEq : maker.liquidity.val * maker.liquidity.val / (maker.reserves.get asset).val =
      (maker.reserves.get asset.other).val := by
    rw [Int.ediv_eq_iff_of_pos ownPos, ← add_one_mul, mul_comm, mul_comm (_ + 1)]
    exact ⟨held.product_le, held.lt_product_succ⟩
  exact ⟨by rw [mul_zero, add_zero], ownPos, otherEq.symm⟩

theorem price_concedes (swappedLess : maker.SwappedBy asset (direction.flow asset) less near)
    (swappedMore : maker.SwappedBy asset (direction.flow asset) more far) (le : less ≤ more)
    (pricedNear : near.price peg = .ok priceNear) (pricedFar : far.price peg = .ok priceFar) :
    direction.Concedes priceNear.val priceFar.val := by
  have moved : (direction.flow asset).Leads (near.get asset).val (far.get asset).val := by
    rw [swappedLess.own_eq, swappedMore.own_eq]
    exact .of_le le
  have followed :
      (direction.flow asset).Leads (far.get asset.other).val (near.get asset.other).val := by
    rw [swappedLess.other_eq, swappedMore.other_eq]
    exact moved.ediv (mul_self_nonneg _) swappedLess.own_pos swappedMore.own_pos
  exact Reserves.price_concedes moved followed pricedNear pricedFar

end SwappedBy

/-- More of an asset comes to no fewer units of its reserve. -/
theorem reserveUnits_le (le : smaller ≤ larger)
    (lifted : maker.reserveUnits asset smaller = .ok fewer)
    (liftedToo : maker.reserveUnits asset larger = .ok greater) : fewer.val ≤ greater.val := by
  cases asset with
  | base =>
    obtain rfl := Except.ok.inj lifted
    obtain rfl := Except.ok.inj liftedToo
    exact le
  | quote =>
    have productLe := mul_le_mul_of_nonneg_right le Scale.peggedReserveToQuote_pos.le
    obtain ⟨fewer', lifted', fewerLe⟩ := Word.exists_unsigned_mulDiv_le productLe liftedToo
    obtain rfl := Except.ok.inj (lifted'.symm.trans lifted)
    exact fewerLe

/-- On the curve a trade of either asset takes the price against the taker or leaves it, and a larger
one takes it no less far. -/
theorem swap_price_concedes (held : maker.HeldBy asset) (le : smaller ≤ larger)
    (swappedSmaller : maker.reservesAfter asset smaller (direction.flow asset) = .ok near)
    (swappedLarger : maker.reservesAfter asset larger (direction.flow asset) = .ok far)
    (priced : maker.price = .ok before) (pricedNear : near.price maker.peg = .ok priceNear)
    (pricedFar : far.price maker.peg = .ok priceFar) :
    direction.Concedes before.val priceNear.val ∧
      direction.Concedes priceNear.val priceFar.val := by
  obtain ⟨fewer, fewerEq, movedNear⟩ := SwappedBy.of_reservesAfter swappedSmaller
  obtain ⟨greater, greaterEq, movedFar⟩ := SwappedBy.of_reservesAfter swappedLarger
  have still := SwappedBy.of_heldBy held (direction.flow asset)
  have unitsLe := reserveUnits_le le fewerEq greaterEq
  exact ⟨still.price_concedes movedNear (Word.unsigned_nonneg fewer) priced pricedNear,
    movedNear.price_concedes movedFar unitsLe pricedNear pricedFar⟩

/-- A market maker from which users have bought. -/
def soldMaker : MarketMaker where
  reserves := ⟨.lit 9900000000000000000, .lit 10101010101010101010⟩
  liquidity := .lit 10000000000000000000
  peg := .lit 50000

/-- What two sales for an amount of quote leave of its reserves. -/
def afterSmallSale : Reserves := ⟨.lit 9900001372140778238, .lit 10101008701009501010⟩

@[inherit_doc afterSmallSale] def afterLargeSale : Reserves :=
  ⟨.lit 9949248781468465901, .lit 10051010101009901010⟩

theorem swap_price_concedes_of_soldMaker :
    soldMaker.HeldBy .quote ∧ (.lit 7000003 : Amount) ≤ .lit 250000000001 ∧
      soldMaker.reservesAfter .quote (.lit 7000003) (Direction.short.flow .quote) =
        .ok afterSmallSale ∧
      soldMaker.reservesAfter .quote (.lit 250000000001) (Direction.short.flow .quote) =
        .ok afterLargeSale ∧
      soldMaker.price = .ok (.lit 510152025303) ∧
      afterSmallSale.price soldMaker.peg = .ok (.lit 510151883889) ∧
      afterLargeSale.price soldMaker.peg = .ok (.lit 505114020253) ∧
      Direction.short.Concedes 510152025303 510151883889 ∧
      Direction.short.Concedes 510151883889 505114020253 := by
  have held : soldMaker.HeldBy .quote := ⟨by decide, by decide⟩
  have ordered : (.lit 7000003 : Amount) ≤ .lit 250000000001 := by decide
  have swappedSmaller : soldMaker.reservesAfter .quote (.lit 7000003)
      (Direction.short.flow .quote) = .ok afterSmallSale := rfl
  have swappedLarger : soldMaker.reservesAfter .quote (.lit 250000000001)
      (Direction.short.flow .quote) = .ok afterLargeSale := rfl
  have priced : soldMaker.price = .ok (.lit 510152025303) := rfl
  have pricedNear : afterSmallSale.price soldMaker.peg = .ok (.lit 510151883889) := rfl
  have pricedFar : afterLargeSale.price soldMaker.peg = .ok (.lit 505114020253) := rfl
  exact ⟨held, ordered, swappedSmaller, swappedLarger, priced, pricedNear, pricedFar,
    swap_price_concedes held ordered swappedSmaller swappedLarger priced pricedNear pricedFar⟩

end MarketMaker

end Leverage
