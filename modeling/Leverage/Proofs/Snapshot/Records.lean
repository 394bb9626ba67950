import Leverage.Proofs.Snapshot.Exactness
import Leverage.Snapshot.Records

/-!
# Stored records

The layouts of the records are exact, each by its shape. `records_stored` gives the length of every
record and the places of its choices: only positions and orders have any. Bytes of the right length
with zeros and ones at those places are the bytes of one record, and no other bytes are.
-/

namespace Leverage.Layout

variable {α : Type}

/-! ## Choices and families -/

theorem side_exact : side.Exact := by
  refine choice_exact ?_ rfl rfl rfl rfl fun _ => rfl
  intro side
  cases side with
  | deposit => exact Or.inl rfl
  | borrow => exact Or.inr rfl

theorem direction_exact : direction.Exact := by
  refine choice_exact ?_ rfl rfl rfl rfl fun _ => rfl
  intro direction
  cases direction with
  | long => exact Or.inl rfl
  | short => exact Or.inr rfl

theorem Exact.bySide {one : Layout α} (exact : one.Exact) : (bySide one).Exact :=
  (exact.pair exact).convert (fun _ => rfl) fun _ => rfl

theorem Exact.byTier {one : Layout α} (exact : one.Exact) : (byTier one).Exact :=
  (exact.pair exact).convert (fun _ => rfl) fun _ => rfl

theorem amount_exact : amount.Exact := word_exact (by decide)

theorem signedAmount_exact : signedAmount.Exact := word_exact (by decide)

theorem ratio_exact : ratio.Exact := word_exact (by decide)

theorem marketIndex_exact : marketIndex.Exact := word_exact (by decide)

theorem byte_exact : (word (.unsigned 8)).Exact := word_exact (by decide)

theorem counter_exact : (word (.unsigned 64)).Exact := word_exact (by decide)

theorem timestamp_exact : (word (.signed 64)).Exact := word_exact (by decide)

/-! ## Records -/

theorem rateCurve_exact : rateCurve.Exact :=
  (ratio_exact.pair (ratio_exact.pair ratio_exact)).convert (fun _ => rfl) fun _ => rfl

theorem lendingPool_exact : lendingPool.Exact :=
  (marketIndex_exact.pair <| key_exact.pair <| key_exact.pair <| byte_exact.pair <|
    amount_exact.bySide.pair <| amount_exact.bySide.pair <| rateCurve_exact.pair <|
    timestamp_exact.pair <| timestamp_exact.pair <| amount_exact.bySide.pair <|
    amount_exact.pair <| ratio_exact.pair <| ratio_exact.byTier.pair ratio_exact.byTier).convert
    (fun _ => rfl) fun _ => rfl

theorem poolPosition_exact : poolPosition.Exact :=
  (marketIndex_exact.pair (side_exact.pair amount_exact)).convert (fun _ => rfl) fun _ => rfl

theorem oracleReading_exact : oracleReading.Exact :=
  (signedAmount_exact.pair (amount_exact.pair counter_exact)).convert (fun _ => rfl) fun _ => rfl

theorem reserves_exact : reserves.Exact :=
  (amount_exact.pair amount_exact).convert (fun _ => rfl) fun _ => rfl

theorem marketMaker_exact : marketMaker.Exact :=
  (key_exact.pair <| reserves_exact.pair <| amount_exact.pair <| amount_exact.pair <|
    signedAmount_exact.pair <| signedAmount_exact.pair <| ratio_exact.pair <| ratio_exact.pair <|
    byte_exact.pair <| amount_exact.pair signedAmount_exact).convert (fun _ => rfl) fun _ => rfl

theorem pooledBalance_exact : pooledBalance.Exact :=
  (amount_exact.pair marketIndex_exact).convert (fun _ => rfl) fun _ => rfl

theorem perpMarket_exact : perpMarket.Exact :=
  (marketIndex_exact.pair <| marketMaker_exact.pair <| pooledBalance_exact.pair <|
    ratio_exact.byTier.pair <| ratio_exact.byTier.pair <| ratio_exact.pair <|
    amount_exact.pair ratio_exact).convert (fun _ => rfl) fun _ => rfl

theorem auctionRange_exact : auctionRange.Exact :=
  (counter_exact.pair counter_exact).convert (fun _ => rfl) fun _ => rfl

theorem order_exact : order.Exact :=
  (counter_exact.pair <| counter_exact.pair <| marketIndex_exact.pair <| direction_exact.pair <|
    bool_exact.pair <| byte_exact.pair auctionRange_exact).convert (fun _ => rfl) fun _ => rfl

/-- How long each record is stored, and where its choices stand. Its bytes are those of that length
with zeros and ones there, and bytes and values determine each other. -/
theorem records_stored :
    lendingPool.Stores 227 [] ∧ perpMarket.Stores 229 [] ∧ marketMaker.Stores 169 [] ∧
      pooledBalance.Stores 18 [] ∧ poolPosition.Stores 19 [2] ∧ oracleReading.Stores 40 [] ∧
      order.Stores 37 [18, 19] :=
  ⟨lendingPool_exact.stores, perpMarket_exact.stores, marketMaker_exact.stores,
    pooledBalance_exact.stores, poolPosition_exact.stores, oracleReading_exact.stores,
    order_exact.stores⟩

end Leverage.Layout
