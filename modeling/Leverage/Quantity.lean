import Leverage.Word.Arithmetic

/-!
# Quantities

The number formats in which the domain keeps its quantities.
-/

namespace Leverage

/-- Token amounts, scaled balances, reserves, prices and everything else that is not negative. -/
abbrev Amount := Unsigned 128

/-- Amounts with a sign: oracle prices, net positions, profits and costs. -/
abbrev SignedAmount := Signed 128

/-- Weights, margin ratios, rates, spreads and size factors, as parts of a fixed scale. -/
abbrev Ratio := Unsigned 32

abbrev OrderPrice := Unsigned 64

/-- The counter that orders time on the chain. -/
abbrev Slot := Unsigned 64

/-- Seconds since the epoch. -/
abbrev Timestamp := Signed 64

abbrev MarketIndex := Unsigned 16

abbrev Decimals := Unsigned 8

/-- A ratio keeps its value where it is taken as an amount. -/
@[simp] theorem val_widen_ratio (ratio : Ratio) : (ratio.widen : Amount).val = ratio.val := rfl

end Leverage
