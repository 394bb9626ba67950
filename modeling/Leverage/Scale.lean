import Leverage.Quantity

/-!
# Scales

Fractions are kept as whole numbers of a fixed unit. A scale says how many units make one; the
scales between two places of the domain are quotients or products of these, and are stated as
numbers of their own where formulas use them.
-/

namespace Leverage.Scale

/-! ## Lending -/

/-- The decimals that scaled balances keep, whatever the token's own decimals are. -/
def balanceDecimals : Nat := 16

def index : Amount := .lit 10000000000

def utilization : Amount := .lit 1000000

theorem utilization_pos : 0 < utilization.val := by decide

/-- The scale of yearly interest rates. -/
def rate : Amount := .lit 1000000

theorem rate_pos : 0 < rate.val := by decide

def weight : Amount := .lit 10000

def sizeFactor : Amount := .lit 1000000

/-! ## Perpetual markets -/

def reserve : Amount := .lit 10000000000000

/-- The scale of base positions, the same as that of the reserves. -/
def base : Amount := reserve

/-- The scale of mark and oracle prices. -/
def price : Amount := .lit 10000000000

def peg : Amount := .lit 1000

def quote : Amount := .lit 1000000

def margin : Amount := .lit 10000

def spread : Amount := .lit 1000000

theorem spread_pos : 0 < spread.val := by decide

/-! ## Between scales -/

def priceToPeg : Amount := .lit 10000000

theorem priceToPeg_pos : 0 < priceToPeg.val := by decide

def priceToQuote : Amount := .lit 10000

def reserveToQuote : Amount := .lit 10000000

def peggedReserveToQuote : Amount := .lit 10000000000

theorem peggedReserveToQuote_pos : 0 < peggedReserveToQuote.val := by decide

def pricedReserveToQuote : Amount := .lit 100000000000000000

/-- What the square root of a size, times a size factor, is divided by in the size curves. -/
def sizeRoot : Amount := .lit 100000

/-! ## Time -/

def year : Amount := .lit 31536000

theorem year_pos : 0 < year.val := by decide

def day : Timestamp := .lit 86400

end Leverage.Scale

namespace Leverage

/-- A scale as a signed word; every scale is far below the sign bit. -/
def signedScale (scale : Amount)
    (small : decide ((Format.signed 128).Holds scale.val) = true := by exact Eq.refl true) :
    SignedAmount :=
  .lit scale.val small

def tenPow (exponent : Nat) : Checked Amount := (.lit 10 : Amount).pow exponent

/-- The same quantity on another scale. Going to a coarser scale divides by the quotient of the two
scales, going to a finer one multiplies first, so the result is truncated once either way. -/
def rescale (amount source target : Amount) : Checked Amount :=
  if target < source then do amount.div (← source.div target)
  else amount.mulDiv target source

end Leverage
