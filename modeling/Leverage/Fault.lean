/-!
# Faults

A computation of this library either answers or stops at a fault. A fault names one cause: a request
or a configuration that makes no sense in the domain, or an exact result that the number format of
its place cannot hold. The wording, the numeric code and the class of every fault are fixed here and
nowhere else.
-/

namespace Leverage

/-- Why a computation has no answer. -/
inductive Fault where
  /-- A token has more decimals than scaled balances keep. -/
  | invalidDecimals
  | unknownMarginTier
  | unknownSide
  /-- An oracle price is not positive where a positive one is needed. -/
  | invalidOracle
  /-- A pool's weights do not describe a margin ratio. -/
  | invalidPoolConfig
  | unknownDirection
  /-- A sum, product, power or quotient lies outside its format. -/
  | overflow
  /-- A difference lies outside its format. -/
  | underflow
  | divisionByZero
  /-- A value does not exist in the format it is converted to. -/
  | castFailure
deriving DecidableEq, Repr

/-- The two classes of faults: caller and configuration mistakes, and arithmetic that left its
format, which a sound snapshot should not cause. -/
inductive FaultClass where
  | domain
  | arithmetic
deriving DecidableEq, Repr

/-- A computation that may stop at a fault. -/
abbrev Checked (α : Type) := Except Fault α

namespace Fault

def faultClass : Fault → FaultClass
  | invalidDecimals | unknownMarginTier | unknownSide | invalidOracle | invalidPoolConfig
  | unknownDirection => .domain
  | overflow | underflow | divisionByZero | castFailure => .arithmetic

def isArithmetic (fault : Fault) : Bool := fault.faultClass == .arithmetic

def label : Fault → String
  | invalidDecimals => "InvalidDecimals"
  | unknownMarginTier => "InvalidMarginCategory"
  | unknownSide => "InvalidBalanceType"
  | invalidOracle => "InvalidOracle"
  | invalidPoolConfig => "InvalidSpotMarketConfig"
  | unknownDirection => "InvalidPositionDirection"
  | overflow => "MathOverflow"
  | underflow => "MathUnderflow"
  | divisionByZero => "DivisionByZero"
  | castFailure => "CastingFailure"

def message : Fault → String
  | invalidDecimals => "Spot market decimals exceed the canonical balance precision"
  | unknownMarginTier => "Unrecognized margin category"
  | unknownSide => "Unrecognized balance type"
  | invalidOracle => "Invalid oracle price data"
  | invalidPoolConfig => "Invalid spot market configuration"
  | unknownDirection => "Unrecognized position direction"
  | overflow => "Arithmetic overflow"
  | underflow => "Arithmetic underflow"
  | divisionByZero => "Division by zero"
  | castFailure => "Integer cast failed"

/-- The family name that heads every report of a fault. -/
def family : String := "RiskMathError"

def report (fault : Fault) : String := family ++ ": " ++ fault.message

/-! ## Numeric codes -/

/-- The number of a fault: domain faults count from 0, arithmetic faults from 100. -/
def code : Fault → Nat
  | invalidDecimals => 0
  | unknownMarginTier => 1
  | unknownSide => 2
  | invalidOracle => 3
  | invalidPoolConfig => 4
  | unknownDirection => 5
  | overflow => 100
  | underflow => 101
  | divisionByZero => 102
  | castFailure => 103

def ofCode? : Nat → Option Fault
  | 0 => some invalidDecimals
  | 1 => some unknownMarginTier
  | 2 => some unknownSide
  | 3 => some invalidOracle
  | 4 => some invalidPoolConfig
  | 5 => some unknownDirection
  | 100 => some overflow
  | 101 => some underflow
  | 102 => some divisionByZero
  | 103 => some castFailure
  | _ => none

@[simp] theorem ofCode?_code (fault : Fault) : ofCode? fault.code = some fault := by
  cases fault <;> rfl

/-- Codes below 100 belong to the domain class and all others to the arithmetic class. -/
theorem isArithmetic_iff_hundred_le_code (fault : Fault) :
    fault.isArithmetic = true ↔ 100 ≤ fault.code := by
  cases fault <;> decide

end Fault

end Leverage
