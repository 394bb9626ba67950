import Leverage.Quantity

/-!
# Margin tiers

A position may be opened under the initial requirement and is kept under the maintenance
requirement. Weights and ratios come once for each.
-/

namespace Leverage

inductive MarginTier where
  | initial
  | maintenance
deriving DecidableEq, Repr, Inhabited

namespace MarginTier

def code : MarginTier → Nat
  | initial => 0
  | maintenance => 1

def ofCode? : Nat → Option MarginTier
  | 0 => some initial
  | 1 => some maintenance
  | _ => none

def ofCode (code : Unsigned 8) : Checked MarginTier :=
  (ofCode? code.toNat).elim (.error .unknownMarginTier) .ok

end MarginTier

@[ext] structure ByTier (α : Type) where
  initial : α
  maintenance : α
deriving DecidableEq, Repr

def ByTier.get {α : Type} (values : ByTier α) : MarginTier → α
  | .initial => values.initial
  | .maintenance => values.maintenance

end Leverage
