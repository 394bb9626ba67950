import Leverage.Rounding

/-!
# The two sides of a pool

Depositors are owed tokens and borrowers owe them. Nearly everything a pool keeps comes once for
each side.
-/

namespace Leverage

inductive Side where
  | deposit
  | borrow
deriving DecidableEq, Repr, Inhabited

namespace Side

def code : Side → Nat
  | deposit => 0
  | borrow => 1

def ofCode? : Nat → Option Side
  | 0 => some deposit
  | 1 => some borrow
  | _ => none

def ofCode (code : Unsigned 8) : Checked Side :=
  (ofCode? code.toNat).elim (.error .unknownSide) .ok

/-- How a token amount is rounded on its way to a scaled balance: what the pool owes is rounded
down, and what the pool is owed is rounded up. -/
def rounding : Side → Rounding
  | deposit => .down
  | borrow => .up

/-- A token amount with the sign that its side gives it: deposits count for the holder and borrows
against. -/
def signed : Side → Amount → Checked SignedAmount
  | deposit, tokens => tokens.cast _
  | borrow, tokens => do (← tokens.cast _).neg

end Side

@[ext] structure BySide (α : Type) where
  deposit : α
  borrow : α
deriving DecidableEq, Repr

namespace BySide

variable {α : Type}

def get (values : BySide α) : Side → α
  | .deposit => values.deposit
  | .borrow => values.borrow

def set (values : BySide α) : Side → α → BySide α
  | .deposit, value => { values with deposit := value }
  | .borrow, value => { values with borrow := value }

@[simp] theorem get_set_self (values : BySide α) (side : Side) (value : α) :
    (values.set side value).get side = value := by
  cases side <;> rfl

end BySide

end Leverage
