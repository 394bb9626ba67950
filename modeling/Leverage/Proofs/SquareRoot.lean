import Leverage.SquareRoot
import Mathlib.Algebra.Order.Ring.Nat
import Mathlib.Data.Nat.Sqrt
import Mathlib.Tactic.Ring

/-!
# The root that the descent finds

The mean of an estimate and its cofactor is never below the root, whatever the estimate is:
`covers_newtonStep`. So every estimate that the descent takes up covers the root, and the first one
from which a step goes no lower is the root: `descend_eq_sqrt`.

The descent starts at the value itself with a proposal that is not a step of it. The proposal covers
the root all the same, and is taken up where it is below the value. It is not below the value two,
which passes for its own root: `sqrt_floors_iff`.
-/

namespace Leverage

namespace SquareRoot

variable {value estimate proposal : Nat}

/-- The estimate is not below the square root of the value. -/
def Covers (value estimate : Nat) : Prop := value < (estimate + 1) * (estimate + 1)

/-- Only the value zero is covered by zero. -/
theorem Covers.pos (covers : Covers value estimate) (valuePos : 0 < value) : 0 < estimate := by
  rcases Nat.eq_zero_or_pos estimate with rfl | estimatePos
  · exact absurd covers (Nat.not_lt.2 valuePos)
  · exact estimatePos

/-- A step from anywhere lands on an estimate that covers the root: the mean of two numbers is at
least the root of their product. -/
theorem covers_newtonStep (estimatePos : 0 < estimate) :
    Covers value (newtonStep value estimate) := by
  have valueLt : value < estimate * (value / estimate + 1) := Nat.lt_mul_div_succ value estimatePos
  have sumLe : estimate + (value / estimate + 1) ≤ 2 * (newtonStep value estimate + 1) := by
    unfold newtonStep
    omega
  have quadrupled : 4 * value < 4 * ((newtonStep value estimate + 1) *
      (newtonStep value estimate + 1)) := by
    calc 4 * value < 4 * (estimate * (value / estimate + 1)) := by omega
      _ = 4 * estimate * (value / estimate + 1) := by rw [Nat.mul_assoc]
      _ ≤ (estimate + (value / estimate + 1)) ^ 2 := four_mul_le_sq_add _ _
      _ ≤ (2 * (newtonStep value estimate + 1)) ^ 2 := Nat.pow_le_pow_left sumLe 2
      _ = 4 * ((newtonStep value estimate + 1) * (newtonStep value estimate + 1)) := by ring
  exact Nat.lt_of_mul_lt_mul_left quadrupled

/-- An estimate from which a step goes no lower is not above the root. -/
theorem mul_self_le_of_le_newtonStep (estimatePos : 0 < estimate)
    (stays : estimate ≤ newtonStep value estimate) : estimate * estimate ≤ value := by
  have cofactorGe : estimate ≤ value / estimate := by
    unfold newtonStep at stays
    omega
  exact (Nat.le_div_iff_mul_le estimatePos).1 cofactorGe

/-- From an estimate that covers the root, with a step as the proposal, the descent ends at the
root. -/
theorem descend_eq_sqrt (valuePos : 0 < value) (covers : Covers value estimate)
    (proposed : proposal = newtonStep value estimate) :
    descend value estimate proposal = Nat.sqrt value := by
  fun_induction descend value estimate proposal with
  | case1 estimate proposal lower ih =>
    -- The proposal becomes the estimate, and the next proposal is a step of it.
    exact ih (proposed ▸ covers_newtonStep (covers.pos valuePos)) rfl
  | case2 estimate proposal notLower =>
    have stays : estimate ≤ newtonStep value estimate := proposed ▸ Nat.not_lt.1 notLower
    exact Nat.eq_sqrt.2 ⟨mul_self_le_of_le_newtonStep (covers.pos valuePos) stays, covers⟩

/-- The first proposal covers the root, although it is not a step. -/
theorem covers_half_add_one (value : Nat) : Covers value (value / 2 + 1) := by
  have valueLt : value < 2 * (value / 2 + 1 + 1) := by omega
  exact valueLt.trans_le (Nat.mul_le_mul_right _ (by omega))

theorem ofNat_two : ofNat 2 = 2 := by decide +kernel

theorem ofNat_eq_sqrt (notTwo : value ≠ 2) : ofNat value = Nat.sqrt value := by
  unfold ofNat
  rcases Nat.lt_or_ge value 2 with small | large
  · rw [if_pos small]
    obtain rfl | rfl : value = 0 ∨ value = 1 := by omega
    · exact Nat.sqrt_zero.symm
    · exact Nat.sqrt_one.symm
  · have lower : value / 2 + 1 < value := by omega
    rw [if_neg (Nat.not_lt.2 large), descend, if_pos lower]
    exact descend_eq_sqrt (by omega) (covers_half_add_one value) rfl

end SquareRoot

namespace Word

variable {n : Nat} {a : Unsigned n}

theorem val_eq_toNat (a : Unsigned n) : a.val = a.toNat :=
  (Int.toNat_of_nonneg (unsigned_nonneg a)).symm

theorem sqrt_eq (notTwo : a.val ≠ 2) : a.sqrt.val = Nat.sqrt a.toNat := by
  have notTwoNat : a.toNat ≠ 2 := by
    rw [val_eq_toNat] at notTwo
    exact_mod_cast notTwo
  exact congrArg Nat.cast (SquareRoot.ofNat_eq_sqrt notTwoNat)

theorem sqrt_two (two : a.val = 2) : a.sqrt.val = 2 := by
  have twoNat : a.toNat = 2 := by
    rw [toNat, two]
    rfl
  change (SquareRoot.ofNat a.toNat : Int) = 2
  rw [twoNat, SquareRoot.ofNat_two]
  rfl

/-- The root is the square root, floored, of every word but two. -/
theorem sqrt_floors_iff (a : Unsigned n) :
    a.sqrt.val * a.sqrt.val ≤ a.val ∧ a.val < (a.sqrt.val + 1) * (a.sqrt.val + 1) ↔
      a.val ≠ 2 := by
  constructor
  · intro floored two
    rw [sqrt_two two, two] at floored
    exact absurd floored.1 (by decide)
  · intro notTwo
    rw [sqrt_eq notTwo, val_eq_toNat a]
    exact_mod_cast And.intro (Nat.sqrt_le a.toNat) (Nat.lt_succ_sqrt a.toNat)

/-- Two passes for its own root. -/
theorem sqrt_not_floored :
    ¬ ∀ a : Amount, a.sqrt.val * a.sqrt.val ≤ a.val ∧
      a.val < (a.sqrt.val + 1) * (a.sqrt.val + 1) := by
  intro floored
  have two := (floored (.lit 2)).1
  rw [sqrt_two rfl] at two
  exact absurd two (by decide)

end Word

end Leverage
