import Leverage.Lending.Ledger
import Leverage.Proofs.Lending.AccruedTokens
import Mathlib.Logic.Relation

/-!
# The order of the two indices

A pool whose depositors are not owed more for a scaled unit than its borrowers owe keeps it that way
for as long as interest is only accrued while the deposits cover what is borrowed. Whatever else
happens to the pool in between, ledger entries or new terms, does not matter: `Evolves` lets
everything but the indices change at any time.

A single accrual decides it. Covered borrows are at most fully utilized, so the credit is in force
for no more rate and time than the charge, and it grows the smaller index. The unit by which the
charge is rounded up then keeps the two apart (`growth_cases`).
-/

namespace Leverage.LendingPool

variable {pool earlier later next : LendingPool} {now : Timestamp} {growth holdings : BySide Amount}
  {side : Side} {scaled tokens : Amount}

/-! ## One accrual -/

/-- Where deposits cover what is borrowed and the indices are in order, the index of the deposits
grows by less than that of the borrows, or neither grows for want of use. -/
theorem growth_cases (ordered : pool.index.deposit ≤ pool.index.borrow)
    (held : pool.holdings = .ok holdings) (covered : holdings.borrow ≤ holdings.deposit)
    (accrued : pool.interest now = .ok growth) :
    pool.utilization = .ok 0 ∧ growth = ⟨0, 0⟩ ∨ growth.deposit < growth.borrow := by
  obtain ⟨holdings', utilization, held', used, growths⟩ := interest_cases accrued
  obtain rfl : holdings' = holdings := Except.ok.inj (held'.symm.trans held)
  rcases growths with ⟨unused, none⟩ | ⟨-, rate, borrowTime, depositTime, -, -, -, depositTimeEq,
    chargeEq, creditEq⟩
  · left
    obtain rfl : utilization = 0 := Word.eq_zero_iff.2 unused
    exact ⟨utilization_eq_ok_iff.2 ⟨_, held, used⟩, none⟩
  · right
    have borrowTimeNonneg := Word.unsigned_nonneg borrowTime
    have depositTimeNonneg := Word.unsigned_nonneg depositTime
    have borrowIndexNonneg := Word.unsigned_nonneg pool.index.borrow
    have usedLe := utilization_le_full_of_covered used covered
    have timeLe : depositTime.val ≤ borrowTime.val := by
      rw [depositTimeEq]
      exact Int.ediv_le_of_le_mul Scale.utilization_pos
        (mul_le_mul_of_nonneg_left usedLe borrowTimeNonneg)
    have creditLe : pool.index.deposit.val * depositTime.val / rateYear ≤
        pool.index.borrow.val * borrowTime.val / rateYear :=
      Int.ediv_le_ediv rateYear_pos (mul_le_mul ordered timeLe depositTimeNonneg borrowIndexNonneg)
    rw [Word.lt_iff, creditEq, chargeEq]
    exact Int.lt_add_one_iff.2 creditLe

/-- Interest is brought up to date while the deposits cover what is borrowed. -/
structure Accrues (pool : LendingPool) (growth : BySide Amount) (next : LendingPool) : Prop where
  covered : ∃ holdings, pool.holdings = .ok holdings ∧ holdings.borrow ≤ holdings.deposit
  accrued : ∃ now, pool.accrue now = .ok (growth, next)

namespace Accrues

theorem growth_cases (accrues : pool.Accrues growth next)
    (ordered : pool.index.deposit ≤ pool.index.borrow) :
    pool.utilization = .ok 0 ∧ growth = ⟨0, 0⟩ ∨ growth.deposit < growth.borrow := by
  obtain ⟨holdings, held, covered⟩ := accrues.covered
  obtain ⟨now, accrued⟩ := accrues.accrued
  exact LendingPool.growth_cases ordered held covered (accrue_cases accrued).1

theorem index_eq (accrues : pool.Accrues growth next) (side : Side) :
    (next.index.get side).val = (pool.index.get side).val + (growth.get side).val := by
  obtain ⟨now, accrued⟩ := accrues.accrued
  exact (accrue_cases accrued).2.2 side

end Accrues

/-! ## Steps and runs -/

/-- What happens to a pool in one step: interest is accrued, or anything but the indices changes. -/
inductive Evolves (pool : LendingPool) : LendingPool → Prop
  | accrues {growth : BySide Amount} {next : LendingPool} (accrues : pool.Accrues growth next) :
    Evolves pool next
  | changes {next : LendingPool} (kept : next.index = pool.index) : Evolves pool next

/-- What becomes of a pool in any number of steps. -/
abbrev Reaches : LendingPool → LendingPool → Prop :=
  Relation.ReflTransGen Evolves

namespace Evolves

/-- Ledger entries are among the changes. -/
theorem of_post (posted : pool.post side tokens = .ok (scaled, next)) : pool.Evolves next := by
  simp only [post, Checked.bind_eq_ok_iff, Checked.pure_eq_ok_iff, Prod.mk.injEq] at posted
  obtain ⟨_, -, total, -, -, rfl⟩ := posted
  exact .changes rfl

theorem of_release (released : pool.release side tokens = .ok (scaled, next)) :
    pool.Evolves next := by
  simp only [release, Checked.bind_eq_ok_iff, Checked.pure_eq_ok_iff, Prod.mk.injEq] at released
  obtain ⟨_, -, total, -, -, rfl⟩ := released
  exact .changes rfl

theorem index_le (evolves : pool.Evolves next) (side : Side) :
    pool.index.get side ≤ next.index.get side := by
  cases evolves with
  | @accrues growth _ accrues =>
    rw [Word.le_iff, accrues.index_eq]
    exact le_add_of_nonneg_right (Word.unsigned_nonneg _)
  | changes kept =>
    rw [kept]
    exact le_refl (pool.index.get side).val

theorem ordered (evolves : pool.Evolves next)
    (ordered : pool.index.deposit ≤ pool.index.borrow) :
    next.index.deposit ≤ next.index.borrow := by
  cases evolves with
  | @accrues growth _ accrues =>
    have growthLe : growth.deposit.val ≤ growth.borrow.val := by
      rcases accrues.growth_cases ordered with ⟨-, rfl⟩ | lt
      · exact le_refl _
      · exact le_of_lt lt
    have depositEq := accrues.index_eq .deposit
    have borrowEq := accrues.index_eq .borrow
    calc next.index.deposit.val
        = pool.index.deposit.val + growth.deposit.val := depositEq
      _ ≤ pool.index.borrow.val + growth.borrow.val := add_le_add ordered growthLe
      _ = next.index.borrow.val := borrowEq.symm
  | changes kept => rwa [kept]

end Evolves

namespace Reaches

theorem index_le (reaches : pool.Reaches later) (side : Side) :
    pool.index.get side ≤ later.index.get side := by
  induction reaches with
  | refl => exact le_refl (pool.index.get side).val
  | tail _ evolves ih => exact Int.le_trans ih (evolves.index_le side)

theorem ordered (reaches : pool.Reaches later)
    (ordered : pool.index.deposit ≤ pool.index.borrow) :
    later.index.deposit ≤ later.index.borrow := by
  induction reaches with
  | refl => exact ordered
  | tail _ evolves ih => exact evolves.ordered ih

end Reaches

/-- From indices in order on, at every point of every run: they are in order, neither has fallen
since any earlier point, and if interest is accrued there on a pool in use, the index of the deposits
grows by less than that of the borrows. -/
theorem indices_stay_ordered (ordered : pool.index.deposit ≤ pool.index.borrow)
    (past : pool.Reaches earlier) (since : earlier.Reaches later) :
    later.index.deposit ≤ later.index.borrow ∧
      (∀ side, earlier.index.get side ≤ later.index.get side) ∧
      ∀ growth next, later.Accrues growth next → later.utilization ≠ .ok 0 →
        growth.deposit < growth.borrow := by
  have laterOrdered := since.ordered (past.ordered ordered)
  refine ⟨laterOrdered, since.index_le, ?_⟩
  intro growth next accrues inUse
  rcases accrues.growth_cases laterOrdered with ⟨unused, -⟩ | lt
  · exact absurd unused inUse
  · exact lt

/-- The pool past the kink a day later, that pool after a further loan of 50000, and the pool another
day later. -/
def lentPoolAfterDay : LendingPool :=
  { lentPool with index := ⟨.lit 10318661085, .lit 10720734464⟩, accruedAt := Scale.day }

@[inherit_doc lentPoolAfterDay] def lentPoolAfterLoan : LendingPool :=
  { lentPoolAfterDay with scaled := ⟨.lit 1000003, .lit 946646⟩ }

@[inherit_doc lentPoolAfterDay] def lentPoolAfterTwoDays : LendingPool :=
  { lentPoolAfterLoan with
    index := ⟨.lit 10344404867, .lit 10747929296⟩, accruedAt := .lit 172800 }

theorem indices_stay_ordered_of_lentPool :
    lentPool.Reaches lentPoolAfterDay ∧ lentPoolAfterDay.Reaches lentPoolAfterLoan ∧
      lentPoolAfterLoan.Accrues ⟨.lit 25743782, .lit 27194832⟩ lentPoolAfterTwoDays ∧
      lentPoolAfterLoan.utilization ≠ .ok 0 ∧
      (10318661085 : Int) ≤ 10720734464 ∧
      (∀ side, lentPoolAfterDay.index.get side ≤ lentPoolAfterLoan.index.get side) ∧
      (25743782 : Int) < 27194832 := by
  have firstDay : lentPool.Accrues ⟨.lit 18661084, .lit 20734461⟩ lentPoolAfterDay :=
    ⟨⟨_, rfl, by decide⟩, Scale.day, rfl⟩
  have loan : lentPoolAfterDay.post .borrow (.lit 50000) = .ok (.lit 46639, lentPoolAfterLoan) := rfl
  have secondDay : lentPoolAfterLoan.Accrues ⟨.lit 25743782, .lit 27194832⟩ lentPoolAfterTwoDays :=
    ⟨⟨_, rfl, by decide⟩, .lit 172800, rfl⟩
  have inUse : lentPoolAfterLoan.utilization ≠ .ok 0 := by decide
  have past : lentPool.Reaches lentPoolAfterDay := .single (.accrues firstDay)
  have since : lentPoolAfterDay.Reaches lentPoolAfterLoan := .single (.of_post loan)
  obtain ⟨ordered, kept, growthLt⟩ := indices_stay_ordered (by decide) past since
  exact ⟨past, since, secondDay, inUse, ordered, kept, growthLt _ _ secondDay inUse⟩

end Leverage.LendingPool
