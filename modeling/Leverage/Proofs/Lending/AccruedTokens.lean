import Leverage.Proofs.Lending.Accrual
import Mathlib.Tactic.GCongr
import Mathlib.Tactic.Linarith
import Mathlib.Tactic.Ring

/-!
# Tokens earned and paid

What an accrual does to the tokens on both sides of a pool.

The tokens of a side are a floor before and after, and `tokens_growth_eq` says exactly by how much
they move: the part of a token unit that the first floor left out counts along with the interest.
`tokensOfInterest_accurate` sets that against the interest converted on its own, which misses the part
left out and so at most a unit.

In scaled units the charge covers the credit, but for the factor by which flooring the deposits
raises the utilization. `earned_le_paid` puts both together. Where the deposits come to whole tokens
their floor leaves nothing out, and depositors earn no more than borrowers pay; `earned_exceeds_paid`
is a pool in which they earn twice as much.
-/

namespace Leverage.LendingPool

variable {pool next : LendingPool} {now : Timestamp} {growth before after : BySide Amount}
  {side : Side} {scaled tokens tokensAfter : Amount}

/-! ## What an index that grows adds -/

/-- The tokens of a balance grow by its interest and by what their floor had left out. -/
theorem tokens_growth_eq {added : Int} (liftEq : next.lift = pool.lift)
    (grown : (next.index.get side).val = (pool.index.get side).val + added)
    (converted : pool.tokensOfScaled side scaled = .ok tokens)
    (convertedAfter : next.tokensOfScaled side scaled = .ok tokensAfter) :
    tokensAfter.val - tokens.val =
      (scaled.val * (pool.index.get side).val % pool.lift + scaled.val * added) / pool.lift := by
  have tokensEq := (tokensOfScaled_eq_ok_iff.1 converted).2.2
  have afterEq := (tokensOfScaled_eq_ok_iff.1 convertedAfter).2.2
  rw [grown, liftEq, mul_add] at afterEq
  generalize scaled.val * (pool.index.get side).val = worth at *
  have split : worth + scaled.val * added =
      worth % pool.lift + scaled.val * added + pool.lift * (worth / pool.lift) := by
    have parts := Int.emod_add_mul_ediv worth pool.lift
    linarith
  rw [afterEq, tokensEq, split, Int.add_mul_ediv_left _ _ pool.lift_pos.ne', add_sub_cancel_right]

/-- The pool with another index on one side, and the same in all else. -/
def withIndex (pool : LendingPool) (side : Side) (index : Amount) : LendingPool :=
  { pool with index := pool.index.set side index }

@[simp] theorem withIndex_decimals (pool : LendingPool) (side : Side) (index : Amount) :
    (pool.withIndex side index).decimals = pool.decimals := rfl

@[simp] theorem withIndex_lift (pool : LendingPool) (side : Side) (index : Amount) :
    (pool.withIndex side index).lift = pool.lift := rfl

@[simp] theorem withIndex_index_get (pool : LendingPool) (side : Side) (index : Amount) :
    (pool.withIndex side index).index.get side = index :=
  pool.index.get_set_self side index

/-- Where a balance can be read after its index has grown, it can be read before, and so can the
interest on it. The two readings differ by what the interest comes to on its own, or by one unit more
where the parts that the two floors leave out come to a unit. -/
theorem tokensOfInterest_accurate {interest index : Amount}
    (grown : (pool.index.get side).add interest = .ok index)
    (convertedAfter : (pool.withIndex side index).tokensOfScaled side scaled = .ok tokensAfter) :
    ∃ tokens earned, pool.tokensOfScaled side scaled = .ok tokens ∧
      pool.tokensOfInterest scaled interest = .ok earned ∧
      (tokensAfter.val - tokens.val = earned.val ∨ tokensAfter.val - tokens.val = earned.val + 1) ∧
      (tokensAfter.val - tokens.val = earned.val + 1 ↔
        pool.lift ≤ scaled.val * (pool.index.get side).val % pool.lift +
          scaled.val * interest.val % pool.lift) := by
  rw [tokensOfScaled_eq_ok_iff, withIndex_decimals, withIndex_lift, withIndex_index_get,
    Word.add_eq_ok_iff.1 grown, mul_add] at convertedAfter
  rcases convertedAfter with ⟨small, fits, afterEq⟩
  -- Neither part of the worth is more than the worth.
  have worthNonneg := mul_nonneg (Word.unsigned_nonneg scaled)
    (Word.unsigned_nonneg (pool.index.get side))
  have interestNonneg := mul_nonneg (Word.unsigned_nonneg scaled) (Word.unsigned_nonneg interest)
  obtain ⟨tokens, converted⟩ :=
    exists_tokensOfScaled_eq_ok_iff.2 ⟨small, (le_add_of_nonneg_right interestNonneg).trans_lt fits⟩
  obtain ⟨earned, earns⟩ :=
    exists_tokensOfInterest_eq_ok_iff.2 ⟨small, (le_add_of_nonneg_left worthNonneg).trans_lt fits⟩
  refine ⟨tokens, earned, converted, earns, ?_⟩
  rw [add_ediv_of_pos pool.lift_pos, ← (tokensOfScaled_eq_ok_iff.1 converted).2.2,
    ← (tokensOfInterest_eq_ok_iff.1 earns).2.2] at afterEq
  split at afterEq
  · next carried => exact ⟨by omega, iff_of_true (by omega) carried⟩
  · next leftOut => exact ⟨by omega, iff_of_false (by omega) leftOut⟩

/-- A loan on which the two floors together leave out a unit. -/
theorem tokensOfInterest_accurate_of_lentPool :
    (lentPool.index.get .borrow).add (.lit 20740000) = .ok (.lit 10720740003) ∧
      (lentPool.withIndex .borrow (.lit 10720740003)).tokensOfScaled .borrow (.lit 900007) =
        .ok (.lit 964874) ∧
      ∃ tokens earned, lentPool.tokensOfScaled .borrow (.lit 900007) = .ok tokens ∧
        lentPool.tokensOfInterest (.lit 900007) (.lit 20740000) = .ok earned ∧
        (964874 - tokens.val = earned.val ∨ 964874 - tokens.val = earned.val + 1) ∧
        (964874 - tokens.val = earned.val + 1 ↔
          lentPool.lift ≤ 900007 * (lentPool.index.get .borrow).val % lentPool.lift +
            900007 * 20740000 % lentPool.lift) := by
  have grown : (lentPool.index.get .borrow).add (.lit 20740000) = .ok (.lit 10720740003) := rfl
  have convertedAfter : (lentPool.withIndex .borrow (.lit 10720740003)).tokensOfScaled .borrow
      (.lit 900007) = .ok (.lit 964874) := rfl
  exact ⟨grown, convertedAfter, tokensOfInterest_accurate grown convertedAfter⟩

theorem accrue_cases (accrued : pool.accrue now = .ok (growth, next)) :
    pool.interest now = .ok growth ∧
      next = { pool with index := next.index, accruedAt := now } ∧
      ∀ side, (next.index.get side).val = (pool.index.get side).val + (growth.get side).val := by
  simp only [accrue, Checked.bind_eq_ok_iff, Checked.pure_eq_ok_iff, Word.add_eq_ok_iff,
    Prod.mk.injEq] at accrued
  rcases accrued with ⟨growth, grown, deposit, depositEq, borrow, borrowEq, rfl, rfl⟩
  refine ⟨grown, rfl, ?_⟩
  intro side
  cases side with
  | deposit => exact depositEq
  | borrow => exact borrowEq

/-- The tokens on a side of a pool grow by the interest of that side and by what their floor had
left out. -/
theorem accrue_tokens_eq (accrued : pool.accrue now = .ok (growth, next))
    (held : pool.tokens side = .ok tokens) (heldAfter : next.tokens side = .ok tokensAfter) :
    tokensAfter.val - tokens.val =
      ((pool.scaled.get side).val * (pool.index.get side).val % pool.lift +
        (pool.scaled.get side).val * (growth.get side).val) / pool.lift := by
  obtain ⟨-, nextEq, grown⟩ := accrue_cases accrued
  have liftEq : next.lift = pool.lift := by
    rw [nextEq]
    rfl
  have scaledEq : next.scaled = pool.scaled := by rw [nextEq]
  rw [LendingPool.tokens, scaledEq] at heldAfter
  exact tokens_growth_eq liftEq (grown side) held heldAfter

/-- The part left out is less than a unit, so that the tokens grow by the interest to within one. -/
theorem accrue_tokens_bounds (accrued : pool.accrue now = .ok (growth, next))
    (held : pool.tokens side = .ok tokens) (heldAfter : next.tokens side = .ok tokensAfter) :
    (tokensAfter.val - tokens.val - 1) * pool.lift <
        (pool.scaled.get side).val * (growth.get side).val ∧
      (pool.scaled.get side).val * (growth.get side).val <
        (tokensAfter.val - tokens.val + 1) * pool.lift := by
  have liftPos := pool.lift_pos
  rw [accrue_tokens_eq accrued held heldAfter]
  have leftOutNonneg := Int.emod_nonneg
    ((pool.scaled.get side).val * (pool.index.get side).val) liftPos.ne'
  have leftOutLt := Int.emod_lt_of_pos
    ((pool.scaled.get side).val * (pool.index.get side).val) liftPos
  generalize (pool.scaled.get side).val * (pool.index.get side).val % pool.lift = leftOut at *
  generalize (pool.scaled.get side).val * (growth.get side).val = interest at *
  have floorLe := Int.ediv_mul_le (leftOut + interest) liftPos.ne'
  have ltFloor := Int.lt_ediv_add_one_mul_self (leftOut + interest) liftPos
  constructor
  · linarith
  · linarith

/-- A side that comes to whole tokens grows by no more than its interest. -/
theorem accrue_tokens_le_of_whole (accrued : pool.accrue now = .ok (growth, next))
    (held : pool.tokens side = .ok tokens) (heldAfter : next.tokens side = .ok tokensAfter)
    (whole : pool.lift ∣ (pool.scaled.get side).val * (pool.index.get side).val) :
    (tokensAfter.val - tokens.val) * pool.lift ≤
      (pool.scaled.get side).val * (growth.get side).val := by
  rw [accrue_tokens_eq accrued held heldAfter, Int.emod_eq_zero_of_dvd whole, zero_add]
  exact Int.ediv_mul_le _ pool.lift_pos.ne'

/-! ## Credit against charge -/

/-- The credit against the charge for every pool; deposits of no whole token count as one. -/
theorem credit_mul_max_le (accrued : pool.interest now = .ok growth)
    (held : pool.tokens .deposit = .ok tokens) :
    pool.scaled.deposit.val * growth.deposit.val * max tokens.val 1 ≤
      pool.scaled.borrow.val * growth.borrow.val * (tokens.val + 1) := by
  obtain ⟨holdings, utilization, heldBoth, used, -⟩ := interest_cases accrued
  have heldDeposit := (holdings_eq_ok_iff.1 heldBoth).1
  obtain rfl : holdings.deposit = tokens := Except.ok.inj (heldDeposit.symm.trans held)
  have worthLt := lt_tokens_add_one_mul_lift heldDeposit
  have depositNonneg := Word.unsigned_nonneg holdings.deposit
  exact credit_mul_le_charge_mul_of_bounds accrued heldBoth used (by omega) (by omega)
    (utilization_mul_max_deposit_le used) worthLt.le

/-- Deposits that come to whole tokens are credited with no more than borrowers are charged. -/
theorem credit_le_charge_of_whole (accrued : pool.interest now = .ok growth)
    (whole : pool.lift ∣ pool.scaled.deposit.val * pool.index.deposit.val) :
    pool.scaled.deposit.val * growth.deposit.val ≤
      pool.scaled.borrow.val * growth.borrow.val := by
  obtain ⟨holdings, utilization, heldBoth, used, -⟩ := interest_cases accrued
  have liftNonneg := pool.lift_pos.le
  have maxPos : 0 < max holdings.deposit.val 1 := lt_max_of_lt_right zero_lt_one
  have tokensEq := (tokensOfScaled_eq_ok_iff.1 (holdings_eq_ok_iff.1 heldBoth).1).2.2
  have worthLe : pool.scaled.deposit.val * pool.index.deposit.val ≤
      max holdings.deposit.val 1 * pool.lift := by
    calc pool.scaled.deposit.val * pool.index.deposit.val
        = holdings.deposit.val * pool.lift := by
          rw [tokensEq]
          exact (Int.ediv_mul_cancel whole).symm
      _ ≤ max holdings.deposit.val 1 * pool.lift := by
          gcongr
          exact le_max_left _ _
  refine le_of_mul_le_mul_right ?_ maxPos
  exact credit_mul_le_charge_mul_of_bounds accrued heldBoth used maxPos.le maxPos.le
    (utilization_mul_max_deposit_le used) worthLe

/-! ## Earned against paid -/

/-- One side grows by less than a unit beyond its credit and the other by less than a unit short of
its charge. -/
private theorem earned_le_of_backed {earned paid credit charge deposits lift : Int}
    (liftPos : 0 < lift) (depositsNonneg : 0 ≤ deposits)
    (earnedLt : (earned - 1) * lift < credit) (ltPaid : charge < (paid + 1) * lift)
    (backed : credit * max deposits 1 ≤ charge * (deposits + 1)) :
    earned ≤ paid + paid / deposits + 2 := by
  have maxPos : 0 < max deposits 1 := lt_max_of_lt_right zero_lt_one
  have cleared : (earned - 1) * max deposits 1 < (paid + 1) * (deposits + 1) := by
    refine lt_of_mul_lt_mul_right ?_ liftPos.le
    calc (earned - 1) * max deposits 1 * lift
        = (earned - 1) * lift * max deposits 1 := by ring
      _ < credit * max deposits 1 := by gcongr
      _ ≤ charge * (deposits + 1) := backed
      _ ≤ (paid + 1) * lift * (deposits + 1) := by gcongr
      _ = (paid + 1) * (deposits + 1) * lift := by ring
  rcases eq_or_ne deposits 0 with empty | filled
  · rw [empty, max_eq_right zero_le_one] at cleared
    rw [empty, Int.ediv_zero]
    linarith
  · rw [max_eq_left (by omega)] at cleared
    have share : earned - paid - 2 ≤ paid / deposits := by
      rw [Int.le_ediv_iff_mul_le (by omega)]
      linarith
    linarith

/-- What depositors earn by an accrual is at most what borrowers pay, and that divided by the
deposited tokens, and two units. Where the deposits come to whole tokens it is at most what borrowers
pay. -/
theorem earned_le_paid (accrued : pool.accrue now = .ok (growth, next))
    (held : pool.holdings = .ok before) (heldAfter : next.holdings = .ok after) :
    after.deposit.val - before.deposit.val ≤
        (after.borrow.val - before.borrow.val) +
          (after.borrow.val - before.borrow.val) / before.deposit.val + 2 ∧
      (pool.lift ∣ pool.scaled.deposit.val * pool.index.deposit.val →
        after.deposit.val - before.deposit.val ≤ after.borrow.val - before.borrow.val) := by
  have liftPos := pool.lift_pos
  obtain ⟨grown, -⟩ := accrue_cases accrued
  obtain ⟨heldDeposit, heldBorrow⟩ := holdings_eq_ok_iff.1 held
  obtain ⟨heldDepositAfter, heldBorrowAfter⟩ := holdings_eq_ok_iff.1 heldAfter
  have ltCredit := (accrue_tokens_bounds accrued heldDeposit heldDepositAfter).1
  have chargeLt := (accrue_tokens_bounds accrued heldBorrow heldBorrowAfter).2
  constructor
  · exact earned_le_of_backed liftPos (Word.unsigned_nonneg _) ltCredit chargeLt
      (credit_mul_max_le grown heldDeposit)
  · intro whole
    have below := calc (after.deposit.val - before.deposit.val) * pool.lift
        ≤ pool.scaled.deposit.val * growth.deposit.val :=
          accrue_tokens_le_of_whole accrued heldDeposit heldDepositAfter whole
      _ ≤ pool.scaled.borrow.val * growth.borrow.val := credit_le_charge_of_whole grown whole
      _ < (after.borrow.val - before.borrow.val + 1) * pool.lift := chargeLt
    exact Int.lt_add_one_iff.1 (lt_of_mul_lt_mul_right below liftPos.le)

/-- A pool whose deposits come to whole tokens and whose borrows do not, and the same pool a day
later. -/
def wholePool : LendingPool where
  index := ⟨Scale.index, .lit 10700000003⟩
  scaled := ⟨.lit 1000003, .lit 900007⟩
  curve := ⟨.lit 800000, .lit 100000, .lit 1000000⟩

@[inherit_doc wholePool] def wholePoolAfterDay : LendingPool :=
  { wholePool with index := ⟨.lit 10021991264, .lit 10724434641⟩, accruedAt := Scale.day }

theorem earned_le_paid_of_wholePool :
    wholePool.accrue Scale.day = .ok (⟨.lit 21991264, .lit 24434638⟩, wholePoolAfterDay) ∧
      wholePool.holdings = .ok ⟨.lit 1000003, .lit 963007⟩ ∧
      wholePoolAfterDay.holdings = .ok ⟨.lit 1002202, .lit 965206⟩ ∧
      (1002202 : Int) - 1000003 ≤ (965206 - 963007) + (965206 - 963007) / 1000003 + 2 ∧
      (1002202 : Int) - 1000003 ≤ 965206 - 963007 := by
  have accrued : wholePool.accrue Scale.day =
      .ok (⟨.lit 21991264, .lit 24434638⟩, wholePoolAfterDay) := rfl
  have held : wholePool.holdings = .ok ⟨.lit 1000003, .lit 963007⟩ := rfl
  have heldAfter : wholePoolAfterDay.holdings = .ok ⟨.lit 1002202, .lit 965206⟩ := rfl
  obtain ⟨earnedLe, ofWhole⟩ := earned_le_paid accrued held heldAfter
  exact ⟨accrued, held, heldAfter, earnedLe, ofWhole (by decide)⟩

/-- A pool of a token without decimals, with two deposits of one token and a loan of one, and the
same pool a year later. The deposits are short of two whole tokens, so that the pool counts as lent
in full. -/
def coarsePool : LendingPool where
  decimals := 0
  index := ⟨.lit 10000000001, Scale.index⟩
  scaled := ⟨.lit 1999998, .lit 1000001⟩
  curve := ⟨.lit 800000, .lit 100000, .lit 1000000⟩

@[inherit_doc coarsePool] def coarsePoolAfterYear : LendingPool :=
  { coarsePool with
    index := ⟨.lit 20000000002, .lit 20000000001⟩, accruedAt := .lit 31536000 }

/-- In that year the borrower pays one token and the depositors earn two. -/
theorem earned_exceeds_paid :
    ¬ ∀ (pool next : LendingPool) (now : Timestamp) (growth before after : BySide Amount),
      before.borrow.val ≤ before.deposit.val → pool.accruedAt.val ≤ now.val →
      pool.accrue now = .ok (growth, next) →
      pool.holdings = .ok before → next.holdings = .ok after →
      after.deposit.val - before.deposit.val ≤ after.borrow.val - before.borrow.val := by
  intro covered
  have accrued : coarsePool.accrue (.lit 31536000) =
      .ok (⟨.lit 10000000001, .lit 10000000001⟩, coarsePoolAfterYear) := rfl
  have held : coarsePool.holdings = .ok ⟨.lit 1, .lit 1⟩ := rfl
  have heldAfter : coarsePoolAfterYear.holdings = .ok ⟨.lit 3, .lit 2⟩ := rfl
  have earnedLe := covered _ _ _ _ _ _ (by decide) (by decide) accrued held heldAfter
  exact absurd earnedLe (by decide)

end Leverage.LendingPool
