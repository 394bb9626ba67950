import Leverage.Proofs.Lending.Conversion
import Mathlib.Algebra.BigOperators.Group.List.Basic
import Mathlib.Tactic.Ring

/-!
# Positions and the total of their pool

A pool keeps one scaled total for each side, and what it holds is the floor of that total's worth.
Its holders read their own positions, each with a floor of its own.

`exists_tokensEach_of_fits` shows that no position fails to convert where the total converts, and
`tokensTotal_bounds` adds up the floors of a list of positions. `tokensEach_within_pool` holds both
against the tokens of the pool: they cover what the holders read, and are left over by less than one
unit a holder.
-/

namespace Leverage

namespace PoolPosition

/-- What a list of positions comes to in scaled units. -/
def scaledTotal (positions : List PoolPosition) : Int :=
  (positions.map fun position => position.scaled.val).sum

/-- The tokens of each of a list of positions. -/
def tokensEach (positions : List PoolPosition) (pool : LendingPool) : Checked (List Amount) :=
  positions.mapM fun position => position.tokens pool

/-- What a list of amounts comes to. -/
def tokensTotal (amounts : List Amount) : Int := (amounts.map Word.val).sum

@[simp] theorem scaledTotal_nil : scaledTotal [] = 0 := rfl

@[simp] theorem scaledTotal_cons (position : PoolPosition) (positions : List PoolPosition) :
    scaledTotal (position :: positions) = position.scaled.val + scaledTotal positions :=
  List.sum_cons

@[simp] theorem tokensTotal_nil : tokensTotal [] = 0 := rfl

@[simp] theorem tokensTotal_cons (amount : Amount) (amounts : List Amount) :
    tokensTotal (amount :: amounts) = amount.val + tokensTotal amounts :=
  List.sum_cons

theorem scaledTotal_nonneg (positions : List PoolPosition) : 0 ≤ scaledTotal positions := by
  induction positions with
  | nil => exact le_rfl
  | cons position positions ih =>
    rw [scaledTotal_cons]
    exact add_nonneg (Word.unsigned_nonneg position.scaled) ih

variable {pool : LendingPool} {side : Side} {position : PoolPosition}
  {positions : List PoolPosition} {amounts : List Amount} {amount : Amount}

theorem tokensEach_cons_eq_ok_iff :
    tokensEach (position :: positions) pool = .ok amounts ↔
      ∃ own rest, position.tokens pool = .ok own ∧ tokensEach positions pool = .ok rest ∧
        own :: rest = amounts := by
  simp only [tokensEach, List.mapM_cons, Checked.bind_eq_ok_iff, Checked.pure_eq_ok_iff]
  constructor
  · intro read
    rcases read with ⟨own, ownEq, rest, restEq, amountsEq⟩
    exact ⟨own, rest, ownEq, restEq, amountsEq⟩
  · intro read
    rcases read with ⟨own, rest, ownEq, restEq, amountsEq⟩
    exact ⟨own, ownEq, rest, restEq, amountsEq⟩

/-! ## No position fails where the total does not -/

/-- Positions whose total fits into a word at the index of their side all convert. -/
theorem exists_tokensEach_of_fits (small : pool.decimals.toNat ≤ Scale.balanceDecimals)
    (oneSided : ∀ position ∈ positions, position.side = side)
    (fits : scaledTotal positions * (pool.index.get side).val < 2 ^ 128) :
    ∃ amounts, tokensEach positions pool = .ok amounts := by
  induction positions with
  | nil => exact ⟨[], rfl⟩
  | cons position positions ih =>
    -- Neither part of the total is worth more than the total.
    have indexNonneg := Word.unsigned_nonneg (pool.index.get side)
    have ownWorthNonneg := mul_nonneg (Word.unsigned_nonneg position.scaled) indexNonneg
    have restWorthNonneg := mul_nonneg (scaledTotal_nonneg positions) indexNonneg
    rw [scaledTotal_cons, add_mul] at fits
    have ownFits : position.scaled.val * (pool.index.get side).val < 2 ^ 128 := by omega
    have restFits : scaledTotal positions * (pool.index.get side).val < 2 ^ 128 := by omega
    rw [← oneSided position List.mem_cons_self] at ownFits
    obtain ⟨own, ownEq⟩ := LendingPool.exists_tokensOfScaled_eq_ok_iff.2 ⟨small, ownFits⟩
    obtain ⟨rest, restEq⟩ :=
      ih (fun other among => oneSided other (List.mem_cons_of_mem _ among)) restFits
    exact ⟨own :: rest, tokensEach_cons_eq_ok_iff.2 ⟨own, rest, ownEq, restEq, rfl⟩⟩

/-! ## The floors of many positions -/

/-- The tokens of a list of positions are worth no more than the positions, and fall short of their
worth by less than one unit each. -/
theorem tokensTotal_bounds (read : tokensEach positions pool = .ok amounts)
    (oneSided : ∀ position ∈ positions, position.side = side) :
    tokensTotal amounts * pool.lift ≤ scaledTotal positions * (pool.index.get side).val ∧
      scaledTotal positions * (pool.index.get side).val + positions.length ≤
        (tokensTotal amounts + positions.length) * pool.lift := by
  induction positions generalizing amounts with
  | nil =>
    cases Checked.pure_eq_ok_iff.1 read
    simp
  | cons position positions ih =>
    rcases tokensEach_cons_eq_ok_iff.1 read with ⟨own, rest, ownEq, restEq, rfl⟩
    have sideEq := oneSided position List.mem_cons_self
    obtain ⟨restLe, leRest⟩ :=
      ih restEq fun other among => oneSided other (List.mem_cons_of_mem _ among)
    have ownLe := LendingPool.tokens_mul_lift_le ownEq
    have leOwn := LendingPool.lt_tokens_add_one_mul_lift ownEq
    rw [sideEq] at ownLe leOwn
    rw [scaledTotal_cons, tokensTotal_cons, List.length_cons, Nat.cast_succ]
    constructor
    · calc (own.val + tokensTotal rest) * pool.lift
          = own.val * pool.lift + tokensTotal rest * pool.lift := by ring
        _ ≤ position.scaled.val * (pool.index.get side).val +
              scaledTotal positions * (pool.index.get side).val := add_le_add ownLe restLe
        _ = (position.scaled.val + scaledTotal positions) * (pool.index.get side).val := by ring
    · calc (position.scaled.val + scaledTotal positions) * (pool.index.get side).val +
            (positions.length + 1)
          = position.scaled.val * (pool.index.get side).val + 1 +
              (scaledTotal positions * (pool.index.get side).val + positions.length) := by ring
        _ ≤ (own.val + 1) * pool.lift +
              (tokensTotal rest + positions.length) * pool.lift := add_le_add leOwn leRest
        _ = (own.val + tokensTotal rest + (positions.length + 1)) * pool.lift := by ring

end PoolPosition

/-! ## Holders and their pool -/

namespace LendingPool

open PoolPosition

/-- The positions are those of all holders on one side: their scaled balances add up to its total. -/
structure MadeUpOf (pool : LendingPool) (side : Side) (positions : List PoolPosition) : Prop where
  oneSided : ∀ position ∈ positions, position.side = side
  total_eq : scaledTotal positions = (pool.scaled.get side).val

variable {pool : LendingPool} {side : Side} {positions : List PoolPosition} {total : Amount}

/-- Where the tokens of a side can be read at all, every holder can read theirs. What the holders
read is covered by what the pool holds, which is more by less than one unit a holder. -/
theorem tokensEach_within_pool (madeUp : pool.MadeUpOf side positions)
    (held : pool.tokens side = .ok total) :
    ∃ amounts, tokensEach positions pool = .ok amounts ∧ tokensTotal amounts ≤ total.val ∧
      (positions ≠ [] → total.val - tokensTotal amounts < positions.length) := by
  have liftPos := pool.lift_pos
  obtain ⟨small, fits, -⟩ := tokensOfScaled_eq_ok_iff.1 held
  have totalLe := tokens_mul_lift_le held
  have leTotal := lt_tokens_add_one_mul_lift held
  rw [← madeUp.total_eq] at fits totalLe leTotal
  obtain ⟨amounts, read⟩ := exists_tokensEach_of_fits small madeUp.oneSided fits
  obtain ⟨amountsLe, leAmounts⟩ := tokensTotal_bounds read madeUp.oneSided
  refine ⟨amounts, read, ?_, ?_⟩
  · have below : tokensTotal amounts * pool.lift < (total.val + 1) * pool.lift :=
      lt_of_le_of_lt amountsLe leTotal
    exact Int.lt_add_one_iff.1 (lt_of_mul_lt_mul_right below liftPos.le)
  · intro someone
    have lengthPos : 0 < positions.length := List.length_pos_iff.2 someone
    have below : total.val * pool.lift < (tokensTotal amounts + positions.length) * pool.lift := by
      omega
    have totalLt := lt_of_mul_lt_mul_right below liftPos.le
    omega

/-- Three holders of one scaled unit each at an index of five thirds, so that the floors of their
positions add up to a whole unit for each but one of them. -/
def sharedPool : LendingPool where
  index := ⟨.lit 16666666667, Scale.index⟩
  scaled := ⟨.lit 3, 0⟩

def sharedPositions : List PoolPosition := List.replicate 3 { scaled := .lit 1 }

theorem tokensEach_within_sharedPool :
    sharedPool.tokens .deposit = .ok (.lit 5) ∧
      sharedPool.MadeUpOf .deposit sharedPositions ∧
      ∃ amounts, tokensEach sharedPositions sharedPool = .ok amounts ∧ tokensTotal amounts ≤ 5 ∧
        (sharedPositions ≠ [] → 5 - tokensTotal amounts < sharedPositions.length) := by
  have madeUp : sharedPool.MadeUpOf .deposit sharedPositions := ⟨by decide, by decide⟩
  exact ⟨rfl, madeUp, @tokensEach_within_pool sharedPool .deposit sharedPositions (.lit 5) madeUp rfl⟩

end LendingPool

end Leverage
