import Leverage.Proofs.Lending.Conversion

/-!
# From tokens to a scaled balance and back

What is left of an amount of tokens that is posted as a scaled balance and then read back at the
same index.

A borrowed amount is rounded up by one scaled unit, except where its floor is zero.
`borrowed_le_owed_iff` says what that means for the debt: it covers the amount exactly when the
amount is zero or comes to a whole scaled unit. `borrowed_dust_owes_nothing` is an amount that does
not.

Both floors of a round trip are the same two divisions, whichever unit it starts from, so
`ediv_back_bounds` bounds what is lost from tokens to tokens and from scaled units to scaled units.
`roundTrips_bounded` holds these bounds against the conversions: a round trip of a deposit always
returns, creates nothing and loses little, and a round trip of a debt adds little.
-/

namespace Leverage.LendingPool

variable {pool : LendingPool} {tokens scaled owed : Amount}

/-- One scaled unit beyond the floor suffices, whatever the lift and the index are: it is worth more
than what the floor left out. -/
theorem borrowed_le_owed_of_index_le
    (posted : pool.scaledOfTokens .borrow tokens = .ok scaled)
    (owes : pool.tokensOfScaled .borrow scaled = .ok owed)
    (whole : (pool.index.get .borrow).val ≤ tokens.val * pool.lift) :
    tokens.val ≤ owed.val := by
  obtain ⟨-, -, nonzero, scaledEq⟩ := scaledOfTokens_eq_ok_iff.1 posted
  have indexPos : 0 < (pool.index.get .borrow).val :=
    lt_of_le_of_ne (Word.unsigned_nonneg _) nonzero.symm
  have flooredPos : 0 < tokens.val * pool.lift / (pool.index.get .borrow).val := by
    rw [← Int.add_one_le_iff, zero_add, Int.le_ediv_iff_mul_le indexPos, one_mul]
    exact whole
  rw [if_pos ⟨rfl, flooredPos.ne'⟩] at scaledEq
  have covers : tokens.val * pool.lift < scaled.val * (pool.index.get .borrow).val := by
    rw [scaledEq]
    exact Int.lt_ediv_add_one_mul_self _ indexPos
  rw [(tokensOfScaled_eq_ok_iff.1 owes).2.2, Int.le_ediv_iff_mul_le pool.lift_pos]
  exact covers.le

/-- An amount worth less than one scaled unit is posted as nothing, and nothing is owed for it. -/
theorem owed_eq_zero_of_lt_index
    (posted : pool.scaledOfTokens .borrow tokens = .ok scaled)
    (owes : pool.tokensOfScaled .borrow scaled = .ok owed)
    (dust : tokens.val * pool.lift < (pool.index.get .borrow).val) :
    owed.val = 0 := by
  have worthNonneg : 0 ≤ tokens.val * pool.lift :=
    mul_nonneg (Word.unsigned_nonneg tokens) pool.lift_pos.le
  have scaledEq := (scaledOfTokens_eq_ok_iff.1 posted).2.2.2
  rw [Int.ediv_eq_zero_of_lt worthNonneg dust] at scaledEq
  simp only [ne_eq, not_true_eq_false, and_false, if_false, add_zero] at scaledEq
  rw [(tokensOfScaled_eq_ok_iff.1 owes).2.2, scaledEq, zero_mul, Int.zero_ediv]

/-- A borrower owes at least what was borrowed exactly when nothing was borrowed or the amount comes
to a whole scaled unit. -/
theorem borrowed_le_owed_iff
    (posted : pool.scaledOfTokens .borrow tokens = .ok scaled)
    (owes : pool.tokensOfScaled .borrow scaled = .ok owed) :
    tokens.val ≤ owed.val ↔
      tokens.val = 0 ∨ pool.index.borrow.val ≤ tokens.val * pool.lift := by
  constructor
  · intro covered
    rcases lt_or_ge (tokens.val * pool.lift) pool.index.borrow.val with dust | whole
    · have owedZero := owed_eq_zero_of_lt_index posted owes dust
      have nonneg := Word.unsigned_nonneg tokens
      exact Or.inl (by omega)
    · exact Or.inr whole
  · intro sound
    rcases sound with nothing | whole
    · rw [nothing]
      exact Word.unsigned_nonneg owed
    · exact borrowed_le_owed_of_index_le posted owes whole

/-- A pool of six decimals whose borrow index has grown by three tenths. -/
def grownPool : LendingPool := { index := ⟨Scale.index, .lit 13000000000⟩ }

theorem borrowed_le_owed_of_million :
    grownPool.scaledOfTokens .borrow (.lit 1000001) = .ok (.lit 769232) ∧
      grownPool.tokensOfScaled .borrow (.lit 769232) = .ok (.lit 1000001) ∧
      ((1000001 : Int) ≤ 1000001 ↔
        (1000001 : Int) = 0 ∨ grownPool.index.borrow.val ≤ 1000001 * grownPool.lift) :=
  ⟨rfl, rfl,
    @borrowed_le_owed_iff grownPool (.lit 1000001) (.lit 769232) (.lit 1000001) rfl rfl⟩

/-- One unit borrowed from that pool is posted as nothing, so the borrower owes less than was
borrowed. -/
theorem borrowed_dust_owes_nothing :
    ¬ ∀ (pool : LendingPool) (tokens scaled owed : Amount),
      pool.scaledOfTokens .borrow tokens = .ok scaled →
      pool.tokensOfScaled .borrow scaled = .ok owed → tokens.val ≤ owed.val := by
  intro covered
  exact absurd (covered grownPool (.lit 1) 0 0 rfl rfl) (by decide)

/-! ## What a round trip may lose or add -/

/-- An amount that is brought into another unit and back, with a floor either way. It comes back as no
more, and as less by no more than one unit beyond what the other unit is worth. -/
theorem ediv_back_bounds (amount : Int) {multiplier divisor : Int} (multiplierPos : 0 < multiplier)
    (divisorPos : 0 < divisor) :
    amount * multiplier / divisor * divisor / multiplier ≤ amount ∧
      amount ≤ amount * multiplier / divisor * divisor / multiplier + divisor / multiplier + 1 := by
  have floorLe := Int.ediv_mul_le (amount * multiplier) divisorPos.ne'
  have ltFloor := Int.lt_ediv_add_one_mul_self (amount * multiplier) divisorPos
  have ltBack := Int.lt_ediv_add_one_mul_self
    (amount * multiplier / divisor * divisor) multiplierPos
  refine ⟨Int.ediv_le_of_le_mul multiplierPos floorLe, ?_⟩
  generalize amount * multiplier / divisor * divisor / multiplier = back at *
  -- The second floor leaves out less than one unit, the first less than the divisor.
  have lossLe : amount - back - 1 ≤ divisor / multiplier := by
    rw [Int.le_ediv_iff_mul_le multiplierPos]
    linarith
  omega

theorem deposited_eq_ok_iff :
    pool.scaledOfTokens .deposit tokens = .ok scaled ↔
      pool.decimals.toNat ≤ Scale.balanceDecimals ∧ tokens.val * pool.lift < 2 ^ 128 ∧
        pool.index.deposit.val ≠ 0 ∧
        scaled.val = tokens.val * pool.lift / pool.index.deposit.val := by
  rw [scaledOfTokens_eq_ok_iff, if_neg (fun rounded => nomatch rounded.1), add_zero]
  exact Iff.rfl

/-- A deposit that was posted can be read. Its worth is no more than that of the amount, which fits. -/
theorem exists_tokensOfScaled_of_deposited
    (posted : pool.scaledOfTokens .deposit tokens = .ok scaled) :
    ∃ back, pool.tokensOfScaled .deposit scaled = .ok back ∧ back.val ≤ tokens.val ∧
      tokens.val ≤ back.val + pool.index.deposit.val / pool.lift + 1 := by
  obtain ⟨small, fits, nonzero, scaledEq⟩ := deposited_eq_ok_iff.1 posted
  have indexPos := Word.unsigned_pos nonzero
  obtain ⟨backLe, lossLe⟩ := ediv_back_bounds tokens.val pool.lift_pos indexPos
  have worthLe := Int.ediv_mul_le (tokens.val * pool.lift) nonzero
  rw [← scaledEq] at backLe lossLe worthLe
  have worthNonneg := mul_nonneg (Word.unsigned_nonneg scaled) indexPos.le
  obtain ⟨back, backEq⟩ := Word.exists_val_eq_of_le tokens
    (Int.ediv_nonneg worthNonneg pool.lift_pos.le) backLe
  rw [← backEq] at backLe lossLe
  exact ⟨back, tokensOfScaled_eq_ok_iff.2 ⟨small, worthLe.trans_lt fits, backEq⟩, backLe, lossLe⟩

/-- The tokens of a deposit can be posted at an index that is not zero. -/
theorem exists_deposited_of_tokensOfScaled (nonzero : pool.index.deposit.val ≠ 0)
    (read : pool.tokensOfScaled .deposit scaled = .ok tokens) :
    ∃ back, pool.scaledOfTokens .deposit tokens = .ok back ∧ back.val ≤ scaled.val ∧
      scaled.val ≤ back.val + pool.lift / pool.index.deposit.val + 1 := by
  obtain ⟨small, fits, tokensEq⟩ := tokensOfScaled_eq_ok_iff.1 read
  have indexPos := Word.unsigned_pos nonzero
  obtain ⟨backLe, lossLe⟩ := ediv_back_bounds scaled.val indexPos pool.lift_pos
  have worthLe : tokens.val * pool.lift ≤ scaled.val * pool.index.deposit.val :=
    tokens_mul_lift_le read
  change tokens.val = scaled.val * pool.index.deposit.val / pool.lift at tokensEq
  rw [← tokensEq] at backLe lossLe
  have worthNonneg := mul_nonneg (Word.unsigned_nonneg tokens) pool.lift_pos.le
  obtain ⟨back, backEq⟩ := Word.exists_val_eq_of_le scaled
    (Int.ediv_nonneg worthNonneg indexPos.le) backLe
  rw [← backEq] at backLe lossLe
  exact ⟨back, deposited_eq_ok_iff.2 ⟨small, worthLe.trans_lt fits, nonzero, backEq⟩, backLe,
    lossLe⟩

/-- One scaled unit beyond the floor adds no more to a debt than the unit is worth. -/
theorem owed_le_borrowed_add (posted : pool.scaledOfTokens .borrow tokens = .ok scaled)
    (owes : pool.tokensOfScaled .borrow scaled = .ok owed) :
    owed.val ≤ tokens.val + pool.index.borrow.val / pool.lift := by
  obtain ⟨-, -, nonzero, scaledEq⟩ := scaledOfTokens_eq_ok_iff.1 posted
  have indexNonneg := Word.unsigned_nonneg pool.index.borrow
  have floorLe : tokens.val * pool.lift / pool.index.borrow.val * pool.index.borrow.val ≤
      tokens.val * pool.lift := Int.ediv_mul_le _ nonzero
  have scaledLe : scaled.val ≤ tokens.val * pool.lift / pool.index.borrow.val + 1 := by
    change scaled.val = tokens.val * pool.lift / pool.index.borrow.val + _ at scaledEq
    split at scaledEq <;> omega
  have worthLe := calc scaled.val * pool.index.borrow.val
      ≤ (tokens.val * pool.lift / pool.index.borrow.val + 1) * pool.index.borrow.val :=
        mul_le_mul_of_nonneg_right scaledLe indexNonneg
    _ = pool.index.borrow.val +
          tokens.val * pool.lift / pool.index.borrow.val * pool.index.borrow.val := by
        rw [add_one_mul, add_comm]
    _ ≤ pool.index.borrow.val + tokens.val * pool.lift := add_le_add le_rfl floorLe
  rw [(tokensOfScaled_eq_ok_iff.1 owes).2.2, add_comm,
    ← Int.add_mul_ediv_right _ _ pool.lift_pos.ne']
  exact Int.ediv_le_ediv pool.lift_pos worthLe

/-- What a round trip at one index does to an amount. Tokens that are posted as a deposit and read back,
and a scaled deposit that is read and posted again, always come back, as no more, and as less by no more
than one unit beyond what a unit of the other kind is worth. A debt that is posted and read back has
grown by no more than a scaled unit is worth. -/
theorem roundTrips_bounded (pool : LendingPool) :
    (∀ tokens scaled, pool.scaledOfTokens .deposit tokens = .ok scaled →
      ∃ back, pool.tokensOfScaled .deposit scaled = .ok back ∧ back.val ≤ tokens.val ∧
        tokens.val ≤ back.val + pool.index.deposit.val / pool.lift + 1) ∧
    (∀ scaled tokens, pool.index.deposit.val ≠ 0 →
      pool.tokensOfScaled .deposit scaled = .ok tokens →
      ∃ back, pool.scaledOfTokens .deposit tokens = .ok back ∧ back.val ≤ scaled.val ∧
        scaled.val ≤ back.val + pool.lift / pool.index.deposit.val + 1) ∧
    ∀ tokens scaled owed, pool.scaledOfTokens .borrow tokens = .ok scaled →
      pool.tokensOfScaled .borrow scaled = .ok owed →
      owed.val ≤ tokens.val + pool.index.borrow.val / pool.lift :=
  ⟨fun _ _ posted => exists_tokensOfScaled_of_deposited posted,
    fun _ _ nonzero read => exists_deposited_of_tokensOfScaled nonzero read,
    fun _ _ _ posted owes => owed_le_borrowed_add posted owes⟩

/-- Pools of the most and of the fewest decimals, where a unit of one kind is worth many of the other. -/
def finestPool : LendingPool := { decimals := .lit 16 }

@[inherit_doc finestPool] def coarsestPool : LendingPool := { decimals := 0 }

/-- Close to the most that can be lost in either direction, and the most that a debt can grow by. -/
theorem roundTrips_bounded_of_extreme_decimals :
    finestPool.scaledOfTokens .deposit (.lit 19999999999) = .ok (.lit 1) ∧
      (∃ back, finestPool.tokensOfScaled .deposit (.lit 1) = .ok back ∧ back.val ≤ 19999999999 ∧
        19999999999 ≤ back.val + finestPool.index.deposit.val / finestPool.lift + 1) ∧
      coarsestPool.index.deposit.val ≠ 0 ∧
      coarsestPool.tokensOfScaled .deposit (.lit 1999999) = .ok (.lit 1) ∧
      (∃ back, coarsestPool.scaledOfTokens .deposit (.lit 1) = .ok back ∧ back.val ≤ 1999999 ∧
        1999999 ≤ back.val + coarsestPool.lift / coarsestPool.index.deposit.val + 1) ∧
      finestPool.scaledOfTokens .borrow (.lit 10000000000) = .ok (.lit 2) ∧
      finestPool.tokensOfScaled .borrow (.lit 2) = .ok (.lit 20000000000) ∧
      (20000000000 : Int) ≤ 10000000000 + finestPool.index.borrow.val / finestPool.lift := by
  have posted : finestPool.scaledOfTokens .deposit (.lit 19999999999) = .ok (.lit 1) := rfl
  have read : coarsestPool.tokensOfScaled .deposit (.lit 1999999) = .ok (.lit 1) := rfl
  have nonzero : coarsestPool.index.deposit.val ≠ 0 := by decide
  have lent : finestPool.scaledOfTokens .borrow (.lit 10000000000) = .ok (.lit 2) := rfl
  have owes : finestPool.tokensOfScaled .borrow (.lit 2) = .ok (.lit 20000000000) := rfl
  obtain ⟨tokensBack, -, debt⟩ := roundTrips_bounded finestPool
  obtain ⟨-, scaledBack, -⟩ := roundTrips_bounded coarsestPool
  exact ⟨posted, tokensBack _ _ posted, nonzero, read, scaledBack _ _ nonzero read, lent, owes,
    debt _ _ _ lent owes⟩

end Leverage.LendingPool
