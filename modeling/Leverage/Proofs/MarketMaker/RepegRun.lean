import Leverage.Proofs.MarketMaker.Repeg

/-!
# Runs of repegs

A market maker that is brought up to one oracle reading after the other. `PaidFromFees` relates the
market maker before and after: it holds of one repeg and composes, so it holds from the start of a
run to each of its points. With the bounds of the single step this gives `repegAll_within_fees`.
-/

namespace Leverage.MarketMaker

/-- The market maker after its peg is brought up to each of the readings in turn. -/
def repegAll (maker : MarketMaker) (readings : List OracleReading) : Checked MarketMaker :=
  readings.foldlM repeg maker

variable {maker middle next final : MarketMaker} {reading : OracleReading}
  {readings : List OracleReading} {target budget : Amount}

/-- `next` is `maker` with its peg moved at the cost of fees beyond the reserve. -/
structure PaidFromFees (maker next : MarketMaker) : Prop where
  eq_with : next = { maker with peg := next.peg, retainedFees := next.retainedFees }
  reserve_le :
    min maker.retainedFees.val (maker.exchangeFees.val / 2) ≤ next.retainedFees.val

namespace PaidFromFees

theorem refl (maker : MarketMaker) : PaidFromFees maker maker := ⟨rfl, min_le_left _ _⟩

theorem exchangeFees_eq (paid : PaidFromFees maker next) :
    next.exchangeFees = maker.exchangeFees := by
  rw [paid.eq_with]

theorem trans (first : PaidFromFees maker middle) (second : PaidFromFees middle next) :
    PaidFromFees maker next := by
  constructor
  · rw [second.eq_with, first.eq_with]
  · -- The reserve is the same throughout, so it bounds what both steps leave.
    have firstLe := first.reserve_le
    have secondLe := second.reserve_le
    rw [first.exchangeFees_eq] at secondLe
    omega

theorem of_repegAll (run : maker.repegAll readings = .ok final) : PaidFromFees maker final := by
  induction readings generalizing maker with
  | nil =>
    obtain rfl := Checked.pure_eq_ok_iff.1 run
    exact refl maker
  | cons reading readings ih =>
    rw [repegAll, List.foldlM_cons, Checked.bind_eq_ok_iff] at run
    rcases run with ⟨middle, stepped, rest⟩
    have step := Repegged.of_repeg stepped
    exact trans ⟨step.eq_with, step.reserve_le⟩ (ih rest)

end PaidFromFees

/-- A run through a reading consists of a run up to it, one repeg and a run from there on. -/
theorem repegAll_append_cons_eq_ok_iff {past future : List OracleReading} :
    maker.repegAll (past ++ reading :: future) = .ok final ↔
      ∃ before after, maker.repegAll past = .ok before ∧ before.repeg reading = .ok after ∧
        after.repegAll future = .ok final := by
  simp only [repegAll, List.foldlM_append, List.foldlM_cons, Checked.bind_eq_ok_iff]
  constructor
  · intro run
    rcases run with ⟨before, past, after, stepped, future⟩
    exact ⟨before, after, past, stepped, future⟩
  · intro run
    rcases run with ⟨before, after, past, stepped, future⟩
    exact ⟨before, past, after, stepped, future⟩

/-- At every point of a run of repegs that succeeds, half the exchange fees are left, or what was
retained at the start if that is less; the peg has moved toward its target and not beyond; and
nothing else has changed. Where funds are short, the surplus by which the budget is divided is not
zero. -/
theorem repegAll_within_fees (maker : MarketMaker) :
    (∀ readings final, maker.repegAll readings = .ok final →
      ∀ past reading future, readings = past ++ reading :: future →
        ∃ before after, maker.repegAll past = .ok before ∧ before.repeg reading = .ok after ∧
          after.repegAll future = .ok final ∧
          min maker.retainedFees.val (maker.exchangeFees.val / 2) ≤ after.retainedFees.val ∧
          (∀ target, before.targetPeg reading.price = .ok target →
            min before.peg.val target.val ≤ after.peg.val ∧
              after.peg.val ≤ max before.peg.val target.val) ∧
          (after.peg ≠ before.peg → ∃ target, before.targetPeg reading.price = .ok target) ∧
          after = { maker with peg := after.peg, retainedFees := after.retainedFees }) ∧
      ∀ reading target budget, maker.ShortOfFunds reading target budget →
        maker.repeg reading = (do
          let peg ← maker.affordablePeg target budget
          maker.settlePeg peg (← maker.repegCost peg)) ∧
        ∃ surplus, maker.quoteSurplus = .ok surplus ∧ surplus.magnitude.val ≠ 0 := by
  constructor
  · intro readings final run past reading future split
    rw [split, repegAll_append_cons_eq_ok_iff] at run
    rcases run with ⟨before, after, pastRun, stepped, futureRun⟩
    have step := Repegged.of_repeg stepped
    have paid := (PaidFromFees.of_repegAll pastRun).trans ⟨step.eq_with, step.reserve_le⟩
    exact ⟨before, after, pastRun, stepped, futureRun, paid.reserve_le,
      fun target aimed => step.peg_between aimed, step.exists_targetPeg, paid.eq_with⟩
  · intro reading target budget short
    obtain ⟨surplus, surplusEq, nonzero⟩ := short.surplus_ne_zero
    refine ⟨short.repeg_eq, surplus, surplusEq, ?_⟩
    rw [Word.val_magnitude]
    omega

/-- A market maker whose users are long, with little more in retained fees than the reserve. -/
def longMaker : MarketMaker where
  reserves := ⟨.lit 9900000000000000000, .lit 10101010101010101010⟩
  liquidity := .lit 10000000000000000000
  peg := .lit 50000
  netBase := .lit 100000000000000000
  repegIntensity := .lit 100
  exchangeFees := .lit 800000001
  retainedFees := .lit 1400000000

/-- The oracle rises by a fifth, farther than the fees pay for, and then falls by a third. -/
def rise : OracleReading := { price := .lit 600000000000 }

@[inherit_doc rise] def fall : OracleReading := { price := .lit 400000000000 }

theorem longMaker_shortOfFunds :
    longMaker.ShortOfFunds rise (.lit 58806) (.lit 1000000000) :=
  ⟨by decide, by decide, rfl, by decide, rfl, .lit 1000000000, .lit 88949494949, rfl, rfl, by decide⟩

theorem repegAll_within_fees_rise_fall :
    longMaker.repegAll [rise, fall] =
        .ok { longMaker with peg := .lit 39204, retainedFees := .lit 110450505051 } ∧
      (∃ before after, longMaker.repegAll [rise] = .ok before ∧ before.repeg fall = .ok after ∧
        400000000 ≤ after.retainedFees.val ∧
        after = { longMaker with peg := after.peg, retainedFees := after.retainedFees }) ∧
      longMaker.ShortOfFunds rise (.lit 58806) (.lit 1000000000) ∧
      ∃ surplus, longMaker.quoteSurplus = .ok surplus ∧ surplus.magnitude.val ≠ 0 := by
  obtain ⟨before, after, past, stepped, -, reserveLe, -, -, frame⟩ :=
    (repegAll_within_fees longMaker).1 [rise, fall]
      { longMaker with peg := .lit 39204, retainedFees := .lit 110450505051 } rfl [rise] fall [] rfl
  exact ⟨rfl, ⟨before, after, past, stepped, reserveLe, frame⟩, longMaker_shortOfFunds,
    ((repegAll_within_fees longMaker).2 rise _ _ longMaker_shortOfFunds).2⟩

end Leverage.MarketMaker
