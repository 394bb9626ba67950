import Leverage.Proofs.SquareRoot

/-!
# The descent, turn by turn

The root is computed over natural numbers, and the format of the value is never left on the way.
`Passes` names the estimates and proposals of a descent: every one of them covers the root, and an
estimate falls with each turn, so that a descent makes no more turns than its value counts.

The sum of the greatest word and its cofactor does not fit, but no turn divides by the value itself:
a proposal that is taken up is at most half the value and one, where the sum fits. So the same
descent in words, with every sum asked whether it fits, stops at no fault: `sqrtChecked_eq`.
-/

namespace Leverage

namespace SquareRoot

variable {value turns estimate proposal : Nat}

/-- A descent has made a number of turns and holds a proposal against an estimate. -/
inductive Passes (value : Nat) : Nat → Nat → Nat → Prop
  | start : Passes value 0 value (value / 2 + 1)
  | turn {turns estimate proposal : Nat} :
    Passes value turns estimate proposal → proposal < estimate →
      Passes value (turns + 1) proposal (newtonStep value proposal)

/-- An estimate that covers the root and is at most half the value and one has a sum with its cofactor
that fits. -/
theorem add_cofactor_lt (valueLt : value < 2 ^ 128) (covers : Covers value estimate)
    (positive : 0 < estimate) (le : estimate ≤ value / 2 + 1) :
    estimate + value / estimate < 2 ^ 128 := by
  rcases Nat.lt_or_ge estimate 2 with one | more
  · obtain rfl : estimate = 1 := by omega
    have small : value < 4 := covers
    rw [Nat.div_one]
    omega
  · have cofactorLe : value / estimate ≤ value / 2 := Nat.div_le_div_left more (by decide)
    omega

namespace Passes

/-- A number of turns leaves one estimate and one proposal. -/
theorem unique {otherEstimate otherProposal : Nat} (passes : Passes value turns estimate proposal)
    (other : Passes value turns otherEstimate otherProposal) :
    estimate = otherEstimate ∧ proposal = otherProposal := by
  induction passes generalizing otherEstimate otherProposal with
  | start =>
    cases other with
    | start => exact ⟨rfl, rfl⟩
  | turn _ _ ih =>
    cases other with
    | turn before _ =>
      obtain ⟨-, rfl⟩ := ih before
      exact ⟨rfl, rfl⟩

theorem next_lt {next nextProposal : Nat} (passes : Passes value turns estimate proposal)
    (turned : Passes value (turns + 1) next nextProposal) : next < estimate := by
  cases turned with
  | turn before lower =>
    obtain ⟨rfl, rfl⟩ := passes.unique before
    exact lower

theorem estimate_add_turns_le (passes : Passes value turns estimate proposal) :
    estimate + turns ≤ value := by
  induction passes with
  | start => exact Nat.le_refl _
  | turn _ lower ih => omega

theorem proposal_le (passes : Passes value turns estimate proposal) (lower : proposal < estimate) :
    proposal ≤ value / 2 + 1 := by
  induction passes with
  | start => exact Nat.le_refl _
  | turn _ before ih => exact lower.le.trans (ih before)

/-- The estimate and the proposal both cover the root, so that the next estimate does. -/
theorem covers (passes : Passes value turns estimate proposal) (valuePos : 0 < value) :
    Covers value estimate ∧ Covers value proposal := by
  induction passes with
  | start =>
    have valueLt : value < (value + 1) * (value + 1) :=
      (Nat.lt_succ_self value).trans_le (Nat.le_mul_self _)
    exact ⟨valueLt, covers_half_add_one value⟩
  | turn _ _ ih => exact ⟨ih.2, covers_newtonStep (ih.2.pos valuePos)⟩

/-- A turn divides by what is at least one, and its sum fits. -/
theorem turn_fits (passes : Passes value turns estimate proposal) (valuePos : 0 < value)
    (valueLt : value < 2 ^ 128) (lower : proposal < estimate) :
    0 < proposal ∧ proposal + value / proposal < 2 ^ 128 := by
  have covers := (passes.covers valuePos).2
  have positive := covers.pos valuePos
  exact ⟨positive, add_cofactor_lt valueLt covers positive (passes.proposal_le lower)⟩

/-- From wherever it is, a descent goes on to an estimate that its proposal does not lower, and this
is what it answers. -/
theorem exists_last (passes : Passes value turns estimate proposal) :
    ∃ made last, Passes value made (descend value estimate proposal) last ∧
      descend value estimate proposal ≤ last := by
  fun_induction descend value estimate proposal generalizing turns with
  | case1 estimate proposal lower ih => exact ih (passes.turn lower)
  | case2 estimate proposal notLower => exact ⟨turns, proposal, passes, Nat.not_lt.1 notLower⟩

end Passes

end SquareRoot

namespace Word

open SquareRoot

section Exact

variable {n : Nat} {a b : Unsigned n}

theorem toNat_lt (a : Unsigned n) : a.toNat < 2 ^ n := by
  have bound := unsigned_lt a
  rw [val_eq_toNat, Int.pow_eq] at bound
  exact_mod_cast bound

theorem toNat_lt_toNat : a.toNat < b.toNat ↔ a < b := by
  rw [lt_iff, val_eq_toNat a, val_eq_toNat b, Nat.cast_lt]

theorem eq_of_toNat_eq (eq : a.toNat = b.toNat) : a = b := by
  apply Word.ext
  rw [val_eq_toNat a, val_eq_toNat b, eq]

theorem exists_div_toNat (positive : 0 < b.toNat) :
    ∃ c, a.div b = .ok c ∧ c.toNat = a.toNat / b.toNat := by
  have nonzero : b.val ≠ 0 := by
    rw [val_eq_toNat]
    exact_mod_cast positive.ne'
  obtain ⟨c, divided⟩ := exists_unsigned_div_eq_ok_iff.2 nonzero
  have quotientEq := (unsigned_div_eq_ok_iff.1 divided).2
  rw [val_eq_toNat a, val_eq_toNat b, val_eq_toNat c] at quotientEq
  exact ⟨c, divided, by exact_mod_cast quotientEq⟩

theorem exists_add_toNat (fits : a.toNat + b.toNat < 2 ^ n) :
    ∃ c, a.add b = .ok c ∧ c.toNat = a.toNat + b.toNat := by
  have sumLt : a.val + b.val < Int.pow 2 n := by
    rw [val_eq_toNat a, val_eq_toNat b, Int.pow_eq]
    exact_mod_cast fits
  obtain ⟨c, added⟩ := exists_unsigned_add_eq_ok_iff.2 sumLt
  have sumEq := add_eq_ok_iff.1 added
  rw [val_eq_toNat a, val_eq_toNat b, val_eq_toNat c] at sumEq
  exact ⟨c, added, by exact_mod_cast sumEq⟩

end Exact

/-! ## The descent in words -/

variable {value estimate proposal : Amount} {turns : Nat}

/-- The mean of an estimate and its cofactor, if their sum fits. -/
def newtonStepChecked (value estimate : Amount) : Checked Amount := do
  let cofactor ← value.div estimate
  let sum ← estimate.add cofactor
  sum.div (.lit 2)

/-- The descent, each of whose turns may stop at a fault. -/
def descendChecked (value estimate proposal : Amount) : Checked Amount :=
  if proposal < estimate then do
    let next ← newtonStepChecked value proposal
    descendChecked value proposal next
  else .ok estimate
termination_by estimate.toNat
decreasing_by exact toNat_lt_toNat.2 ‹_›

/-- The root, computed in words alone. -/
def sqrtChecked (value : Amount) : Checked Amount :=
  if value < .lit 2 then .ok value
  else do
    let half ← value.div (.lit 2)
    let proposal ← half.add (.lit 1)
    descendChecked value value proposal

theorem exists_half (a : Amount) : ∃ half, a.div (.lit 2) = .ok half ∧ half.toNat = a.toNat / 2 :=
  @exists_div_toNat 128 a (.lit 2) (by decide)

/-- A step whose sum fits is the step over natural numbers. -/
theorem exists_newtonStepChecked (positive : 0 < estimate.toNat)
    (fits : estimate.toNat + value.toNat / estimate.toNat < 2 ^ 128) :
    ∃ next, newtonStepChecked value estimate = .ok next ∧
      next.toNat = newtonStep value.toNat estimate.toNat := by
  obtain ⟨cofactor, divided, cofactorEq⟩ :
      ∃ cofactor, value.div estimate = .ok cofactor ∧
        cofactor.toNat = value.toNat / estimate.toNat := exists_div_toNat positive
  rw [← cofactorEq] at fits
  obtain ⟨sum, added, sumEq⟩ := exists_add_toNat fits
  obtain ⟨next, halved, nextEq⟩ := exists_half sum
  simp only [newtonStepChecked, Checked.bind_eq_ok_iff]
  refine ⟨next, ⟨cofactor, divided, sum, added, halved⟩, ?_⟩
  rw [nextEq, sumEq, cofactorEq, newtonStep]

/-- From wherever a descent passes, the descent in words ends where it does. -/
theorem exists_descendChecked (valuePos : 0 < value.toNat)
    (passes : Passes value.toNat turns estimate.toNat proposal.toNat) :
    ∃ root, descendChecked value estimate proposal = .ok root ∧
      root.toNat = descend value.toNat estimate.toNat proposal.toNat := by
  fun_induction descendChecked value estimate proposal generalizing turns with
  | case1 estimate proposal lower ih =>
    have lowerNat := toNat_lt_toNat.2 lower
    obtain ⟨positive, fits⟩ := passes.turn_fits valuePos value.toNat_lt lowerNat
    obtain ⟨next, stepped, nextEq⟩ := exists_newtonStepChecked positive fits
    have turned := passes.turn lowerNat
    rw [← nextEq] at turned
    obtain ⟨root, descended, rootEq⟩ := ih next turned
    refine ⟨root, Checked.bind_eq_ok_iff.2 ⟨next, stepped, descended⟩, ?_⟩
    rw [rootEq, nextEq]
    conv_rhs => rw [descend, if_pos lowerNat]
  | case2 estimate proposal notLower =>
    have notLowerNat := mt toNat_lt_toNat.1 notLower
    refine ⟨estimate, rfl, ?_⟩
    rw [descend, if_neg notLowerNat]

/-- The first proposal fits, whatever the value. -/
theorem exists_first_proposal (value : Amount) :
    ∃ half proposal, value.div (.lit 2) = .ok half ∧ half.add (.lit 1) = .ok proposal ∧
      proposal.toNat = value.toNat / 2 + 1 := by
  have valueLt := value.toNat_lt
  obtain ⟨half, halved, halfEq⟩ := exists_half value
  have fits : half.toNat + (.lit 1 : Amount).toNat < 2 ^ 128 := by
    change half.toNat + 1 < 2 ^ 128
    omega
  obtain ⟨proposal, added, proposalEq⟩ := exists_add_toNat fits
  refine ⟨half, proposal, halved, added, ?_⟩
  rw [proposalEq, halfEq]
  rfl

/-- No computation of a root leaves the format. -/
theorem sqrtChecked_eq (value : Amount) : value.sqrtChecked = .ok value.sqrt := by
  have rootEq : value.sqrt.toNat = SquareRoot.ofNat value.toNat := rfl
  have smallIff : value < .lit 2 ↔ value.toNat < 2 := toNat_lt_toNat.symm
  rw [SquareRoot.ofNat] at rootEq
  unfold sqrtChecked
  by_cases small : value.toNat < 2
  · rw [if_pos small] at rootEq
    rw [if_pos (smallIff.2 small), eq_of_toNat_eq rootEq]
  · rw [if_neg small] at rootEq
    rw [if_neg (mt smallIff.1 small)]
    obtain ⟨half, proposal, halved, added, proposed⟩ := exists_first_proposal value
    have passes : Passes value.toNat 0 value.toNat proposal.toNat := by
      rw [proposed]
      exact .start
    obtain ⟨root, descended, descendedEq⟩ := exists_descendChecked (by omega) passes
    rw [proposed, ← rootEq] at descendedEq
    rw [← eq_of_toNat_eq descendedEq]
    exact Checked.bind_eq_ok_iff.2 ⟨half, halved,
      Checked.bind_eq_ok_iff.2 ⟨proposal, added, descended⟩⟩

/-- The root of a word of two or more is found without leaving the format. The first proposal fits;
in every turn the divisor is at least one, its sum with the cofactor fits, and the estimate that it
makes covers the root and is below the one before; and the last estimate is the root. -/
theorem sqrt_stays_in_format {a : Amount} (large : 2 ≤ a.toNat) :
    a.toNat / 2 + 1 < 2 ^ 128 ∧
    (∀ turns estimate proposal, Passes a.toNat turns estimate proposal →
      Covers a.toNat estimate ∧ estimate + turns ≤ a.toNat ∧
      (proposal < estimate → 0 < proposal ∧ proposal + a.toNat / proposal < 2 ^ 128) ∧
      ∀ next nextProposal, Passes a.toNat (turns + 1) next nextProposal → next < estimate) ∧
    (∃ turns proposal, Passes a.toNat turns a.sqrt.toNat proposal ∧ a.sqrt.toNat ≤ proposal) ∧
    a.sqrtChecked = .ok a.sqrt := by
  have valuePos : 0 < a.toNat := by omega
  have aLt := a.toNat_lt
  have rootEq : a.sqrt.toNat = SquareRoot.ofNat a.toNat := rfl
  rw [SquareRoot.ofNat, if_neg (Nat.not_lt.2 large)] at rootEq
  refine ⟨by omega, ?_, ?_, sqrtChecked_eq a⟩
  · intro turns estimate proposal passes
    exact ⟨(passes.covers valuePos).1, passes.estimate_add_turns_le,
      passes.turn_fits valuePos aLt, fun next nextProposal turned => passes.next_lt turned⟩
  · rw [rootEq]
    exact Passes.start.exists_last

/-- The word whose own sum with its cofactor does not fit. -/
def greatest : Amount := .lit 340282366920938463463374607431768211455

/-- The descent from the greatest word in its second turn. -/
theorem sqrt_stays_in_format_of_greatest :
    2 ≤ greatest.toNat ∧
      Passes greatest.toNat 1 (2 ^ 127) (2 ^ 126) ∧
      Covers greatest.toNat (2 ^ 127) ∧
      2 ^ 127 + 1 ≤ greatest.toNat ∧
      0 < 2 ^ 126 ∧ 2 ^ 126 + greatest.toNat / 2 ^ 126 < 2 ^ 128 ∧
      greatest.sqrtChecked = .ok greatest.sqrt := by
  have large : 2 ≤ greatest.toNat := by decide
  have lower : greatest.toNat / 2 + 1 < greatest.toNat := by decide
  have passes : Passes greatest.toNat 1 (2 ^ 127) (2 ^ 126) := Passes.start.turn lower
  obtain ⟨-, turns, -, computed⟩ := sqrt_stays_in_format large
  obtain ⟨covers, bounded, fits, -⟩ := turns _ _ _ passes
  obtain ⟨positive, sumLt⟩ := fits (by decide)
  exact ⟨large, passes, covers, bounded, positive, sumLt, computed⟩

end Word

end Leverage
