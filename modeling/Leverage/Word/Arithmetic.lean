import Leverage.Fault
import Leverage.Word.Basic

/-!
# Checked arithmetic on words

Each operation computes the exact integer result and then asks whether the format holds it. If not,
the operation stops at its own fault: `underflow` for a difference, whichever end of the format it
leaves, `overflow` for sums, products, powers and quotients, `castFailure` for conversions.
Quotients round toward zero, and a zero divisor is reported before anything else.

The characterising lemma of each operation says for which word it succeeds; the range of that word
is part of its type, so `c.val = a.val + b.val` alone says that the sum fits.
-/

namespace Leverage

/-- A checked computation of two steps succeeds exactly when both steps do, whatever its faults. -/
theorem Checked.bind_eq_ok_iff {ε α β : Type} {first : Except ε α} {next : α → Except ε β} {b : β} :
    (first >>= next) = .ok b ↔ ∃ a, first = .ok a ∧ next a = .ok b := by
  cases first <;> simp [bind, Except.bind]

/-- A computation that only returns succeeds with what it returns. -/
theorem Checked.pure_eq_ok_iff {ε α : Type} {a b : α} :
    (pure a : Except ε α) = .ok b ↔ a = b := by
  rw [show (pure a : Except ε α) = .ok a from rfl, Except.ok.injEq]

/-- A checked computation of two steps does not stop at a fault at which neither step stops. -/
theorem Checked.bind_ne_error {α β : Type} {first : Checked α} {next : α → Checked β}
    {fault : Fault} (firstNe : first ≠ .error fault)
    (nextNe : ∀ a, first = .ok a → next a ≠ .error fault) : (first >>= next) ≠ .error fault := by
  cases first with
  | error other => simpa [bind, Except.bind] using firstNe
  | ok a => exact nextNe a rfl

/-- A larger divisor makes no larger quotient. -/
theorem ediv_le_ediv_of_divisor_le {a b c : Int} (nonneg : 0 ≤ a) (pos : 0 < b) (le : b ≤ c) :
    a / c ≤ a / b := by
  have cPos : 0 < c := Int.lt_of_lt_of_le pos le
  have quotientNonneg : 0 ≤ a / c := Int.ediv_nonneg nonneg (Int.le_of_lt cPos)
  rw [Int.le_ediv_iff_mul_le pos]
  calc a / c * b ≤ a / c * c := Int.mul_le_mul_of_nonneg_left le quotientNonneg
    _ ≤ a := Int.ediv_mul_le a (Int.ne_of_gt cPos)

/-- Two quotients floored on their own fall short of the floor of their sum by one unit where the
remainders come to the divisor, and otherwise by nothing. -/
theorem add_ediv_of_pos {a b c : Int} (pos : 0 < c) :
    (a + b) / c = a / c + b / c + if c ≤ a % c + b % c then 1 else 0 := by
  rw [Int.add_ediv (Int.ne_of_gt pos), Int.natAbs_of_nonneg (Int.le_of_lt pos),
    Int.sign_eq_one_of_pos pos]

namespace Word

variable {f g : Format}

/-- The word with the given integer, or the given fault if the format does not hold it. -/
def fit (f : Format) (fault : Fault) (v : Int) : Checked (Word f) :=
  if held : f.Holds v then .ok (ofHolds v held) else .error fault

theorem fit_eq_ok_iff {fault : Fault} {v : Int} {w : Word f} :
    fit f fault v = .ok w ↔ w.val = v := by
  unfold fit
  split
  · next held =>
    rw [Except.ok.injEq, Word.ext_iff, val_ofHolds]
    exact eq_comm
  · next outside =>
    constructor
    · intro impossible
      cases impossible
    · rintro rfl
      exact absurd w.holds outside

theorem fit_eq_error_iff {fault other : Fault} {v : Int} :
    fit f fault v = .error other ↔ other = fault ∧ ¬ f.Holds v := by
  unfold fit
  split
  · next held => simp [held]
  · next outside => simp [outside, eq_comm]

/-! ## Sums, differences, products -/

def add (a b : Word f) : Checked (Word f) := fit f .overflow (a.val + b.val)

def sub (a b : Word f) : Checked (Word f) := fit f .underflow (a.val - b.val)

def mul (a b : Word f) : Checked (Word f) := fit f .overflow (a.val * b.val)

theorem add_eq_ok_iff {a b c : Word f} : a.add b = .ok c ↔ c.val = a.val + b.val := fit_eq_ok_iff

theorem sub_eq_ok_iff {a b c : Word f} : a.sub b = .ok c ↔ c.val = a.val - b.val := fit_eq_ok_iff

theorem mul_eq_ok_iff {a b c : Word f} : a.mul b = .ok c ↔ c.val = a.val * b.val := fit_eq_ok_iff

theorem exists_unsigned_add_eq_ok_iff {n : Nat} {a b : Unsigned n} :
    (∃ c, a.add b = .ok c) ↔ a.val + b.val < Int.pow 2 n := by
  have sumNonneg := Int.add_nonneg (unsigned_nonneg a) (unsigned_nonneg b)
  simp only [add_eq_ok_iff]
  rw [exists_val_eq_iff, Format.unsigned_holds_iff, and_iff_right sumNonneg]

theorem exists_unsigned_mul_eq_ok_iff {n : Nat} {a b : Unsigned n} :
    (∃ c, a.mul b = .ok c) ↔ a.val * b.val < Int.pow 2 n := by
  have productNonneg := Int.mul_nonneg (unsigned_nonneg a) (unsigned_nonneg b)
  simp only [mul_eq_ok_iff]
  rw [exists_val_eq_iff, Format.unsigned_holds_iff, and_iff_right productNonneg]

/-- Where two words have a product, words with a product that is no larger have one. -/
theorem exists_unsigned_mul_le {n : Nat} {a b c smaller other : Unsigned n}
    (le : smaller.val * other.val ≤ a.val * b.val) (multiplied : a.mul b = .ok c) :
    ∃ product, smaller.mul other = .ok product ∧ product.val ≤ c.val := by
  rw [mul_eq_ok_iff] at multiplied
  rw [← multiplied] at le
  obtain ⟨product, productEq⟩ := exists_val_eq_of_le c
    (Int.mul_nonneg (unsigned_nonneg smaller) (unsigned_nonneg other)) le
  exact ⟨product, mul_eq_ok_iff.2 productEq, productEq ▸ le⟩

/-! ## Quotients and remainders -/

/-- The quotient, rounded toward zero. The least signed word divided by minus one is the only
quotient that can leave its format. -/
def div (a b : Word f) : Checked (Word f) :=
  if b.val = 0 then .error .divisionByZero else fit f .overflow (a.val.tdiv b.val)

theorem div_eq_ok_iff {a b c : Word f} :
    a.div b = .ok c ↔ b.val ≠ 0 ∧ c.val = a.val.tdiv b.val := by
  unfold div
  split
  · next zero => simp [zero]
  · next nonzero => simp [fit_eq_ok_iff, nonzero]

/-- Between unsigned words the quotient is the floor. -/
theorem unsigned_div_eq_ok_iff {n : Nat} {a b c : Unsigned n} :
    a.div b = .ok c ↔ b.val ≠ 0 ∧ c.val = a.val / b.val := by
  rw [div_eq_ok_iff, Int.tdiv_eq_ediv_of_nonneg (unsigned_nonneg a)]

/-- A quotient is no larger than its dividend, so a divisor is all it needs. -/
theorem exists_unsigned_div_eq_ok_iff {n : Nat} {a b : Unsigned n} :
    (∃ c, a.div b = .ok c) ↔ b.val ≠ 0 := by
  simp only [unsigned_div_eq_ok_iff]
  constructor
  · intro divided
    obtain ⟨c, nonzero, -⟩ := divided
    exact nonzero
  · intro nonzero
    have quotientNonneg := Int.ediv_nonneg (unsigned_nonneg a) (unsigned_nonneg b)
    obtain ⟨c, cEq⟩ :=
      exists_val_eq_of_le a quotientNonneg (Int.ediv_le_self _ (unsigned_nonneg a))
    exact ⟨c, nonzero, cEq⟩

/-- Where a word has a quotient, a word that is no larger has one, and it is no larger. -/
theorem exists_unsigned_div_le {n : Nat} {a b c smaller : Unsigned n} (le : smaller.val ≤ a.val)
    (divided : a.div b = .ok c) :
    ∃ quotient, smaller.div b = .ok quotient ∧ quotient.val ≤ c.val := by
  obtain ⟨nonzero, quotientEq⟩ := unsigned_div_eq_ok_iff.1 divided
  obtain ⟨quotient, dividedToo⟩ : ∃ quotient, smaller.div b = .ok quotient :=
    exists_unsigned_div_eq_ok_iff.2 nonzero
  refine ⟨quotient, dividedToo, ?_⟩
  rw [(unsigned_div_eq_ok_iff.1 dividedToo).2, quotientEq]
  exact Int.ediv_le_ediv (unsigned_pos nonzero) le

def rem {n : Nat} (a b : Unsigned n) : Checked (Unsigned n) :=
  if b.val = 0 then .error .divisionByZero else fit _ .overflow (a.val % b.val)

theorem rem_eq_ok_iff {n : Nat} {a b c : Unsigned n} :
    a.rem b = .ok c ↔ b.val ≠ 0 ∧ c.val = a.val % b.val := by
  unfold rem
  split
  · next zero => simp [zero]
  · next nonzero => simp [fit_eq_ok_iff, nonzero]

/-- The product of two words divided by a third. The product is not widened: it has to fit. -/
def mulDiv (a b c : Word f) : Checked (Word f) := do
  (← a.mul b).div c

theorem mulDiv_eq_ok_iff {a b c d : Word f} :
    a.mulDiv b c = .ok d ↔
      f.Holds (a.val * b.val) ∧ c.val ≠ 0 ∧ d.val = (a.val * b.val).tdiv c.val := by
  unfold mulDiv
  rw [Checked.bind_eq_ok_iff]
  constructor
  · rintro ⟨product, productEq, quotientEq⟩
    rw [mul_eq_ok_iff] at productEq
    rw [div_eq_ok_iff, productEq] at quotientEq
    exact ⟨productEq ▸ product.holds, quotientEq⟩
  · rintro ⟨fits, quotientEq⟩
    exact ⟨ofHolds _ fits, mul_eq_ok_iff.2 rfl, div_eq_ok_iff.2 quotientEq⟩

theorem unsigned_mulDiv_eq_ok_iff {n : Nat} {a b c d : Unsigned n} :
    a.mulDiv b c = .ok d ↔ a.val * b.val < Int.pow 2 n ∧ c.val ≠ 0 ∧ d.val = a.val * b.val / c.val := by
  have nonneg := Int.mul_nonneg (unsigned_nonneg a) (unsigned_nonneg b)
  rw [mulDiv_eq_ok_iff, Format.unsigned_holds_iff, Int.tdiv_eq_ediv_of_nonneg nonneg,
    and_iff_right nonneg]

theorem exists_unsigned_mulDiv_eq_ok_iff {n : Nat} {a b c : Unsigned n} :
    (∃ d, a.mulDiv b c = .ok d) ↔ a.val * b.val < Int.pow 2 n ∧ c.val ≠ 0 := by
  have productNonneg := Int.mul_nonneg (unsigned_nonneg a) (unsigned_nonneg b)
  simp only [unsigned_mulDiv_eq_ok_iff]
  constructor
  · rintro ⟨d, fits, nonzero, -⟩
    exact ⟨fits, nonzero⟩
  · rintro ⟨fits, nonzero⟩
    have quotientLe := Int.ediv_le_self c.val productNonneg
    have quotientNonneg := Int.ediv_nonneg productNonneg (unsigned_nonneg c)
    obtain ⟨d, dEq⟩ := exists_val_eq_iff.2
      (Format.unsigned_holds_iff.2 ⟨quotientNonneg, Int.lt_of_le_of_lt quotientLe fits⟩)
    exact ⟨d, fits, nonzero, dEq⟩

/-- Where a product has a quotient, a product that is no larger has one, and it is no larger. -/
theorem exists_unsigned_mulDiv_le {n : Nat} {a b c d smaller other : Unsigned n}
    (productLe : smaller.val * other.val ≤ a.val * b.val) (divided : a.mulDiv b c = .ok d) :
    ∃ quotient, smaller.mulDiv other c = .ok quotient ∧ quotient.val ≤ d.val := by
  obtain ⟨fits, nonzero, quotientEq⟩ := unsigned_mulDiv_eq_ok_iff.1 divided
  have divisorPos : 0 < c.val := Int.lt_iff_le_and_ne.2 ⟨unsigned_nonneg c, Ne.symm nonzero⟩
  obtain ⟨quotient, dividedToo⟩ :=
    exists_unsigned_mulDiv_eq_ok_iff.2 ⟨Int.lt_of_le_of_lt productLe fits, nonzero⟩
  refine ⟨quotient, dividedToo, ?_⟩
  rw [(unsigned_mulDiv_eq_ok_iff.1 dividedToo).2.2, quotientEq]
  exact Int.ediv_le_ediv divisorPos productLe

/-! ## Powers -/

/-- An exponent with the same powers of 0, 1 and -1, and at most two: those powers depend only on
whether the exponent is zero and on its parity. -/
def settledExponent (exponent : Nat) : Nat :=
  if exponent ≤ 2 then exponent else 2 - exponent % 2

/-- The power. A base of at least two in magnitude leaves every format of at most `exponent` bits,
so the power itself is only computed where it is small. -/
def pow (a : Word f) (exponent : Nat) : Checked (Word f) :=
  if a.val.natAbs < 2 then fit f .overflow (a.val.pow (settledExponent exponent))
  else if exponent < f.bits then fit f .overflow (a.val.pow exponent)
  else .error .overflow

theorem pow_settledExponent {base : Int} (small : base.natAbs < 2) (exponent : Nat) :
    base.pow (settledExponent exponent) = base.pow exponent := by
  change base ^ settledExponent exponent = base ^ exponent
  have cases3 : base = 0 ∨ base = 1 ∨ base = -1 := by omega
  unfold settledExponent
  split
  · rfl
  · next large =>
    obtain ⟨half, parity, exponentEq⟩ : ∃ half parity, exponent = 2 * half + parity ∧
        parity = exponent % 2 := ⟨exponent / 2, exponent % 2, by omega, rfl⟩
    rcases cases3 with rfl | rfl | rfl
    · rw [Int.zero_pow (by omega), Int.zero_pow (by omega)]
    · rw [Int.one_pow, Int.one_pow]
    · have evenPower : ∀ k, (-1 : Int) ^ (2 * k) = 1 := fun k => by
        rw [Int.pow_mul]
        exact Int.one_pow
      rcases Nat.mod_two_eq_zero_or_one exponent with even | odd
      · rw [even, exponentEq.1, exponentEq.2, even, Nat.add_zero, evenPower]
        rfl
      · rw [odd, exponentEq.1, exponentEq.2, odd, Int.pow_add, evenPower]
        rfl

/-- A base of at least two in magnitude leaves every format no wider than its exponent. -/
theorem not_holds_pow {base : Int} {exponent : Nat} (large : 2 ≤ base.natAbs)
    (narrow : f.bits ≤ exponent) : ¬ f.Holds (base.pow exponent) := by
  intro held
  change f.Holds (base ^ exponent) at held
  have magnitudeEq : (base ^ exponent).natAbs = base.natAbs ^ exponent := Int.natAbs_pow _ _
  have widthLe : 2 ^ f.bits ≤ base.natAbs ^ exponent :=
    Nat.le_trans (Nat.pow_le_pow_left large _)
      (Nat.pow_le_pow_right (by omega) narrow)
  have spanEq : f.span = ((2 ^ f.bits : Nat) : Int) := (Int.natCast_pow 2 f.bits).symm
  have spanPos := f.span_pos
  unfold Format.Holds Format.hi at held
  cases f with
  | unsigned n =>
    simp only [Format.lo] at held
    omega
  | signed n =>
    simp only [Format.lo, Format.bits, Format.span] at *
    omega

theorem pow_eq_ok_iff {a c : Word f} {exponent : Nat} :
    a.pow exponent = .ok c ↔ c.val = a.val.pow exponent := by
  unfold pow
  split
  · next small => rw [fit_eq_ok_iff, pow_settledExponent small]
  · next large =>
    split
    · exact fit_eq_ok_iff
    · next narrow =>
      have outside : ¬ f.Holds (a.val.pow exponent) :=
        not_holds_pow (Nat.not_lt.1 large) (Nat.not_lt.1 narrow)
      refine ⟨(nomatch ·), fun valEq => ?_⟩
      exact absurd (valEq ▸ c.holds) outside

/-! ## Conversions -/

def cast (g : Format) (a : Word f) : Checked (Word g) := fit g .castFailure a.val

theorem cast_eq_ok_iff {a : Word f} {b : Word g} : a.cast g = .ok b ↔ b.val = a.val :=
  fit_eq_ok_iff

def neg {n : Nat} (a : Signed n) : Checked (Signed n) := fit _ .overflow (-a.val)

theorem neg_eq_ok_iff {n : Nat} {a b : Signed n} : a.neg = .ok b ↔ b.val = -a.val := fit_eq_ok_iff

/-! ## Faults

An operation stops at faults of its own and at no others: only a difference stops at `underflow`, and
only a quotient or a remainder at `divisionByZero`. A difference of unsigned words is there exactly
when it is not negative. -/

section Faults

variable {fault other : Fault}

theorem fit_ne_error {v : Int} (ne : other ≠ fault) : fit f fault v ≠ .error other :=
  fun stopped => ne (fit_eq_error_iff.1 stopped).1

theorem add_ne_error {a b : Word f} (ne : fault ≠ .overflow) : a.add b ≠ .error fault :=
  fit_ne_error ne

theorem mul_ne_error {a b : Word f} (ne : fault ≠ .overflow) : a.mul b ≠ .error fault :=
  fit_ne_error ne

theorem cast_ne_error {a : Word f} (ne : fault ≠ .castFailure) : a.cast g ≠ .error fault :=
  fit_ne_error ne

theorem div_ne_error {a b : Word f} (ne : fault ≠ .overflow)
    (divides : fault = .divisionByZero → b.val ≠ 0) : a.div b ≠ .error fault := by
  unfold div
  split
  · next zero =>
    intro stopped
    exact divides (Except.error.inj stopped).symm zero
  · exact fit_ne_error ne

theorem sub_ne_error {a b : Word f} (held : f.Holds (a.val - b.val)) : a.sub b ≠ .error fault := by
  obtain ⟨c, cEq⟩ := exists_val_eq_iff.2 held
  rw [sub_eq_ok_iff.2 cEq]
  exact nofun

theorem exists_unsigned_sub_eq_ok_iff {n : Nat} {a b : Unsigned n} :
    (∃ c, a.sub b = .ok c) ↔ b.val ≤ a.val := by
  simp only [sub_eq_ok_iff]
  constructor
  · rintro ⟨c, cEq⟩
    have nonneg := unsigned_nonneg c
    omega
  · intro le
    have nonneg := unsigned_nonneg b
    exact exists_val_eq_of_le a (Int.sub_nonneg.2 le) (by omega)

theorem unsigned_sub_ne_error {n : Nat} {a b : Unsigned n} (le : b.val ≤ a.val) :
    a.sub b ≠ .error fault := by
  obtain ⟨c, cEq⟩ := exists_unsigned_sub_eq_ok_iff.2 le
  rw [cEq]
  exact nofun

/-- Two signed words that are not negative are no farther apart than a signed word can say. -/
theorem signed_sub_ne_error {n : Nat} {a b : Signed n} (nonneg : 0 ≤ a.val) (nonneg' : 0 ≤ b.val) :
    a.sub b ≠ .error fault := by
  have upper := signed_lt a
  have upper' := signed_lt b
  apply sub_ne_error
  simp only [Format.Holds, Format.hi, Format.lo, Format.span, Format.bits]
  omega

/-- A product outside of its format is not divided any more. -/
theorem mulDiv_eq_overflow {a b : Word f} (outside : ¬ f.Holds (a.val * b.val)) (c : Word f) :
    a.mulDiv b c = .error .overflow := by
  have stopped : a.mul b = .error .overflow := fit_eq_error_iff.2 ⟨rfl, outside⟩
  rw [mulDiv, stopped]
  rfl

theorem add_ne_underflow (a b : Word f) : a.add b ≠ .error .underflow := add_ne_error nofun

theorem mulDiv_ne_underflow (a b c : Word f) : a.mulDiv b c ≠ .error .underflow :=
  Checked.bind_ne_error (mul_ne_error nofun) fun _ _ => div_ne_error nofun nofun

theorem rem_ne_underflow {n : Nat} (a b : Unsigned n) : a.rem b ≠ .error .underflow := by
  unfold rem
  split
  · exact nofun
  · exact fit_ne_error nofun

end Faults

end Word

end Leverage
