/-!
# Words

A `Word f` is an integer that the fixed-width binary format `f` can hold. A format of `n` bits holds
`2 ^ n` consecutive integers: an unsigned one starts at zero, a signed one lies evenly round it. The
range is part of the type, so no operation has to check its operands and no statement about words
has to assume it. Everything is seen through the view `Word.val`.
-/

namespace Leverage

inductive Format where
  /-- The integers from zero on. -/
  | unsigned (bits : Nat)
  /-- The integers of two's complement. -/
  | signed (bits : Nat)
deriving DecidableEq, Repr

namespace Format

def bits : Format → Nat
  | unsigned n | signed n => n

def span (f : Format) : Int := Int.pow 2 f.bits

/-- The least value of a format. -/
def lo : Format → Int
  | unsigned _ => 0
  | signed n => -(Int.pow 2 n / 2)

/-- The bound just past the greatest value of a format. -/
def hi (f : Format) : Int := f.lo + f.span

def Holds (f : Format) (v : Int) : Prop := f.lo ≤ v ∧ v < f.hi

instance (f : Format) (v : Int) : Decidable (f.Holds v) :=
  inferInstanceAs (Decidable (_ ∧ _))

/-- One format lies within another when every value of the first is a value of the second. -/
def Within (f g : Format) : Prop := g.lo ≤ f.lo ∧ f.hi ≤ g.hi

instance (f g : Format) : Decidable (f.Within g) :=
  inferInstanceAs (Decidable (_ ∧ _))

theorem span_pos (f : Format) : 0 < f.span := Int.pow_pos (by decide)

theorem holds_zero (f : Format) : f.Holds 0 := by
  have spanPos := f.span_pos
  cases f with
  | unsigned n => exact ⟨Int.le_refl _, by simpa [hi, lo] using spanPos⟩
  | signed n =>
    simp only [Holds, hi, lo, span, bits] at *
    omega

theorem unsigned_holds_iff {n : Nat} {v : Int} :
    (unsigned n).Holds v ↔ 0 ≤ v ∧ v < Int.pow 2 n := by
  simp [Holds, hi, lo, span, bits]

end Format

/-- An integer that the format `f` holds. -/
@[ext] structure Word (f : Format) where
  val : Int
  lo_le : f.lo ≤ val
  lt_hi : val < f.hi
deriving DecidableEq, Repr

abbrev Unsigned (bits : Nat) := Word (.unsigned bits)

/-- An integer of `bits` bits in two's complement. -/
abbrev Signed (bits : Nat) := Word (.signed bits)

namespace Word

variable {f g : Format}

def ofHolds (v : Int) (held : f.Holds v) : Word f := ⟨v, held.1, held.2⟩

@[simp] theorem val_ofHolds (v : Int) (held : f.Holds v) : (ofHolds v held).val = v := rfl

/-- The word of a literal. Whether the format holds it is settled by evaluation where the literal is
written. -/
def lit (v : Int) (held : decide (f.Holds v) = true := by exact Eq.refl true) : Word f :=
  ofHolds v (of_decide_eq_true held)

@[simp] theorem val_lit (v : Int) (held : decide (f.Holds v) = true) : (lit v held).val = v := rfl

instance : OfNat (Word f) 0 := ⟨ofHolds 0 f.holds_zero⟩

@[simp] theorem val_zero : (0 : Word f).val = 0 := rfl

theorem eq_zero_iff {a : Word f} : a = 0 ↔ a.val = 0 := Word.ext_iff

instance : Inhabited (Word f) := ⟨0⟩

/-- The word as a natural number; a negative one counts as zero. -/
def toNat (a : Word f) : Nat := a.val.toNat

theorem holds (a : Word f) : f.Holds a.val := ⟨a.lo_le, a.lt_hi⟩

theorem exists_val_eq_iff {v : Int} : (∃ a : Word f, a.val = v) ↔ f.Holds v :=
  ⟨fun ⟨a, valEq⟩ => valEq ▸ a.holds, fun held => ⟨ofHolds v held, rfl⟩⟩

/-! ## Order -/

instance : LE (Word f) := ⟨fun a b => a.val ≤ b.val⟩

instance : LT (Word f) := ⟨fun a b => a.val < b.val⟩

theorem le_iff {a b : Word f} : a ≤ b ↔ a.val ≤ b.val := Iff.rfl

theorem lt_iff {a b : Word f} : a < b ↔ a.val < b.val := Iff.rfl

instance (a b : Word f) : Decidable (a ≤ b) := decidable_of_iff _ le_iff.symm

instance (a b : Word f) : Decidable (a < b) := decidable_of_iff _ lt_iff.symm

instance : Max (Word f) := maxOfLe

instance : Min (Word f) := minOfLe

@[simp] theorem val_max (a b : Word f) : (max a b).val = max a.val b.val := by
  simp only [max, le_iff]
  split <;> omega

@[simp] theorem val_min (a b : Word f) : (min a b).val = min a.val b.val := by
  simp only [min, le_iff]
  split <;> omega

/-! ## Total conversions -/

theorem holds_of_within (a : Word f) (within : f.Within g) : g.Holds a.val :=
  ⟨Int.le_trans within.1 a.lo_le, Int.lt_of_lt_of_le a.lt_hi within.2⟩

/-- The same integer in a format that holds all of the first one. -/
def widen (a : Word f) (within : decide (f.Within g) = true := by exact Eq.refl true) : Word g :=
  ofHolds a.val (a.holds_of_within (of_decide_eq_true within))

@[simp] theorem val_widen (a : Word f) (within : decide (f.Within g) = true) :
    (a.widen within).val = a.val := rfl

theorem unsigned_nonneg {n : Nat} (a : Unsigned n) : 0 ≤ a.val := a.lo_le

theorem unsigned_pos {n : Nat} {a : Unsigned n} (nonzero : a.val ≠ 0) : 0 < a.val :=
  Int.lt_iff_le_and_ne.2 ⟨unsigned_nonneg a, Ne.symm nonzero⟩

theorem unsigned_lt {n : Nat} (a : Unsigned n) : a.val < Int.pow 2 n := by
  have bound := a.lt_hi
  simpa [Format.hi, Format.lo, Format.span, Format.bits] using bound

theorem neg_half_le_signed {n : Nat} (a : Signed n) : -(Int.pow 2 n / 2) ≤ a.val := a.lo_le

theorem signed_lt {n : Nat} (a : Signed n) : a.val < Int.pow 2 n - Int.pow 2 n / 2 := by
  have bound := a.lt_hi
  simp only [Format.hi, Format.lo, Format.span, Format.bits] at bound
  omega

/-- A format that holds a word holds every integer between zero and the word. -/
theorem exists_val_eq_of_le {v : Int} (bound : Word f) (nonneg : 0 ≤ v) (le : v ≤ bound.val) :
    ∃ a : Word f, a.val = v :=
  exists_val_eq_iff.2
    ⟨Int.le_trans f.holds_zero.1 nonneg, Int.lt_of_le_of_lt le bound.lt_hi⟩

/-- The distance of a signed word from zero. Unsigned words of the same width hold it, that of the
least signed word included. -/
def magnitude {n : Nat} (a : Signed n) : Unsigned n where
  val := a.val.natAbs
  lo_le := Int.natCast_nonneg _
  lt_hi := by
    have lower := neg_half_le_signed a
    have upper := signed_lt a
    have spanPos := (Format.unsigned n).span_pos
    simp only [Format.hi, Format.lo, Format.span, Format.bits] at *
    omega

@[simp] theorem val_magnitude {n : Nat} (a : Signed n) : a.magnitude.val = a.val.natAbs := rfl

/-- What a signed format holds is no farther from zero than an unsigned word of its width can say. -/
theorem natAbs_lt_of_holds {n : Nat} {v : Int} (held : (Format.signed n).Holds v) :
    (v.natAbs : Int) < Int.pow 2 n :=
  unsigned_lt (ofHolds v held).magnitude

/-- The difference of two unsigned words, or zero if it is negative. -/
def monus {n : Nat} (a b : Unsigned n) : Unsigned n where
  val := max 0 (a.val - b.val)
  lo_le := Int.le_max_left _ _
  lt_hi := by
    have lower := unsigned_nonneg b
    have upper := a.lt_hi
    have spanPos := (Format.unsigned n).span_pos
    simp only [Format.hi, Format.lo, Format.span, Format.bits] at *
    omega

@[simp] theorem val_monus {n : Nat} (a b : Unsigned n) :
    (a.monus b).val = max 0 (a.val - b.val) := rfl

end Word

end Leverage
