import Leverage.Snapshot.Layout
import Mathlib.Algebra.Order.Ring.Int
import Mathlib.Tactic.Ring

/-!
# Words as bytes

Bytes with the least first are the digits of a number to the base 256, so that as many of them as
there are stand for the numbers below that power of the base, each for one. In two's complement a
format of as many bits has as many words. Both ways between the words of a format and its bytes
therefore undo each other, whichever end they start from.

`getElem?_encode_word` says which bytes these are without the recursion that makes them: the digits
of the integer itself, a negative one included, since its quotients are rounded down.
-/

namespace Leverage.Layout

/-! ## Digits -/

theorem length_littleEndian (count n : Nat) : (littleEndian count n).length = count := by
  induction count generalizing n with
  | zero => rfl
  | succ count ih => rw [littleEndian, List.length_cons, ih]

theorem ofLittleEndian_littleEndian (count n : Nat) :
    ofLittleEndian (littleEndian count n) = n % 256 ^ count := by
  induction count generalizing n with
  | zero => rw [pow_zero, Nat.mod_one]; rfl
  | succ count ih =>
    have digit : (UInt8.ofNat n).toNat = n % 256 := UInt8.toNat_ofNat'
    rw [littleEndian, ofLittleEndian, ih, digit, pow_succ', Nat.mod_mul]

theorem ofLittleEndian_lt (bytes : List UInt8) : ofLittleEndian bytes < 256 ^ bytes.length := by
  induction bytes with
  | nil => exact Nat.one_pos
  | cons byte rest ih =>
    have byteLt := byte.toNat_lt
    rw [ofLittleEndian, List.length_cons, pow_succ]
    omega

theorem littleEndian_ofLittleEndian (bytes : List UInt8) :
    littleEndian bytes.length (ofLittleEndian bytes) = bytes := by
  induction bytes with
  | nil => rfl
  | cons byte rest ih =>
    have byteLt : byte.toNat < 256 := byte.toNat_lt
    have quotient : (byte.toNat + 256 * ofLittleEndian rest) / 256 = ofLittleEndian rest := by
      omega
    have digit : UInt8.ofNat (byte.toNat + 256 * ofLittleEndian rest) = byte := by
      apply UInt8.toNat_inj.1
      rw [UInt8.toNat_ofNat']
      omega
    rw [List.length_cons, ofLittleEndian, littleEndian, digit, quotient, ih]

theorem getElem?_littleEndian {count place : Nat} (n : Nat) (within : place < count) :
    (littleEndian count n)[place]? = some (UInt8.ofNat (n / 256 ^ place)) := by
  induction place generalizing count n with
  | zero =>
    obtain ⟨count, rfl⟩ := Nat.exists_eq_add_of_lt within
    rw [Nat.zero_add, littleEndian, List.getElem?_cons_zero, pow_zero, Nat.div_one]
  | succ place ih =>
    obtain ⟨count, rfl⟩ := Nat.exists_eq_add_of_lt within
    rw [littleEndian, List.getElem?_cons_succ, ih _ (by omega), Nat.div_div_eq_div_mul, pow_succ']

/-! ## Two's complement -/

variable {f : Format}

theorem twosComplement_lt (a : Word f) : (twosComplement a : Int) < f.span := by
  rw [twosComplement, Int.toNat_of_nonneg (Int.emod_nonneg _ f.span_pos.ne')]
  exact Int.emod_lt_of_pos _ f.span_pos

/-- The residue of a word stands for the one word of its class that the format holds. -/
theorem ofTwosComplement_twosComplement (a : Word f) :
    ofTwosComplement f (twosComplement a) = a := by
  have lower := a.lo_le
  have upper := a.lt_hi
  have offset : a.val - f.lo < f.span := by
    unfold Format.hi at upper
    omega
  apply Word.ext
  change (twosComplement a - f.lo) % f.span + f.lo = a.val
  rw [twosComplement, Int.toNat_of_nonneg (Int.emod_nonneg _ f.span_pos.ne'), Int.emod_sub_emod,
    Int.emod_eq_of_lt (by omega) offset, sub_add_cancel]

theorem twosComplement_ofTwosComplement {n : Nat} (lt : (n : Int) < f.span) :
    twosComplement (ofTwosComplement f n) = n := by
  change (((n - f.lo) % f.span + f.lo) % f.span).toNat = n
  rw [Int.emod_add_emod, sub_add_cancel, Int.emod_eq_of_lt (Int.natCast_nonneg n) lt,
    Int.toNat_natCast]

/-! ## Words of whole bytes -/

/-- As many bytes as a format of whole bytes takes tell apart as many numbers as it has words. -/
theorem span_eq_of_dvd (whole : 8 ∣ f.bits) : f.span = ((256 ^ (f.bits / 8) : Nat) : Int) := by
  obtain ⟨count, bitsEq⟩ := whole
  rw [Format.span, bitsEq, Nat.mul_div_cancel_left count (by decide), Int.pow_eq, pow_mul,
    Nat.cast_pow]
  rfl

theorem ofLittleEndian_encode_word (whole : 8 ∣ f.bits) (a : Word f) :
    ofTwosComplement f (ofLittleEndian ((word f).encode a)) = a := by
  have lt := twosComplement_lt a
  rw [span_eq_of_dvd whole, Nat.cast_lt] at lt
  change ofTwosComplement f (ofLittleEndian (littleEndian _ (twosComplement a))) = a
  rw [ofLittleEndian_littleEndian, Nat.mod_eq_of_lt lt, ofTwosComplement_twosComplement]

theorem encode_word_ofLittleEndian (whole : 8 ∣ f.bits) {bytes : List UInt8}
    (sized : bytes.length = f.bits / 8) :
    (word f).encode (ofTwosComplement f (ofLittleEndian bytes)) = bytes := by
  have lt : (ofLittleEndian bytes : Int) < f.span := by
    rw [span_eq_of_dvd whole, Nat.cast_lt, ← sized]
    exact ofLittleEndian_lt bytes
  change littleEndian _ (twosComplement (ofTwosComplement f (ofLittleEndian bytes))) = bytes
  rw [twosComplement_ofTwosComplement lt, ← sized, littleEndian_ofLittleEndian]

/-- A digit of the residue of an integer is a digit of the integer, since the two differ by a
multiple of all the places that there are. -/
private theorem digit_emod {place above : Nat} (v : Int) :
    v % (256 ^ place * (256 * 256 ^ above)) / 256 ^ place % 256 = v / 256 ^ place % 256 := by
  have baseNonzero : (256 : Int) ^ place ≠ 0 := pow_ne_zero place (by decide)
  generalize (256 : Int) ^ place = base at *
  generalize (256 : Int) ^ above = higher
  have parts := Int.emod_add_mul_ediv v (base * (256 * higher))
  generalize v / (base * (256 * higher)) = quotient at parts
  generalize v % (base * (256 * higher)) = residue at *
  rw [mul_assoc base, mul_assoc 256] at parts
  rw [← parts, Int.add_mul_ediv_left _ _ baseNonzero, Int.add_mul_emod_self_left]

/-- The bytes of a word are the digits of its integer. -/
theorem getElem?_encode_word (whole : 8 ∣ f.bits) (a : Word f) {place : Nat}
    (within : place < f.bits / 8) :
    ((word f).encode a)[place]? = some (UInt8.ofNat (a.val / 256 ^ place % 256).toNat) := by
  obtain ⟨above, count⟩ := Nat.exists_eq_add_of_lt within
  have spanEq : f.span = 256 ^ place * (256 * 256 ^ above) := by
    rw [span_eq_of_dvd whole, count, Nat.cast_pow]
    push_cast
    ring
  have residueEq : (twosComplement a : Int) = a.val % f.span :=
    Int.toNat_of_nonneg (Int.emod_nonneg _ f.span_pos.ne')
  have digitEq : ((twosComplement a / 256 ^ place % 256 : Nat) : Int) =
      a.val / 256 ^ place % 256 := by
    push_cast
    rw [residueEq, spanEq, digit_emod]
  change (littleEndian _ (twosComplement a))[place]? = _
  rw [getElem?_littleEndian _ within, Option.some.injEq, ← digitEq, Int.toNat_natCast]
  apply UInt8.toNat_inj.1
  rw [UInt8.toNat_ofNat', UInt8.toNat_ofNat', Nat.mod_mod]

example : (word (.signed 32)).encode (.lit (-514)) = [254, 253, 255, 255] := by decide

end Leverage.Layout
