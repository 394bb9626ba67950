import Leverage.Proofs.Snapshot.Bytes
import Leverage.Word.Arithmetic

/-!
# Exact layouts

A layout is exact if it reads back what it writes, whatever follows, and reads nothing else. Which
bytes it writes can then be said without the values: those of its size that are zero or one at its
flags. Each way of building layouts is shown to keep this, so that a layout of a record is exact by
its shape.

`Exact.stores` is what that means for `decode`: it undoes `encode` from both sides, and it accepts a
byte string by its length and its flags alone.
-/

namespace Leverage.Layout

variable {α β : Type}

/-- The bytes at all of the places are there, and each is zero or one. -/
def BinaryAt (places : List Nat) (bytes : List UInt8) : Prop :=
  ∀ place ∈ places, bytes[place]? = some 0 ∨ bytes[place]? = some 1

/-- The two laws of a layout, and which bytes it writes. -/
structure Exact (layout : Layout α) : Prop where
  read_eq_ok_iff : ∀ {bytes a rest},
    layout.read bytes = .ok (a, rest) ↔ bytes = layout.encode a ++ rest
  exists_encode_eq_iff : ∀ {bytes},
    (∃ a, layout.encode a = bytes) ↔ bytes.length = layout.size ∧ BinaryAt layout.flags bytes
  flags_lt : ∀ place ∈ layout.flags, place < layout.size

theorem Exact.length_encode {layout : Layout α} (exact : layout.Exact) (a : α) :
    (layout.encode a).length = layout.size :=
  (exact.exists_encode_eq_iff.1 ⟨a, rfl⟩).1

/-! ## Numbers and keys -/

theorem takeBytes_eq_ok_iff {count : Nat} {bytes own rest : List UInt8} :
    takeBytes count bytes = .ok (own, rest) ↔ own.length = count ∧ bytes = own ++ rest := by
  unfold takeBytes
  split
  · next short =>
    refine ⟨nofun, fun ⟨sized, split⟩ => ?_⟩
    rw [split, List.length_append] at short
    omega
  · next long =>
    rw [Except.ok.injEq, Prod.mk.injEq]
    constructor
    · rintro ⟨rfl, rfl⟩
      exact ⟨List.length_take_of_le (not_lt.1 long), (List.take_append_drop _ _).symm⟩
    · rintro ⟨rfl, rfl⟩
      exact ⟨List.take_left, List.drop_left⟩

theorem binaryAt_nil (bytes : List UInt8) : BinaryAt [] bytes := nofun

theorem word_exact {f : Format} (whole : 8 ∣ f.bits) : (word f).Exact where
  read_eq_ok_iff := by
    intro bytes a rest
    simp only [word, Checked.bind_eq_ok_iff, Checked.pure_eq_ok_iff, Prod.exists,
      takeBytes_eq_ok_iff, Prod.mk.injEq]
    constructor
    · rintro ⟨own, _, ⟨sized, split⟩, rfl, rfl⟩
      rw [split]
      exact congrArg (· ++ _) (encode_word_ofLittleEndian whole sized).symm
    · intro split
      exact ⟨_, rest, ⟨length_littleEndian _ _, split⟩, ofLittleEndian_encode_word whole a, rfl⟩
  exists_encode_eq_iff := by
    intro bytes
    constructor
    · rintro ⟨a, rfl⟩
      exact ⟨length_littleEndian _ _, binaryAt_nil _⟩
    · rintro ⟨sized, -⟩
      exact ⟨_, encode_word_ofLittleEndian whole sized⟩
  flags_lt := nofun

theorem key_exact : key.Exact where
  read_eq_ok_iff := by
    intro bytes k rest
    simp only [key, Checked.bind_eq_ok_iff, Prod.exists, takeBytes_eq_ok_iff]
    constructor
    · rintro ⟨own, later, ⟨-, split⟩, read⟩
      cases found : Key.ofBytes? own with
      | none =>
        rw [found] at read
        cases read
      | some other =>
        rw [found, Checked.pure_eq_ok_iff, Prod.mk.injEq] at read
        obtain ⟨rfl, rfl⟩ := read
        rw [split, Key.ofBytes?_eq_some_iff.1 found]
    · intro split
      refine ⟨k.bytes, rest, ⟨k.length_bytes, split⟩, ?_⟩
      rw [Key.ofBytes?_eq_some_iff.2 rfl]
      rfl
  exists_encode_eq_iff := by
    intro bytes
    constructor
    · rintro ⟨k, rfl⟩
      exact ⟨k.length_bytes, binaryAt_nil _⟩
    · rintro ⟨sized, -⟩
      exact ⟨⟨bytes, sized⟩, rfl⟩
  flags_lt := nofun

/-! ## Choices -/

/-- The byte of a choice carries nothing but the choice, and there is a choice for zero and for one
and for no other byte. -/
theorem oneByte_exact {code : α → UInt8} {value? : UInt8 → Option α} {fault : UInt8 → LayoutFault}
    (value?_eq_some_iff : ∀ byte a, value? byte = some a ↔ code a = byte)
    (exists_code_eq_iff : ∀ byte, (∃ a, code a = byte) ↔ byte = 0 ∨ byte = 1) :
    (oneByte code value? fault).Exact where
  read_eq_ok_iff := by
    intro bytes a rest
    have written : (oneByte code value? fault).encode a ++ rest = code a :: rest := rfl
    rw [written]
    cases bytes with
    | nil =>
      constructor
      · intro read
        cases read
      · intro split
        cases split
    | cons byte later =>
      rw [List.cons.injEq, eq_comm (a := byte), ← value?_eq_some_iff]
      cases found : value? byte with
      | none =>
        simp only [oneByte, found]
        constructor
        · intro read
          cases read
        · intro same
          cases same.1
      | some other =>
        simp only [oneByte, found, Except.ok.injEq, Prod.mk.injEq, Option.some.injEq]
  exists_encode_eq_iff := by
    intro bytes
    change (∃ a, [code a] = bytes) ↔ bytes.length = 1 ∧ BinaryAt [0] bytes
    constructor
    · intro written
      obtain ⟨a, rfl⟩ := written
      have binary := (exists_code_eq_iff (code a)).1 ⟨a, rfl⟩
      simpa [BinaryAt] using binary
    · intro binary
      obtain ⟨sized, flags⟩ := binary
      obtain ⟨byte, rfl⟩ := List.length_eq_one_iff.1 sized
      have isFlag : byte = 0 ∨ byte = 1 := by simpa [BinaryAt] using flags
      obtain ⟨a, rfl⟩ := (exists_code_eq_iff byte).2 isFlag
      exact ⟨a, rfl⟩
  flags_lt := by
    intro place isFlag
    rw [List.mem_singleton.1 isFlag]
    exact Nat.one_pos

/-- A choice of two is exact where one of them is zero, the other is one, and no other number is
read. -/
theorem choice_exact {code : α → Nat} {ofCode? : Nat → Option α} {zero one : α}
    (eq_or_eq : ∀ a, a = zero ∨ a = one) (code_zero : code zero = 0) (code_one : code one = 1)
    (ofCode?_zero : ofCode? 0 = some zero) (ofCode?_one : ofCode? 1 = some one)
    (ofCode?_more : ∀ n, ofCode? (n + 2) = none) : (choice code ofCode?).Exact := by
  have code_of_ofCode? : ∀ n a, ofCode? n = some a → code a = n := by
    intro n a read
    match n with
    | 0 =>
      obtain rfl : zero = a := Option.some.inj (ofCode?_zero.symm.trans read)
      exact code_zero
    | 1 =>
      obtain rfl : one = a := Option.some.inj (ofCode?_one.symm.trans read)
      exact code_one
    | n + 2 => exact nomatch (ofCode?_more n).symm.trans read
  have toNat_code : ∀ a, (UInt8.ofNat (code a)).toNat = code a ∧ ofCode? (code a) = some a := by
    intro a
    rcases eq_or_eq a with rfl | rfl
    · rw [code_zero]
      exact ⟨rfl, ofCode?_zero⟩
    · rw [code_one]
      exact ⟨rfl, ofCode?_one⟩
  apply oneByte_exact
  · intro byte a
    constructor
    · intro read
      rw [code_of_ofCode? _ a read, UInt8.ofNat_toNat]
    · intro written
      rw [← written, (toNat_code a).1, (toNat_code a).2]
  · intro byte
    constructor
    · intro written
      obtain ⟨a, rfl⟩ := written
      rcases eq_or_eq a with rfl | rfl
      · exact Or.inl (congrArg UInt8.ofNat code_zero)
      · exact Or.inr (congrArg UInt8.ofNat code_one)
    · intro binary
      rcases binary with rfl | rfl
      · exact ⟨zero, congrArg UInt8.ofNat code_zero⟩
      · exact ⟨one, congrArg UInt8.ofNat code_one⟩

theorem bool_exact : bool.Exact := by
  apply oneByte_exact
  · intro byte b
    by_cases zero : byte = 0
    · cases b <;> simp [zero]
    · by_cases one : byte = 1
      · cases b <;> simp [one]
      · cases b <;> simp [zero, one, eq_comm]
  · intro byte
    rw [Bool.exists_bool]
    exact or_congr eq_comm eq_comm

/-! ## Records -/

/-- The flags of two parts, one after the other, are those of the first and those of the second. -/
theorem binaryAt_append_iff {size : Nat} {places later : List Nat} {own rest : List UInt8}
    (sized : own.length = size) (places_lt : ∀ place ∈ places, place < size) :
    BinaryAt (places ++ later.map (size + ·)) (own ++ rest) ↔
      BinaryAt places own ∧ BinaryAt later rest := by
  simp only [BinaryAt, List.forall_mem_append, List.forall_mem_map]
  apply and_congr
  · apply forall₂_congr
    intro place isFlag
    rw [List.getElem?_append_left (sized ▸ places_lt place isFlag)]
  · apply forall₂_congr
    intro place _
    rw [List.getElem?_append_right (by omega), sized, Nat.add_sub_cancel_left]

/-- Two exact layouts, one after the other, are exact. -/
theorem Exact.pair {first : Layout α} {second : Layout β} (exact : first.Exact)
    (exactToo : second.Exact) : (first.pair second).Exact where
  read_eq_ok_iff := by
    intro bytes ab rest
    obtain ⟨a, b⟩ := ab
    simp only [Layout.pair, Checked.bind_eq_ok_iff, Checked.pure_eq_ok_iff, Prod.exists,
      Prod.mk.injEq, exact.read_eq_ok_iff, exactToo.read_eq_ok_iff]
    constructor
    · intro read
      obtain ⟨_, middle, split, _, _, splitToo, ⟨rfl, rfl⟩, rfl⟩ := read
      rw [split, splitToo, List.append_assoc]
    · intro split
      rw [List.append_assoc] at split
      exact ⟨a, _, split, b, rest, rfl, ⟨rfl, rfl⟩, rfl⟩
  exists_encode_eq_iff := by
    intro bytes
    change (∃ ab : α × β, first.encode ab.1 ++ second.encode ab.2 = bytes) ↔
      bytes.length = first.size + second.size ∧
        BinaryAt (first.flags ++ second.flags.map (first.size + ·)) bytes
    constructor
    · intro written
      obtain ⟨ab, rfl⟩ := written
      obtain ⟨sized, flags⟩ := exact.exists_encode_eq_iff.1 ⟨ab.1, rfl⟩
      obtain ⟨sizedToo, flagsToo⟩ := exactToo.exists_encode_eq_iff.1 ⟨ab.2, rfl⟩
      rw [List.length_append, sized, sizedToo, binaryAt_append_iff sized exact.flags_lt]
      exact ⟨rfl, flags, flagsToo⟩
    · intro binary
      obtain ⟨sized, flags⟩ := binary
      have own : (bytes.take first.size).length = first.size := by
        rw [List.length_take, sized]
        omega
      have rest : (bytes.drop first.size).length = second.size := by
        rw [List.length_drop, sized]
        omega
      rw [← List.take_append_drop first.size bytes, binaryAt_append_iff own exact.flags_lt] at flags
      obtain ⟨a, writes⟩ := exact.exists_encode_eq_iff.2 ⟨own, flags.1⟩
      obtain ⟨b, writesToo⟩ := exactToo.exists_encode_eq_iff.2 ⟨rest, flags.2⟩
      refine ⟨(a, b), ?_⟩
      rw [writes, writesToo, List.take_append_drop]
  flags_lt := by
    intro place isFlag
    obtain isFlag | isFlag := List.mem_append.1 isFlag
    · exact Nat.lt_add_right _ (exact.flags_lt place isFlag)
    · obtain ⟨later, isLater, rfl⟩ := List.mem_map.1 isFlag
      exact Nat.add_lt_add_left (exactToo.flags_lt later isLater) _

/-- An exact layout is exact for any other view that loses nothing and adds nothing. -/
theorem Exact.convert {layout : Layout α} (exact : layout.Exact) {view : α → β} {unview : β → α}
    (view_unview : ∀ b, view (unview b) = b) (unview_view : ∀ a, unview (view a) = a) :
    (layout.convert view unview).Exact where
  read_eq_ok_iff := by
    intro bytes b rest
    simp only [Layout.convert, Checked.bind_eq_ok_iff, Checked.pure_eq_ok_iff, Prod.exists,
      Prod.mk.injEq, exact.read_eq_ok_iff]
    constructor
    · intro read
      obtain ⟨a, _, split, rfl, rfl⟩ := read
      rwa [unview_view]
    · intro split
      exact ⟨unview b, rest, split, view_unview b, rfl⟩
  exists_encode_eq_iff := by
    intro bytes
    change (∃ b, layout.encode (unview b) = bytes) ↔
      bytes.length = layout.size ∧ BinaryAt layout.flags bytes
    rw [← exact.exists_encode_eq_iff]
    constructor
    · intro written
      obtain ⟨b, rfl⟩ := written
      exact ⟨unview b, rfl⟩
    · intro written
      obtain ⟨a, rfl⟩ := written
      exact ⟨view a, congrArg layout.encode (unview_view a)⟩
  flags_lt := exact.flags_lt

/-! ## Whole byte strings -/

theorem Exact.decode_eq_ok_iff {layout : Layout α} (exact : layout.Exact) {bytes : List UInt8}
    {a : α} : layout.decode bytes = .ok a ↔ layout.encode a = bytes := by
  simp only [decode, Checked.bind_eq_ok_iff, Prod.exists, exact.read_eq_ok_iff]
  constructor
  · intro decoded
    obtain ⟨value, rest, split, finished⟩ := decoded
    cases rest with
    | nil =>
      obtain rfl : value = a := Checked.pure_eq_ok_iff.1 finished
      rw [split, List.append_nil]
    | cons byte later => exact nomatch finished
  · intro written
    exact ⟨a, [], by rw [written, List.append_nil], rfl⟩

/-- The values of a type are stored as the byte strings of a size that are zero or one at the given
places, each value as one of them and each of them as one value. -/
structure Stores (layout : Layout α) (size : Nat) (flags : List Nat) : Prop where
  decode_encode : ∀ value, layout.decode (layout.encode value) = .ok value
  encode_eq_of_decode : ∀ bytes value, layout.decode bytes = .ok value →
    layout.encode value = bytes
  exists_decode_eq_iff : ∀ bytes, (∃ value, layout.decode bytes = .ok value) ↔
    bytes.length = size ∧ BinaryAt flags bytes

theorem Exact.stores {layout : Layout α} (exact : layout.Exact) :
    layout.Stores layout.size layout.flags where
  decode_encode := fun _ => exact.decode_eq_ok_iff.2 rfl
  encode_eq_of_decode := fun _ _ => exact.decode_eq_ok_iff.1
  exists_decode_eq_iff := by
    intro bytes
    simp only [exact.decode_eq_ok_iff]
    exact exact.exists_encode_eq_iff

end Leverage.Layout
