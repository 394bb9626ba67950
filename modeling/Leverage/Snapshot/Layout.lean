import Leverage.Key
import Leverage.Word.Basic

/-!
# Layouts

A layout lays values of a type out as bytes, always of one length and without marks between fields:
integers in two's complement with the least byte first, choices and truth values as one byte, keys
as they are. Reading follows the fields in order and stops at the first one that is not there or
makes no sense. Layouts of records are put together from those of their fields.
-/

namespace Leverage

/-- Why bytes are not those of a value. -/
inductive LayoutFault where
  | truncated
  /-- A byte that numbers a choice numbers none. -/
  | unknownVariant (byte : UInt8)
  | notBoolean (byte : UInt8)
  | trailingBytes
deriving DecidableEq, Repr

namespace LayoutFault

def label : LayoutFault → String
  | truncated | unknownVariant _ | notBoolean _ => "InvalidInput"
  | trailingBytes => "InvalidData"

def message : LayoutFault → String
  | truncated => "Unexpected length of input"
  | unknownVariant byte => "Unexpected variant index: " ++ toString byte.toNat
  | notBoolean byte => "Invalid bool representation: " ++ toString byte.toNat
  | trailingBytes => "Not all bytes read"

end LayoutFault

/-- A way to lay out the values of a type. -/
structure Layout (α : Type) where
  size : Nat
  /-- The places of the bytes that are only ever zero or one. -/
  flags : List Nat
  encode : α → List UInt8
  /-- The value at the head of some bytes and the bytes after it. -/
  read : List UInt8 → Except LayoutFault (α × List UInt8)

namespace Layout

variable {α β : Type}

/-- The value that is laid out as the given bytes, all of them. -/
def decode (layout : Layout α) (bytes : List UInt8) : Except LayoutFault α := do
  let (value, rest) ← layout.read bytes
  if rest.isEmpty then
    return value
  else
    throw .trailingBytes

/-! ## Numbers and keys -/

def littleEndian : Nat → Nat → List UInt8
  | 0, _ => []
  | count + 1, n => UInt8.ofNat n :: littleEndian count (n / 256)

def ofLittleEndian : List UInt8 → Nat
  | [] => 0
  | byte :: rest => byte.toNat + 256 * ofLittleEndian rest

def takeBytes (count : Nat) (bytes : List UInt8) : Except LayoutFault (List UInt8 × List UInt8) :=
  if bytes.length < count then .error .truncated else .ok (bytes.take count, bytes.drop count)

/-- The natural number that stands for a word in two's complement. -/
def twosComplement {f : Format} (a : Word f) : Nat := (a.val % f.span).toNat

/-- The word for which a natural number stands in two's complement. -/
def ofTwosComplement (f : Format) (n : Nat) : Word f where
  val := (n - f.lo) % f.span + f.lo
  lo_le := by
    have nonneg := Int.emod_nonneg (n - f.lo) (Int.ne_of_gt f.span_pos)
    omega
  lt_hi := by
    have bound := Int.emod_lt_of_pos (n - f.lo) f.span_pos
    unfold Format.hi
    omega

/-- Words of a format whose width is a number of whole bytes. -/
def word (f : Format) : Layout (Word f) where
  size := f.bits / 8
  flags := []
  encode a := littleEndian (f.bits / 8) (twosComplement a)
  read bytes := do
    let (own, rest) ← takeBytes (f.bits / 8) bytes
    return (ofTwosComplement f (ofLittleEndian own), rest)

def key : Layout Key where
  size := 32
  flags := []
  encode k := k.bytes
  read bytes := do
    let (own, rest) ← takeBytes 32 bytes
    match Key.ofBytes? own with
    | some k => return (k, rest)
    | none => throw .truncated

/-! ## Choices -/

/-- One byte that is zero or one, under the fault for any other byte. -/
def oneByte (encode : α → UInt8) (value? : UInt8 → Option α) (fault : UInt8 → LayoutFault) :
    Layout α where
  size := 1
  flags := [0]
  encode a := [encode a]
  read
    | [] => .error .truncated
    | byte :: rest =>
      match value? byte with
      | some a => .ok (a, rest)
      | none => .error (fault byte)

/-- A choice of two, by its number. -/
def choice (code : α → Nat) (ofCode? : Nat → Option α) : Layout α :=
  oneByte (fun a => UInt8.ofNat (code a)) (fun byte => ofCode? byte.toNat) .unknownVariant

def bool : Layout Bool :=
  oneByte (fun b => if b then 1 else 0)
    (fun byte => if byte = 0 then some false else if byte = 1 then some true else none) .notBoolean

/-! ## Records -/

/-- Two fields, one after the other. -/
def pair (first : Layout α) (second : Layout β) : Layout (α × β) where
  size := first.size + second.size
  flags := first.flags ++ second.flags.map (first.size + ·)
  encode := fun (a, b) => first.encode a ++ second.encode b
  read bytes := do
    let (a, rest) ← first.read bytes
    let (b, rest) ← second.read rest
    return ((a, b), rest)

/-- Another view of the same values. -/
def convert (layout : Layout α) (view : α → β) (unview : β → α) : Layout β where
  size := layout.size
  flags := layout.flags
  encode b := layout.encode (unview b)
  read bytes := do
    let (a, rest) ← layout.read bytes
    return (view a, rest)

end Layout

end Leverage
