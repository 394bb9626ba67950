/-!
# Keys

Mints and oracles are named by keys of thirty-two bytes, which no computation looks into.
-/

namespace Leverage

/-- The name of an account on the chain. -/
@[ext] structure Key where
  bytes : List UInt8
  length_bytes : bytes.length = 32
deriving DecidableEq, Repr

namespace Key

/-- The key of zero bytes, which stands for no account. -/
def zero : Key := ⟨List.replicate 32 0, List.length_replicate⟩

instance : Inhabited Key := ⟨zero⟩

def ofBytes? (bytes : List UInt8) : Option Key :=
  if sized : bytes.length = 32 then some ⟨bytes, sized⟩ else none

theorem ofBytes?_eq_some_iff {bytes : List UInt8} {key : Key} :
    ofBytes? bytes = some key ↔ key.bytes = bytes := by
  unfold ofBytes?
  split
  · simp [Key.ext_iff, eq_comm]
  · next missized =>
    refine ⟨(nomatch ·), fun bytesEq => ?_⟩
    exact absurd (bytesEq ▸ key.length_bytes) missized

end Key

end Leverage
