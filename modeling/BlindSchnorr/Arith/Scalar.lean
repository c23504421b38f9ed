import BlindSchnorr.Arith.Binary
import BlindSchnorr.Encoding.Bytes

/-!
# Scalars

A scalar of a group of order `n` is a number in the open interval from 0 to `n`. Random
scalars are drawn by rejection: a block of bytes as wide as the order, its excess top bits
cleared, is kept if it is in range.
-/
namespace BlindSchnorr

/-- A computation on scripted random bytes. It takes bytes from the front of the tape and
has no result if the tape runs out. -/
abbrev Draw := StateT Bytes Option

namespace Scalar

def width : Nat := 32

/-- Whether `v` is in the open interval from 0 to `n`. -/
def InRange (v n : Nat) : Prop := 0 < v ∧ v < n

instance (v n : Nat) : Decidable (InRange v n) := inferInstanceAs (Decidable (_ ∧ _))

/-- The width in bytes of a block that holds every scalar of the order. -/
def blockWidth (n : Nat) : Nat := (Binary.size n + 7) / 8

/-- The number that a block stands for once the bits above those of the order are cleared. -/
def candidate (n : Nat) (block : Bytes) : Nat := Bytes.toNat block % (1 <<< Binary.size n)

/-- The first candidate in range among the consecutive blocks of the tape, and the tape
behind its block. -/
def search (n : Nat) (tape : Bytes) : Option (Nat × Bytes) :=
  let width := blockWidth n
  if width = 0 ∨ tape.length < width then none
  else
    let v := candidate n (tape.take width)
    if InRange v n then some (v, tape.drop width) else search n (tape.drop width)
termination_by tape.length
decreasing_by simp only [List.length_drop]; omega

def draw (n : Nat) : Draw Nat := search n

end Scalar

end BlindSchnorr
