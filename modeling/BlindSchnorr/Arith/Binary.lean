import BlindSchnorr.Encoding.Bytes

/-!
# Double-and-add

The binary digits of a number and the left-to-right recursion over them. The same
recursion raises to a power in a ring and multiplies a point by a scalar.
-/
namespace BlindSchnorr.Binary

/-- The `width` lowest binary digits of `k`, most significant digit first. -/
def digits : (width : Nat) → (k : Nat) → List Bool
  | 0, _ => []
  | width + 1, k => k.testBit width :: digits width k

/-- The number of binary digits of `k`; zero has none. -/
def size (k : Nat) : Nat := if k = 0 then 0 else Nat.log2 k + 1

/-- The binary digits of `k` without leading zeros, most significant digit first. -/
def bits (k : Nat) : List Bool := digits (size k) k

/-- The bits of the shortest numeral of `k` in base 256, the top bit of each byte first. Zero is
written as one byte. -/
def byteBits (k : Nat) : List Bool :=
  (Bytes.ofNat (max 1 ((size k + 7) / 8)) k).flatMap fun d => digits 8 d.toNat

/-- Left-to-right double-and-add: the accumulator is doubled at each digit and `x` is
added at each digit one. -/
def doubleAndAdd {α β : Type} (double : α → α) (add : α → β → α) (start : α) (x : β) (k : Nat) : α :=
  (bits k).foldl (fun acc d => if d then add (double acc) x else double acc) start

end BlindSchnorr.Binary
