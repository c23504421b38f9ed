/-!
# Byte strings and fixed-width blocks

Big-endian numerals in base 256. `Block.ofNat` keeps the lowest digits of a number and
`Bytes.toNat` reads all the digits of a string, so the two are inverse to each other
exactly on the numbers that fit the width.
-/
namespace BlindSchnorr

abbrev Bytes := List UInt8

namespace Bytes

/-- The number that a byte string writes in base 256, most significant digit first. -/
def toNat (b : Bytes) : Nat := b.foldl (fun acc d => acc * 256 + d.toNat) 0

/-- The lowest `width` digits of a number in base 256, most significant digit first. -/
def ofNat : (width : Nat) → Nat → Bytes
  | 0, _ => []
  | width + 1, v => ofNat width (v / 256) ++ [UInt8.ofNat (v % 256)]

@[simp] theorem toNat_nil : toNat [] = 0 := rfl

@[simp] theorem toNat_append_singleton (b : Bytes) (d : UInt8) :
    toNat (b ++ [d]) = toNat b * 256 + d.toNat := by
  simp [toNat]

@[simp] theorem length_ofNat (width v : Nat) : (ofNat width v).length = width := by
  induction width generalizing v with
  | zero => rfl
  | succ width ih => simp [ofNat, ih]

/-- The lower-case hexadecimal digit of a number below sixteen. -/
def hexDigit (d : Nat) : Char := Char.ofNat (if d < 10 then 48 + d else 87 + d)

def hexByte (d : UInt8) : List Char := [hexDigit (d.toNat / 16), hexDigit (d.toNat % 16)]

def hex (b : Bytes) : String := String.ofList (b.flatMap hexByte)

end Bytes

structure Block (width : Nat) where
  bytes : Bytes
  length_bytes : bytes.length = width
deriving DecidableEq, Repr

namespace Block

@[ext] theorem ext {width : Nat} {b c : Block width} (h : b.bytes = c.bytes) : b = c := by
  cases b; cases c; cases h; rfl

/-- The block of the lowest digits of a number. -/
def ofNat (width v : Nat) : Block width := ⟨Bytes.ofNat width v, Bytes.length_ofNat width v⟩

def toNat {width : Nat} (b : Block width) : Nat := Bytes.toNat b.bytes

/-- A byte string as a block, if it has the width. -/
def ofBytes? (width : Nat) (b : Bytes) : Option (Block width) :=
  if h : b.length = width then some ⟨b, h⟩ else none

@[simp] theorem ofBytes?_bytes {width : Nat} (b : Block width) : ofBytes? width b.bytes = some b := by
  simp [ofBytes?, b.length_bytes]

theorem ofBytes?_eq_some_iff {width : Nat} {b : Bytes} {c : Block width} :
    ofBytes? width b = some c ↔ b = c.bytes := by
  constructor
  · intro h
    unfold ofBytes? at h
    split at h
    · cases h
      rfl
    · contradiction
  · rintro rfl
    exact ofBytes?_bytes c

theorem ofBytes?_eq_none_iff {width : Nat} {b : Bytes} :
    ofBytes? width b = none ↔ b.length ≠ width := by
  unfold ofBytes?
  split <;> simp_all

def replicate (width : Nat) (d : UInt8) : Block width :=
  ⟨List.replicate width d, List.length_replicate⟩

end Block

/-- A scalar or a coordinate on the wire: 32 bytes. -/
abbrev Word := Block 32

end BlindSchnorr
