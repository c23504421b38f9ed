import BlindSchnorr.Encoding.Bytes
import BlindSchnorr.Error

/-!
# Signatures

A signature is the x-coordinate of the nonce point and the response scalar, 32 bytes each.
-/
namespace BlindSchnorr

structure Signature where
  r : Word
  s : Word
deriving DecidableEq, Repr

namespace Signature

def width : Nat := 64

def bytes (σ : Signature) : Bytes := σ.r.bytes ++ σ.s.bytes

/-- The signature that a byte string of the right width writes. -/
def ofBytes (b : Bytes) : Except Error Signature :=
  match Block.ofBytes? 32 (b.take 32), Block.ofBytes? 32 (b.drop 32) with
  | some r, some s => .ok ⟨r, s⟩
  | _, _ => .error (.wrongLength "signature" (.exactly width) b.length)

@[simp] theorem length_bytes (σ : Signature) : σ.bytes.length = width := by
  simp [bytes, width, σ.r.length_bytes, σ.s.length_bytes]

@[simp] theorem ofBytes_bytes (σ : Signature) : ofBytes σ.bytes = .ok σ := by
  have hr : σ.bytes.take 32 = σ.r.bytes := List.take_left' σ.r.length_bytes
  have hs : σ.bytes.drop 32 = σ.s.bytes := List.drop_left' σ.r.length_bytes
  simp [ofBytes, hr, hs]

def text (σ : Signature) : String := Bytes.hex σ.bytes

end Signature

end BlindSchnorr
