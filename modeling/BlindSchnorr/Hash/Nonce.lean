import BlindSchnorr.Arith.Scalar
import BlindSchnorr.Error
import BlindSchnorr.Hash.Hmac

/-!
# Deterministic nonces

A generator is seeded from the private key, the message digest, optional entropy and the
tag of the signature scheme. It yields a stream of blocks, and the nonce is the first block
in range. The stream does not depend on the order of the group.
-/
namespace BlindSchnorr

namespace Nonce

structure Seed where
  privateKey : Bytes
  message : Bytes
  tag : Bytes := []
  entropy : Bytes := []
deriving DecidableEq, Repr

namespace Seed

def bytes (s : Seed) : Bytes := s.privateKey ++ s.message ++ s.entropy ++ s.tag

/-- Refuses inputs of other than their fixed widths. -/
def check (s : Seed) : Except Error Unit := do
  expectWidth "private key" (.exactly 32) s.privateKey.length
  expectWidth "message digest" (.exactly 32) s.message.length
  expectWidth "algorithm tag" (.either 0 16) s.tag.length
  expectWidth "extra entropy" (.either 0 32) s.entropy.length

end Seed

structure Generator where
  key : Word
  value : Word
deriving DecidableEq, Repr

namespace Generator

variable (H : HashSuite)

/-- Replaces the value by its keyed digest. -/
def advance (g : Generator) : Generator := { g with value := H.mac g.key g.value.bytes }

/-- Mixes bytes behind a separator into the key, then advances. -/
def mix (g : Generator) (separator : UInt8) (data : Bytes) : Generator :=
  advance H { g with key := H.mac g.key (g.value.bytes ++ separator :: data) }

def seeded (seed : Bytes) : Generator :=
  mix H (mix H ⟨Block.replicate 32 0, Block.replicate 32 1⟩ 0 seed) 1 seed

/-- The first scalar of the order among the next values of the stream. -/
def search (order : Nat) : Nat → Generator → Option Nat
  | 0, _ => none
  | n + 1, g =>
    let g := advance H g
    if Scalar.InRange g.value.toNat order then some g.value.toNat
    else search order n (mix H g 0 [])

/-- The number of states. A search that takes more steps is in a state that it was in before. -/
def states : Nat := 1 <<< 512

end Generator

/-- The nonce of a seed for a group of 256-bit order. The last case is that of a search which
would never end. -/
def derive (H : HashSuite) (order : Nat) (seed : Seed) : Except Error Nat := do
  seed.check
  if Binary.size order ≠ 256 then .error (.unsupportedOrder (Binary.size order))
  else
    match Generator.search H order Generator.states (Generator.seeded H seed.bytes) with
    | some k => .ok k
    | none => .error .searchExhausted

/-- The tag of this signature scheme: sixteen characters, the last two blank. -/
def schnorrTag : Bytes := "Schnorr+SHA256  ".toList.map Char.toUInt8

end Nonce

end BlindSchnorr
