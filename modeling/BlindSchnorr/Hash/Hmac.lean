import BlindSchnorr.Hash.Sha256

/-!
# HMAC over SHA-256

Keys here are one digest wide, so a key is only ever extended with zeros to a block. A
`HashSuite` packs the hash and the keyed hash that signing relies on; nothing beyond their
types is assumed of them elsewhere.
-/
namespace BlindSchnorr

namespace Hmac

/-- The key extended to a block, each byte combined with one mask. -/
def mask (key : Word) (d : UInt8) : Bytes :=
  key.bytes.map (· ^^^ d) ++ List.replicate 32 d

def sha256 (key : Word) (message : Bytes) : Word :=
  Sha256.digest (mask key 0x5c ++ (Sha256.digest (mask key 0x36 ++ message)).bytes)

end Hmac

/-- The hash that makes challenges and the keyed hash that makes nonces. -/
structure HashSuite where
  hash : Bytes → Word
  mac : Word → Bytes → Word

def HashSuite.sha256 : HashSuite := ⟨Sha256.digest, Hmac.sha256⟩

end BlindSchnorr
