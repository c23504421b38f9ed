import BlindSchnorr.Arith.Binary

/-!
# Arithmetic modulo a number

Powers by squaring, the difference, the Fermat inverse and square roots. No definition
assumes that the modulus is prime; what it computes for a prime is said with it.
-/
namespace BlindSchnorr.Modular

/-- The power `b ^ e` modulo `m`. -/
def pow (b e m : Nat) : Nat :=
  Binary.doubleAndAdd (fun acc => acc * acc % m) (fun acc x => acc * x % m) (1 % m) (b % m) e

/-- The difference `a - b` modulo `n`, for `a` of any size. -/
def sub (a b n : Nat) : Nat := (a + n - b % n) % n

/-- The Fermat inverse `v ^ (p - 2)` modulo `p`, an inverse when `p` is prime and does not
divide `v`. -/
def inv (v p : Nat) : Nat := pow v (p - 2) p

/-- A square root of `v` modulo `p`, if `v ^ ((p + 1) / 4)` is one. For a prime that is 3
modulo 4 and `v < p` it is one whenever there is any. -/
def sqrt? (v p : Nat) : Option Nat :=
  let r := pow v ((p + 1) / 4) p
  if r * r % p = v then some r else none

end BlindSchnorr.Modular
