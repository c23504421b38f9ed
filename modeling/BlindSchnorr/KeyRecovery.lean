import BlindSchnorr.Arith.Modular

/-!
# Key recovery from a reused nonce

Two responses `k + e * x` with one nonce `k` and different challenges are two equations in
the same unknowns, and their quotient of differences is the private key.
-/
namespace BlindSchnorr

/-- The quotient of the difference of two responses by the difference of their challenges,
modulo a prime order. -/
def recoverKey (n s₁ s₂ e₁ e₂ : Nat) : Nat :=
  Modular.sub s₁ s₂ n * Modular.inv (Modular.sub e₁ e₂ n) n % n

end BlindSchnorr
