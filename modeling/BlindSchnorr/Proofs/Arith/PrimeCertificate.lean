import BlindSchnorr.Proofs.Arith.Power

/-!
# Certificates of primality

By Lucas's test a number is prime if the powers of some base run through all of its residues but
zero, and this takes one power for each prime factor of its predecessor. A certificate lists
such numbers so that every factor is listed below or small enough for trial division.
-/
namespace BlindSchnorr.PrimeCertificate

/-- Numbers of two bytes are prime if no number of one byte divides them. -/
def IsSmallPrime (q : Nat) : Prop := 2 ≤ q ∧ q < 65536 ∧ ∀ d < min q 256, 2 ≤ d → q % d ≠ 0

instance (q : Nat) : Decidable (IsSmallPrime q) := inferInstanceAs (Decidable (_ ∧ _))

/-- A number, the base of its test, and the prime factors of its predecessor with their exponents. -/
structure Entry where
  number : Nat
  base : Nat
  factors : List (Nat × Nat)

/-- The test of Lucas, for factors that are known to be prime or small. -/
def Entry.Passes (known : List Nat) (e : Entry) : Prop :=
  1 < e.number ∧ (e.factors.map fun f => f.1 ^ f.2).prod = e.number - 1 ∧
    Modular.pow e.base (e.number - 1) e.number = 1 ∧
    ∀ f ∈ e.factors, (f.1 ∈ known ∨ IsSmallPrime f.1) ∧
      Modular.pow e.base ((e.number - 1) / f.1) e.number ≠ 1

instance (known : List Nat) (e : Entry) : Decidable (e.Passes known) :=
  inferInstanceAs (Decidable (_ ∧ _))

/-- Every entry passes with the numbers of the entries behind it. -/
def Valid : List Entry → Prop
  | [] => True
  | e :: rest => e.Passes (rest.map Entry.number) ∧ Valid rest

instance decidableValid : (es : List Entry) → Decidable (Valid es)
  | [] => inferInstanceAs (Decidable True)
  | e :: rest =>
    have := decidableValid rest
    inferInstanceAs (Decidable (e.Passes (rest.map Entry.number) ∧ Valid rest))

theorem IsSmallPrime.prime {q : Nat} (h : IsSmallPrime q) : q.Prime := by
  obtain ⟨htwo, hlt, hdivisors⟩ := h
  by_contra hq
  have hfactor := Nat.minFac_prime (n := q) (by omega)
  have hsquare : q.minFac ^ 2 ≤ q := Nat.minFac_sq_le_self (by omega) hq
  have hsmall : q.minFac < 256 := by
    by_contra hlarge
    have := Nat.pow_le_pow_left (not_lt.1 hlarge) 2
    omega
  have hproper : q.minFac < q := (Nat.not_prime_iff_minFac_lt htwo).1 hq
  exact hdivisors _ (lt_min hproper hsmall) hfactor.two_le (Nat.mod_eq_zero_of_dvd q.minFac_dvd)

theorem Entry.Passes.prime {known : List Nat} {e : Entry} (hknown : ∀ q ∈ known, q.Prime)
    (h : e.Passes known) : e.number.Prime := by
  obtain ⟨hone, hprod, hfermat, hfactors⟩ := h
  apply lucas_primality e.number e.base
  · exact (Modular.cast_pow_eq_one_iff hone _ _).2 hfermat
  · intro q hq hdvd
    rw [← hprod, hq.prime.dvd_prod_iff] at hdvd
    obtain ⟨_, hmem, hpow⟩ := hdvd
    obtain ⟨f, hf, rfl⟩ := List.mem_map.1 hmem
    obtain ⟨hlisted, hpasses⟩ := hfactors f hf
    have hprime : f.1.Prime := hlisted.elim (hknown _) IsSmallPrime.prime
    rw [(Nat.prime_dvd_prime_iff_eq hq hprime).1 (hq.dvd_of_dvd_pow hpow), Ne,
      Modular.cast_pow_eq_one_iff hone]
    exact hpasses

theorem Valid.prime {es : List Entry} (h : Valid es) : ∀ e ∈ es, e.number.Prime := by
  induction es with
  | nil => exact fun e he => absurd he List.not_mem_nil
  | cons e rest ih =>
    have hrest := ih h.2
    have hknown : ∀ q ∈ rest.map Entry.number, q.Prime := by
      intro q hq
      obtain ⟨e', he', rfl⟩ := List.mem_map.1 hq
      exact hrest e' he'
    intro e' he'
    rcases List.mem_cons.1 he' with rfl | he'
    · exact h.1.prime hknown
    · exact hrest e' he'

end BlindSchnorr.PrimeCertificate
