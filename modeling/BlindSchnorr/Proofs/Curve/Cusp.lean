import BlindSchnorr.Proofs.Arith.PrimeCertificate
import BlindSchnorr.Proofs.Curve.Laws

/-!
# A lawful group of full size

No law asks for the chord and tangent rule. The finite points `(t², t³)` of the cubic
`y² = x³` are as many as the residues `t`. Numbered so that opposite residues get opposite
numbers, they form a lawful group, and the order of its generator is exact and one more than
the prime.
-/
namespace BlindSchnorr.Cusp

/-- The residue of the point with a positive number. -/
def residue (p P : Nat) : Nat := (P + (p - 1) / 2) % p

def number (p t : Nat) : Nat := (t + (p - 1) / 2) % p + 1

/-- The coordinates of the point with a number. The identity has number zero. -/
def coordinates (p P : Nat) : Option (Nat × Nat) :=
  if P = 0 then none else some (residue p P ^ 2 % p, residue p P ^ 3 % p)

def ofCoordinates? (p x y : Nat) : Option Nat :=
  if x < p ∧ y < p ∧ y * y % p = x * x * x % p then some (number p (y * Modular.inv x p % p)) else none

/-- The group of the points of the cubic, each represented by its number. -/
def group (p : Nat) : CurveGroup where
  Point := Nat
  decEq := inferInstance
  name := "cusp"
  order := p + 1
  fieldPrime := p
  a := 0
  b := 0
  generator := 1
  identity := 0
  isIdentity P := P = 0
  add P Q := (P + Q) % (p + 1)
  negate P := (p + 1 - P) % (p + 1)
  scalarMul k P := k * P % (p + 1)
  coordinates := coordinates p
  ofCoordinates? := ofCoordinates? p

variable {p : Nat}

lemma residue_number {t : Nat} (hodd : p % 2 = 1) (ht : t < p) : residue p (number p t) = t := by
  have hsum : t + (p - 1) / 2 + (1 + (p - 1) / 2) = t + p := by omega
  rw [residue, number, add_assoc, Nat.mod_add_mod, hsum, Nat.add_mod_right, Nat.mod_eq_of_lt ht]

lemma number_residue {P : Nat} (hodd : p % 2 = 1) (hpos : 0 < P) (hP : P ≤ p) :
    number p (residue p P) = P := by
  have hsum : P + (p - 1) / 2 + (p - 1) / 2 = P - 1 + p := by omega
  rw [number, residue, Nat.mod_add_mod, hsum, Nat.add_mod_right, Nat.mod_eq_of_lt (by omega),
    Nat.sub_add_cancel hpos]

lemma cast_residue_sub {P : Nat} (hodd : p % 2 = 1) (hP : P ≤ p) :
    (residue p (p + 1 - P) : ZMod p) = -residue p P := by
  have hsum : p + 1 - P + (p - 1) / 2 + (P + (p - 1) / 2) = 2 * p := by omega
  rw [eq_neg_iff_add_eq_zero, residue, residue, ZMod.natCast_mod, ZMod.natCast_mod, ← Nat.cast_add, hsum]
  simp

lemma eq_of_cast_eq {v w : Nat} (hw : w < p) (h : (v : ZMod p) = w) : v % p = w := by
  rw [(ZMod.natCast_eq_natCast_iff' v w p).1 h, Nat.mod_eq_of_lt hw]

lemma coordinates_number {t : Nat} (hodd : p % 2 = 1) (ht : t < p) :
    coordinates p (number p t) = some (t ^ 2 % p, t ^ 3 % p) := by
  have hne : number p t ≠ 0 := Nat.succ_ne_zero _
  rw [coordinates, if_neg hne, residue_number hodd ht]

lemma coordinates_negate {P x y : Nat} (hodd : p % 2 = 1) (hP : P ≤ p) (h : coordinates p P = some (x, y)) :
    coordinates p ((p + 1 - P) % (p + 1)) = some (x, (p - y) % p) := by
  obtain ⟨hpos, heq⟩ := Option.ite_none_left_eq_some.1 h
  cases heq
  have hsmall : (p + 1 - P) % (p + 1) = p + 1 - P := Nat.mod_eq_of_lt (by omega)
  have hcast := cast_residue_sub hodd hP
  have hsquare := eq_of_cast_eq (v := residue p (p + 1 - P) ^ 2) (w := residue p P ^ 2 % p)
    (Nat.mod_lt _ (by omega)) (by rw [Nat.cast_pow, hcast, ZMod.natCast_mod, Nat.cast_pow, neg_sq])
  have hcube := eq_of_cast_eq (v := residue p (p + 1 - P) ^ 3) (w := (p - residue p P ^ 3 % p) % p)
    (Nat.mod_lt _ (by omega)) (by
      rw [Nat.cast_pow, hcast, ZMod.natCast_mod, Nat.cast_sub (Nat.mod_lt _ (by omega)).le,
        ZMod.natCast_self, ZMod.natCast_mod, Nat.cast_pow]
      ring)
  rw [hsmall, coordinates, if_neg (by omega), hsquare, hcube]

section Prime

variable [Fact p.Prime]

/-- The residue of a finite point is the quotient of its coordinates. -/
lemma quotient_of_powers (hp : 2 < p) {t : Nat} (ht : t < p) :
    t ^ 3 % p * Modular.inv (t ^ 2 % p) p % p = t := by
  apply eq_of_cast_eq ht
  rw [Nat.cast_mul, Modular.cast_inv hp, ZMod.natCast_mod, ZMod.natCast_mod, Nat.cast_pow, Nat.cast_pow]
  by_cases h0 : (t : ZMod p) = 0
  · rw [h0]
    simp
  · field_simp

/-- The powers of the quotient of the coordinates of a solution are the coordinates. -/
lemma powers_of_quotient (hp : 2 < p) {x y : Nat} (hx : x < p) (hy : y < p)
    (h : y * y % p = x * x * x % p) :
    (y * Modular.inv x p % p) ^ 2 % p = x ∧ (y * Modular.inv x p % p) ^ 3 % p = y := by
  have hcurve : (y : ZMod p) * y = x * x * x := by
    exact_mod_cast (ZMod.natCast_eq_natCast_iff' _ _ p).2 h
  have hquotient : ((y * Modular.inv x p % p : Nat) : ZMod p) = y / x := by
    rw [ZMod.natCast_mod, Nat.cast_mul, Modular.cast_inv hp, div_eq_mul_inv]
  have hpowers : ((y : ZMod p) / x) ^ 2 = x ∧ ((y : ZMod p) / x) ^ 3 = y := by
    by_cases h0 : (x : ZMod p) = 0
    · have hy0 : (y : ZMod p) = 0 := by
        rw [h0] at hcurve
        simpa using hcurve
      rw [h0, hy0]
      simp
    · constructor
      · field_simp
        linear_combination hcurve
      · field_simp
        linear_combination (y : ZMod p) * hcurve
  constructor
  · exact eq_of_cast_eq hx (by rw [Nat.cast_pow, hquotient, hpowers.1])
  · exact eq_of_cast_eq hy (by rw [Nat.cast_pow, hquotient, hpowers.2])

lemma ofCoordinates?_eq_some {P x y : Nat} (hp : 2 < p) (hodd : p % 2 = 1) :
    ofCoordinates? p x y = some P ↔ 0 < P ∧ P ≤ p ∧ coordinates p P = some (x, y) := by
  have hpos : 0 < p := by omega
  constructor
  · intro h
    obtain ⟨⟨hx, hy, hcurve⟩, heq⟩ := Option.ite_none_right_eq_some.1 h
    cases heq
    have hlt : y * Modular.inv x p % p < p := Nat.mod_lt _ hpos
    obtain ⟨hsquare, hcube⟩ := powers_of_quotient hp hx hy hcurve
    refine ⟨Nat.succ_pos _, Nat.mod_lt _ hpos, ?_⟩
    rw [coordinates_number hodd hlt, hsquare, hcube]
  · rintro ⟨hpositive, hle, h⟩
    obtain ⟨-, heq⟩ := Option.ite_none_left_eq_some.1 h
    cases heq
    have hcurve : residue p P ^ 3 % p * (residue p P ^ 3 % p) % p =
        residue p P ^ 2 % p * (residue p P ^ 2 % p) * (residue p P ^ 2 % p) % p := by
      apply (ZMod.natCast_eq_natCast_iff' _ _ p).1
      simp only [Nat.cast_mul, ZMod.natCast_mod, Nat.cast_pow]
      ring
    have hlt : residue p P < p := Nat.mod_lt _ hpos
    rw [ofCoordinates?, if_pos ⟨Nat.mod_lt _ hpos, Nat.mod_lt _ hpos, hcurve⟩,
      quotient_of_powers hp hlt, number_residue hodd hpositive hle]

lemma isPoint_iff {P : Nat} (hp : 2 < p) (hodd : p % 2 = 1) : (group p).IsPoint P ↔ P ≤ p := by
  constructor
  · rintro (rfl | ⟨x, y, h⟩)
    · exact Nat.zero_le p
    · exact ((ofCoordinates?_eq_some hp hodd).1 h).2.1
  · intro hP
    rcases Nat.eq_zero_or_pos P with rfl | hpos
    · exact .inl rfl
    · have hsome : coordinates p P = some (residue p P ^ 2 % p, residue p P ^ 3 % p) := if_neg hpos.ne'
      exact .inr ⟨_, _, (ofCoordinates?_eq_some hp hodd).2 ⟨hpos, hP, hsome⟩⟩

lemma coordinateLaws_group (hp : 2 < p) (hodd : p % 2 = 1) : (group p).CoordinateLaws where
  coordinates_identity := rfl
  coordinates_of_build _ _ _ h := ((ofCoordinates?_eq_some hp hodd).1 h).2.2
  build_iff x y := by
    have hrhs : (group p).rhs x = x * x * x % p := by
      change (x * x * x + 0 * x + 0) % p = _
      rw [zero_mul, add_zero, add_zero]
    change (ofCoordinates? p x y).isSome ↔ _
    rw [hrhs, ofCoordinates?]
    split_ifs with h
    · exact iff_of_true rfl h
    · exact iff_of_false Bool.false_ne_true h

lemma groupLaws_group (hp : 2 < p) (hodd : p % 2 = 1) : (group p).GroupLaws where
  isPoint_generator := (isPoint_iff hp hodd).2 (show 1 ≤ p by omega)
  isPoint_add _ _ _ _ := (isPoint_iff hp hodd).2 (Nat.lt_succ_iff.1 (Nat.mod_lt _ (Nat.succ_pos p)))
  isPoint_negate _ _ := (isPoint_iff hp hodd).2 (Nat.lt_succ_iff.1 (Nat.mod_lt _ (Nat.succ_pos p)))
  add_assoc (P Q R : Nat) _ _ _ := by
    change ((P + Q) % (p + 1) + R) % (p + 1) = (P + (Q + R) % (p + 1)) % (p + 1)
    rw [Nat.mod_add_mod, Nat.add_mod_mod, add_assoc]
  add_comm (P Q : Nat) _ _ := by
    change (P + Q) % (p + 1) = (Q + P) % (p + 1)
    rw [add_comm]
  add_identity _ hP := Nat.mod_eq_of_lt (Nat.lt_succ_iff.2 ((isPoint_iff hp hodd).1 hP))
  add_negate (P : Nat) hP := by
    have hle : P ≤ p + 1 := ((isPoint_iff hp hodd).1 hP).trans (Nat.le_succ p)
    change (P + (p + 1 - P) % (p + 1)) % (p + 1) = 0
    rw [Nat.add_mod_mod, Nat.add_sub_cancel' hle, Nat.mod_self]
  scalarMul_zero (P : Nat) _ := by
    change 0 * P % (p + 1) = (0 : Nat)
    rw [zero_mul, Nat.zero_mod]
  scalarMul_succ k (P : Nat) _ := by
    change (k + 1) * P % (p + 1) = (k * P % (p + 1) + P) % (p + 1)
    rw [Nat.mod_add_mod, add_mul, one_mul]
  mulGenerator_eq _ := rfl
  scalarMul_order (P : Nat) _ := Nat.mul_mod_right (p + 1) P

/-- The group is lawful over every prime that the laws admit. -/
theorem lawful_group (h4 : p % 4 = 3) (hlt : p + 1 < 2 ^ 256) : (group p).Lawful :=
  have hp : 2 < p := by omega
  have hodd : p % 2 = 1 := by omega
  { coordinateLaws_group hp hodd, groupLaws_group hp hodd with
    prime := (Fact.out : p.Prime)
    prime_mod_four := h4
    prime_lt := (Nat.lt_succ_self p).trans hlt
    coordinates_negate := fun _ _ _ hP h => coordinates_negate hodd ((isPoint_iff hp hodd).1 hP) h
    order_lt := hlt }

omit [Fact p.Prime] in
theorem exactOrder_group : (group p).ExactOrder := by
  intro k
  change k * 1 % (p + 1) = (0 : Nat) ↔ p + 1 ∣ k
  rw [mul_one, Nat.dvd_iff_mod_eq_zero]

end Prime

/-- A prime of 256 bits, one more than a number with three small prime factors. -/
def fullPrime : Nat := 2 * 3 ^ 102 * 5 ^ 40 + 1

theorem fullPrime_prime : fullPrime.Prime := by
  have hvalid : PrimeCertificate.Valid [⟨fullPrime, 2, [(2, 1), (3, 102), (5, 40)]⟩] := by decide +kernel
  exact hvalid.prime _ List.mem_cons_self

instance : Fact fullPrime.Prime := ⟨fullPrime_prime⟩

instance : (group fullPrime).Lawful := lawful_group (by decide) (by decide)

end BlindSchnorr.Cusp
