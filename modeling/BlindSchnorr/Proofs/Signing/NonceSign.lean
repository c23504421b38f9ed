import BlindSchnorr.Proofs.Curve.AffineGroup
import BlindSchnorr.Proofs.Signing.Core

/-!
# A nonce and its negative sign alike

The points of a nonce and of its negative are reflections of each other, and exactly one of the two
y-coordinates has symbol `-1`. The run that has it takes the nonce of the other, so both return one
signature. Which of the two nonces a run took can be seen from its response.
-/
namespace BlindSchnorr

open CurveGroup
open scoped NumberTheorySymbols

variable {C : CurveGroup}

namespace Signer

/-- Whether signing takes the negative of a nonce. -/
def Negates (C : CurveGroup) (k : Nat) : Prop :=
  ∃ rx ry, C.coordinates (C.mulGenerator k) = some (rx, ry) ∧ Jacobi.symbol ry C.fieldPrime = .ok (-1)

theorem negates_iff [C.OddFieldLaws] {k rx ry : Nat} (hR : C.coordinates (C.mulGenerator k) = some (rx, ry)) :
    Negates C k ↔ J(ry | C.fieldPrime) = -1 := by
  simp [Negates, hR, symbol_fieldPrime]

theorem signedNonce_of_negates [C.OddFieldLaws] {k rx ry : Nat}
    (hR : C.coordinates (C.mulGenerator k) = some (rx, ry)) (h : Negates C k) :
    signedNonce C k ry = C.order - k := if_pos ((negates_iff hR).1 h)

theorem signedNonce_of_not_negates [C.OddFieldLaws] {k rx ry : Nat}
    (hR : C.coordinates (C.mulGenerator k) = some (rx, ry)) (h : ¬Negates C k) :
    signedNonce C k ry = k := if_neg ((negates_iff hR).not.1 h)

/-- The signature over a nonce coordinate whose response is computed from a nonce as it stands. -/
def signatureOf (S : Signer C) (key : PointCode) (rx x k : Nat) (message : Bytes) : Signature :=
  ⟨Block.ofNat 32 rx, Block.ofNat 32
    ((k + (S.hashes.hash ((Block.ofNat 32 rx).bytes ++ key.bytes ++ message)).toNat * x) % C.order)⟩

/-- Responses tell the nonces apart that they were computed from. -/
theorem modEq_of_signatureOf_eq {S : Signer C} {key : PointCode} {rx x j k : Nat} {message : Bytes}
    (hpos : 0 < C.order) (hlt : C.order < 2 ^ 256)
    (h : S.signatureOf key rx x j message = S.signatureOf key rx x k message) : j ≡ k [MOD C.order] := by
  have hvalue : ∀ v, (Block.ofNat 32 (v % C.order)).toNat = v % C.order :=
    fun v => Word.toNat_ofNat ((Nat.mod_lt v hpos).trans hlt)
  have hs := congrArg (fun σ => σ.s.toNat) h
  simp only [signatureOf, hvalue] at hs
  exact Nat.ModEq.add_right_cancel' _ hs

theorem signWith_of_negates [C.FieldLaws] {S : Signer C} {key : PointCode} {x k rx ry : Nat}
    {message : Bytes} (hkey : C.compress (C.mulGenerator x) = .ok key)
    (hR : C.coordinates (C.mulGenerator k) = some (rx, ry)) (h : Negates C k) :
    S.signWith x k message = .ok (S.signatureOf key rx x (C.order - k) message) := by
  refine signWith_eq_ok_iff.2 ⟨key, rx, ry, hkey, hR, ?_⟩
  rw [signedNonce_of_negates hR h]
  rfl

theorem signWith_of_not_negates [C.FieldLaws] {S : Signer C} {key : PointCode} {x k rx ry : Nat}
    {message : Bytes} (hkey : C.compress (C.mulGenerator x) = .ok key)
    (hR : C.coordinates (C.mulGenerator k) = some (rx, ry)) (h : ¬Negates C k) :
    S.signWith x k message = .ok (S.signatureOf key rx x k message) := by
  refine signWith_eq_ok_iff.2 ⟨key, rx, ry, hkey, hR, ?_⟩
  rw [signedNonce_of_not_negates hR h]
  rfl

theorem coordinates_order_sub [C.GroupLaws] [C.ReflectionLaws] {k rx ry : Nat}
    (hk : k ≤ C.order) (hR : C.coordinates (C.mulGenerator k) = some (rx, ry)) :
    C.coordinates (C.mulGenerator (C.order - k)) = some (rx, (C.fieldPrime - ry) % C.fieldPrime) := by
  rw [← Points.coe_nsmul_generator] at hR ⊢
  rw [Points.order_sub_nsmul hk]
  exact coordinates_neg hR

variable [C.GroupLaws] [C.FieldLaws] [C.ReflectionLaws]

/-- Of a nonce and its negative exactly one is negated. -/
theorem negates_order_sub_iff {k rx ry : Nat} (hk : k ≤ C.order)
    (hR : C.coordinates (C.mulGenerator k) = some (rx, ry)) (hry : ry ≠ 0) :
    Negates C (C.order - k) ↔ ¬Negates C k := by
  have hlt : ry < C.fieldPrime := by
    rw [← Points.coe_nsmul_generator] at hR
    exact ordinate_lt FieldLaws.prime.pos hR
  have hzero := (not_congr (Jacobi.jacobiSym_eq_zero_iff hlt)).2 hry
  have hneg := Jacobi.jacobiSym_neg_mod (FieldLaws.prime_mod_four (C := C)) hlt.le
  rw [negates_iff hR, negates_iff (coordinates_order_sub hk hR), hneg]
  rcases jacobiSym.trichotomy ry C.fieldPrime with h | h | h
  · exact absurd h hzero
  · rw [h]
    decide
  · rw [h]
    decide

/-- A nonce and its negative give different responses, unless the nonce point lies on the x-axis. -/
theorem signatureOf_order_sub_ne {S : Signer C} {key : PointCode} {x k rx ry : Nat} {message : Bytes}
    (hpos : 0 < C.order) (hlt : C.order < 2 ^ 256) (hk : k ≤ C.order)
    (hR : C.coordinates (C.mulGenerator k) = some (rx, ry)) (hry : ry ≠ 0) :
    S.signatureOf key rx x (C.order - k) message ≠ S.signatureOf key rx x k message := by
  intro heq
  have hmod : (C.order - k) % C.order = k % C.order := modEq_of_signatureOf_eq hpos hlt heq
  have hpoint : C.mulGenerator (C.order - k) = C.mulGenerator k := by
    rw [← Points.coe_nsmul_generator, ← Points.coe_nsmul_generator, ← Points.mod_nsmul (C.order - k), hmod,
      Points.mod_nsmul]
  -- One point cannot have both symbols.
  have hopposite := negates_order_sub_iff hk hR hry
  have hsame : Negates C (C.order - k) ↔ Negates C k := by rw [Negates, Negates, hpoint]
  exact iff_not_self (hsame.symm.trans hopposite)

/-- The run that negates ends with the signature of the one that does not. -/
lemma exists_signWith_order_sub {S : Signer C} {key : PointCode} {x k rx ry : Nat} {message : Bytes}
    (hkey : C.compress (C.mulGenerator x) = .ok key) (hk : k ≤ C.order)
    (hR : C.coordinates (C.mulGenerator k) = some (rx, ry)) (hry : ry ≠ 0) :
    ∃ σ, S.signWith x k message = .ok σ ∧ S.signWith x (C.order - k) message = .ok σ := by
  have hopposite := negates_order_sub_iff hk hR hry
  have hR' := coordinates_order_sub hk hR
  by_cases h : Negates C k
  · have h' : ¬Negates C (C.order - k) := fun h' => hopposite.1 h' h
    exact ⟨_, signWith_of_negates hkey hR h, signWith_of_not_negates hkey hR' h'⟩
  · refine ⟨_, signWith_of_not_negates hkey hR h, ?_⟩
    rw [signWith_of_negates hkey hR' (hopposite.2 h), Nat.sub_sub_self hk]

/-- Signing with a nonce and with its negative returns the same signature, whatever the message,
unless the nonce point lies on the x-axis. Exactly one of the two runs negates its nonce: its response
is the one computed from the negative, which differs from the one computed from the nonce itself. -/
theorem signWith_order_sub (S : Signer C) {x k px py rx ry : Nat} (message : Bytes)
    (hx : C.coordinates (C.mulGenerator x) = some (px, py)) (hk : Scalar.InRange k C.order)
    (hR : C.coordinates (C.mulGenerator k) = some (rx, ry)) (hry : ry ≠ 0) :
    (∃ σ, S.signWith x k message = .ok σ ∧ S.signWith x (C.order - k) message = .ok σ) ∧
    Xor (Negates C k) (Negates C (C.order - k)) ∧
    ∃ key, C.compress (C.mulGenerator x) = .ok key ∧ ∀ j, j = k ∨ j = C.order - k →
      (Negates C j → S.signWith x j message = .ok (S.signatureOf key rx x (C.order - j) message)) ∧
      (¬Negates C j → S.signWith x j message = .ok (S.signatureOf key rx x j message)) ∧
      (C.order < 2 ^ 256 →
        S.signatureOf key rx x (C.order - j) message ≠ S.signatureOf key rx x j message) := by
  have hle := hk.2.le
  have hkey := compress_of_coordinates hx
  have hR' := coordinates_order_sub hle hR
  refine ⟨exists_signWith_order_sub hkey hle hR hry, ?_, _, hkey, ?_⟩
  · rw [xor_iff_not_iff', negates_order_sub_iff hle hR hry]
  rintro j (rfl | rfl)
  · exact ⟨signWith_of_negates hkey hR, signWith_of_not_negates hkey hR, fun hlt =>
      signatureOf_order_sub_ne (hk.1.trans hk.2) hlt hle hR hry⟩
  · refine ⟨signWith_of_negates hkey hR', signWith_of_not_negates hkey hR', ?_⟩
    intro hlt
    rw [Nat.sub_sub_self hle]
    exact (signatureOf_order_sub_ne (hk.1.trans hk.2) hlt hle hR hry).symm

/-- Under the key 5 on the toy curve the nonces 13 and 894 return one signature. Of their points, over
the x-coordinate 359, that of 13 has the y-coordinate 553, so the run with 894 is the one that takes
the negative, 13. -/
theorem signWith_order_sub_toy :
    toySigner.signWith 5 13 (List.replicate 32 9) = .ok toySignature ∧
    toySigner.signWith 5 894 (List.replicate 32 9) = .ok toySignature ∧
    Xor (Negates toyCurve 13) (Negates toyCurve 894) ∧
    toySigner.signWith 5 894 (List.replicate 32 9) =
      .ok (toySigner.signatureOf toyKey 359 5 13 (List.replicate 32 9)) ∧
    toySigner.signatureOf toyKey 359 5 13 (List.replicate 32 9) ≠
      toySigner.signatureOf toyKey 359 5 894 (List.replicate 32 9) := by
  have hx : toyCurve.coordinates (toyCurve.mulGenerator 5) = some (56, 637) := by decide +kernel
  have hR : toyCurve.coordinates (toyCurve.mulGenerator 13) = some (359, 553) := by decide +kernel
  have hnegates : Negates toyCurve 894 := ⟨359, 967 - 553, by decide +kernel, by decide +kernel⟩
  obtain ⟨⟨σ, hσ, hσ'⟩, hxor, key, hkey, hbranches⟩ :=
    signWith_order_sub toySigner (List.replicate 32 9) hx (by decide) hR (by decide)
  obtain ⟨hnegated, _, hdiffer⟩ := hbranches 894 (.inr rfl)
  have hsign : toySigner.signWith 5 13 (List.replicate 32 9) = .ok toySignature := by decide +kernel
  rw [hsign, Except.ok.injEq] at hσ
  subst hσ
  rw [toy_compress, Except.ok.injEq] at hkey
  subst hkey
  exact ⟨hsign, hσ', hxor, hnegated hnegates, hdiffer (by decide)⟩

end Signer

end BlindSchnorr
