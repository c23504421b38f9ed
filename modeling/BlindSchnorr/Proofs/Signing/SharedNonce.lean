import BlindSchnorr.KeyRecovery
import BlindSchnorr.Proofs.Curve.AffineGroup
import BlindSchnorr.Proofs.Signing.Verification

/-!
# Two signatures over one nonce coordinate

Two signatures that verify under one key and share their nonce coordinate share their nonce
point, sign included. For one message they are the same signature. For messages whose
challenges differ modulo a prime order the recovered key is the private key.
-/
namespace BlindSchnorr

open CurveGroup

variable {C : CurveGroup}

/-- The recovered key times the difference of the challenges is the difference of the responses. -/
theorem recoverKey_mul_modEq {n s₁ s₂ e₁ e₂ : Nat} (hn : n.Prime) (hne : ¬e₁ ≡ e₂ [MOD n]) :
    ((e₁ : ℤ) - e₂) * recoverKey n s₁ s₂ e₁ e₂ ≡ s₁ - s₂ [ZMOD n] := by
  have : Fact n.Prime := ⟨hn⟩
  have hdifference : ((Modular.sub e₁ e₂ n : Nat) : ZMod n) ≠ 0 := by
    rw [Modular.cast_sub, sub_ne_zero]
    exact fun h => hne ((ZMod.natCast_eq_natCast_iff e₁ e₂ n).1 h)
  have hinverse := Modular.cast_inv_mul hdifference
  rw [← ZMod.intCast_eq_intCast_iff]
  push_cast
  rw [recoverKey, ZMod.natCast_mod, Nat.cast_mul, Modular.cast_sub]
  rw [Modular.cast_sub] at hinverse
  calc ((e₁ : ZMod n) - e₂) * ((s₁ - s₂) * (Modular.inv (Modular.sub e₁ e₂ n) n : Nat))
      = (s₁ - s₂) * ((Modular.inv (Modular.sub e₁ e₂ n) n : Nat) * (e₁ - e₂)) := by ring
    _ = s₁ - s₂ := by rw [hinverse, mul_one]

/-- Challenges that differ modulo a prime differ by a number coprime to it. -/
lemma isCoprime_sub_of_not_modEq {n e₁ e₂ : Nat} (hn : n.Prime) (hne : ¬e₁ ≡ e₂ [MOD n]) :
    IsCoprime ((e₁ : ℤ) - e₂) n := by
  rw [isCoprime_comm, (Nat.prime_iff_prime_int.1 hn).coprime_iff_not_dvd]
  intro hdvd
  exact hne (Nat.modEq_iff_dvd.2 ((dvd_sub_comm).1 hdvd))

/-- If two responses leave the same nonce point, the recovered key multiplies to the public key. -/
lemma recoverKey_nsmul [C.GroupLaws] {P : C.Points} {s₁ s₂ e₁ e₂ : Nat} (hn : C.order.Prime)
    (hne : ¬e₁ ≡ e₂ [MOD C.order])
    (hnonce : s₁ • Points.generator - e₁ • P = s₂ • Points.generator - e₂ • P) :
    recoverKey C.order s₁ s₂ e₁ e₂ • Points.generator = P := by
  apply Points.zsmul_right_cancel (isCoprime_sub_of_not_modEq hn hne)
  calc ((e₁ : ℤ) - e₂) • recoverKey C.order s₁ s₂ e₁ e₂ • (Points.generator : C.Points)
      = (((e₁ : ℤ) - e₂) * recoverKey C.order s₁ s₂ e₁ e₂) • Points.generator := by
        rw [mul_zsmul, natCast_zsmul]
    _ = ((s₁ : ℤ) - s₂) • Points.generator := Points.zsmul_eq_of_modEq (recoverKey_mul_modEq hn hne) _
    _ = s₁ • Points.generator - s₂ • Points.generator := by
        rw [sub_zsmul, natCast_zsmul, natCast_zsmul, sub_eq_add_neg]
    _ = e₁ • P - e₂ • P := by rw [sub_eq_sub_iff_sub_eq_sub, hnonce]
    _ = ((e₁ : ℤ) - e₂) • P := by rw [sub_zsmul, natCast_zsmul, natCast_zsmul, sub_eq_add_neg]

namespace Signer

section Reflection

variable [C.CoordinateLaws] [C.FieldLaws] [C.AdditionLaws] [C.ReflectionLaws] {S : Signer C}

/-- Signatures with one nonce coordinate belong to one nonce point. -/
lemma nonce_eq_of_check {P : C.Points} {code : PointCode} {r s₁ s₂ : Word} {m₁ m₂ : Bytes}
    (hcode : C.compress P = .ok code) (h₁ : S.check P ⟨r, s₁⟩ m₁ = .ok true)
    (h₂ : S.check P ⟨r, s₂⟩ m₂ = .ok true) :
    s₁.toNat • Points.generator - S.challenge r code m₁ • P =
      s₂.toNat • Points.generator - S.challenge r code m₂ • P := by
  obtain ⟨_, hnonce₁⟩ := ((check_eq_ok_iff hcode).1 h₁).1 rfl
  obtain ⟨_, hnonce₂⟩ := ((check_eq_ok_iff hcode).1 h₂).1 rfl
  exact hnonce₁.unique hnonce₂

lemma response_eq_of_check (hG : C.ExactOrder) {P : C.Points} {code : PointCode} {r s₁ s₂ : Word}
    {message : Bytes} (hcode : C.compress P = .ok code) (h₁ : S.check P ⟨r, s₁⟩ message = .ok true)
    (h₂ : S.check P ⟨r, s₂⟩ message = .ok true) : s₁ = s₂ := by
  obtain ⟨hlt₁, _⟩ := ((check_eq_ok_iff hcode).1 h₁).1 rfl
  obtain ⟨hlt₂, _⟩ := ((check_eq_ok_iff hcode).1 h₂).1 rfl
  have hmultiple := sub_left_injective (nonce_eq_of_check hcode h₁ h₂)
  have hmod := (Points.nsmul_generator_eq_iff hG).1 hmultiple
  exact Block.toNat_injective (hmod.eq_of_lt_of_lt hlt₁ hlt₂)

/-- Over a generator of exact order at most one response verifies with a nonce coordinate, and to
alter the response of a signature is to make it invalid. -/
theorem response_unique (hG : C.ExactOrder) (S : Signer C) (key message : Bytes) (r : Word) :
    {s : Word | S.verify key (Signature.mk r s).bytes message = .ok true}.Subsingleton ∧
    ∀ s s' : Word, S.verify key (Signature.mk r s).bytes message = .ok true → s' ≠ s →
      S.verify key (Signature.mk r s').bytes message = .ok false := by
  have hunique : {s : Word | S.verify key (Signature.mk r s).bytes message = .ok true}.Subsingleton := by
    intro s hs s' hs'
    obtain ⟨_, P, hP, hcheck⟩ := verify_eq_ok_iff.1 hs
    obtain ⟨P, code, rfl, hcode⟩ := exists_point_of_decode hP
    exact response_eq_of_check hG hcode hcheck (check_of_verify hP hs')
  refine ⟨hunique, ?_⟩
  intro s s' hs hne
  obtain ⟨hmessage, P, hP, _⟩ := verify_eq_ok_iff.1 hs
  obtain ⟨Q, code, rfl, hcode⟩ := exists_point_of_decode hP
  obtain ⟨valid, hvalid⟩ := check_isOk S hcode ⟨r, s'⟩ message
  rw [verify_eq_check hP hmessage]
  cases valid with
  | false => exact hvalid
  | true =>
    have hs' := (verify_eq_check hP hmessage _).trans hvalid
    exact absurd (hunique hs' hs) hne

end Reflection

/-- The signature on the toy curve with the order added to its scalar, with the scalar negated and
with one bit flipped. -/
theorem response_unique_toy :
    toyCurve.ExactOrder ∧
    toySigner.verify toyKey.bytes toySignature.bytes (List.replicate 32 9) = .ok true ∧
    toySigner.verify toyKey.bytes (Signature.mk toySignature.r (Block.ofNat 32 (30 + 907))).bytes
      (List.replicate 32 9) = .ok false ∧
    toySigner.verify toyKey.bytes (Signature.mk toySignature.r (Block.ofNat 32 (907 - 30))).bytes
      (List.replicate 32 9) = .ok false ∧
    toySigner.verify toyKey.bytes (Signature.mk toySignature.r (Block.ofNat 32 31)).bytes
      (List.replicate 32 9) = .ok false := by
  have hG : toyCurve.ExactOrder := exactOrder_of_prime (show Nat.Prime 907 by norm_num) nofun
  obtain ⟨_, haltered⟩ := response_unique hG toySigner toyKey.bytes (List.replicate 32 9) toySignature.r
  exact ⟨hG, toy_verify, haltered _ _ toy_verify (by decide +kernel),
    haltered _ _ toy_verify (by decide +kernel), haltered _ _ toy_verify (by decide +kernel)⟩

/-- From two signatures with one nonce coordinate and different challenges the private key is
recovered, whatever signs their nonces were taken with. -/
theorem mulGenerator_recoverKey [C.Lawful] (hn : C.order.Prime) {S : Signer C} {publicKey : Bytes}
    {P : C.Point} {r s₁ s₂ : Word} {m₁ m₂ : Bytes} (hP : S.decode publicKey = .ok P)
    (h₁ : S.verify publicKey (Signature.mk r s₁).bytes m₁ = .ok true)
    (h₂ : S.verify publicKey (Signature.mk r s₂).bytes m₂ = .ok true) :
    ∃ code e₁ e₂, C.compress P = .ok code ∧
      e₁ = (S.hashes.hash (r.bytes ++ code.bytes ++ m₁)).toNat ∧
      e₂ = (S.hashes.hash (r.bytes ++ code.bytes ++ m₂)).toNat ∧
      (¬e₁ ≡ e₂ [MOD C.order] → ∃ x, recoverKey C.order s₁.toNat s₂.toNat e₁ e₂ = x ∧
        Scalar.InRange x C.order ∧ C.mulGenerator x = P) := by
  obtain ⟨P, code, rfl, hcode⟩ := exists_point_of_decode hP
  refine ⟨code, S.challenge r code m₁, S.challenge r code m₂, hcode, rfl, rfl, ?_⟩
  intro hne
  have hnonce := nonce_eq_of_check hcode (check_of_verify hP h₁) (check_of_verify hP h₂)
  have hkey := recoverKey_nsmul hn hne hnonce
  refine ⟨_, rfl, ⟨?_, Nat.mod_lt _ hn.pos⟩, ?_⟩
  · -- The key zero belongs to the identity, which no byte string encodes.
    apply Nat.pos_of_ne_zero
    intro hzero
    obtain ⟨_, _, hfinite⟩ := coordinates_of_compress hcode
    rw [← hkey, hzero, zero_nsmul, Points.coe_zero, CoordinateLaws.coordinates_identity] at hfinite
    cases hfinite
  · rw [← Points.coe_nsmul_generator, hkey]

/-- The key 5 on the toy curve, recovered from a signature with the nonce 13 and one with its
negative. -/
theorem mulGenerator_recoverKey_toy :
    toySigner.signWith 5 13 (List.replicate 32 9) = .ok toySignature ∧
    toySigner.signWith 5 (907 - 13) (List.replicate 32 7) = .ok ⟨toySignature.r, Block.ofNat 32 824⟩ ∧
    ∃ x, recoverKey toyCurve.order toySignature.s.toNat (Block.ofNat 32 824).toNat
        (toySigner.hashes.hash (toySignature.r.bytes ++ toyKey.bytes ++ List.replicate 32 9)).toNat
        (toySigner.hashes.hash (toySignature.r.bytes ++ toyKey.bytes ++ List.replicate 32 7)).toNat = x ∧
      Scalar.InRange x toyCurve.order ∧ toyCurve.mulGenerator x = toyCurve.mulGenerator 5 := by
  refine ⟨by decide +kernel, by decide +kernel, ?_⟩
  have hsecond : toySigner.verify toyKey.bytes (Signature.mk toySignature.r (Block.ofNat 32 824)).bytes
      (List.replicate 32 7) = .ok true := by decide +kernel
  obtain ⟨code, e₁, e₂, hcode, rfl, rfl, hrecover⟩ :=
    mulGenerator_recoverKey (show Nat.Prime 907 by norm_num) toy_decode toy_verify hsecond
  rw [toy_compress, Except.ok.injEq] at hcode
  subst hcode
  exact hrecover (by decide +kernel)

end Signer

end BlindSchnorr
