import BlindSchnorr.Proofs.Curve.Cusp
import BlindSchnorr.Proofs.Signing.Core

/-!
# Every signature verifies

On a lawful curve whatever is signed verifies under the public key in either form. The one
exception is a nonce point on the x-axis, which no symbol can tell from its negative and
which verification refuses; a group of odd order has none.
-/
namespace BlindSchnorr

open scoped NumberTheorySymbols

variable {C : CurveGroup} [C.Lawful]

namespace Signer

open CurveGroup

/-- The nonce point of a signature is the one that its x-coordinate stands for, unless it
lies on the x-axis. -/
lemma isNoncePoint_signedNonce {k rx ry : Nat} (hk : k ≤ C.order)
    (hR : C.coordinates (C.mulGenerator k) = some (rx, ry)) :
    C.IsNoncePoint (Block.ofNat 32 rx) (signedNonce C k ry • Points.generator : C.Points) ↔ ry ≠ 0 := by
  rw [← Points.coe_nsmul_generator] at hR
  have hzero := symbol_eq_zero_iff hR
  rw [signedNonce_nsmul hk]
  rcases jacobiSym.trichotomy ry C.fieldPrime with h | h | h
  · have hne : J(ry | C.fieldPrime) ≠ -1 := by rw [h]; decide
    rw [if_neg hne]
    refine iff_of_false (fun hnonce => ?_) (not_not.2 (hzero.1 h))
    rw [hnonce.symbol_eq_one hR] at h
    exact one_ne_zero h
  · have hne : J(ry | C.fieldPrime) ≠ -1 := by rw [h]; decide
    rw [if_neg hne]
    exact iff_of_true ((isNoncePoint_iff hR).2 ⟨rfl, h⟩) fun h0 => one_ne_zero (h.symm.trans (hzero.2 h0))
  · rw [if_pos h]
    exact iff_of_true ((isNoncePoint_neg_iff hR).2 ⟨rfl, h⟩)
      fun h0 => neg_ne_zero.2 one_ne_zero (h.symm.trans (hzero.2 h0))

/-- What the core signs is checked against the y-coordinate of the nonce point alone. -/
lemma check_of_signWith {S : Signer C} {x k rx ry : Nat} {message : Bytes} {key : PointCode}
    (horder : 0 < C.order) (hk : k ≤ C.order) (hkey : C.compress (C.mulGenerator x) = .ok key)
    (hR : C.coordinates (C.mulGenerator k) = some (rx, ry)) :
    S.check (C.mulGenerator x) ⟨Block.ofNat 32 rx, Block.ofNat 32
      ((signedNonce C k ry + S.challenge (Block.ofNat 32 rx) key message * x) % C.order)⟩ message =
        .ok (decide (ry ≠ 0)) := by
  rw [← Points.coe_nsmul_generator] at hkey ⊢
  have hlt := Nat.mod_lt (signedNonce C k ry + S.challenge (Block.ofNat 32 rx) key message * x) horder
  rw [check_eq_ok_iff hkey, Word.toNat_ofNat (hlt.trans Lawful.order_lt), response_nsmul,
    isNoncePoint_signedNonce hk hR, decide_eq_true_iff]
  exact (and_iff_right hlt).symm

/-- What the core signs with a nonce whose point is off the x-axis verifies. -/
lemma verify_of_signWith {S : Signer C} {publicKey message : Bytes} {x k rx ry : Nat}
    {σ : Signature} (hk : k < C.order) (hP : S.decode publicKey = .ok (C.mulGenerator x))
    (hmessage : message.length = 32) (hxy : C.coordinates (C.mulGenerator k) = some (rx, ry)) (hry : ry ≠ 0)
    (hsign : S.signWith x k message = .ok σ) : S.verify publicKey σ.bytes message = .ok true := by
  obtain ⟨key, rx', ry', hkey, hxy', rfl⟩ := signWith_eq_ok_iff.1 hsign
  rw [hxy, Option.some.injEq, Prod.mk.injEq] at hxy'
  obtain ⟨rfl, rfl⟩ := hxy'
  rw [verify_eq_check hP hmessage, check_of_signWith (Nat.zero_lt_of_lt hk) hk.le hkey hxy,
    decide_eq_true hry]

/-- Signing and verifying agree for every key, message and hash, and signing fails on
malformed input and unsuitable orders only. -/
theorem verify_of_sign (S : Signer C) (key message : Bytes) :
    (∀ σ, S.sign key message = .ok σ → ∃ k x y,
      Nonce.derive S.hashes C.order (nonceSeed key message) = .ok k ∧
      C.coordinates (C.mulGenerator k) = some (x, y) ∧
      (C.order % 2 = 1 → y ≠ 0) ∧
      ∀ compressed, ∃ code, S.publicKey key compressed = .ok code ∧
        S.verify code.bytes σ.bytes message = .ok (decide (y ≠ 0))) ∧
    (C.ExactOrder →
      Nonce.derive S.hashes C.order (nonceSeed key message) ≠ .error .searchExhausted →
      ((∃ σ, S.sign key message = .ok σ) ↔ key.length = 32 ∧ message.length = 32 ∧
        Scalar.InRange (Bytes.toNat key) C.order ∧ Binary.size C.order = 256)) := by
  constructor
  · intro σ hsign
    obtain ⟨hkey, hmessage, hrange, k, hk, hcore⟩ := sign_eq_ok_iff.1 hsign
    obtain ⟨code₀, rx, ry, hcode₀, hR, rfl⟩ := signWith_eq_ok_iff.1 hcore
    have hk' := Nonce.inRange_of_derive hk
    refine ⟨k, rx, ry, hk, hR, ?_, ?_⟩
    · intro hodd
      rw [← Points.coe_nsmul_generator] at hR
      exact ordinate_ne_zero hodd hR
    · intro compressed
      obtain ⟨px, py, hP⟩ := coordinates_of_compress hcode₀
      have hcode := encode_of_coordinates hP compressed
      refine ⟨_, publicKey_eq_ok_iff.2 ⟨hkey, hrange, hcode⟩, ?_⟩
      rw [verify_eq_check (S.decode_encode (isPoint_mulGenerator _) hcode) hmessage]
      exact check_of_signWith (hk'.1.trans hk'.2) hk'.2.le hcode₀ hR
  · intro hG hends
    constructor
    · rintro ⟨σ, hsign⟩
      obtain ⟨hkey, hmessage, hrange, k, hk, -⟩ := sign_eq_ok_iff.1 hsign
      exact ⟨hkey, hmessage, hrange, (Nonce.derive_eq_ok_iff.1 hk).2.1⟩
    · rintro ⟨hkey, hmessage, hrange, hsize⟩
      obtain ⟨k, hk⟩ := Nonce.derive_isOk (nonceSeed_check_eq_ok_iff.2 ⟨hkey, hmessage⟩) hsize hends
      obtain ⟨rx, ry, hR⟩ := exists_coordinates hG (Nonce.inRange_of_derive hk)
      obtain ⟨px, py, hP⟩ := exists_coordinates hG hrange
      have hcode := compress_of_coordinates hP
      exact ⟨_, sign_eq_ok_iff.2 ⟨hkey, hmessage, hrange, k, hk,
        signWith_eq_ok_iff.2 ⟨_, rx, ry, hcode, hR, rfl⟩⟩⟩

def cuspSigner : Signer (Cusp.group Cusp.fullPrime) := { config_valid := Config.valid_default }

lemma derive_cusp : Nonce.derive cuspSigner.hashes (Cusp.group Cusp.fullPrime).order
    (nonceSeed (List.replicate 32 1) (List.replicate 32 2)) =
      .ok 28937107135512276874331872978239783143846319122314391113159934592504463467012 := by
  rw [Nonce.derive_eq_ok_iff]
  decide +kernel

theorem verify_of_sign_cusp :
    ∃ σ, cuspSigner.sign (List.replicate 32 1) (List.replicate 32 2) = .ok σ ∧
      ∀ compressed, ∃ code, cuspSigner.publicKey (List.replicate 32 1) compressed = .ok code ∧
        cuspSigner.verify code.bytes σ.bytes (List.replicate 32 2) = .ok true := by
  obtain ⟨hverify, hsign⟩ := verify_of_sign cuspSigner (List.replicate 32 1) (List.replicate 32 2)
  have hends : Nonce.derive cuspSigner.hashes (Cusp.group Cusp.fullPrime).order
      (nonceSeed (List.replicate 32 1) (List.replicate 32 2)) ≠ .error .searchExhausted := by
    rw [derive_cusp]
    exact nofun
  obtain ⟨σ, hσ⟩ := (hsign Cusp.exactOrder_group hends).2 (by decide +kernel)
  obtain ⟨k, x, y, hk, hR, -, hcodes⟩ := hverify σ hσ
  have hy : y ≠ 0 := by
    rw [derive_cusp, Except.ok.injEq] at hk
    have hordinate : (Cusp.coordinates Cusp.fullPrime ((Cusp.group Cusp.fullPrime).mulGenerator k)).map
        Prod.snd = some y := congrArg (Option.map Prod.snd) hR
    rw [← hk] at hordinate
    rintro rfl
    exact absurd hordinate (by decide +kernel)
  refine ⟨σ, hσ, fun compressed => ?_⟩
  obtain ⟨code, hcode, hvalid⟩ := hcodes compressed
  rw [decide_eq_true hy] at hvalid
  exact ⟨code, hcode, hvalid⟩

end Signer

end BlindSchnorr
