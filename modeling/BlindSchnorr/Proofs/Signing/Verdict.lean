import BlindSchnorr.Proofs.Curve.AffineGroup
import BlindSchnorr.Proofs.Signing.Verification

/-!
# The verdict on byte strings

Verification fails on malformed input and on nothing else. On well-formed input it decides
the Schnorr relation, for any group of points over a field of odd prime order.
-/
namespace BlindSchnorr

variable {C : CurveGroup} {key signature message : Bytes}

namespace Signature

theorem ofBytes_eq_ok_iff {b : Bytes} {σ : Signature} : ofBytes b = .ok σ ↔ b = σ.bytes := by
  constructor
  · intro h
    unfold ofBytes at h
    split at h
    · next r s hr hs =>
      cases h
      rw [bytes, ← Block.ofBytes?_eq_some_iff.1 hr, ← Block.ofBytes?_eq_some_iff.1 hs, List.take_append_drop]
    · cases h
  · rintro rfl
    exact ofBytes_bytes σ

theorem exists_bytes_eq {b : Bytes} (h : b.length = width) : ∃ σ : Signature, b = σ.bytes := by
  have hr : (b.take 32).length = 32 := by
    rw [List.length_take, h]
    rfl
  have hs : (b.drop 32).length = 32 := by
    rw [List.length_drop, h]
    rfl
  exact ⟨⟨⟨_, hr⟩, ⟨_, hs⟩⟩, (List.take_append_drop 32 b).symm⟩

theorem ofBytes_eq_error_iff {b : Bytes} {ε : Error} :
    ofBytes b = .error ε ↔ b.length ≠ width ∧ ε = .wrongLength "signature" (.exactly width) b.length := by
  by_cases hb : b.length = width
  · obtain ⟨σ, rfl⟩ := exists_bytes_eq hb
    rw [ofBytes_bytes]
    exact iff_of_false nofun fun h => h.1 hb
  · have hnone : ofBytes b = .error (.wrongLength "signature" (.exactly width) b.length) := by
      unfold ofBytes
      split
      · next r s hr hs =>
        have hlength := congrArg List.length (List.take_append_drop 32 b)
        rw [Block.ofBytes?_eq_some_iff.1 hr, Block.ofBytes?_eq_some_iff.1 hs, List.length_append,
          r.length_bytes, s.length_bytes] at hlength
        exact absurd hlength.symm hb
      · rfl
    rw [hnone, Except.error.injEq]
    exact ⟨fun h => ⟨hb, h.symm⟩, fun h => h.2.symm⟩

end Signature

namespace Signer

open CurveGroup

/-- What is wrong with the input of a verification. The widths are looked at before the point. -/
inductive Fault (S : Signer C) (key signature message : Bytes) : Error → Prop
  | publicKey (hkey : ¬(key.length = 33 ∨ key.length = 65)) :
      Fault S key signature message (.wrongLength "public key" (.either 33 65) key.length)
  | signature (hkey : key.length = 33 ∨ key.length = 65) (hsignature : signature.length ≠ 64) :
      Fault S key signature message (.wrongLength "signature" (.exactly 64) signature.length)
  | message (hkey : key.length = 33 ∨ key.length = 65) (hsignature : signature.length = 64)
      (hmessage : message.length ≠ 32) :
      Fault S key signature message (.wrongLength "message digest" (.exactly 32) message.length)
  | point {cause : PointError} (hkey : key.length = 33 ∨ key.length = 65) (hsignature : signature.length = 64)
      (hmessage : message.length = 32) (hpoint : C.decode S.config.probeWindow key = .error cause) :
      Fault S key signature message (.point cause)

/-- The relation between a public key, a signature and a message: the response is reduced and
belongs to a point over the nonce coordinate whose y-coordinate is a square other than zero. The
multiple of the public key is the hash of the nonce coordinate, the compressed key and the message. -/
def Accepts (S : Signer C) (P : C.Point) (key : PointCode) (σ : Signature) (message : Bytes) : Prop :=
  σ.s.toNat < C.order ∧ ∃ y R, C.ofCoordinates? σ.r.toNat y = some R ∧ y ≠ 0 ∧
    IsSquare (y : ZMod C.fieldPrime) ∧
    C.mulGenerator σ.s.toNat =
      C.add R (C.scalarMul (S.hashes.hash (σ.r.bytes ++ key.bytes ++ message)).toNat P)

theorem exists_fault_iff {S : Signer C} : (∃ ε, S.Fault key signature message ε) ↔
    ¬(key.length = 33 ∨ key.length = 65) ∨ signature.length ≠ 64 ∨ message.length ≠ 32 ∨
      ∃ cause, C.decode S.config.probeWindow key = .error cause := by
  constructor
  · rintro ⟨_, hfault⟩
    cases hfault with
    | publicKey hkey => exact .inl hkey
    | signature _ hsignature => exact .inr (.inl hsignature)
    | message _ _ hmessage => exact .inr (.inr (.inl hmessage))
    | point _ _ _ hpoint => exact .inr (.inr (.inr ⟨_, hpoint⟩))
  · intro h
    by_cases hkey : key.length = 33 ∨ key.length = 65
    · by_cases hsignature : signature.length = 64
      · by_cases hmessage : message.length = 32
        · obtain ⟨cause, hpoint⟩ : ∃ cause, C.decode S.config.probeWindow key = .error cause := by
            simpa [hkey, hsignature, hmessage] using h
          exact ⟨_, .point hkey hsignature hmessage hpoint⟩
        · exact ⟨_, .message hkey hsignature hmessage⟩
      · exact ⟨_, .signature hkey hsignature⟩
    · exact ⟨_, .publicKey hkey⟩

section Laws

variable [C.CoordinateLaws] [C.OddFieldLaws] [C.AdditionLaws] {S : Signer C}

lemma accepts_iff {P : C.Points} {code : PointCode} {σ : Signature} :
    S.Accepts P code σ message ↔ σ.s.toNat < C.order ∧
      C.IsNoncePoint σ.r (σ.s.toNat • Points.generator - S.challenge σ.r code message • P : C.Points) := by
  rw [Accepts, isNoncePoint_iff_build, challenge]
  refine and_congr_right fun _ => exists_congr fun y => ?_
  constructor
  · rintro ⟨R, hR, hy, hsquare, hsum⟩
    lift R to C.Points using isPoint_of_build hR
    rw [← Points.coe_nsmul_generator, ← Points.coe_nsmul, ← Points.coe_add, Subtype.coe_inj] at hsum
    rw [hsum, add_sub_cancel_right]
    exact ⟨hR, hy, hsquare⟩
  · rintro ⟨hR, hy, hsquare⟩
    refine ⟨_, hR, hy, hsquare, ?_⟩
    rw [← Points.coe_nsmul_generator, ← Points.coe_nsmul, ← Points.coe_add, sub_add_cancel]

/-- Whatever fails, it is the input: no point of the curve makes the check of a signature fail. -/
theorem verify_eq_error_iff {ε : Error} :
    S.verify key signature message = .error ε ↔ S.Fault key signature message ε := by
  constructor
  · intro h
    rcases bind_eq_error_iff.1 h with hfail | ⟨_, hok, hread⟩
    · obtain ⟨hkey, rfl⟩ := expectWidth_eq_error_iff.1 hfail
      exact .publicKey hkey
    have hkey : key.length = 33 ∨ key.length = 65 := expectWidth_eq_ok_iff.1 hok
    rcases bind_eq_error_iff.1 hread with hfail | ⟨σ, hσ, hdigest⟩
    · obtain ⟨hsignature, rfl⟩ := Signature.ofBytes_eq_error_iff.1 hfail
      exact .signature hkey hsignature
    obtain rfl := Signature.ofBytes_eq_ok_iff.1 hσ
    rcases bind_eq_error_iff.1 hdigest with hfail | ⟨_, hok', hpoint⟩
    · obtain ⟨hmessage, rfl⟩ := expectWidth_eq_error_iff.1 hfail
      exact .message hkey σ.length_bytes hmessage
    have hmessage : message.length = 32 := expectWidth_eq_ok_iff.1 hok'
    rcases bind_eq_error_iff.1 hpoint with hfail | ⟨P, hP, hcheck⟩
    · obtain ⟨cause, hcause, rfl⟩ := mapError_eq_error_iff.1 hfail
      exact .point hkey σ.length_bytes hmessage hcause
    -- A point that has been read is finite, so its check comes to a verdict.
    obtain ⟨P, code, rfl, hcode⟩ := exists_point_of_decode hP
    obtain ⟨b, hb⟩ := check_isOk S hcode σ message
    rw [hb] at hcheck
    cases hcheck
  · intro hfault
    cases hfault with
    | publicKey hkey => exact bind_eq_error_iff.2 (.inl (expectWidth_eq_error_iff.2 ⟨hkey, rfl⟩))
    | signature hkey hsignature =>
      refine bind_eq_error_iff.2 (.inr ⟨(), expectWidth_eq_ok_iff.2 hkey, ?_⟩)
      exact bind_eq_error_iff.2 (.inl (Signature.ofBytes_eq_error_iff.2 ⟨hsignature, rfl⟩))
    | message hkey hsignature hmessage =>
      obtain ⟨σ, rfl⟩ := Signature.exists_bytes_eq hsignature
      refine bind_eq_error_iff.2 (.inr ⟨(), expectWidth_eq_ok_iff.2 hkey, ?_⟩)
      refine bind_eq_error_iff.2 (.inr ⟨σ, Signature.ofBytes_bytes σ, ?_⟩)
      exact bind_eq_error_iff.2 (.inl (expectWidth_eq_error_iff.2 ⟨hmessage, rfl⟩))
    | point hkey hsignature hmessage hpoint =>
      obtain ⟨σ, rfl⟩ := Signature.exists_bytes_eq hsignature
      rw [S.verify_of_widths hkey hmessage]
      exact bind_eq_error_iff.2 (.inl (mapError_eq_error_iff.2 ⟨_, hpoint, rfl⟩))

/-- Verification fails iff its input is malformed, and otherwise decides the Schnorr relation. -/
theorem verify_decides (S : Signer C) (key signature message : Bytes) :
    ((∃ ε, S.verify key signature message = .error ε) ↔
      ¬(key.length = 33 ∨ key.length = 65) ∨ signature.length ≠ 64 ∨ message.length ≠ 32 ∨
        ∃ cause, C.decode S.config.probeWindow key = .error cause) ∧
    (∀ ε, S.verify key signature message = .error ε ↔ S.Fault key signature message ε) ∧
    ∀ b, S.verify key signature message = .ok b ↔ ∃ P code σ, S.decode key = .ok P ∧
      C.compress P = .ok code ∧ signature = σ.bytes ∧ message.length = 32 ∧
      (b = true ↔ S.Accepts P code σ message) := by
  refine ⟨?_, fun ε => verify_eq_error_iff, ?_⟩
  · simp only [verify_eq_error_iff]
    exact exists_fault_iff
  intro b
  constructor
  · intro h
    obtain ⟨_, _, hread⟩ := bind_eq_ok_iff.1 h
    obtain ⟨σ, hσ, -⟩ := bind_eq_ok_iff.1 hread
    obtain rfl := Signature.ofBytes_eq_ok_iff.1 hσ
    obtain ⟨hmessage, P, hP, hcheck⟩ := verify_eq_ok_iff.1 h
    obtain ⟨P, code, rfl, hcode⟩ := exists_point_of_decode hP
    refine ⟨P, code, σ, hP, hcode, rfl, hmessage, ?_⟩
    rw [accepts_iff]
    exact (check_eq_ok_iff hcode).1 hcheck
  · rintro ⟨P, code, σ, hP, hcode, rfl, hmessage, hrelation⟩
    obtain ⟨P, _, rfl, _⟩ := exists_point_of_decode hP
    rw [accepts_iff] at hrelation
    exact verify_eq_ok_iff.2 ⟨hmessage, P, hP, (check_eq_ok_iff hcode).2 hrelation⟩

end Laws

/-- The signature on the toy curve, the same with the order added to its scalar, one that lacks a
byte, and a key of 33 bytes with the tag of the longer form. -/
theorem verify_decides_toy :
    toySigner.verify toyKey.bytes toySignature.bytes (List.replicate 32 9) = .ok true ∧
    toySigner.verify toyKey.bytes (Signature.mk toySignature.r (Block.ofNat 32 (30 + 907))).bytes
      (List.replicate 32 9) = .ok false ∧
    toySigner.verify toyKey.bytes (List.replicate 63 0) (List.replicate 32 9) =
      .error (.wrongLength "signature" (.exactly 64) 63) ∧
    toySigner.verify (4 :: List.replicate 32 0) toySignature.bytes (List.replicate 32 9) =
      .error (.point (.wrongLength 4 65 33)) := by
  have haccepts : toySigner.Accepts (toyCurve.mulGenerator 5) toyKey toySignature (List.replicate 32 9) :=
    ⟨by decide +kernel, 553, .finite 359 553, by decide +kernel, by decide, ⟨370, by decide +kernel⟩,
      by decide +kernel⟩
  have hrefuses : ¬toySigner.Accepts (toyCurve.mulGenerator 5) toyKey
      ⟨toySignature.r, Block.ofNat 32 (30 + 907)⟩ (List.replicate 32 9) :=
    fun h => absurd h.1 (by decide +kernel)
  refine ⟨?_, ?_, ?_, ?_⟩
  · exact ((verify_decides toySigner _ _ _).2.2 true).2
      ⟨_, _, _, toy_decode, toy_compress, rfl, rfl, iff_of_true rfl haccepts⟩
  · exact ((verify_decides toySigner _ _ _).2.2 false).2
      ⟨_, _, _, toy_decode, toy_compress, rfl, rfl, iff_of_false Bool.false_ne_true hrefuses⟩
  · exact ((verify_decides toySigner _ _ _).2.1 _).2 (.signature (by decide) (by decide))
  · exact ((verify_decides toySigner _ _ _).2.1 _).2 (.point (by decide) (by decide) (by decide) rfl)

end Signer

end BlindSchnorr
