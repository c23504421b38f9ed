import BlindSchnorr.Curve.Standard
import BlindSchnorr.Proofs.Curve.NoncePoint
import BlindSchnorr.Proofs.Encoding.PointRoundTrip
import BlindSchnorr.Proofs.Outcome
import BlindSchnorr.Signer

/-!
# What verification decides

On a lawful curve a signature matches a key iff its scalar is reduced and the point
`s * G - e * P` is the one that its x-coordinate stands for.
-/
namespace BlindSchnorr

open scoped NumberTheorySymbols

variable {C : CurveGroup}

theorem CurveGroup.privateKey_eq_ok_iff {key : Bytes} {x : Nat} :
    C.privateKey key = .ok x ↔
      key.length = 32 ∧ Scalar.InRange (Bytes.toNat key) C.order ∧ Bytes.toNat key = x := by
  rw [privateKey, bind_eq_ok_iff]
  constructor
  · rintro ⟨_, hlength, h⟩
    split_ifs at h with hrange
    cases h
    exact ⟨expectWidth_eq_ok_iff.1 hlength, hrange, rfl⟩
  · rintro ⟨hlength, hrange, rfl⟩
    exact ⟨(), expectWidth_eq_ok_iff.2 hlength, if_pos hrange⟩

namespace Signer

open CurveGroup

theorem decode_eq_ok_iff {S : Signer C} {b : Bytes} {P : C.Point} :
    S.decode b = .ok P ↔ C.decode S.config.probeWindow b = .ok P := mapError_eq_ok_iff

theorem decode_encode [C.CoordinateLaws] [C.FieldLaws] (S : Signer C) {P : C.Point} (hP : C.IsPoint P)
    {compressed : Bool} {code : PointCode} (h : C.encode P compressed = .ok code) :
    S.decode code.bytes = .ok P :=
  decode_eq_ok_iff.2 (CurveGroup.decode_encode S.config_valid.1 hP h)

/-- Valid configurations read the same points. -/
lemma decode_congr [C.CoordinateLaws] [C.FieldLaws] {S T : Signer C} {b : Bytes} {P : C.Point} :
    T.decode b = .ok P ↔ S.decode b = .ok P := by
  rw [decode_eq_ok_iff, decode_eq_ok_iff]
  exact decode_eq_ok_congr T.config_valid.1 S.config_valid.1

lemma exists_point_of_decode [C.CoordinateLaws] {S : Signer C} {b : Bytes} {P : C.Point}
    (h : S.decode b = .ok P) : ∃ (Q : C.Points) (key : PointCode), (Q : C.Point) = P ∧ C.compress Q = .ok key := by
  obtain ⟨x, y, hbuild⟩ := build_of_decode (decode_eq_ok_iff.1 h)
  have hcoordinates := CoordinateLaws.coordinates_of_build x y P hbuild
  exact ⟨⟨P, isPoint_of_build hbuild⟩, _, rfl, compress_of_coordinates hcoordinates⟩

lemma length_of_decode {S : Signer C} {key : Bytes} {P : C.Point} (h : S.decode key = .ok P) :
    key.length = 33 ∨ key.length = 65 := by
  obtain ⟨code, hcode, -⟩ := bind_eq_ok_iff.1 (decode_eq_ok_iff.1 h)
  rw [PointCode.parse_eq_ok_iff.1 hcode, PointCode.length_bytes]
  cases code
  · exact .inl rfl
  · exact .inr rfl

/-- Input of the right widths is verified by reading the key and checking the signature. -/
theorem verify_of_widths (S : Signer C) {key message : Bytes} (hkey : key.length = 33 ∨ key.length = 65)
    (hmessage : message.length = 32) (σ : Signature) :
    S.verify key σ.bytes message = S.decode key >>= fun P => S.check P σ message := by
  have hwidth : expectWidth "public key"
      (.either PointCode.compressedWidth PointCode.uncompressedWidth) key.length = .ok () :=
    expectWidth_eq_ok_iff.2 hkey
  have hdigest : expectWidth "message digest" (.exactly 32) message.length = .ok () :=
    expectWidth_eq_ok_iff.2 hmessage
  rw [verify, hwidth, ok_bind, Signature.ofBytes_bytes, ok_bind, hdigest, ok_bind]

/-- Once the key is read, verification is the check of the signature. -/
theorem verify_eq_check {S : Signer C} {key message : Bytes} {P : C.Point} (hkey : S.decode key = .ok P)
    (hmessage : message.length = 32) (σ : Signature) :
    S.verify key σ.bytes message = S.check P σ message := by
  rw [S.verify_of_widths (length_of_decode hkey) hmessage, hkey, ok_bind]

theorem verify_eq_ok_iff {S : Signer C} {key message : Bytes} {σ : Signature} {b : Bool} :
    S.verify key σ.bytes message = .ok b ↔
      message.length = 32 ∧ ∃ P, S.decode key = .ok P ∧ S.check P σ message = .ok b := by
  constructor
  · intro h
    obtain ⟨_, _, h⟩ := bind_eq_ok_iff.1 h
    rw [Signature.ofBytes_bytes, ok_bind] at h
    obtain ⟨_, hmessage, h⟩ := bind_eq_ok_iff.1 h
    obtain ⟨P, hP, hcheck⟩ := bind_eq_ok_iff.1 h
    exact ⟨expectWidth_eq_ok_iff.1 hmessage, P, hP, hcheck⟩
  · intro ⟨hmessage, P, hP, hcheck⟩
    rw [verify_eq_check hP hmessage]
    exact hcheck

lemma check_of_verify {S : Signer C} {key message : Bytes} {P : C.Point} {σ : Signature} {b : Bool}
    (hkey : S.decode key = .ok P) (h : S.verify key σ.bytes message = .ok b) : S.check P σ message = .ok b := by
  obtain ⟨hmessage, _⟩ := verify_eq_ok_iff.1 h
  rwa [verify_eq_check hkey hmessage] at h

/-- The check of a signature uses of a signer its hash and nothing else. -/
lemma check_congr {S T : Signer C} (h : T.hashes = S.hashes) (P : C.Point) (σ : Signature)
    (message : Bytes) : T.check P σ message = S.check P σ message := by
  simp only [check, challenge, h]

theorem verify_congr [C.CoordinateLaws] [C.FieldLaws] {S T : Signer C} (h : T.hashes = S.hashes)
    {key message : Bytes} {σ : Signature} {b : Bool} :
    T.verify key σ.bytes message = .ok b ↔ S.verify key σ.bytes message = .ok b := by
  simp only [verify_eq_ok_iff, decode_congr (S := S) (T := T), check_congr h]

section Laws

variable [C.AdditionLaws]

lemma recovered_point (P : C.Points) (s e : Nat) :
    C.add (C.mulGenerator s) (C.negate (C.scalarMul e P)) =
      ((s • Points.generator - e • P : C.Points) : C.Point) := by
  rw [sub_eq_add_neg, Points.coe_add, Points.coe_neg, Points.coe_nsmul_generator, Points.coe_nsmul]

variable [C.CoordinateLaws] [C.OddFieldLaws] {S : Signer C} {P : C.Points} {key : PointCode}
  {σ : Signature} {message : Bytes}

/-- The check of a signature under a finite key never fails, and this is its answer. -/
theorem check_eq_ok_iff (hkey : C.compress P = .ok key) {b : Bool} :
    S.check P σ message = .ok b ↔ (b = true ↔ σ.s.toNat < C.order ∧
      C.IsNoncePoint σ.r (σ.s.toNat • Points.generator - S.challenge σ.r key message • P : C.Points)) := by
  have hcompress : (C.compress P).mapError Error.point = .ok key := mapError_eq_ok_iff.2 hkey
  simp only [check, hcompress, ok_bind, recovered_point]
  generalize σ.s.toNat • Points.generator - S.challenge σ.r key message • P = R
  split_ifs with hs
  · -- A scalar that is not reduced is refused before any point is looked at.
    exact ok_false_eq_ok_iff fun h => hs.not_gt h.1
  have hlt : σ.s.toNat < C.order := not_le.1 hs
  cases hR : C.coordinates R with
  | none =>
    have hnot : ¬ C.IsNoncePoint σ.r R := by
      rintro ⟨y, hy, -⟩
      rw [hR] at hy
      cases hy
    exact ok_false_eq_ok_iff fun h => hnot h.2
  | some xy =>
    obtain ⟨x, y⟩ := xy
    have hiff : C.IsNoncePoint σ.r R ↔ J(y | C.fieldPrime) = 1 ∧ Block.ofNat 32 x = σ.r :=
      (isNoncePoint_iff hR).trans and_comm
    simp only [symbol_fieldPrime, ok_bind, ok_decide_eq_ok_iff, hiff, hlt, true_and]

lemma check_isOk (S : Signer C) (hkey : C.compress P = .ok key) (σ : Signature) (message : Bytes) :
    ∃ b, S.check P σ message = .ok b := by
  classical
  exact ⟨decide _, (check_eq_ok_iff hkey).2 decide_eq_true_iff⟩

end Laws

end Signer

def toySigner : Signer toyCurve := { config_valid := Config.valid_default }

/-- The public key of the private key 5 on the toy curve. -/
def toyKey : PointCode := .compressed true (Block.ofNat 32 56)

/-- A signature under the private key 5 with the nonce 13, of the message of 32 bytes 9. -/
def toySignature : Signature := ⟨Block.ofNat 32 359, Block.ofNat 32 30⟩

lemma toy_decode : toySigner.decode toyKey.bytes = .ok (toyCurve.mulGenerator 5) := by decide +kernel

lemma toy_compress : toyCurve.compress (toyCurve.mulGenerator 5) = .ok toyKey := by decide +kernel

lemma toy_verify : toySigner.verify toyKey.bytes toySignature.bytes (List.replicate 32 9) = .ok true := by
  decide +kernel

end BlindSchnorr
