import BlindSchnorr.Proofs.Hash.NonceStream
import BlindSchnorr.Proofs.Signing.Verification

/-!
# What signing returns

The signing core in closed form, and the equation between the points of its response, its
nonce and its key.
-/
namespace BlindSchnorr

open scoped NumberTheorySymbols

variable {C : CurveGroup}

/-- The multiples of a generator of exact order by scalars are finite points. -/
theorem CurveGroup.exists_coordinates [C.CoordinateLaws] [C.AdditionLaws] {x : Nat} (hG : C.ExactOrder)
    (hx : Scalar.InRange x C.order) : ∃ px py, C.coordinates (C.mulGenerator x) = some (px, py) := by
  cases h : C.coordinates (C.mulGenerator x) with
  | none =>
    have hdvd := (hG x).1 ((coordinates_eq_none_iff (isPoint_mulGenerator x)).1 h)
    exact absurd (Nat.le_of_dvd hx.1 hdvd) hx.2.not_ge
  | some xy => exact ⟨xy.1, xy.2, rfl⟩

namespace Signer

open CurveGroup

/-- The nonce that a response is computed from: the negative where the y-coordinate of the
nonce point has symbol `-1`. -/
def signedNonce (C : CurveGroup) (k ry : Nat) : Nat := if J(ry | C.fieldPrime) = -1 then C.order - k else k

/-- The core succeeds iff key and nonce point are finite, and this is what it returns. -/
theorem signWith_eq_ok_iff [C.FieldLaws] {S : Signer C} {x k : Nat} {message : Bytes} {σ : Signature} :
    S.signWith x k message = .ok σ ↔ ∃ key rx ry, C.compress (C.mulGenerator x) = .ok key ∧
      C.coordinates (C.mulGenerator k) = some (rx, ry) ∧
      σ = ⟨Block.ofNat 32 rx, Block.ofNat 32
        ((signedNonce C k ry + S.challenge (Block.ofNat 32 rx) key message * x) % C.order)⟩ := by
  rw [signWith, bind_eq_ok_iff]
  constructor
  · rintro ⟨key, hkey, h⟩
    obtain ⟨⟨rx, ry⟩, hfinite, h⟩ := bind_eq_ok_iff.1 h
    simp only [symbol_fieldPrime, ok_bind, Except.ok.injEq] at h
    exact ⟨key, rx, ry, mapError_eq_ok_iff.1 hkey,
      finite_eq_ok_iff.1 (mapError_eq_ok_iff.1 hfinite), h.symm⟩
  · rintro ⟨key, rx, ry, hkey, hcoordinates, rfl⟩
    refine ⟨key, mapError_eq_ok_iff.2 hkey, bind_eq_ok_iff.2 ⟨(rx, ry), ?_, ?_⟩⟩
    · exact mapError_eq_ok_iff.2 (finite_eq_ok_iff.2 hcoordinates)
    · simp only [symbol_fieldPrime, ok_bind]
      rfl

def nonceSeed (key message : Bytes) : Nonce.Seed :=
  { privateKey := key, message := message, tag := Nonce.schnorrTag }

theorem nonceSeed_check_eq_ok_iff {key message : Bytes} {u : Unit} :
    (nonceSeed key message).check = .ok u ↔ key.length = 32 ∧ message.length = 32 := by
  have htag : (nonceSeed key message).tag.length = 16 := rfl
  have hentropy : (nonceSeed key message).entropy.length = 0 := rfl
  rw [Nonce.Seed.check_eq_ok_iff, htag, hentropy]
  simp [nonceSeed]

theorem sign_eq_ok_iff {S : Signer C} {key message : Bytes} {σ : Signature} :
    S.sign key message = .ok σ ↔ key.length = 32 ∧ message.length = 32 ∧
      Scalar.InRange (Bytes.toNat key) C.order ∧
      ∃ k, Nonce.derive S.hashes C.order (nonceSeed key message) = .ok k ∧
        S.signWith (Bytes.toNat key) k message = .ok σ := by
  simp only [sign, bind_eq_ok_iff, expectWidth_eq_ok_iff, Widths.Accepts, privateKey_eq_ok_iff]
  constructor
  · rintro ⟨_, hkey, _, hmessage, x, ⟨-, hrange, rfl⟩, k, hk, hsign⟩
    exact ⟨hkey, hmessage, hrange, k, hk, hsign⟩
  · rintro ⟨hkey, hmessage, hrange, k, hk, hsign⟩
    exact ⟨(), hkey, (), hmessage, _, ⟨hkey, hrange, rfl⟩, k, hk, hsign⟩

theorem publicKey_eq_ok_iff {S : Signer C} {key : Bytes} {compressed : Bool} {code : PointCode} :
    S.publicKey key compressed = .ok code ↔ key.length = 32 ∧
      Scalar.InRange (Bytes.toNat key) C.order ∧
      C.encode (C.mulGenerator (Bytes.toNat key)) compressed = .ok code := by
  simp only [publicKey, bind_eq_ok_iff, privateKey_eq_ok_iff, mapError_eq_ok_iff]
  constructor
  · rintro ⟨x, ⟨hkey, hrange, rfl⟩, hcode⟩
    exact ⟨hkey, hrange, hcode⟩
  · rintro ⟨hkey, hrange, hcode⟩
    exact ⟨_, ⟨hkey, hrange, rfl⟩, hcode⟩

section GroupLaws

variable [C.GroupLaws]

/-- A response is a nonce plus the challenge times the key, and so are the points. -/
theorem response_nsmul (k e x : Nat) :
    ((k + e * x) % C.order) • (Points.generator : C.Points) - e • (x • Points.generator) =
      k • Points.generator := by
  rw [Points.mod_nsmul, add_nsmul, mul_nsmul', add_sub_cancel_right]

theorem signedNonce_nsmul {k : Nat} (hk : k ≤ C.order) (ry : Nat) :
    signedNonce C k ry • (Points.generator : C.Points) =
      if J(ry | C.fieldPrime) = -1 then -(k • Points.generator) else k • Points.generator := by
  unfold signedNonce
  split_ifs
  · exact Points.order_sub_nsmul hk _
  · rfl

end GroupLaws

end Signer

end BlindSchnorr
