import BlindSchnorr.Proofs.Checked.Encoding
import BlindSchnorr.Proofs.Hash.NonceStream
import BlindSchnorr.Signer

/-!
# Checked signing and verifying

A signature is handled as a string of 64 bytes, filled from its halves and taken apart into them. The
only difference that signing takes is that of the order and a nonce, and a derived nonce is below the
order.
-/
namespace BlindSchnorr.Checked

variable {C : CurveGroup} {S : Signer C}

/-- A signature from its halves. -/
def fromParts (r s : Bytes) : Checked Bytes := do
  let out ← copy (List.replicate 64 0) 0 32 r
  copy out 32 64 s

theorem fromParts_eq (r s : Word) : fromParts r.bytes s.bytes = .ok (Signature.mk r s).bytes := by
  have hr := r.length_bytes
  have hs := s.length_bytes
  rw [fromParts, copy_of_length_eq (by omega) (by simp) hr, ok_bind,
    copy_of_length_eq (by omega) (by simp [hr]) hs]
  simp [Signature.bytes, hr]

/-- The challenge to the bytes of a nonce coordinate, a key and a message. -/
def challenge (S : Signer C) (rx key message : Bytes) : Nat := (S.hashes.hash (rx ++ key ++ message)).toNat

theorem challenge_eq (rx : Word) (key : PointCode) (message : Bytes) :
    challenge S rx.bytes key.bytes message = S.challenge rx key message := rfl

section PublicKey

def publicKey (C : CurveGroup) (key : Bytes) (compressed : Bool) : Checked Bytes := do
  let x ← unchecked (C.privateKey key)
  encode C (C.mulGenerator x) compressed

theorem publicKey_eq (key : Bytes) (compressed : Bool) :
    publicKey C key compressed = unchecked ((S.publicKey key compressed).map PointCode.bytes) := by
  unfold publicKey Signer.publicKey
  cases C.privateKey key with
  | error ε => rfl
  | ok x => exact encode_eq (C.mulGenerator x) compressed

end PublicKey

section Sign

/-- What a number lacks to `n`, or the number itself. -/
def negateIf (negated : Prop) [Decidable negated] (n v : Nat) : Checked Nat :=
  if negated then sub n v else .ok v

theorem negateIf_of_le {negated : Prop} [Decidable negated] {n v : Nat} (h : v ≤ n) :
    negateIf negated n v = .ok (if negated then n - v else v) := by
  unfold negateIf
  split_ifs
  · exact sub_of_le h
  · rfl

/-- A signature under a private scalar and a nonce, which is taken from the order on a symbol of `-1`. -/
def signWith (S : Signer C) (x k : Nat) (message : Bytes) : Checked Bytes := do
  let key ← encodeCompressed C (C.mulGenerator x)
  match C.coordinates (C.mulGenerator k) with
  | none => refuse (.point .infinity)
  | some (rx, ry) =>
    let symbol ← symbol ry C.fieldPrime
    let k ← negateIf (symbol = -1) C.order k
    let r ← word rx
    let s ← mod (k + challenge S r key message * x) C.order
    fromParts r (← word s)

theorem signWith_eq {x k : Nat} (hk : k < C.order) (message : Bytes) :
    signWith S x k message = unchecked ((S.signWith x k message).map Signature.bytes) := by
  unfold signWith Signer.signWith CurveGroup.finite
  rw [encodeCompressed_eq]
  cases C.compress (C.mulGenerator x) with
  | error ε => rfl
  | ok key =>
    cases C.coordinates (C.mulGenerator k) with
    | none => rfl
    | some R =>
      obtain ⟨rx, ry⟩ := R
      have hn : 0 < C.order := Nat.zero_lt_of_lt hk
      simp only [Except.mapError, Except.map, Option.elim_some, unchecked_ok, ok_bind, symbol_eq]
      cases Jacobi.symbol ry C.fieldPrime with
      | error ε => rfl
      | ok symbol =>
        simp only [unchecked_ok, ok_bind, negateIf_of_le hk.le, word_eq, mod_of_pos hn, challenge_eq,
          fromParts_eq]

/-- A nonce above the order is the one that the difference does not exist for. -/
theorem signWith_underflow {x k rx ry : Nat} {key : PointCode} (hk : C.order < k)
    (hkey : C.compress (C.mulGenerator x) = .ok key) (hR : C.coordinates (C.mulGenerator k) = some (rx, ry))
    (hsymbol : Jacobi.symbol ry C.fieldPrime = .ok (-1)) (message : Bytes) :
    signWith S x k message = .error (.trap (.underflow C.order k)) := by
  have hnegate : negateIf True C.order k = .error (.trap (.underflow C.order k)) := by
    rw [negateIf, if_pos trivial, sub, if_neg (Nat.not_le.2 hk)]
  rw [signWith, encodeCompressed_eq, hkey, hR]
  simp only [Except.mapError, Except.map, unchecked_ok, ok_bind, symbol_eq, hsymbol, hnegate, error_bind]

/-- A signature of a message digest. Deriving the nonce computes no difference, no remainder and no
part of a string. -/
def sign (S : Signer C) (key message : Bytes) : Checked Bytes := do
  unchecked (expectWidth "private key" (.exactly 32) key.length)
  unchecked (expectWidth "message digest" (.exactly 32) message.length)
  let x ← unchecked (C.privateKey key)
  let k ← unchecked (Nonce.derive S.hashes C.order
    { privateKey := key, message := message, tag := Nonce.schnorrTag })
  signWith S x k message

theorem sign_eq (key message : Bytes) :
    sign S key message = unchecked ((S.sign key message).map Signature.bytes) := by
  unfold sign Signer.sign
  cases expectWidth "private key" (.exactly 32) key.length with
  | error ε => rfl
  | ok _ =>
  cases expectWidth "message digest" (.exactly 32) message.length with
  | error ε => rfl
  | ok _ =>
  cases C.privateKey key with
  | error ε => rfl
  | ok x =>
  cases hk : Nonce.derive S.hashes C.order { privateKey := key, message := message, tag := Nonce.schnorrTag } with
  | error ε => rfl
  | ok k => exact signWith_eq (Nonce.inRange_of_derive hk).2 message

end Sign

section Verify

/-- Whether a signature of 64 bytes matches a public key given as a point. -/
def check (S : Signer C) (P : C.Point) (signature message : Bytes) : Checked Bool := do
  let s ← slice signature 32 signature.length
  if C.order ≤ Bytes.toNat s then .ok false
  else
    let r ← slice signature 0 32
    let rx ← copy (List.replicate 32 0) 0 32 r
    let key ← encodeCompressed C P
    let e := challenge S rx key message
    match C.coordinates (C.add (C.mulGenerator (Bytes.toNat s)) (C.negate (C.scalarMul e P))) with
    | none => .ok false
    | some (x, y) =>
      let symbol ← symbol y C.fieldPrime
      if symbol ≠ 1 then .ok false
      else
        let x ← word x
        .ok (decide (x = rx))

theorem check_eq (P : C.Point) (σ : Signature) (message : Bytes) :
    check S P σ.bytes message = unchecked (S.check P σ message) := by
  have hlength : σ.bytes.length = 64 := σ.length_bytes
  have hs : slice σ.bytes 32 σ.bytes.length = .ok σ.s.bytes := by
    rw [slice_to_end (by omega), Signature.bytes, List.drop_left' σ.r.length_bytes]
  have hr : slice σ.bytes 0 32 = .ok σ.r.bytes := by
    rw [slice_of_le (by omega) (by omega), Signature.bytes, List.take_left' σ.r.length_bytes, List.drop_zero]
  unfold check Signer.check
  simp only [hs, hr, copy_word, ok_bind]
  change (if C.order ≤ σ.s.toNat then _ else _) = _
  split_ifs with hrange
  · rfl
  rw [encodeCompressed_eq]
  cases C.compress P with
  | error ε => rfl
  | ok key =>
    simp only [Except.mapError, Except.map, unchecked_ok, ok_bind, challenge_eq]
    change (match C.coordinates (C.add (C.mulGenerator σ.s.toNat) _) with | none => _ | some (x, y) => _) = _
    cases C.coordinates (C.add (C.mulGenerator σ.s.toNat)
      (C.negate (C.scalarMul (S.challenge σ.r key message) P))) with
    | none => rfl
    | some R =>
      obtain ⟨x, y⟩ := R
      simp only [symbol_eq, word_eq, ok_bind]
      cases Jacobi.symbol y C.fieldPrime with
      | error ε => rfl
      | ok symbol =>
        by_cases hsymbol : symbol = 1 <;> simp [hsymbol, Block.ext_iff]

/-- Whether a byte string is a signature of a message digest under a public key. -/
def verify (S : Signer C) (key signature message : Bytes) : Checked Bool := do
  unchecked (expectWidth "public key" (.either PointCode.compressedWidth PointCode.uncompressedWidth) key.length)
  let σ ← unchecked (Signature.ofBytes signature)
  unchecked (expectWidth "message digest" (.exactly 32) message.length)
  let P ← decode C S.config.probeWindow key
  check S P σ.bytes message

theorem verify_eq (key signature message : Bytes) :
    verify S key signature message = unchecked (S.verify key signature message) := by
  simp only [verify, Signer.verify, Signer.decode, unchecked_bind, decode_eq, check_eq]

end Verify

end BlindSchnorr.Checked
