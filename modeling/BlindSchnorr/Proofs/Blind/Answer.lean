import BlindSchnorr.Blind.Session
import BlindSchnorr.Proofs.Arith.ScalarDraw
import BlindSchnorr.Proofs.Signing.Core

/-!
# Opening a session and answering a call

When a session opens, which calls it reads, and what it answers.
-/
namespace BlindSchnorr

variable {C : CurveGroup}

namespace Query

theorem read_eq_ok_iff {key challenge : Bytes} {q : Query} :
    read C key challenge = .ok q ↔ key.length = 32 ∧ challenge.length = 32 ∧
      Scalar.InRange (Bytes.toNat key) C.order ∧ q = ⟨Bytes.toNat key, Bytes.toNat challenge⟩ := by
  simp only [read, bind_eq_ok_iff, expectWidth_eq_ok_iff, Widths.Accepts, CurveGroup.privateKey_eq_ok_iff,
    Except.ok.injEq]
  constructor
  · rintro ⟨_, hkey, _, hchallenge, x, ⟨-, hrange, rfl⟩, hq⟩
    exact ⟨hkey, hchallenge, hrange, hq.symm⟩
  · rintro ⟨hkey, hchallenge, hrange, hq⟩
    exact ⟨(), hkey, (), hchallenge, _, ⟨hkey, hrange, rfl⟩, hq.symm⟩

theorem toNat_respond (hpos : 0 < C.order) (hlt : C.order < 2 ^ 256) (q : Query) (nonce : Word) :
    (q.respond C nonce).toNat = (nonce.toNat + q.challenge * q.secret) % C.order :=
  Word.toNat_ofNat ((Nat.mod_lt _ hpos).trans hlt)

end Query

namespace Session

theorem ofNonce_eq_ok_iff {k : Nat} {s : Session} :
    ofNonce C k = .ok s ↔
      ∃ code, C.compress (C.mulGenerator k) = .ok code ∧ s = ⟨code, some (Block.ofNat 32 k)⟩ := by
  simp only [ofNonce, bind_eq_ok_iff, mapError_eq_ok_iff, Except.ok.injEq]
  simp only [eq_comm]

theorem run_start (tape : Bytes) : (start C).run tape =
    (Scalar.search C.order tape).bind fun drawn => some (ofNonce C drawn.1, drawn.2) := rfl

/-- A session opens iff a nonce is drawn whose point has a code. -/
theorem start_eq_ok_iff {tape rest : Bytes} {s : Session} :
    (start C).run tape = some (.ok s, rest) ↔ ∃ k code, Scalar.search C.order tape = some (k, rest) ∧
      C.compress (C.mulGenerator k) = .ok code ∧ s = ⟨code, some (Block.ofNat 32 k)⟩ := by
  rw [run_start, Option.bind_eq_some_iff]
  constructor
  · rintro ⟨⟨k, rest'⟩, hk, h⟩
    rw [Option.some.injEq, Prod.mk.injEq, ofNonce_eq_ok_iff] at h
    obtain ⟨⟨code, hcode, hs⟩, hrest⟩ := h
    exact ⟨k, code, hrest ▸ hk, hcode, hs⟩
  · rintro ⟨k, code, hk, hcode, hs⟩
    have hopen : ofNonce C k = .ok s := ofNonce_eq_ok_iff.2 ⟨code, hcode, hs⟩
    exact ⟨(k, rest), hk, by simp only [hopen]⟩

theorem sign_of_read {s : Session} {key challenge : Bytes} {q : Query} {nonce : Word}
    (hq : Query.read C key challenge = .ok q) (hs : s.nonce = some nonce) :
    s.sign C key challenge = (.ok (q.respond C nonce), { s with nonce := none }) := by
  simp [sign, take, hq, hs]

end Session

end BlindSchnorr
