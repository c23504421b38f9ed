import BlindSchnorr.Proofs.Blind.Answer
import BlindSchnorr.Proofs.Blind.Blinding
import BlindSchnorr.Proofs.Curve.AffineGroup

/-!
# Every blind signature verifies

If both parties open, the signer answers the request, and what its response unblinds to is a
signature of the message under the signer's key. The self-check never changes the result.
-/
namespace BlindSchnorr

open CurveGroup

variable {C : CurveGroup}

lemma Requester.finalize_of_verify {q : Requester C} {response : Word}
    (h : q.signer.verify q.publicKey (q.unblind response.toNat).bytes q.message.bytes = .ok true)
    (check : Bool) : q.finalize response.bytes check = .ok (q.unblind response.toNat) := by
  cases check with
  | false => exact q.finalize_unchecked response
  | true => exact q.finalize_checked response h

lemma Requester.unblind_of_finalize {q : Requester C} {response : Bytes} {check : Bool} {σ : Signature}
    (h : q.finalize response check = .ok σ) : q.unblind (Bytes.toNat response) = σ := by
  obtain ⟨_, _, h⟩ := bind_eq_ok_iff.1 h
  cases check with
  | false => exact Except.ok.inj h
  | true =>
    obtain ⟨valid, _, h⟩ := bind_eq_ok_iff.1 h
    cases valid with
    | false => cases h
    | true => exact Except.ok.inj h

/-- The response of a session fits its commitment, the challenge and the key. -/
lemma Query.respond_nsmul [C.GroupLaws] (hlt : C.order < 2 ^ 256) {k : Nat} (hk : Scalar.InRange k C.order)
    (q : Query) : (q.respond C (Block.ofNat 32 k)).toNat • (Points.generator : C.Points) =
      k • Points.generator + q.challenge • (q.secret • Points.generator) := by
  rw [toNat_respond (hk.1.trans hk.2) hlt, Word.toNat_ofNat (hk.2.trans hlt), ← sub_eq_iff_eq_add]
  exact Signer.response_nsmul k q.challenge q.secret

/-- Whatever the randomness on both sides, a session that opens answers a request that starts,
and the signature verifies under the key in either form. -/
theorem Requester.verify_of_start [C.Lawful] {S : Signer C} {privateKey message : Bytes}
    {tape rest tape' rest' : Bytes} {keyForm commitmentForm : Bool} {publicKey commitment : PointCode}
    {R : C.Point} {s : Session} {q : Requester C}
    (hpublic : S.publicKey privateKey keyForm = .ok publicKey)
    (hopen : (Session.start C).run tape = some (.ok s, rest))
    (hR : S.decode s.commitment.bytes = .ok R) (hcommitment : C.encode R commitmentForm = .ok commitment)
    (hstart : (Requester.start S publicKey.bytes commitment.bytes message).run tape' = some (.ok q, rest')) :
    ∃ t after σ, s.sign C privateKey q.request.bytes = (.ok t, after) ∧
      (∀ check, q.finalize t.bytes check = .ok σ) ∧
      ∀ (T : Signer C) (form : Bool) (code : PointCode), T.hashes = S.hashes →
        T.publicKey privateKey form = .ok code → T.verify code.bytes σ.bytes message = .ok true := by
  obtain ⟨hlength, hrange, hcode⟩ := Signer.publicKey_eq_ok_iff.1 hpublic
  obtain ⟨k, code, hk, hcompress, hs⟩ := Session.start_eq_ok_iff.1 hopen
  have hkrange := Scalar.inRange_of_search hk
  -- Both points are read back from whatever form they were sent in.
  have hP := S.decode_encode (isPoint_mulGenerator _) hcode
  have hcommitted : R = C.mulGenerator k := by
    have hread := S.decode_encode (isPoint_mulGenerator k) (show C.encode _ true = .ok code from hcompress)
    rw [hs, hread, Except.ok.injEq] at hR
    exact hR.symm
  subst hcommitted
  have hR' := S.decode_encode (isPoint_mulGenerator k) hcommitment
  obtain ⟨px, py, hcoordinates⟩ := coordinates_of_encode hcode
  have hkey := compress_of_coordinates hcoordinates
  rw [← Points.coe_nsmul_generator] at hP hR' hkey
  obtain ⟨w, α, β, rx, negated, hw, hdrawn, hnonce, hq⟩ := (Requester.start_iff hP hR' hkey).1 hstart
  -- The response fits, so the signature passes the check.
  have hquery : Query.read C privateKey q.request.bytes = .ok ⟨Bytes.toNat privateKey, q.request.toNat⟩ :=
    Query.read_eq_ok_iff.2 ⟨hlength, q.request.length_bytes, hrange, rfl⟩
  have hanswer := Session.sign_of_read hquery (show s.nonce = some (Block.ofNat 32 k) by rw [hs])
  have hfits := Query.respond_nsmul Lawful.order_lt hkrange ⟨Bytes.toNat privateKey, q.request.toNat⟩
  have hcheck := (check_unblind_iff hkey hdrawn.inRange.1 hnonce hq _).2 hfits
  rw [Points.coe_nsmul_generator] at hcheck
  have hverify : ∀ (T : Signer C) (form : Bool) (code : PointCode), T.hashes = S.hashes →
      T.publicKey privateKey form = .ok code → T.verify code.bytes
        (q.unblind (Query.respond C ⟨Bytes.toNat privateKey, q.request.toNat⟩ (Block.ofNat 32 k)).toNat).bytes
          message = .ok true := by
    intro T form code hhashes hcode
    have hread := T.decode_encode (isPoint_mulGenerator _) (Signer.publicKey_eq_ok_iff.1 hcode).2.2
    rw [hw, Signer.verify_eq_check hread w.length_bytes, Signer.check_congr hhashes]
    exact hcheck
  refine ⟨_, _, _, hanswer, Requester.finalize_of_verify ?_, hverify⟩
  have hself := hverify S keyForm publicKey rfl hpublic
  rw [hw] at hself
  rw [hq] at hself ⊢
  exact hself

lemma toy_draw : Scalar.search toyCurve.order [0, 11] = some (11, []) :=
  Scalar.search_block (show Scalar.InRange 11 907 by decide) []

lemma toy_drawPair : Scalar.DrawnPair toyCurve.order [0, 4, 0, 4] 4 4 [] :=
  ⟨[0, 4], Scalar.search_block (show Scalar.InRange 4 907 by decide) [0, 4],
    Scalar.search_block (show Scalar.InRange 4 907 by decide) []⟩

def toyTerms : Terms toyCurve :=
  { signer := toySigner
    publicKey := (PointCode.compressed true (Block.ofNat 32 56)).bytes
    message := Block.replicate 32 7
    key := toyCurve.mulGenerator 5
    commitment := toyCurve.mulGenerator 11 }

lemma toy_blind : ∃ q, toyTerms.blind 4 4 = .ok q ∧ q.negated = true := by
  have hblind : (toyTerms.blind 4 4).toOption.map Requester.negated = some true := by decide +kernel
  cases h : toyTerms.blind 4 4 with
  | error e =>
    rw [h] at hblind
    cases hblind
  | ok q =>
    rw [h] at hblind
    exact ⟨q, rfl, Option.some.inj hblind⟩

lemma toy_decode_commitment : toySigner.decode (PointCode.compressed false (Block.ofNat 32 655)).bytes =
    .ok (toyCurve.mulGenerator 11) := by decide +kernel

lemma toy_start : ∃ q, (Requester.start toySigner toyTerms.publicKey
    (PointCode.compressed false (Block.ofNat 32 655)).bytes (List.replicate 32 7)).run [0, 4, 0, 4] =
      some (.ok q, []) ∧ q.negated = true := by
  obtain ⟨q, hq, hnegated⟩ := toy_blind
  have hread := Terms.read_eq_ok_iff.2 ⟨toyTerms.message, _, _, rfl, toy_decode, toy_decode_commitment, rfl⟩
  exact ⟨q, Requester.start_eq_ok_iff.2 ⟨toyTerms, 4, 4, hread, toy_drawPair, hq⟩, hnegated⟩

/-- An exchange on the toy curve, with a commitment sent uncompressed and a request that
takes the negative of its nonce point. -/
theorem verify_of_start_toy : ∃ publicKey s commitment q t after σ,
    toySigner.publicKey (Bytes.ofNat 32 5) true = .ok publicKey ∧
    (Session.start toyCurve).run [0, 11] = some (.ok s, []) ∧
    toyCurve.encode (toyCurve.mulGenerator 11) false = .ok commitment ∧
    (Requester.start toySigner publicKey.bytes commitment.bytes (List.replicate 32 7)).run [0, 4, 0, 4] =
      some (.ok q, []) ∧
    q.negated = true ∧ s.sign toyCurve (Bytes.ofNat 32 5) q.request.bytes = (.ok t, after) ∧
    (∀ check, q.finalize t.bytes check = .ok σ) ∧
    toySigner.verify publicKey.bytes σ.bytes (List.replicate 32 7) = .ok true := by
  have hpublic : toySigner.publicKey (Bytes.ofNat 32 5) true =
      .ok (.compressed true (Block.ofNat 32 56)) := by decide +kernel
  have hcompress : toyCurve.compress (toyCurve.mulGenerator 11) =
      .ok (.compressed false (Block.ofNat 32 655)) := by decide +kernel
  have hcommitment : toyCurve.encode (toyCurve.mulGenerator 11) false =
      .ok (.uncompressed (Block.ofNat 32 655) (Block.ofNat 32 322)) := by decide +kernel
  have hopen := Session.start_eq_ok_iff.2 ⟨11, _, toy_draw, hcompress, rfl⟩
  have hP := toySigner.decode_encode (isPoint_mulGenerator _) (Signer.publicKey_eq_ok_iff.1 hpublic).2.2
  have hR := toySigner.decode_encode (isPoint_mulGenerator _) hcommitment
  have hread : Terms.read toySigner toyTerms.publicKey _ (List.replicate 32 7) = .ok toyTerms :=
    Terms.read_eq_ok_iff.2 ⟨toyTerms.message, _, _, rfl, hP, hR, rfl⟩
  obtain ⟨q, hq, hnegated⟩ := toy_blind
  have hstart := Requester.start_eq_ok_iff.2 ⟨toyTerms, 4, 4, hread, toy_drawPair, hq⟩
  have hcommitted := toySigner.decode_encode (isPoint_mulGenerator 11)
    (show toyCurve.encode _ true = .ok _ from hcompress)
  obtain ⟨t, after, σ, hsign, hfinal, hverify⟩ :=
    Requester.verify_of_start hpublic hopen hcommitted hcommitment hstart
  exact ⟨_, _, _, q, t, after, σ, hpublic, hopen, hcommitment, hstart, hnegated, hsign, hfinal,
    hverify toySigner true _ rfl hpublic⟩

end BlindSchnorr
