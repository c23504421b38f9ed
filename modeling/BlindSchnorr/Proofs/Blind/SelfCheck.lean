import BlindSchnorr.Proofs.Blind.Completeness
import BlindSchnorr.Service

/-!
# The self-check is exact

The check looks at the unblinded signature and never at the response. It accepts a response
all the same iff the response fits commitment, request and key, whatever public key and
commitment a request was made from. A refusal has one cause, and an accepted signature
verifies at every service with the same hash.
-/
namespace BlindSchnorr

open CurveGroup

variable {C : CurveGroup} [C.Lawful]

/-- The verdict on an unblinded signature is reached, and it is whether the response fits. -/
lemma exists_verify_unblind {S : Signer C} {publicKey : Bytes} {P R : C.Points} {key : PointCode}
    {w : Word} {α β : Nat} {q : Requester C} (hP : S.decode publicKey = .ok P)
    (hkey : C.compress P = .ok key) (hα : Scalar.InRange α C.order)
    (hblind : (Terms.mk S publicKey w P R).blind α β = .ok q) (s : Nat) :
    ∃ valid, S.verify publicKey (q.unblind s).bytes w.bytes = .ok valid ∧
      (valid = true ↔ C.mulGenerator s = C.add R (C.scalarMul q.request.toNat P)) := by
  obtain ⟨rx, negated, hnonce, hq⟩ := (Terms.blind_eq_ok_iff hkey).1 hblind
  obtain ⟨valid, hvalid⟩ := Signer.check_isOk S hkey (q.unblind s) w.bytes
  refine ⟨valid, (Signer.verify_eq_check hP w.length_bytes _).trans hvalid, ?_⟩
  have hfits := check_unblind_iff hkey hα hnonce hq s
  rw [hvalid, Except.ok.injEq] at hfits
  rw [hfits, ← Subtype.coe_inj, Points.coe_nsmul_generator, Points.coe_add, Points.coe_nsmul]

/-- A response passes the self-check iff it fits commitment, request and key. -/
theorem Requester.finalize_of_start {S : Signer C} {publicKey commitment message tape rest : Bytes}
    {q : Requester C}
    (hstart : (Requester.start S publicKey commitment message).run tape = some (.ok q, rest)) :
    ∃ P R, S.decode publicKey = .ok P ∧ S.decode commitment = .ok R ∧ ∀ t : Word,
      ((∃ σ, q.finalize t.bytes true = .ok σ) ↔
        C.mulGenerator t.toNat = C.add R (C.scalarMul q.request.toNat P)) ∧
      (∀ ε, q.finalize t.bytes true = .error ε → ε = .verificationFailed) ∧
      ∀ σ, q.finalize t.bytes true = .ok σ → q.finalize t.bytes false = .ok σ ∧
        ∀ V : Service C, V.signer.hashes = S.hashes → V.verify publicKey σ.bytes message = .ok true := by
  obtain ⟨terms, α, β, hread, hdrawn, hblind⟩ := Requester.start_eq_ok_iff.1 hstart
  obtain ⟨w, P, R, hw, hP, hR, hterms⟩ := Terms.read_eq_ok_iff.1 hread
  subst hterms hw
  refine ⟨P, R, hP, hR, ?_⟩
  obtain ⟨P, key, rfl, hkey⟩ := Signer.exists_point_of_decode hP
  obtain ⟨R, _, rfl, _⟩ := Signer.exists_point_of_decode hR
  obtain ⟨_, _, _, hq⟩ := (Terms.blind_eq_ok_iff hkey).1 hblind
  intro t
  obtain ⟨valid, hverify, hfits⟩ := exists_verify_unblind hP hkey hdrawn.inRange.1 hblind t.toNat
  have hself : q.signer.verify q.publicKey (q.unblind t.toNat).bytes q.message.bytes = .ok valid := by
    rw [hq] at hverify ⊢
    exact hverify
  rw [q.finalize_checked t hself, q.finalize_unchecked t, ← hfits]
  cases valid with
  | false =>
    refine ⟨iff_of_false nofun nofun, ?_, nofun⟩
    intro ε hε
    cases hε
    rfl
  | true =>
    refine ⟨iff_of_true ⟨_, rfl⟩ rfl, nofun, ?_⟩
    intro σ hσ
    refine ⟨hσ, fun V hhashes => ?_⟩
    cases hσ
    exact (Signer.verify_congr hhashes).2 hverify

/-- The request of `toyTerms` takes the response 367, also when it is not reduced, and refuses 368. -/
theorem finalize_of_start_toy : ∃ q,
    (Requester.start toySigner toyTerms.publicKey (PointCode.compressed false (Block.ofNat 32 655)).bytes
      (List.replicate 32 7)).run [0, 4, 0, 4] = some (.ok q, []) ∧
    (∃ σ, q.finalize (Block.ofNat 32 367).bytes true = .ok σ) ∧
    (∃ σ, q.finalize (Block.ofNat 32 (367 + 907)).bytes true = .ok σ) ∧
    q.finalize (Block.ofNat 32 368).bytes true = .error .verificationFailed := by
  have hP : toySigner.decode toyTerms.publicKey = .ok (toyCurve.mulGenerator 5) := toy_decode
  have hR : toySigner.decode (PointCode.compressed false (Block.ofNat 32 655)).bytes =
      .ok (toyCurve.mulGenerator 11) := by decide +kernel
  have hread : Terms.read toySigner toyTerms.publicKey
      (PointCode.compressed false (Block.ofNat 32 655)).bytes (List.replicate 32 7) = .ok toyTerms :=
    Terms.read_eq_ok_iff.2 ⟨toyTerms.message, _, _, rfl, hP, hR, rfl⟩
  obtain ⟨q, hq, -⟩ := toy_blind
  have hrequest : q.request.toNat = 434 := by
    have hblind : (toyTerms.blind 4 4).toOption.map (·.request.toNat) = some 434 := by decide +kernel
    rw [hq] at hblind
    exact Option.some.inj hblind
  have hstart := Requester.start_eq_ok_iff.2 ⟨toyTerms, 4, 4, hread, toy_drawPair, hq⟩
  obtain ⟨P, R, hP', hR', hexact⟩ := Requester.finalize_of_start hstart
  rw [hP, Except.ok.injEq] at hP'
  rw [hR, Except.ok.injEq] at hR'
  subst hP' hR'
  rw [hrequest] at hexact
  obtain ⟨hfits, hcause, -⟩ := hexact (Block.ofNat 32 368)
  refine ⟨q, hstart, (hexact _).1.2 (by decide +kernel), (hexact _).1.2 (by decide +kernel), ?_⟩
  cases h : q.finalize (Block.ofNat 32 368).bytes true with
  | error ε => rw [hcause ε h]
  | ok σ => exact absurd (hfits.1 ⟨σ, h⟩) (by decide +kernel)

end BlindSchnorr
