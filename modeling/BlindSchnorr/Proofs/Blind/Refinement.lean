import BlindSchnorr.Proofs.Blind.Completeness
import BlindSchnorr.Proofs.Signing.Completeness

/-!
# Blind signing is plain signing under a combined nonce

With the signer's nonce `k` and the factors `α` and `β` the two parties together sign with the
nonce `k + α + β * x`. Plain signing puts the sign of the nonce point on the nonce before the
response is computed; the requester puts it on the challenge before and on the response after.
Modulo the order the two come to the same, whatever the negative of a point is.
-/
namespace BlindSchnorr

open scoped NumberTheorySymbols
open CurveGroup

variable {C : CurveGroup}

/-- The nonce that plain signing responds with is the reduced one, times the sign of its point. -/
lemma Signer.signedNonce_modEq {ry : Nat} {negated : Bool} (hpos : 0 < C.order)
    (hsign : J(ry | C.fieldPrime) = flip negated) (v : Nat) :
    (signedNonce C (v % C.order) ry : ℤ) ≡ flip negated * v [ZMOD C.order] := by
  have hnonce : signedNonce C (v % C.order) ry =
      if negated then C.order - v % C.order else v % C.order := by
    rw [signedNonce, hsign]
    cases negated <;> rfl
  rw [hnonce]
  exact flip_modEq hpos negated v

section Scalars

variable {t : Terms C} {key : PointCode} {x k α β rx ry : Nat} {negated : Bool} {q : Requester C}

/-- The sign that the requester takes off its challenge and puts on its response is the sign that
plain signing puts on the nonce. -/
lemma Requester.unblind_respond_modEq (hq : q = t.request key α β (Block.ofNat 32 rx) negated)
    (hk : Scalar.InRange k C.order) (hα : Scalar.InRange α C.order) (hlt : C.order < 2 ^ 256)
    (hsign : J(ry | C.fieldPrime) = flip negated) :
    ((q.unblind (Query.respond C ⟨x, q.request.toNat⟩ (Block.ofNat 32 k)).toNat).s.toNat : ℤ) ≡
      (Signer.signedNonce C ((k + α + β * x) % C.order) ry +
        t.signer.challenge (Block.ofNat 32 rx) key t.message.bytes * x : Nat) [ZMOD C.order] := by
  have hpos : 0 < C.order := hα.1.trans hα.2
  have hrequest := (Terms.toNat_request hq hpos hlt).2
  generalize t.signer.challenge (Block.ofNat 32 rx) key t.message.bytes = e₀ at hrequest ⊢
  generalize hs : (Query.respond C ⟨x, q.request.toNat⟩ (Block.ofNat 32 k)).toNat = s
  have hresponse : (s : ℤ) ≡ k + q.request.toNat * x [ZMOD C.order] := by
    rw [← hs, Query.toNat_respond hpos hlt, Word.toNat_ofNat (hk.2.trans hlt), Int.natCast_mod]
    push_cast
    exact Int.mod_modEq _ _
  calc ((q.unblind s).s.toNat : ℤ)
      ≡ flip negated * (s + α) [ZMOD C.order] := (Terms.toNat_unblind_request hq hα hlt s).2
    _ ≡ flip negated * (k + (flip negated * e₀ + β) * x + α) [ZMOD C.order] :=
        ((hresponse.trans ((hrequest.mul_right x).add_left k)).add_right α).mul_left _
    _ = flip negated * (k + α + β * x : Nat) + flip negated * flip negated * (e₀ * x) := by
        push_cast
        ring
    _ = flip negated * (k + α + β * x : Nat) + e₀ * x := by rw [flip_mul_self, one_mul]
    _ ≡ Signer.signedNonce C ((k + α + β * x) % C.order) ry + e₀ * x [ZMOD C.order] :=
        (Signer.signedNonce_modEq hpos hsign _).symm.add_right _
    _ = (Signer.signedNonce C ((k + α + β * x) % C.order) ry + e₀ * x : Nat) := by push_cast; rfl

/-- What the answer of a session unblinds to is the plain signature with the combined nonce. -/
lemma Requester.unblind_respond (hq : q = t.request key α β (Block.ofNat 32 rx) negated)
    (hk : Scalar.InRange k C.order) (hα : Scalar.InRange α C.order) (hlt : C.order < 2 ^ 256)
    (hsign : J(ry | C.fieldPrime) = flip negated) :
    q.unblind (Query.respond C ⟨x, q.request.toNat⟩ (Block.ofNat 32 k)).toNat =
      ⟨Block.ofNat 32 rx, Block.ofNat 32 ((Signer.signedNonce C ((k + α + β * x) % C.order) ry +
        t.signer.challenge (Block.ofNat 32 rx) key t.message.bytes * x) % C.order)⟩ := by
  have hmod := Requester.unblind_respond_modEq (x := x) hq hk hα hlt hsign
  have hsmall := (Terms.toNat_unblind_request hq hα hlt
    (Query.respond C ⟨x, q.request.toNat⟩ (Block.ofNat 32 k)).toNat).1
  have hplain := Nat.mod_lt (Signer.signedNonce C ((k + α + β * x) % C.order) ry +
    t.signer.challenge (Block.ofNat 32 rx) key t.message.bytes * x) (hα.1.trans hα.2)
  have hr : (q.unblind (Query.respond C ⟨x, q.request.toNat⟩ (Block.ofNat 32 k)).toNat).r =
      Block.ofNat 32 rx := by rw [hq, r_unblind, Terms.rx_request]
  refine congrArg₂ Signature.mk hr (Block.toNat_injective ?_)
  rw [Word.toNat_ofNat (hplain.trans hlt)]
  apply eq_of_intModEq hsmall hplain
  rw [Int.natCast_mod]
  exact hmod.trans (Int.mod_modEq _ _).symm

end Scalars

section Laws

variable [C.GroupLaws] {S : Signer C} {publicKey : Bytes} {w : Word} {x k α β : Nat} {q : Requester C}

/-- The point that a requester blinds to is that of the combined nonce. -/
lemma Terms.blindedNonce_eq_mulGenerator :
    (Terms.mk S publicKey w (C.mulGenerator x) (C.mulGenerator k)).blindedNonce α β =
      C.mulGenerator ((k + α + β * x) % C.order) := by
  simp only [← Points.coe_nsmul_generator]
  rw [Terms.coe_blindedNonce, Points.mod_nsmul, add_nsmul, add_nsmul, mul_nsmul']

variable [C.FieldLaws]

/-- The combined nonce has a point off the x-axis, and the core signs with it what the answer
unblinds to. -/
theorem Terms.signWith_of_blind {key : PointCode} (hlt : C.order < 2 ^ 256) (hk : Scalar.InRange k C.order)
    (hα : Scalar.InRange α C.order) (hkey : C.compress (C.mulGenerator x) = .ok key)
    (hblind : (Terms.mk S publicKey w (C.mulGenerator x) (C.mulGenerator k)).blind α β = .ok q) :
    ∃ rx ry, C.coordinates (C.mulGenerator ((k + α + β * x) % C.order)) = some (rx, ry) ∧ ry ≠ 0 ∧
      S.signWith x ((k + α + β * x) % C.order) w.bytes =
        .ok (q.unblind (Query.respond C ⟨x, q.request.toNat⟩ (Block.ofNat 32 k)).toNat) := by
  obtain ⟨rx, ry, negated, hnonce, hsign, hq⟩ := (Terms.blind_iff_coordinates hkey).1 hblind
  rw [Terms.blindedNonce_eq_mulGenerator] at hnonce
  have hσ := Requester.unblind_respond (x := x) hq hk hα hlt hsign
  refine ⟨rx, ry, hnonce, ?_, Signer.signWith_eq_ok_iff.2 ⟨key, rx, ry, hkey, hnonce, hσ⟩⟩
  rintro rfl
  rw [Nat.cast_zero, jacobiSym.zero_left FieldLaws.prime.one_lt] at hsign
  cases negated <;> simp [flip] at hsign

variable [C.CoordinateLaws]

/-- The signature of a blind exchange is byte for byte the plain one with the combined nonce. The
self-check lets it through wherever negatives are reflections. -/
theorem Requester.finalize_eq_signWith (hlt : C.order < 2 ^ 256)
    {privateKey commitment message tape rest tape' rest' : Bytes} (hx : C.privateKey privateKey = .ok x)
    (hP : S.decode publicKey = .ok (C.mulGenerator x)) (hk : Scalar.search C.order tape = some (k, rest))
    (hR : S.decode commitment = .ok (C.mulGenerator k)) (hdrawn : Scalar.DrawnPair C.order tape' α β rest')
    (hstart : (Requester.start S publicKey commitment message).run tape' = some (.ok q, rest')) :
    ∃ s t after σ, (Session.start C).run tape = some (.ok s, rest) ∧
      s.sign C privateKey q.request.bytes = (.ok t, after) ∧
      S.signWith x ((k + α + β * x) % C.order) message = .ok σ ∧
      (∀ check σ', q.finalize t.bytes check = .ok σ' → σ' = σ) ∧ q.finalize t.bytes false = .ok σ ∧
      (C.ReflectionLaws → q.finalize t.bytes true = .ok σ) := by
  obtain ⟨hlength, hrange, rfl⟩ := privateKey_eq_ok_iff.1 hx
  have hkrange := Scalar.inRange_of_search hk
  obtain ⟨P, key, hPx, hkey⟩ := Signer.exists_point_of_decode hP
  obtain ⟨R, code, hRk, hcode⟩ := Signer.exists_point_of_decode hR
  rw [hPx] at hkey
  rw [hRk] at hcode
  have hopen := Session.start_eq_ok_iff.2 ⟨k, code, hk, hcode, rfl⟩
  have hquery : Query.read C privateKey q.request.bytes = .ok ⟨Bytes.toNat privateKey, q.request.toNat⟩ :=
    Query.read_eq_ok_iff.2 ⟨hlength, q.request.length_bytes, hrange, rfl⟩
  obtain ⟨terms, α', β', hread, hdrawn', hblind⟩ := Requester.start_eq_ok_iff.1 hstart
  obtain ⟨rfl, rfl, -⟩ := hdrawn.unique hdrawn'
  obtain ⟨w, _, _, rfl, hP', hR', rfl⟩ := Terms.read_eq_ok_iff.1 hread
  rw [hP, Except.ok.injEq] at hP'
  rw [hR, Except.ok.injEq] at hR'
  subst hP' hR'
  obtain ⟨rx, ry, hxy, hry, hplain⟩ := Terms.signWith_of_blind hlt hkrange hdrawn.inRange.1 hkey hblind
  refine ⟨_, _, _, _, hopen, Session.sign_of_read hquery rfl, hplain, ?_, q.finalize_unchecked _, ?_⟩
  · intro check σ' h
    exact (Requester.unblind_of_finalize h).symm
  · intro hreflection
    have : C.Lawful := { coordinates_negate := hreflection.coordinates_negate, order_lt := hlt }
    have hself := Signer.verify_of_signWith (Nat.mod_lt _ (hkrange.1.trans hkrange.2)) hP w.length_bytes hxy hry hplain
    obtain ⟨_, _, _, _, _, hq⟩ := (Terms.blind_iff_coordinates hkey).1 hblind
    apply Requester.finalize_of_verify
    rw [hq] at hself ⊢
    exact hself

end Laws

/-- The exchange on the toy curve in which the request takes the negative of its nonce point: the
nonce is 11, the factors are 4 and 4, the key is 5. -/
theorem finalize_eq_signWith_toy : ∃ q s t after σ,
    (Requester.start toySigner toyTerms.publicKey (PointCode.compressed false (Block.ofNat 32 655)).bytes
      (List.replicate 32 7)).run [0, 4, 0, 4] = some (.ok q, []) ∧ q.negated = true ∧
    (Session.start toyCurve).run [0, 11] = some (.ok s, []) ∧
    s.sign toyCurve (Bytes.ofNat 32 5) q.request.bytes = (.ok t, after) ∧
    toySigner.signWith 5 (11 + 4 + 4 * 5) (List.replicate 32 7) = .ok σ ∧
    ∀ check, q.finalize t.bytes check = .ok σ := by
  obtain ⟨q, hstart, hnegated⟩ := toy_start
  have hx : toyCurve.privateKey (Bytes.ofNat 32 5) = .ok 5 := by decide +kernel
  have hR : toySigner.decode (PointCode.compressed false (Block.ofNat 32 655)).bytes =
      .ok (toyCurve.mulGenerator 11) := by decide +kernel
  obtain ⟨s, t, after, σ, hopen, hanswer, hplain, -, hunchecked, hchecked⟩ :=
    Requester.finalize_eq_signWith (show toyCurve.order < 2 ^ 256 by decide) hx toy_decode toy_draw hR
      toy_drawPair hstart
  refine ⟨q, s, t, after, σ, hstart, hnegated, hopen, hanswer, hplain, ?_⟩
  intro check
  cases check with
  | false => exact hunchecked
  | true => exact hchecked inferInstance

end BlindSchnorr
