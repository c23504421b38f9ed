import BlindSchnorr.Proofs.Blind.Completeness

/-!
# Every view fits every signature

The signer sees its commitment, a request and its response. For any such view and any
signature that verifies under its key, exactly two pairs of blinding factors make the one
lead to the other, one for each sign. Up to factors that are zero and never drawn, a
signature therefore says nothing about the session that it came from.
-/
namespace BlindSchnorr

open CurveGroup

variable {C : CurveGroup}

/-- The factors that make a view with request `e` and response `s` lead to a signature with
scalar `s'` and challenge `e₀`, for a nonce point of given sign. -/
def blindingFactors (n : Nat) (sign : ℤ) (s s' e e₀ : Nat) : ℤ × ℤ :=
  ((sign * s' - s) % n, (e - sign * e₀) % n)

section Modulus

variable {n : Nat}

lemma natCast_eq_emod_iff {v : Nat} (hv : v < n) (z : ℤ) : (v : ℤ) = z % n ↔ (v : ℤ) ≡ z [ZMOD n] := by
  have hsmall : (v : ℤ) % n = v := Int.emod_eq_of_lt (Int.natCast_nonneg v) (Int.ofNat_lt.2 hv)
  rw [Int.ModEq, hsmall]

lemma flip_mul_modEq_iff (negated : Bool) (a b : ℤ) :
    a ≡ flip negated * b [ZMOD n] ↔ flip negated * a ≡ b [ZMOD n] := by
  have hflip : ∀ z : ℤ, flip negated * (flip negated * z) = z := by
    intro z
    rw [← mul_assoc, flip_mul_self, one_mul]
  constructor
  · intro h
    simpa only [hflip] using h.mul_left (flip negated)
  · intro h
    simpa only [hflip] using h.mul_left (flip negated)

/-- A pair of scalars is a pair of factors iff it unblinds the response and blinds the challenge
as required. -/
lemma eq_blindingFactors_iff {α β s s' e e₀ : Nat} (hα : α < n) (hβ : β < n) (negated : Bool) :
    ((α : ℤ), (β : ℤ)) = blindingFactors n (flip negated) s s' e e₀ ↔
      (s' : ℤ) ≡ flip negated * (s + α) [ZMOD n] ∧ (e : ℤ) ≡ flip negated * e₀ + β [ZMOD n] := by
  rw [blindingFactors, Prod.mk.injEq, natCast_eq_emod_iff hα, natCast_eq_emod_iff hβ, flip_mul_modEq_iff]
  constructor
  · rintro ⟨h, h'⟩
    refine ⟨?_, ?_⟩
    · have hsum := h.symm.add_left s
      rwa [add_sub_cancel] at hsum
    · have hsum := h'.symm.add_left (flip negated * e₀)
      rwa [add_sub_cancel] at hsum
  · rintro ⟨h, h'⟩
    refine ⟨?_, ?_⟩
    · have hdifference := h.symm.sub_right s
      rwa [add_sub_cancel_left] at hdifference
    · have hdifference := h'.symm.sub_right (flip negated * e₀)
      rwa [add_sub_cancel_left] at hdifference

/-- Modulo an odd number the factors for the two signs agree only if scalar and challenge are
zero. -/
lemma dvd_of_blindingFactors_eq (hodd : n % 2 = 1) {s s' e e₀ : Nat}
    (h : blindingFactors n 1 s s' e e₀ = blindingFactors n (-1) s s' e e₀) : n ∣ s' ∧ n ∣ e₀ := by
  have hcoprime : IsCoprime (n : ℤ) 2 := by
    rw [Int.isCoprime_iff_gcd_eq_one]
    have hn : Nat.Coprime n 2 := (Nat.coprime_two_right).2 (Nat.odd_iff.2 hodd)
    exact_mod_cast hn
  obtain ⟨hs, he⟩ := Prod.mk.inj h
  have hs' : (n : ℤ) ∣ 2 * s' := by
    have hdvd := (Int.ModEq.symm hs).dvd
    ring_nf at hdvd ⊢
    exact hdvd
  have he' : (n : ℤ) ∣ 2 * e₀ := by
    have hdvd := Int.ModEq.dvd he
    ring_nf at hdvd ⊢
    exact hdvd
  exact ⟨Int.natCast_dvd_natCast.1 (hcoprime.dvd_of_dvd_mul_left hs'),
    Int.natCast_dvd_natCast.1 (hcoprime.dvd_of_dvd_mul_left he')⟩

end Modulus

section Lawful

variable [C.Lawful] {S : Signer C} {P R : C.Points} {key : PointCode} {publicKey commitment message : Bytes}
  {σ : Signature} {e s : Nat}

lemma blindingFactors_ne (hodd : C.order % 2 = 1) (hkey : C.compress P = .ok key)
    (hvalid : S.check P σ message = .ok true) :
    blindingFactors C.order 1 s σ.s.toNat e (S.challenge σ.r key message) ≠
      blindingFactors C.order (-1) s σ.s.toNat e (S.challenge σ.r key message) := by
  intro heq
  obtain ⟨hs, he⟩ := dvd_of_blindingFactors_eq hodd heq
  obtain ⟨hlt, y, hy, _⟩ := ((Signer.check_eq_ok_iff hkey).1 hvalid).1 rfl
  have hzero : ∀ {v : Nat} (Q : C.Points), C.order ∣ v → v • Q = 0 := by
    intro v Q ⟨m, hm⟩
    rw [hm, mul_nsmul, Points.order_nsmul, nsmul_zero]
  -- The point that was checked would be the identity, which has no coordinates.
  rw [hzero _ hs, hzero _ he, sub_zero, Points.coe_zero, CoordinateLaws.coordinates_identity] at hy
  cases hy

/-- Two factors turn a view into a signature iff they are factors for one of the signs. -/
lemma finalize_iff_eq_blindingFactors {w : Word} {α β : Nat} (hα : Scalar.InRange α C.order)
    (hβ : Scalar.InRange β C.order) (hP : S.decode publicKey = .ok P) (hkey : C.compress P = .ok key)
    (he : e < C.order) (hs : s < C.order) (hview : s • Points.generator = R + e • P)
    (hvalid : S.check P σ w.bytes = .ok true) (check : Bool) :
    (∃ q, (∃ rx negated,
        C.IsNoncePoint rx (flip negated • (R + α • Points.generator + β • P) : C.Points) ∧
          q = (Terms.mk S publicKey w P R).request key α β rx negated) ∧
      q.request = Block.ofNat 32 e ∧ q.finalize (Block.ofNat 32 s).bytes check = .ok σ) ↔
      ∃ negated, ((α : ℤ), (β : ℤ)) = blindingFactors C.order (flip negated) s σ.s.toNat e
        (S.challenge σ.r key w.bytes) := by
  have hpos : 0 < C.order := hα.1.trans hα.2
  have hlt : C.order < 2 ^ 256 := Lawful.order_lt
  have hs256 : (Block.ofNat 32 s).toNat = s := Word.toNat_ofNat (hs.trans hlt)
  obtain ⟨hσ, hchecked⟩ := ((Signer.check_eq_ok_iff hkey).1 hvalid).1 rfl
  simp only [eq_blindingFactors_iff hα.2 hβ.2]
  constructor
  · rintro ⟨q, ⟨rx, negated, hnonce, hq⟩, hrequest, hfinal⟩
    have hunblind : q.unblind s = σ := by
      rw [← hs256]
      exact Requester.unblind_of_finalize hfinal
    have hr : rx = σ.r := by rw [← hunblind, hq, Requester.r_unblind, Terms.rx_request]
    refine ⟨negated, ?_, ?_⟩
    · rw [← hunblind]
      exact (Terms.toNat_unblind_request hq hα hlt s).2
    · have hblind := (Terms.toNat_request hq hpos hlt).2
      rwa [hrequest, Word.toNat_ofNat (he.trans hlt), hr] at hblind
  · rintro ⟨negated, hresponse, hchallenge⟩
    have hnonce : C.IsNoncePoint σ.r (flip negated • (R + α • Points.generator + β • P) : C.Points) := by
      rw [unblinded_point hresponse hchallenge, hview, add_sub_cancel_right] at hchecked
      exact hchecked
    obtain ⟨q, hq⟩ : ∃ q, q = (Terms.mk S publicKey w P R).request key α β σ.r negated := ⟨_, rfl⟩
    have hrequest : q.request.toNat = e := by
      have hblind := Terms.toNat_request hq hpos hlt
      exact eq_of_intModEq hblind.1 he (hblind.2.trans hchallenge.symm)
    have hsignature : q.unblind s = σ := by
      have hunblind := Terms.toNat_unblind_request hq hα hlt s
      have hr : (q.unblind s).r = σ.r := by rw [hq, Requester.r_unblind, Terms.rx_request]
      have hscalar : (q.unblind s).s = σ.s :=
        Block.toNat_injective (eq_of_intModEq hunblind.1 hσ (hunblind.2.trans hresponse.symm))
      exact congrArg₂ Signature.mk hr hscalar
    have hverify : q.signer.verify q.publicKey (q.unblind (Block.ofNat 32 s).toNat).bytes q.message.bytes =
        .ok true := by
      rw [hs256, hsignature, hq, Terms.signer_request, Terms.publicKey_request, Terms.message_request]
      exact Signer.verify_eq_ok_iff.2 ⟨w.length_bytes, P, hP, hvalid⟩
    have hfinal := Requester.finalize_of_verify hverify check
    rw [hs256, hsignature] at hfinal
    exact ⟨q, ⟨σ.r, negated, hnonce, hq⟩, by rw [← hrequest, Block.ofNat_toNat], hfinal⟩

end Lawful

/-- Any view of a session fits any signature under its key: of the pairs of scalars that can be
drawn, those that lead from the one to the other are the factors for the two signs. -/
theorem Requester.blindness [C.Lawful] (hodd : C.order % 2 = 1) {S : Signer C}
    {publicKey commitment message : Bytes} {P R : C.Point} {σ : Signature} {e s : Nat}
    (hP : S.decode publicKey = .ok P) (hR : S.decode commitment = .ok R) (he : e < C.order) (hs : s < C.order)
    (hview : C.mulGenerator s = C.add R (C.scalarMul e P))
    (hvalid : S.verify publicKey σ.bytes message = .ok true) :
    ∃ key e₀, C.compress P = .ok key ∧
      e₀ = (S.hashes.hash (σ.r.bytes ++ key.bytes ++ message)).toNat ∧
      blindingFactors C.order 1 s σ.s.toNat e e₀ ≠ blindingFactors C.order (-1) s σ.s.toNat e e₀ ∧
      ∀ α β, Scalar.InRange α C.order → Scalar.InRange β C.order →
        (∃ tape, Scalar.DrawnPair C.order tape α β []) ∧
        ∀ tape rest check, Scalar.DrawnPair C.order tape α β rest →
          ((∃ q, (Requester.start S publicKey commitment message).run tape = some (.ok q, rest) ∧
              q.request = Block.ofNat 32 e ∧ q.finalize (Block.ofNat 32 s).bytes check = .ok σ) ↔
            ((α : ℤ), (β : ℤ)) = blindingFactors C.order 1 s σ.s.toNat e e₀ ∨
              ((α : ℤ), (β : ℤ)) = blindingFactors C.order (-1) s σ.s.toNat e e₀) := by
  obtain ⟨x, y, hbuildP⟩ := build_of_decode (Signer.decode_eq_ok_iff.1 hP)
  obtain ⟨_, _, hbuildR⟩ := build_of_decode (Signer.decode_eq_ok_iff.1 hR)
  lift P to C.Points using isPoint_of_build hbuildP
  lift R to C.Points using isPoint_of_build hbuildR
  have hkey := compress_of_coordinates (CoordinateLaws.coordinates_of_build _ _ _ hbuildP)
  have hview' : s • Points.generator = R + e • P := by
    apply Subtype.ext
    rw [Points.coe_nsmul_generator, Points.coe_add, Points.coe_nsmul]
    exact hview
  obtain ⟨hlength, P', hP', hcheck⟩ := Signer.verify_eq_ok_iff.1 hvalid
  rw [hP, Except.ok.injEq] at hP'
  subst hP'
  obtain ⟨w, hw⟩ : ∃ w : Word, message = w.bytes := ⟨⟨message, hlength⟩, rfl⟩
  subst hw
  refine ⟨_, S.challenge σ.r _ w.bytes, hkey, rfl, blindingFactors_ne hodd hkey hcheck, ?_⟩
  intro α β hα hβ
  refine ⟨Scalar.exists_drawnPair hα hβ [], ?_⟩
  intro tape rest check hdrawn
  simp only [Requester.start_iff_of_drawnPair hP hR hkey hdrawn]
  rw [finalize_iff_eq_blindingFactors hα hβ hP hkey he hs hview' hcheck check, Bool.exists_bool]
  rfl

/-- A view on the toy curve, and factors that lead from it to a signature of another message
which was made without any session. -/
theorem blindness_toy : toySigner.signWith 5 13 (List.replicate 32 9) =
      .ok ⟨Block.ofNat 32 359, Block.ofNat 32 30⟩ ∧
    ∃ tape q, (Requester.start toySigner toyTerms.publicKey (PointCode.compressed false (Block.ofNat 32 655)).bytes
        (List.replicate 32 9)).run tape = some (.ok q, []) ∧ q.request = Block.ofNat 32 434 ∧
      q.finalize (Block.ofNat 32 367).bytes true = .ok ⟨Block.ofNat 32 359, Block.ofNat 32 30⟩ := by
  have hsign : toySigner.signWith 5 13 (List.replicate 32 9) =
      .ok ⟨Block.ofNat 32 359, Block.ofNat 32 30⟩ := by decide +kernel
  have hP : toySigner.decode toyTerms.publicKey = .ok (toyCurve.mulGenerator 5) := by decide +kernel
  have hR : toySigner.decode (PointCode.compressed false (Block.ofNat 32 655)).bytes =
      .ok (toyCurve.mulGenerator 11) := by decide +kernel
  have hview : toyCurve.mulGenerator 367 =
      toyCurve.add (toyCurve.mulGenerator 11) (toyCurve.scalarMul 434 (toyCurve.mulGenerator 5)) := by
    decide +kernel
  have hvalid : toySigner.verify toyTerms.publicKey
      (Signature.mk (Block.ofNat 32 359) (Block.ofNat 32 30)).bytes (List.replicate 32 9) = .ok true := by
    decide +kernel
  obtain ⟨key, _, hkey, rfl, _, hfactors⟩ := Requester.blindness (show toyCurve.order % 2 = 1 by decide) hP hR
    (show 434 < toyCurve.order by decide) (show 367 < toyCurve.order by decide) hview hvalid
  have hkey' : toyCurve.compress (toyCurve.mulGenerator 5) =
      .ok (.compressed true (Block.ofNat 32 56)) := by decide +kernel
  rw [hkey', Except.ok.injEq] at hkey
  subst hkey
  obtain ⟨⟨tape, htape⟩, hiff⟩ := hfactors 570 612 (by decide) (by decide)
  obtain ⟨q, hq⟩ := (hiff tape [] true htape).2 (.inl (by decide +kernel))
  exact ⟨hsign, tape, q, hq⟩

end BlindSchnorr
