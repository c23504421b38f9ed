import BlindSchnorr.Proofs.Blind.Completeness

/-!
# How a blind request ends

The message is looked at first, then the key and then the commitment, and input at fault is
refused before any byte is drawn. On all other input two factors are drawn, and only a
degenerate point can keep them from making a request. Over a generator of exact order drawing
again helps.
-/
namespace BlindSchnorr

open CurveGroup
open scoped NumberTheorySymbols

variable {C : CurveGroup}

/-- The points that make no request: the identity and the points on the x-axis. -/
def CurveGroup.Degenerate (C : CurveGroup) (Q : C.Point) : Prop :=
  Q = C.identity ∨ ∃ x, C.coordinates Q = some (x, 0)

/-- What is wrong with the input of a request. A fault counts only where none before it does. -/
inductive Terms.Fault (S : Signer C) (publicKey commitment message : Bytes) : Error → Prop
  | message (h : message.length ≠ 32) :
      Fault S publicKey commitment message (.wrongLength "message digest" (.exactly 32) message.length)
  | publicKey {cause : PointError} (hmessage : message.length = 32)
      (h : C.decode S.config.probeWindow publicKey = .error cause) :
      Fault S publicKey commitment message (.point cause)
  | commitment {cause : PointError} {P : C.Point} (hmessage : message.length = 32)
      (hP : S.decode publicKey = .ok P) (h : C.decode S.config.probeWindow commitment = .error cause) :
      Fault S publicKey commitment message (.point cause)

theorem Signer.decode_eq_error_iff {S : Signer C} {b : Bytes} {ε : Error} :
    S.decode b = .error ε ↔ ∃ cause, C.decode S.config.probeWindow b = .error cause ∧ .point cause = ε :=
  mapError_eq_error_iff

theorem messageDigest_eq_error_iff {message : Bytes} {ε : Error} : messageDigest message = .error ε ↔
    message.length ≠ 32 ∧ .wrongLength "message digest" (.exactly 32) message.length = ε := by
  rw [messageDigest, ← Block.ofBytes?_eq_none_iff]
  cases Block.ofBytes? 32 message <;> simp

section Fault

variable {S : Signer C} {publicKey commitment message : Bytes} {ε : Error}

/-- Reading the terms fails with the first fault. -/
theorem Terms.read_eq_error_iff : Terms.read S publicKey commitment message = .error ε ↔
    Terms.Fault S publicKey commitment message ε := by
  have hmessage : ∀ w : Word, messageDigest message = .ok w → message.length = 32 := by
    intro w hw
    rw [messageDigest_eq_ok_iff.1 hw, w.length_bytes]
  constructor
  · intro h
    rcases bind_eq_error_iff.1 h with h | ⟨w, hw, h⟩
    · obtain ⟨hlength, rfl⟩ := messageDigest_eq_error_iff.1 h
      exact .message hlength
    rcases bind_eq_error_iff.1 h with h | ⟨P, hP, h⟩
    · obtain ⟨cause, hcause, rfl⟩ := Signer.decode_eq_error_iff.1 h
      exact .publicKey (hmessage w hw) hcause
    rcases bind_eq_error_iff.1 h with h | ⟨R, hR, h⟩
    · obtain ⟨cause, hcause, rfl⟩ := Signer.decode_eq_error_iff.1 h
      exact .commitment (hmessage w hw) hP hcause
    · cases h
  · intro h
    cases h with
    | message hlength =>
      rw [read, messageDigest_eq_error_iff.2 ⟨hlength, rfl⟩]
      rfl
    | publicKey hlength hcause =>
      have hw : messageDigest message = .ok ⟨message, hlength⟩ := messageDigest_eq_ok_iff.2 rfl
      rw [read, hw, ok_bind, Signer.decode_eq_error_iff.2 ⟨_, hcause, rfl⟩]
      rfl
    | commitment hlength hP hcause =>
      have hw : messageDigest message = .ok ⟨message, hlength⟩ := messageDigest_eq_ok_iff.2 rfl
      rw [read, hw, ok_bind, hP, ok_bind, Signer.decode_eq_error_iff.2 ⟨_, hcause, rfl⟩]
      rfl

/-- Input at fault costs no randomness. -/
theorem Requester.run_start_of_fault (h : Terms.Fault S publicKey commitment message ε) (tape : Bytes) :
    (Requester.start S publicKey commitment message).run tape = some (.error ε, tape) := by
  rw [start, Terms.read_eq_error_iff.2 h]
  rfl

end Fault

section Blind

variable [C.CoordinateLaws] [C.FieldLaws]

theorem Terms.blind_of_degenerate {t : Terms C} {α β : Nat} (h : C.Degenerate (t.blindedNonce α β)) :
    t.blind α β = .error .degenerateBlinding := by
  rw [blind]
  rcases h with h | ⟨x, hx⟩
  · rw [h, CoordinateLaws.coordinates_identity]
  · have hzero : J((0 : Nat) | C.fieldPrime) = 0 := (Jacobi.jacobiSym_eq_zero_iff FieldLaws.prime.pos).2 rfl
    simp only [hx, symbol_fieldPrime, ok_bind, hzero]
    rfl

/-- Every other point has coordinates, and the second of them a sign. -/
theorem Terms.blind_of_not_degenerate {t : Terms C} {key : PointCode} {α β : Nat}
    (hkey : C.compress t.key = .ok key) (hpoint : C.IsPoint (t.blindedNonce α β))
    (h : ¬C.Degenerate (t.blindedNonce α β)) : ∃ rx negated, t.blind α β = .ok (t.request key α β rx negated) := by
  obtain ⟨hidentity, haxis⟩ := not_or.1 h
  cases hxy : C.coordinates (t.blindedNonce α β) with
  | none => exact absurd ((coordinates_eq_none_iff hpoint).1 hxy) hidentity
  | some xy =>
    obtain ⟨x, y⟩ := xy
    have hne : J(y | C.fieldPrime) ≠ 0 := by
      rw [Ne, Jacobi.jacobiSym_eq_zero_iff (coordinates_on_curve hpoint hxy).2.1]
      rintro rfl
      exact haxis ⟨x, hxy⟩
    obtain ⟨negated, hsign⟩ := exists_flip_eq hne
    exact ⟨_, negated, (Terms.blind_iff_coordinates hkey).2 ⟨x, y, negated, hxy, hsign, rfl⟩⟩

end Blind

/-- With one factor given, at most one other leads to the identity. -/
theorem degenerate_subsingleton [C.GroupLaws] (hG : C.ExactOrder)
    (haxis : ∀ Q x, C.IsPoint Q → C.coordinates Q ≠ some (x, 0)) (P R : C.Points) (β : Nat) :
    {α | Scalar.InRange α C.order ∧
      C.Degenerate (R + α • Points.generator + β • P : C.Points)}.Subsingleton := by
  have hidentity : ∀ Q : C.Points, C.Degenerate Q → Q = 0 := by
    intro Q hQ
    rcases hQ with hQ | ⟨x, hx⟩
    · exact Subtype.ext hQ
    · exact absurd hx (haxis Q x Q.2)
  intro α hα α' hα'
  have hequal : R + α • Points.generator + β • P = R + α' • Points.generator + β • P :=
    (hidentity _ hα.2).trans (hidentity _ hα'.2).symm
  have hmultiple := add_left_cancel (add_right_cancel hequal)
  exact ((Points.nsmul_generator_eq_iff hG).1 hmultiple).eq_of_lt_of_lt hα.1.2 hα'.1.2

/-- Input at fault is refused for its first fault, with no byte drawn. On all other input the request
draws two factors in range, unless the tape ends before. It fails iff they lead to a degenerate point,
and is below the order otherwise. If the order is exact and no point lies on the x-axis, at most one
first factor fails with a second, so that fresh ones are worth drawing. -/
theorem Requester.start_outcome [C.CoordinateLaws] [C.FieldLaws] [C.GroupLaws] (hlt : C.order < 2 ^ 256)
    (S : Signer C) (publicKey commitment message : Bytes) :
    (∀ ε, Terms.Fault S publicKey commitment message ε → ∀ tape,
      (Requester.start S publicKey commitment message).run tape = some (.error ε, tape)) ∧
    ∀ P R, message.length = 32 → S.decode publicKey = .ok P → S.decode commitment = .ok R →
      (∀ tape, (Requester.start S publicKey commitment message).run tape = none ↔
        ¬∃ α β rest, Scalar.DrawnPair C.order tape α β rest) ∧
      (∀ tape α β rest, Scalar.DrawnPair C.order tape α β rest →
        Scalar.InRange α C.order ∧ Scalar.InRange β C.order ∧
        (C.Degenerate (C.add (C.add R (C.mulGenerator α)) (C.scalarMul β P)) →
          (Requester.start S publicKey commitment message).run tape =
            some (.error .degenerateBlinding, rest)) ∧
        (¬C.Degenerate (C.add (C.add R (C.mulGenerator α)) (C.scalarMul β P)) →
          ∃ q, (Requester.start S publicKey commitment message).run tape = some (.ok q, rest) ∧
            q.request.toNat < C.order)) ∧
      (C.ExactOrder → (∀ Q x, C.IsPoint Q → C.coordinates Q ≠ some (x, 0)) → ∀ β,
        {α | Scalar.InRange α C.order ∧
          C.Degenerate (C.add (C.add R (C.mulGenerator α)) (C.scalarMul β P))}.Subsingleton) := by
  refine ⟨fun ε hfault => Requester.run_start_of_fault hfault, ?_⟩
  intro P R hmessage hP hR
  obtain ⟨P, key, rfl, hkey⟩ := Signer.exists_point_of_decode hP
  obtain ⟨R, -, rfl, -⟩ := Signer.exists_point_of_decode hR
  let t : Terms C := ⟨S, publicKey, ⟨message, hmessage⟩, P, R⟩
  have hread : Terms.read S publicKey commitment message = .ok t :=
    Terms.read_eq_ok_iff.2 ⟨_, _, _, rfl, hP, hR, rfl⟩
  have hblinded : ∀ α β, t.blindedNonce α β = ((R + α • Points.generator + β • P : C.Points) : C.Point) :=
    Terms.coe_blindedNonce
  refine ⟨?_, ?_, ?_⟩
  · intro tape
    rw [Option.eq_none_iff_forall_ne_some]
    constructor
    · intro hnone ⟨α, β, rest, hdrawn⟩
      exact hnone _ ((Requester.run_start_iff hread).2 ⟨α, β, hdrawn, rfl⟩)
    · intro hnot ⟨outcome, rest⟩ hrun
      obtain ⟨α, β, hdrawn, -⟩ := (Requester.run_start_iff hread).1 hrun
      exact hnot ⟨α, β, rest, hdrawn⟩
  · intro tape α β rest hdrawn
    have hα := hdrawn.inRange.1
    refine ⟨hα, hdrawn.inRange.2, ?_, ?_⟩
    · intro hdegenerate
      exact (Requester.run_start_iff hread).2 ⟨α, β, hdrawn, Terms.blind_of_degenerate hdegenerate⟩
    · intro hsound
      have hpoint : C.IsPoint (t.blindedNonce α β) := by
        rw [hblinded]
        exact Subtype.property _
      obtain ⟨rx, negated, hblind⟩ := Terms.blind_of_not_degenerate hkey hpoint hsound
      exact ⟨_, (Requester.run_start_iff hread).2 ⟨α, β, hdrawn, hblind⟩,
        (Terms.toNat_request rfl (hα.1.trans hα.2) hlt).1⟩
  · intro hG haxis β
    have hset := degenerate_subsingleton hG haxis P R β
    simp only [← hblinded] at hset
    exact hset

/-- Requests to the key 5 of the toy curve. With the commitment to 11 and the second factor 4 the first
factor 876 leads to the identity, so 4 does not. -/
theorem Requester.start_outcome_toy :
    (Requester.start toySigner toyKey.bytes [9] (List.replicate 31 7)).run [0, 4] =
      some (.error (.wrongLength "message digest" (.exactly 32) 31), [0, 4]) ∧
    (Requester.start toySigner toyKey.bytes [9] (List.replicate 32 7)).run [0, 4] =
      some (.error (.point (.unknownTag 9)), [0, 4]) ∧
    (Requester.start toySigner toyKey.bytes (PointCode.compressed false (Block.ofNat 32 655)).bytes
      (List.replicate 32 7)).run [3, 108, 0, 4, 1] = some (.error .degenerateBlinding, [1]) ∧
    ∃ q, (Requester.start toySigner toyKey.bytes (PointCode.compressed false (Block.ofNat 32 655)).bytes
      (List.replicate 32 7)).run [0, 4, 0, 4] = some (.ok q, []) ∧ q.request.toNat < 907 := by
  have hlt : toyCurve.order < 2 ^ 256 := Lawful.order_lt
  have hG : toyCurve.ExactOrder := exactOrder_of_prime (show Nat.Prime 907 by norm_num) nofun
  have haxis : ∀ Q x, toyCurve.IsPoint Q → toyCurve.coordinates Q ≠ some (x, 0) := by
    intro Q x hQ hx
    exact ordinate_ne_zero (P := ⟨Q, hQ⟩) (show 907 % 2 = 1 by decide) hx rfl
  obtain ⟨hshort, -⟩ := start_outcome hlt toySigner toyKey.bytes [9] (List.replicate 31 7)
  obtain ⟨hfault, -⟩ := start_outcome hlt toySigner toyKey.bytes [9] (List.replicate 32 7)
  obtain ⟨-, hdraws⟩ := start_outcome hlt toySigner toyKey.bytes
    (PointCode.compressed false (Block.ofNat 32 655)).bytes (List.replicate 32 7)
  obtain ⟨-, hrun, hunique⟩ := hdraws _ _ List.length_replicate toy_decode toy_decode_commitment
  have hdegenerate : toyCurve.Degenerate (toyCurve.add
      (toyCurve.add (toyCurve.mulGenerator 11) (toyCurve.mulGenerator 876))
      (toyCurve.scalarMul 4 (toyCurve.mulGenerator 5))) := .inl (by decide +kernel)
  have hsound : ¬toyCurve.Degenerate (toyCurve.add
      (toyCurve.add (toyCurve.mulGenerator 11) (toyCurve.mulGenerator 4))
      (toyCurve.scalarMul 4 (toyCurve.mulGenerator 5))) := by
    intro h
    have hequal : 4 = 876 := hunique hG haxis 4 ⟨by decide, h⟩ ⟨by decide, hdegenerate⟩
    contradiction
  have hdrawn : Scalar.DrawnPair toyCurve.order [3, 108, 0, 4, 1] 876 4 [1] :=
    ⟨[0, 4, 1], Scalar.search_block (show Scalar.InRange 876 907 by decide) [0, 4, 1],
      Scalar.search_block (show Scalar.InRange 4 907 by decide) [1]⟩
  refine ⟨?_, ?_, (hrun _ _ _ _ hdrawn).2.2.1 hdegenerate, (hrun _ _ _ _ toy_drawPair).2.2.2 hsound⟩
  · exact hshort _ (.message (by decide)) _
  · exact hfault _ (.commitment List.length_replicate toy_decode (by decide)) _

end BlindSchnorr
