import BlindSchnorr.Proofs.Blind.ProbeWindow

/-!
# The form of a point decides nothing

A key and a commitment may be sent compressed or not. Either form is read as the same point, and
what is hashed is always the compressed code of the key that was read. So a verdict does not
depend on the form, and neither does a request: two requests for the same points store different
key bytes, but nothing that a caller sees of them differs.
-/
namespace BlindSchnorr

open CurveGroup

variable {C : CurveGroup} {S : Signer C} {P R : C.Point}

namespace Signer

/-- Byte strings that are read as one point are one key to verification, also where the signature
or the message is refused. -/
lemma verify_eq_of_decode_eq {key key' : Bytes} (h : S.decode key = .ok P) (h' : S.decode key' = .ok P)
    (signature message : Bytes) : S.verify key signature message = S.verify key' signature message := by
  have hwidth : ∀ {b : Bytes}, S.decode b = .ok P → expectWidth "public key"
      (.either PointCode.compressedWidth PointCode.uncompressedWidth) b.length = .ok () :=
    fun hb => expectWidth_eq_ok_iff.2 (length_of_decode hb)
  rw [verify, verify, hwidth h, hwidth h', h, h']

end Signer

/-- Outcomes that a caller cannot tell apart. -/
inductive Requester.SameOutcome : Except Error (Requester C) → Except Error (Requester C) → Prop
  | ok {q q' : Requester C} (h : q.Interchangeable q') : SameOutcome (.ok q) (.ok q')
  | error (e : Error) : SameOutcome (.error e) (.error e)

/-- A step that both computations share keeps their outcomes alike. -/
lemma Requester.SameOutcome.common_bind {α : Type} (x : Except Error α)
    {f g : α → Except Error (Requester C)} (h : ∀ a, SameOutcome (f a) (g a)) :
    SameOutcome (x >>= f) (x >>= g) := by
  cases x with
  | error e => exact .error e
  | ok a => exact h a

/-- The bytes of the key are stored as they came. What is hashed is the code of the point. -/
lemma Terms.blind_sameOutcome {t : Terms C} {key : Bytes} (h : t.signer.decode t.publicKey = .ok t.key)
    (h' : t.signer.decode key = .ok t.key) (α β : Nat) :
    Requester.SameOutcome (t.blind α β) (({ t with publicKey := key } : Terms C).blind α β) := by
  simp only [blind, blindedNonce]
  cases C.coordinates (C.add (C.add t.commitment (C.mulGenerator α)) (C.scalarMul β t.key)) with
  | none => exact .error _
  | some xy =>
    apply Requester.SameOutcome.common_bind
    intro symbol
    by_cases hdegenerate : symbol ≠ 1 ∧ symbol ≠ -1
    · rw [if_pos hdegenerate, if_pos hdegenerate]
      exact .error _
    · rw [if_neg hdegenerate, if_neg hdegenerate]
      apply Requester.SameOutcome.common_bind
      intro code
      refine .ok ⟨rfl, Requester.finalize_congr (fun s => rfl) fun σ => ?_⟩
      exact Signer.verify_eq_of_decode_eq h h' σ.bytes t.message.bytes

/-- Requests for the same points are made from the same draws and come to the same. -/
lemma Requester.start_of_decode_eq {key key' commitment commitment' : Bytes} (hP : S.decode key = .ok P)
    (hP' : S.decode key' = .ok P) (hR : S.decode commitment = .ok R) (hR' : S.decode commitment' = .ok R)
    (message tape : Bytes) :
    Option.Rel (fun r r' => SameOutcome r.1 r'.1 ∧ r.2 = r'.2)
      ((Requester.start S key commitment message).run tape)
      ((Requester.start S key' commitment' message).run tape) := by
  cases hmessage : messageDigest message with
  | error e =>
    have hread : ∀ pk cm, Terms.read S pk cm message = .error e := by
      intro pk cm
      rw [Terms.read, hmessage, error_bind]
    simp only [Requester.start, hread]
    exact .some ⟨.error e, rfl⟩
  | ok w =>
    have hw := messageDigest_eq_ok_iff.1 hmessage
    have hread : Terms.read S key commitment message = .ok ⟨S, key, w, P, R⟩ :=
      Terms.read_eq_ok_iff.2 ⟨w, P, R, hw, hP, hR, rfl⟩
    have hread' : Terms.read S key' commitment' message = .ok ⟨S, key', w, P, R⟩ :=
      Terms.read_eq_ok_iff.2 ⟨w, P, R, hw, hP', hR', rfl⟩
    rw [start_of_read hread, start_of_read hread']
    cases Scalar.search C.order tape with
    | none => exact .none
    | some drawn =>
      obtain ⟨α, between⟩ := drawn
      simp only [Option.bind_some]
      cases Scalar.search C.order between with
      | none => exact .none
      | some drawn => exact .some ⟨Terms.blind_sameOutcome (t := ⟨S, key, w, P, R⟩) hP hP' α drawn.1, rfl⟩

variable [C.CoordinateLaws] [C.FieldLaws]

/-- Every finite point has a code of either form, and every signer reads both as the point. -/
lemma Signer.exists_codes (S : Signer C) (hP : C.IsPoint P) (hfinite : P ≠ C.identity) :
    ∃ code : Bool → PointCode, ∀ form, C.encode P form = .ok (code form) ∧
      (code form).bytes.length = (if form then 33 else 65) ∧ S.decode (code form).bytes = .ok P := by
  have hcode : ∀ form, ∃ code, C.encode P form = .ok code ∧
      code.bytes.length = (if form then 33 else 65) ∧ S.decode code.bytes = .ok P := by
    intro form
    cases hxy : C.coordinates P with
    | none => exact absurd ((coordinates_eq_none_iff hP).1 hxy) hfinite
    | some xy =>
      have hencode := encode_of_coordinates hxy form
      refine ⟨_, hencode, ?_, S.decode_encode hP hencode⟩
      cases form <;> simp [PointCode.width, PointCode.compressedWidth, PointCode.uncompressedWidth]
  exact ⟨fun form => (hcode form).choose, fun form => (hcode form).choose_spec⟩

/-- Neither a verdict nor a request depends on the forms in which the points are sent, whatever the
signature, the message and the draws are. -/
theorem Signer.forms_interchangeable (S : Signer C) (hP : C.IsPoint P) (hfinite : P ≠ C.identity)
    (hR : C.IsPoint R) (hfinite' : R ≠ C.identity) : ∃ key commitment : Bool → PointCode,
    (∀ form, C.encode P form = .ok (key form) ∧ (key form).bytes.length = if form then 33 else 65) ∧
    (∀ form, C.encode R form = .ok (commitment form) ∧
      (commitment form).bytes.length = if form then 33 else 65) ∧
    (∀ form form' signature message,
      S.verify (key form).bytes signature message = S.verify (key form').bytes signature message) ∧
    ∀ keyForm keyForm' commitmentForm commitmentForm' message tape,
      Option.Rel (fun r r' => Requester.SameOutcome r.1 r'.1 ∧ r.2 = r'.2)
        ((Requester.start S (key keyForm).bytes (commitment commitmentForm).bytes message).run tape)
        ((Requester.start S (key keyForm').bytes (commitment commitmentForm').bytes message).run tape) := by
  obtain ⟨key, hkey⟩ := S.exists_codes hP hfinite
  obtain ⟨commitment, hcommitment⟩ := S.exists_codes hR hfinite'
  refine ⟨key, commitment, fun form => ⟨(hkey form).1, (hkey form).2.1⟩,
    fun form => ⟨(hcommitment form).1, (hcommitment form).2.1⟩, ?_, ?_⟩
  · intro form form' signature message
    exact verify_eq_of_decode_eq (hkey form).2.2 (hkey form').2.2 signature message
  · intro keyForm keyForm' commitmentForm commitmentForm' message tape
    exact Requester.start_of_decode_eq (hkey keyForm).2.2 (hkey keyForm').2.2
      (hcommitment commitmentForm).2.2 (hcommitment commitmentForm').2.2 message tape

/-- On the toy curve, with the key 5 and the nonce 11: the accepted signature is accepted under the
uncompressed key too, and the request that takes the negative of its nonce point comes out alike
when both points are sent uncompressed. -/
theorem Signer.forms_interchangeable_toy :
    toyCurve.IsPoint (toyCurve.mulGenerator 5) ∧ toyCurve.mulGenerator 5 ≠ toyCurve.identity ∧
    toyCurve.IsPoint (toyCurve.mulGenerator 11) ∧ toyCurve.mulGenerator 11 ≠ toyCurve.identity ∧
    ∃ key commitment : PointCode, toyCurve.encode (toyCurve.mulGenerator 5) false = .ok key ∧
      key.bytes.length = 65 ∧ toyCurve.encode (toyCurve.mulGenerator 11) false = .ok commitment ∧
      toySigner.verify key.bytes toySignature.bytes (List.replicate 32 9) = .ok true ∧
      ∃ q q', (Requester.start toySigner toyKey.bytes
          (PointCode.compressed false (Block.ofNat 32 655)).bytes (List.replicate 32 7)).run [0, 4, 0, 4] =
            some (.ok q, []) ∧
        (Requester.start toySigner key.bytes commitment.bytes (List.replicate 32 7)).run [0, 4, 0, 4] =
          some (.ok q', []) ∧ q.Interchangeable q' := by
  have hP := isPoint_mulGenerator (C := toyCurve) 5
  have hR := isPoint_mulGenerator (C := toyCurve) 11
  have hfinite : toyCurve.mulGenerator 5 ≠ toyCurve.identity := by decide +kernel
  have hfinite' : toyCurve.mulGenerator 11 ≠ toyCurve.identity := by decide +kernel
  have hcommitted : toyCurve.encode (toyCurve.mulGenerator 11) true =
      .ok (.compressed false (Block.ofNat 32 655)) := by decide +kernel
  obtain ⟨key, commitment, hkey, hcommitment, hverify, hstart⟩ :=
    forms_interchangeable toySigner hP hfinite hR hfinite'
  have htrue : key true = toyKey := Except.ok.inj ((hkey true).1.symm.trans toy_compress)
  have htrue' := Except.ok.inj ((hcommitment true).1.symm.trans hcommitted)
  have hverdict := hverify false true toySignature.bytes (List.replicate 32 9)
  rw [htrue, toy_verify] at hverdict
  have hsame := hstart true false true false (List.replicate 32 7) [0, 4, 0, 4]
  obtain ⟨q, hq, -⟩ := toy_start
  rw [htrue, htrue', show toyKey.bytes = toyTerms.publicKey from rfl, hq] at hsame
  refine ⟨hP, hfinite, hR, hfinite', key false, commitment false, (hkey false).1, (hkey false).2,
    (hcommitment false).1, hverdict, q, ?_⟩
  generalize (Requester.start toySigner (key false).bytes _ _).run _ = r at hsame ⊢
  cases hsame with
  | @some _ r h =>
    obtain ⟨r, rest⟩ := r
    obtain ⟨hok, rfl⟩ := h
    cases hok with
    | @ok _ q' hq' => exact ⟨q', hq, rfl, hq'⟩

end BlindSchnorr
