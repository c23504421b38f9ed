import BlindSchnorr.Proofs.Blind.Completeness

/-!
# The probe window decides nothing

A wider probe window may find that a neighbour of an x-coordinate has a point. The point
itself is built at the coordinate that was written, so all that changes is the cause by which a
coordinate without a point is refused. Nothing is drawn before points are read, and nothing
after depends on the window.
-/
namespace BlindSchnorr

/-- How an outcome under one probe window is related to that under a wider one. Values are the
same and so are errors, except that the wider window may have met a neighbour with a point. -/
inductive Widens {ε α β : Type} (point : PointError → ε) (same : α → β → Prop) :
    Except ε α → Except ε β → Prop
  | ok {a : α} {b : β} (h : same a b) : Widens point same (.ok a) (.ok b)
  | error (e : ε) : Widens point same (.error e) (.error e)
  | neighbour : Widens point same (.error (point .noCurvePoint)) (.error (point .notOnCurve))

namespace Widens

variable {ε α β α' β' : Type} {point : PointError → ε} {same : α → β → Prop} {same' : α' → β' → Prop}

theorem refl (x : Except ε α) : Widens point Eq x x := by
  cases x with
  | error e => exact .error e
  | ok a => exact .ok rfl

/-- Outcomes stay related if what follows on them is. -/
theorem bind {x : Except ε α} {y : Except ε β} {f : α → Except ε α'} {g : β → Except ε β'}
    (h : Widens point same x y) (hf : ∀ a b, x = .ok a → same a b → Widens point same' (f a) (g b)) :
    Widens point same' (x >>= f) (y >>= g) := by
  cases h with
  | ok hab => exact hf _ _ rfl hab
  | error e => exact .error e
  | neighbour => exact .neighbour

/-- A step that does not depend on the window keeps outcomes related. -/
theorem common_bind (x : Except ε α) {f : α → Except ε α'} {g : α → Except ε β'}
    (h : ∀ a, Widens point same' (f a) (g a)) : Widens point same' (x >>= f) (x >>= g) := by
  cases x with
  | error e => exact .error e
  | ok a => exact h a

theorem mapError {x : Except PointError α} {y : Except PointError β} (h : Widens id same x y) :
    Widens point same (x.mapError point) (y.mapError point) := by
  cases h with
  | ok hab => exact .ok hab
  | error e => exact .error (point e)
  | neighbour => exact .neighbour

end Widens

variable {C : CurveGroup}

namespace CurveGroup

/-- What a window finds a wider one finds too. -/
theorem probe_mono {odd : Bool} {window window' x y : Nat} (hle : window ≤ window')
    (h : C.probe odd window x = some y) : C.probe odd window' x = some y := by
  induction window generalizing window' x with
  | zero => cases h
  | succ window ih =>
    obtain ⟨window', rfl⟩ := Nat.exists_eq_add_of_le' (Nat.le_of_add_left_le hle)
    rw [probe] at h ⊢
    split_ifs at h ⊢ with hx
    cases hr : Modular.sqrt? (C.rhs x) C.fieldPrime with
    | some r =>
      rw [hr] at h
      exact h
    | none =>
      rw [hr] at h
      exact ih (Nat.le_of_succ_le_succ hle) h

variable [C.CoordinateLaws] [C.FieldLaws]

theorem resolve_widens {window window' : Nat} (hw : 1 ≤ window) (hle : window ≤ window') (code : PointCode) :
    Widens id Eq (C.resolve window code) (C.resolve window' code) := by
  cases code with
  | uncompressed x y => exact .refl _
  | compressed odd w =>
    cases hprobe : C.probe odd window w.toNat with
    | some y =>
      have hprobe' := probe_mono hle hprobe
      simp only [resolve, hprobe, hprobe']
      exact .refl _
    | none =>
      have hnone : C.resolve window (.compressed odd w) = .error .noCurvePoint := by
        rw [resolve, hprobe]
      have hrefused : ∀ P, C.resolve window' (.compressed odd w) ≠ .ok P := by
        intro P hP
        rw [resolve_compressed_eq_ok_iff (hw.trans hle), ← resolve_compressed_eq_ok_iff hw, hnone] at hP
        cases hP
      rw [hnone]
      cases hprobe' : C.probe odd window' w.toNat with
      | none =>
        simp only [resolve, hprobe']
        exact .error _
      | some y =>
        -- The y-coordinate is that of a neighbour, so it builds no point here.
        cases hbuild : C.ofCoordinates? w.toNat y with
        | none =>
          simp only [resolve, hprobe', hbuild]
          exact .neighbour
        | some P => exact absurd (resolve_compressed_iff_probe.2 ⟨y, hprobe', hbuild⟩) (hrefused P)

theorem decode_widens {window window' : Nat} (hw : 1 ≤ window) (hle : window ≤ window') (b : Bytes) :
    Widens id Eq (C.decode window b) (C.decode window' b) := by
  apply Widens.common_bind
  intro code
  exact resolve_widens hw hle code

end CurveGroup

/-- Requests that no response tells apart. -/
structure Requester.Interchangeable (q q' : Requester C) : Prop where
  request : q.request = q'.request
  finalize : ∀ response check, q.finalize response check = q'.finalize response check

lemma Requester.finalize_congr {q q' : Requester C} (hunblind : ∀ s, q.unblind s = q'.unblind s)
    (hverify : ∀ σ : Signature, q.signer.verify q.publicKey σ.bytes q.message.bytes =
      q'.signer.verify q'.publicKey σ.bytes q'.message.bytes) (response : Bytes) (check : Bool) :
    q.finalize response check = q'.finalize response check := by
  simp only [finalize, hunblind, hverify]

variable [C.CoordinateLaws] [C.FieldLaws] {S T : Signer C}

namespace Signer

lemma decode_widens (hle : S.config.probeWindow ≤ T.config.probeWindow) (b : Bytes) :
    Widens .point Eq (S.decode b) (T.decode b) :=
  (CurveGroup.decode_widens S.config_valid.1 hle b).mapError

lemma verify_widens (hle : S.config.probeWindow ≤ T.config.probeWindow) (h : T.hashes = S.hashes)
    (key signature message : Bytes) :
    Widens .point Eq (S.verify key signature message) (T.verify key signature message) := by
  apply Widens.common_bind
  intro _
  apply Widens.common_bind
  intro σ
  apply Widens.common_bind
  intro _
  apply (decode_widens hle key).bind
  intro P P' _ hP
  rw [hP, check_congr h]
  exact .refl _

lemma verify_eq_of_decode (h : T.hashes = S.hashes) {key : Bytes} {P : C.Point} (hP : S.decode key = .ok P)
    (σ : Signature) (w : Word) : S.verify key σ.bytes w.bytes = T.verify key σ.bytes w.bytes := by
  rw [verify_eq_check hP w.length_bytes, verify_eq_check (decode_congr.2 hP) w.length_bytes, check_congr h]

end Signer

/-- The terms that two signers read are the same but for the signer. -/
lemma Terms.read_widens (hle : S.config.probeWindow ≤ T.config.probeWindow)
    (publicKey commitment message : Bytes) :
    Widens .point (fun t t' => t.signer = S ∧ S.decode t.publicKey = .ok t.key ∧ t' = { t with signer := T })
      (Terms.read S publicKey commitment message) (Terms.read T publicKey commitment message) := by
  apply Widens.common_bind
  intro w
  apply (Signer.decode_widens hle publicKey).bind
  intro P P' hread hP
  apply (Signer.decode_widens hle commitment).bind
  intro R R' _ hR
  rw [← hP, ← hR]
  exact .ok ⟨rfl, hread, rfl⟩

/-- Blinding uses of a signer its hash alone. -/
lemma Terms.blind_widens (h : T.hashes = S.hashes) {t : Terms C} (hS : t.signer = S)
    (hP : S.decode t.publicKey = .ok t.key) (α β : Nat) :
    Widens .point Requester.Interchangeable (t.blind α β) (({ t with signer := T } : Terms C).blind α β) := by
  subst hS
  have hchallenge : T.challenge = t.signer.challenge := by
    funext rx key message
    rw [Signer.challenge, Signer.challenge, h]
  simp only [Terms.blind, Terms.blindedNonce, hchallenge]
  cases C.coordinates (C.add (C.add t.commitment (C.mulGenerator α)) (C.scalarMul β t.key)) with
  | none => exact .error _
  | some xy =>
    apply Widens.common_bind
    intro symbol
    by_cases hdegenerate : symbol ≠ 1 ∧ symbol ≠ -1
    · rw [if_pos hdegenerate, if_pos hdegenerate]
      exact .error _
    · rw [if_neg hdegenerate, if_neg hdegenerate]
      apply Widens.common_bind
      intro key
      refine .ok ⟨rfl, Requester.finalize_congr (fun s => rfl) fun σ => ?_⟩
      exact Signer.verify_eq_of_decode h hP σ t.message

/-- Both requesters draw from the same tape or not at all. -/
lemma Requester.start_widens (hle : S.config.probeWindow ≤ T.config.probeWindow) (h : T.hashes = S.hashes)
    (publicKey commitment message tape : Bytes) :
    Option.Rel (fun r r' => Widens .point Requester.Interchangeable r.1 r'.1 ∧ r.2 = r'.2)
      ((Requester.start S publicKey commitment message).run tape)
      ((Requester.start T publicKey commitment message).run tape) := by
  have hterms := Terms.read_widens hle publicKey commitment message
  generalize hS : Terms.read S publicKey commitment message = r at hterms
  generalize hT : Terms.read T publicKey commitment message = r' at hterms
  cases hterms with
  | error e =>
    simp only [Requester.start, hS, hT]
    exact .some ⟨.error e, rfl⟩
  | neighbour =>
    simp only [Requester.start, hS, hT]
    exact .some ⟨.neighbour, rfl⟩
  | ok hsame =>
    obtain ⟨hsigner, hP, rfl⟩ := hsame
    rw [Requester.start_of_read hS, Requester.start_of_read hT]
    cases Scalar.search C.order tape with
    | none => exact .none
    | some drawn =>
      obtain ⟨α, between⟩ := drawn
      simp only [Option.bind_some]
      cases Scalar.search C.order between with
      | none => exact .none
      | some drawn => exact .some ⟨Terms.blind_widens h hsigner hP α drawn.1, rfl⟩

/-- The probe window decides about the cause of one refusal and about nothing else. -/
theorem Signer.widens_of_probeWindow_le (hle : S.config.probeWindow ≤ T.config.probeWindow)
    (h : T.hashes = S.hashes) :
    (∀ b, Widens id Eq (C.decode S.config.probeWindow b) (C.decode T.config.probeWindow b)) ∧
    (∀ key signature message,
      Widens .point Eq (S.verify key signature message) (T.verify key signature message)) ∧
    ∀ publicKey commitment message tape,
      Option.Rel (fun r r' => Widens .point Requester.Interchangeable r.1 r'.1 ∧ r.2 = r'.2)
        ((Requester.start S publicKey commitment message).run tape)
        ((Requester.start T publicKey commitment message).run tape) :=
  ⟨CurveGroup.decode_widens S.config_valid.1 hle, verify_widens hle h, Requester.start_widens hle h⟩

def strictSigner : Signer toyCurve := { config := .strict, config_valid := by decide }

/-- The toy signer probes 128 coordinates and the strict one a single one. What the former accepts
the latter accepts, and each has its own cause to refuse the coordinate 5, which has no point. -/
theorem Signer.widens_of_probeWindow_le_toy :
    strictSigner.config.probeWindow ≤ toySigner.config.probeWindow ∧ toySigner.hashes = strictSigner.hashes ∧
    strictSigner.decode (2 :: Bytes.ofNat 32 5) = .error (.point .noCurvePoint) ∧
    toySigner.decode (2 :: Bytes.ofNat 32 5) = .error (.point .notOnCurve) ∧
    strictSigner.verify toyKey.bytes toySignature.bytes (List.replicate 32 9) = .ok true ∧
    ∃ q q', (Requester.start strictSigner toyTerms.publicKey
        (PointCode.compressed false (Block.ofNat 32 655)).bytes (List.replicate 32 7)).run [0, 4, 0, 4] =
          some (.ok q, []) ∧
      (Requester.start toySigner toyTerms.publicKey
        (PointCode.compressed false (Block.ofNat 32 655)).bytes (List.replicate 32 7)).run [0, 4, 0, 4] =
          some (.ok q', []) ∧ q.Interchangeable q' := by
  have hle : strictSigner.config.probeWindow ≤ toySigner.config.probeWindow := by decide
  have hhashes : toySigner.hashes = strictSigner.hashes := rfl
  obtain ⟨-, hverify, hstart⟩ := widens_of_probeWindow_le hle hhashes
  refine ⟨hle, hhashes, by decide +kernel, by decide +kernel, ?_, ?_⟩
  · have h := hverify toyKey.bytes toySignature.bytes (List.replicate 32 9)
    rw [toy_verify] at h
    generalize strictSigner.verify _ _ _ = r at h ⊢
    cases h with
    | ok h => rw [h]
  · obtain ⟨q', hq', -⟩ := toy_start
    have h := hstart toyTerms.publicKey (PointCode.compressed false (Block.ofNat 32 655)).bytes
      (List.replicate 32 7) [0, 4, 0, 4]
    rw [hq'] at h
    generalize (Requester.start strictSigner _ _ _).run _ = r at h ⊢
    cases h with
    | @some r _ h =>
      obtain ⟨r, rest⟩ := r
      obtain ⟨hsame, rfl⟩ := h
      cases hsame with
      | @ok q _ hq => exact ⟨q, q', rfl, hq', hq⟩

end BlindSchnorr
