import BlindSchnorr.Blind.Requester
import BlindSchnorr.Proofs.Arith.ScalarDraw
import BlindSchnorr.Proofs.Signing.Verification

/-!
# Blinding and unblinding

The requester's computation in closed form. A request carries one sign through both of its
steps, and over the integers modulo the order this sign is all that blinding and unblinding
differ by on the two Jacobi branches. An unblinded signature verifies iff the response fits
commitment, request and key.
-/
namespace BlindSchnorr

open scoped NumberTheorySymbols
open CurveGroup

variable {C : CurveGroup}

/-- The sign that a request takes its nonce point with. -/
def flip (negated : Bool) : ℤ := if negated then -1 else 1

@[simp] lemma flip_mul_self (negated : Bool) : flip negated * flip negated = 1 := by
  cases negated <;> rfl

@[simp] lemma flip_zsmul_flip_zsmul {G : Type} [AddCommGroup G] (negated : Bool) (P : G) :
    flip negated • flip negated • P = P := by
  rw [← mul_zsmul, flip_mul_self, one_zsmul]

lemma flip_zsmul_injective {G : Type} [AddCommGroup G] (negated : Bool) :
    Function.Injective fun P : G => flip negated • P :=
  Function.LeftInverse.injective (flip_zsmul_flip_zsmul negated)

lemma flip_injective : Function.Injective flip := by
  intro b c h
  cases b <;> cases c <;> simp_all [flip]

lemma exists_flip_eq {a : ℤ} {n : Nat} (h : J(a | n) ≠ 0) : ∃ negated, J(a | n) = flip negated := by
  rcases jacobiSym.trichotomy a n with h0 | h1 | h1
  · exact absurd h0 h
  · exact ⟨false, h1⟩
  · exact ⟨true, h1⟩

/-- Reducing a number and taking the difference to the order for a negative sign multiplies by
the sign. -/
lemma flip_modEq {n : Nat} (hn : 0 < n) (negated : Bool) (v : Nat) :
    ((if negated then n - v % n else v % n : Nat) : ℤ) ≡ flip negated * v [ZMOD n] := by
  cases negated with
  | false =>
    simp [flip, Int.ModEq]
  | true =>
    have hle : v % n ≤ n := (Nat.mod_lt v hn).le
    have hcast : ((n - v % n : Nat) : ℤ) = n - (v : ℤ) % n := by
      rw [Nat.cast_sub hle, Int.natCast_mod]
    have hreduce : (v : ℤ) % n ≡ v [ZMOD n] := Int.mod_modEq v n
    have hzero : (n : ℤ) ≡ 0 [ZMOD n] := by simp [Int.ModEq]
    simpa [flip, hcast] using hzero.sub hreduce

lemma eq_of_intModEq {n a b : Nat} (ha : a < n) (hb : b < n) (h : (a : ℤ) ≡ b [ZMOD n]) : a = b :=
  Nat.ModEq.eq_of_lt_of_lt (Int.natCast_modEq_iff.1 h) ha hb

theorem messageDigest_eq_ok_iff {message : Bytes} {w : Word} :
    messageDigest message = .ok w ↔ message = w.bytes := by
  unfold messageDigest
  cases h : Block.ofBytes? 32 message with
  | none =>
    have hne : message.length ≠ 32 := Block.ofBytes?_eq_none_iff.1 h
    refine iff_of_false nofun ?_
    intro heq
    exact hne (heq ▸ w.length_bytes)
  | some w' =>
    have heq := Block.ofBytes?_eq_some_iff.1 h
    constructor
    · intro hok
      cases hok
      exact heq
    · intro hw
      rw [Block.ext (heq.symm.trans hw)]

theorem Terms.read_eq_ok_iff {S : Signer C} {publicKey commitment message : Bytes} {t : Terms C} :
    Terms.read S publicKey commitment message = .ok t ↔
      ∃ w P R, message = w.bytes ∧ S.decode publicKey = .ok P ∧ S.decode commitment = .ok R ∧
        t = ⟨S, publicKey, w, P, R⟩ := by
  simp only [Terms.read, bind_eq_ok_iff, messageDigest_eq_ok_iff, Except.ok.injEq]
  constructor
  · intro ⟨w, hw, P, hP, R, hR, ht⟩
    exact ⟨w, P, R, hw, hP, hR, ht.symm⟩
  · intro ⟨w, P, R, hw, hP, hR, ht⟩
    exact ⟨w, hw, P, hP, R, hR, ht.symm⟩

lemma Requester.start_of_read {S : Signer C} {publicKey commitment message tape : Bytes} {t : Terms C}
    (h : Terms.read S publicKey commitment message = .ok t) :
    (Requester.start S publicKey commitment message).run tape =
      (Scalar.search C.order tape).bind fun (α, between) =>
        (Scalar.search C.order between).bind fun (β, rest) => some (t.blind α β, rest) := by
  simp only [Requester.start, h]
  rfl

/-- On terms that can be read a run draws two factors and blinds with them, whatever comes of it. -/
lemma Requester.run_start_iff {S : Signer C} {publicKey commitment message tape rest : Bytes} {t : Terms C}
    (h : Terms.read S publicKey commitment message = .ok t) {outcome : Except Error (Requester C)} :
    (Requester.start S publicKey commitment message).run tape = some (outcome, rest) ↔
      ∃ α β, Scalar.DrawnPair C.order tape α β rest ∧ t.blind α β = outcome := by
  rw [Requester.start_of_read h]
  constructor
  · intro hrun
    obtain ⟨⟨α, between⟩, hα, hrun⟩ := Option.bind_eq_some_iff.1 hrun
    obtain ⟨⟨β, rest'⟩, hβ, hrun⟩ := Option.bind_eq_some_iff.1 hrun
    rw [Option.some.injEq, Prod.mk.injEq] at hrun
    obtain ⟨hblind, rfl⟩ := hrun
    exact ⟨α, β, ⟨between, hα, hβ⟩, hblind⟩
  · intro ⟨α, β, ⟨between, hα, hβ⟩, hblind⟩
    rw [hα]
    simp [hβ, hblind]

/-- A request starts iff its terms can be read and two drawn factors blind them. -/
theorem Requester.start_eq_ok_iff {S : Signer C} {publicKey commitment message tape rest : Bytes}
    {q : Requester C} :
    (Requester.start S publicKey commitment message).run tape = some (.ok q, rest) ↔
      ∃ t α β, Terms.read S publicKey commitment message = .ok t ∧
        Scalar.DrawnPair C.order tape α β rest ∧ t.blind α β = .ok q := by
  cases hread : Terms.read S publicKey commitment message with
  | error e => simp [Requester.start, hread]
  | ok t =>
    rw [Requester.run_start_iff hread]
    constructor
    · intro ⟨α, β, hdrawn, hblind⟩
      exact ⟨t, α, β, rfl, hdrawn, hblind⟩
    · intro ⟨t', α, β, ht, hdrawn, hblind⟩
      cases ht
      exact ⟨α, β, hdrawn, hblind⟩

/-- The request that two factors make with a nonce coordinate and a sign. -/
def Terms.request (t : Terms C) (key : PointCode) (α β : Nat) (rx : Word) (negated : Bool) : Requester C :=
  let e₀ := t.signer.challenge rx key t.message.bytes % C.order
  { signer := t.signer
    publicKey := t.publicKey
    message := t.message
    alpha := Block.ofNat 32 α
    negated := negated
    rx := rx
    request := Block.ofNat 32 (((if negated then C.order - e₀ else e₀) + β) % C.order) }

section Fields

variable (t : Terms C) (key : PointCode) (α β : Nat) (rx : Word) (negated : Bool)

@[simp] lemma Terms.signer_request : (t.request key α β rx negated).signer = t.signer := rfl

@[simp] lemma Terms.publicKey_request : (t.request key α β rx negated).publicKey = t.publicKey := rfl

@[simp] lemma Terms.message_request : (t.request key α β rx negated).message = t.message := rfl

@[simp] lemma Terms.negated_request : (t.request key α β rx negated).negated = negated := rfl

@[simp] lemma Terms.rx_request : (t.request key α β rx negated).rx = rx := rfl

@[simp] lemma Requester.r_unblind (q : Requester C) (s : Nat) : (q.unblind s).r = q.rx := rfl

end Fields

lemma Terms.toNat_request {t : Terms C} {key : PointCode} {α β : Nat} {rx : Word} {negated : Bool}
    {q : Requester C} (hq : q = t.request key α β rx negated) (hpos : 0 < C.order)
    (hlt : C.order < 2 ^ 256) : q.request.toNat < C.order ∧
      (q.request.toNat : ℤ) ≡ flip negated * t.signer.challenge rx key t.message.bytes + β [ZMOD C.order] := by
  have hmod := Nat.mod_lt ((if negated then C.order - t.signer.challenge rx key t.message.bytes % C.order
    else t.signer.challenge rx key t.message.bytes % C.order) + β) hpos
  have hvalue : (t.request key α β rx negated).request.toNat = _ := Word.toNat_ofNat (hmod.trans hlt)
  rw [hq, hvalue]
  refine ⟨hmod, ?_⟩
  rw [Int.natCast_mod, Nat.cast_add]
  exact (Int.mod_modEq _ _).trans ((flip_modEq hpos negated _).add_right _)

lemma Requester.toNat_unblind (q : Requester C) (hpos : 0 < C.order) (hlt : C.order < 2 ^ 256) (s : Nat) :
    (q.unblind s).s.toNat < C.order ∧
      ((q.unblind s).s.toNat : ℤ) ≡ flip q.negated * (s + q.alpha.toNat) [ZMOD C.order] := by
  have hreduce : (if q.negated then (C.order - (s + q.alpha.toNat) % C.order) % C.order
      else (s + q.alpha.toNat) % C.order) =
        (if q.negated then C.order - (s + q.alpha.toNat) % C.order
          else (s + q.alpha.toNat) % C.order) % C.order := by
    cases q.negated <;> simp
  have hmod := Nat.mod_lt (if q.negated then C.order - (s + q.alpha.toNat) % C.order
    else (s + q.alpha.toNat) % C.order) hpos
  have hvalue : (q.unblind s).s.toNat = _ := Word.toNat_ofNat (hreduce ▸ hmod.trans hlt)
  rw [hvalue, hreduce]
  refine ⟨hmod, ?_⟩
  rw [Int.natCast_mod, ← Nat.cast_add]
  exact (Int.mod_modEq _ _).trans (flip_modEq hpos q.negated _)

lemma Terms.toNat_unblind_request {t : Terms C} {key : PointCode} {α β : Nat} {rx : Word} {negated : Bool}
    {q : Requester C} (hq : q = t.request key α β rx negated) (hα : Scalar.InRange α C.order)
    (hlt : C.order < 2 ^ 256) (s : Nat) : (q.unblind s).s.toNat < C.order ∧
      ((q.unblind s).s.toNat : ℤ) ≡ flip negated * (s + α) [ZMOD C.order] := by
  have halpha : q.alpha.toNat = α := by
    rw [hq]
    exact Word.toNat_ofNat (hα.2.trans hlt)
  have hnegated : q.negated = negated := by rw [hq, Terms.negated_request]
  have h := q.toNat_unblind (hα.1.trans hα.2) hlt s
  rwa [halpha, hnegated] at h

lemma Requester.finalize_unchecked (q : Requester C) (response : Word) :
    q.finalize response.bytes false = .ok (q.unblind response.toNat) := by
  have hwidth : expectWidth "partial signature" (.exactly 32) response.bytes.length = .ok () :=
    expectWidth_eq_ok_iff.2 response.length_bytes
  rw [finalize, hwidth]
  rfl

/-- With the check, the verdict on the unblinded signature decides. -/
lemma Requester.finalize_checked (q : Requester C) (response : Word) {valid : Bool}
    (h : q.signer.verify q.publicKey (q.unblind response.toNat).bytes q.message.bytes = .ok valid) :
    q.finalize response.bytes true =
      if valid then .ok (q.unblind response.toNat) else .error .verificationFailed := by
  have hwidth : expectWidth "partial signature" (.exactly 32) response.bytes.length = .ok () :=
    expectWidth_eq_ok_iff.2 response.length_bytes
  change q.signer.verify q.publicKey (q.unblind (Bytes.toNat response.bytes)).bytes q.message.bytes = _ at h
  simp only [finalize, hwidth, ok_bind, h]
  rfl

/-- Blinding succeeds iff the blinded point has coordinates and the second of them a sign. -/
theorem Terms.blind_iff_coordinates [C.OddFieldLaws] {t : Terms C} {key : PointCode} {α β : Nat}
    {q : Requester C} (hkey : C.compress t.key = .ok key) :
    t.blind α β = .ok q ↔ ∃ x y negated, C.coordinates (t.blindedNonce α β) = some (x, y) ∧
      J(y | C.fieldPrime) = flip negated ∧ q = t.request key α β (Block.ofNat 32 x) negated := by
  have hcompress : (C.compress t.key).mapError Error.point = .ok key := mapError_eq_ok_iff.2 hkey
  rw [Terms.blind]
  cases C.coordinates (t.blindedNonce α β) with
  | none => exact iff_of_false nofun nofun
  | some xy =>
    obtain ⟨x, y⟩ := xy
    simp only [symbol_fieldPrime, ok_bind, hcompress]
    by_cases hzero : J(y | C.fieldPrime) = 0
    · -- A point on the x-axis has no sign.
      rw [hzero, if_pos (by decide)]
      refine iff_of_false nofun ?_
      intro ⟨x', y', negated, hxy, hsign, _⟩
      cases hxy
      rw [hzero] at hsign
      cases negated <;> simp [flip] at hsign
    · obtain ⟨b, hb⟩ := exists_flip_eq hzero
      have hdecide : decide (flip b = -1) = b := by cases b <;> rfl
      rw [hb, if_neg (by cases b <;> decide), hdecide]
      constructor
      · intro hq
        cases hq
        exact ⟨x, y, b, rfl, hb, rfl⟩
      · intro ⟨x', y', negated, hxy, hsign, hq⟩
        cases hxy
        cases flip_injective (hb.symm.trans hsign)
        exact congrArg Except.ok hq.symm

lemma Terms.coe_blindedNonce [C.AdditionLaws] {S : Signer C} {publicKey : Bytes} {w : Word} {P R : C.Points}
    (α β : Nat) : (Terms.mk S publicKey w P R).blindedNonce α β =
      ((R + α • Points.generator + β • P : C.Points) : C.Point) := by
  rw [Terms.blindedNonce, Points.coe_add, Points.coe_add, Points.coe_nsmul_generator, Points.coe_nsmul]

section Lawful

variable [C.Lawful] {S : Signer C} {P R Q : C.Points} {key : PointCode} {rx : Word} {α β : Nat}

lemma isNoncePoint_flip_iff {x y : Nat} (h : C.coordinates Q = some (x, y)) (negated : Bool) :
    C.IsNoncePoint rx (flip negated • Q : C.Points) ↔
      Block.ofNat 32 x = rx ∧ J(y | C.fieldPrime) = flip negated := by
  cases negated with
  | false =>
    simpa [flip] using isNoncePoint_iff h
  | true =>
    simpa [flip] using isNoncePoint_neg_iff h

lemma not_isNoncePoint_flip (h : C.coordinates Q = none) (negated : Bool) :
    ¬ C.IsNoncePoint rx (flip negated • Q : C.Points) := by
  have hzero : Q = 0 := Subtype.ext ((coordinates_eq_none_iff Q.2).1 h)
  intro ⟨y, hy, _⟩
  rw [hzero, zsmul_zero, Points.coe_zero, CoordinateLaws.coordinates_identity] at hy
  cases hy

/-- Blinding succeeds iff the blinded point, up to a sign, is the nonce point of an
x-coordinate. -/
theorem Terms.blind_eq_ok_iff {w : Word} {publicKey : Bytes} {q : Requester C}
    (hkey : C.compress P = .ok key) :
    (Terms.mk S publicKey w P R).blind α β = .ok q ↔ ∃ rx negated,
      C.IsNoncePoint rx (flip negated • (R + α • Points.generator + β • P) : C.Points) ∧
        q = (Terms.mk S publicKey w P R).request key α β rx negated := by
  rw [Terms.blind_iff_coordinates hkey, Terms.coe_blindedNonce]
  generalize R + α • Points.generator + β • P = Q
  constructor
  · intro ⟨x, y, negated, hQ, hsign, hq⟩
    exact ⟨_, negated, (isNoncePoint_flip_iff hQ negated).2 ⟨rfl, hsign⟩, hq⟩
  · intro ⟨rx, negated, hnonce, hq⟩
    cases hQ : C.coordinates Q with
    | none => exact absurd hnonce (not_isNoncePoint_flip hQ negated)
    | some xy =>
      obtain ⟨rfl, hsign⟩ := (isNoncePoint_flip_iff hQ negated).1 hnonce
      exact ⟨_, _, negated, rfl, hsign, hq⟩

theorem Requester.start_iff {publicKey commitment message tape rest : Bytes} {q : Requester C}
    (hP : S.decode publicKey = .ok P) (hR : S.decode commitment = .ok R) (hkey : C.compress P = .ok key) :
    (Requester.start S publicKey commitment message).run tape = some (.ok q, rest) ↔
      ∃ w α β rx negated, message = w.bytes ∧ Scalar.DrawnPair C.order tape α β rest ∧
        C.IsNoncePoint rx (flip negated • (R + α • Points.generator + β • P) : C.Points) ∧
        q = (Terms.mk S publicKey w P R).request key α β rx negated := by
  rw [Requester.start_eq_ok_iff]
  constructor
  · intro ⟨t, α, β, hread, hdrawn, hblind⟩
    obtain ⟨w, P', R', hw, hP', hR', ht⟩ := Terms.read_eq_ok_iff.1 hread
    rw [hP, Except.ok.injEq] at hP'
    rw [hR, Except.ok.injEq] at hR'
    subst ht hP' hR'
    obtain ⟨rx, negated, hnonce, hq⟩ := (Terms.blind_eq_ok_iff hkey).1 hblind
    exact ⟨w, α, β, rx, negated, hw, hdrawn, hnonce, hq⟩
  · intro ⟨w, α, β, rx, negated, hw, hdrawn, hnonce, hq⟩
    refine ⟨_, α, β, Terms.read_eq_ok_iff.2 ⟨w, P, R, hw, hP, hR, rfl⟩, hdrawn, ?_⟩
    exact (Terms.blind_eq_ok_iff hkey).2 ⟨rx, negated, hnonce, hq⟩

/-- The requests that drawn factors make, one for each way to read the blinded point. -/
lemma Requester.start_iff_of_drawnPair {publicKey commitment tape rest : Bytes} {w : Word} {q : Requester C}
    (hP : S.decode publicKey = .ok P) (hR : S.decode commitment = .ok R) (hkey : C.compress P = .ok key)
    (hdrawn : Scalar.DrawnPair C.order tape α β rest) :
    (Requester.start S publicKey commitment w.bytes).run tape = some (.ok q, rest) ↔ ∃ rx negated,
      C.IsNoncePoint rx (flip negated • (R + α • Points.generator + β • P) : C.Points) ∧
        q = (Terms.mk S publicKey w P R).request key α β rx negated := by
  rw [Requester.start_iff hP hR hkey]
  constructor
  · intro ⟨w', α', β', rx, negated, hw, hdrawn', hnonce, hq⟩
    obtain ⟨rfl, rfl, _⟩ := hdrawn.unique hdrawn'
    cases Block.ext hw
    exact ⟨rx, negated, hnonce, hq⟩
  · intro ⟨rx, negated, hnonce, hq⟩
    exact ⟨w, α, β, rx, negated, rfl, hdrawn, hnonce, hq⟩

/-- The point that verification looks at is the blinded point of the commitment that response
and request lead to. -/
lemma unblinded_point {negated : Bool} {s s' e e₀ : Nat}
    (hs : (s' : ℤ) ≡ flip negated * (s + α) [ZMOD C.order])
    (he : (e : ℤ) ≡ flip negated * e₀ + β [ZMOD C.order]) :
    s' • Points.generator - e₀ • P =
      flip negated • (s • Points.generator - e • P + α • Points.generator + β • P : C.Points) := by
  have hG : s' • (Points.generator : C.Points) = (flip negated * (s + α)) • Points.generator := by
    rw [← natCast_zsmul]
    exact Points.zsmul_eq_of_modEq hs _
  have hP : e • P = (flip negated * e₀ + β) • P := by
    rw [← natCast_zsmul]
    exact Points.zsmul_eq_of_modEq he _
  rw [hG, hP]
  cases negated <;> simp only [flip, if_true, Bool.false_eq_true, if_false] <;> module

/-- An unblinded signature verifies iff the response fits commitment, request and key. -/
theorem check_unblind_iff {w : Word} {publicKey : Bytes} {negated : Bool} {q : Requester C}
    (hkey : C.compress P = .ok key) (hα : Scalar.InRange α C.order)
    (hnonce : C.IsNoncePoint rx (flip negated • (R + α • Points.generator + β • P) : C.Points))
    (hq : q = (Terms.mk S publicKey w P R).request key α β rx negated) (s : Nat) :
    S.check P (q.unblind s) w.bytes = .ok true ↔ s • Points.generator = R + q.request.toNat • P := by
  have hlt : C.order < 2 ^ 256 := Lawful.order_lt
  have hr : (q.unblind s).r = rx := by rw [hq, Requester.r_unblind, Terms.rx_request]
  have hscalar := Terms.toNat_unblind_request hq hα hlt s
  have hrequest := Terms.toNat_request hq (hα.1.trans hα.2) hlt
  simp only [Signer.check_eq_ok_iff hkey, hr, hscalar.1, true_and, true_iff,
    unblinded_point hscalar.2 hrequest.2]
  rw [← sub_eq_iff_eq_add]
  constructor
  · intro h
    exact add_right_cancel (add_right_cancel (flip_zsmul_injective negated (h.unique hnonce)))
  · intro h
    rw [h]
    exact hnonce

end Lawful

end BlindSchnorr
