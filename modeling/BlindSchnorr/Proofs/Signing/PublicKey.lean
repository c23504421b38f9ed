import BlindSchnorr.Proofs.Curve.AffineGroup
import BlindSchnorr.Proofs.Signing.Core

/-!
# What a public key tells of the private key

Over a generator of exact order every private key has a public key of either form, and no two have
the same. A private key and its negative share the x-coordinate of their public keys, whose tags
tell them apart as long as no point lies on the x-axis, and no third key has it.
-/
namespace BlindSchnorr

variable {C : CurveGroup}

theorem PointCode.bytes_injective : Function.Injective PointCode.bytes := by
  intro c d h
  have hread := parse_bytes c
  rw [h, parse_bytes, Except.ok.injEq] at hread
  exact hread.symm

theorem Scalar.InRange.order_sub {x n : Nat} (hx : Scalar.InRange x n) : Scalar.InRange (n - x) n :=
  ⟨Nat.sub_pos_of_lt hx.2, Nat.sub_lt (hx.1.trans hx.2) hx.1⟩

namespace CurveGroup

/-- A point is determined by its code. -/
theorem encode_injective [C.FieldLaws] [C.CodingLaws] {P Q : C.Point} {form : Bool} {code : PointCode}
    (hP : C.IsPoint P) (hQ : C.IsPoint Q) (h : C.encode P form = .ok code) (h' : C.encode Q form = .ok code) :
    P = Q := by
  have hread := decode_encode le_rfl hP h
  rw [decode_encode le_rfl hQ h', Except.ok.injEq] at hread
  exact hread.symm

section ExactOrder

variable [C.AdditionLaws] {x y : Nat}

/-- The difference of a scalar to the exact order multiplies the generator to the negative. -/
theorem Points.order_sub_nsmul_generator (hG : C.ExactOrder) (hx : x ≤ C.order) :
    (C.order - x) • (generator : C.Points) = -(x • generator) := by
  have horder : C.order • (generator : C.Points) = 0 := by
    rw [← exactOrder_iff.1 hG]
    exact addOrderOf_nsmul_eq_zero _
  rw [eq_neg_iff_add_eq_zero, ← add_nsmul, Nat.sub_add_cancel hx, horder]

theorem eq_of_mulGenerator_eq (hG : C.ExactOrder) (hx : Scalar.InRange x C.order)
    (hy : Scalar.InRange y C.order) (h : C.mulGenerator x = C.mulGenerator y) : x = y := by
  rw [← Points.coe_nsmul_generator, ← Points.coe_nsmul_generator, Subtype.coe_inj] at h
  exact ((Points.nsmul_generator_eq_iff hG).1 h).eq_of_lt_of_lt hx.2 hy.2

end ExactOrder

end CurveGroup

namespace Signer

open CurveGroup

theorem exists_publicKey_iff [C.CoordinateLaws] [C.AdditionLaws] (hG : C.ExactOrder) (S : Signer C)
    (key : Bytes) (form : Bool) : (∃ code, S.publicKey key form = .ok code) ↔
      key.length = 32 ∧ Scalar.InRange (Bytes.toNat key) C.order := by
  constructor
  · rintro ⟨code, h⟩
    obtain ⟨hlength, hrange, -⟩ := publicKey_eq_ok_iff.1 h
    exact ⟨hlength, hrange⟩
  · rintro ⟨hlength, hrange⟩
    obtain ⟨px, py, hP⟩ := exists_coordinates hG hrange
    exact ⟨_, publicKey_eq_ok_iff.2 ⟨hlength, hrange, encode_of_coordinates hP form⟩⟩

theorem publicKey_injective [C.CoordinateLaws] [C.FieldLaws] [C.AdditionLaws] (hG : C.ExactOrder)
    {S : Signer C} {key key' : Bytes} {form : Bool} {code : PointCode}
    (h : S.publicKey key form = .ok code) (h' : S.publicKey key' form = .ok code) : key = key' := by
  obtain ⟨hlength, hrange, hcode⟩ := publicKey_eq_ok_iff.1 h
  obtain ⟨hlength', hrange', hcode'⟩ := publicKey_eq_ok_iff.1 h'
  have hpoint := encode_injective (isPoint_mulGenerator _) (isPoint_mulGenerator _) hcode hcode'
  have hscalar := eq_of_mulGenerator_eq hG hrange hrange' hpoint
  rw [← Bytes.ofNat_toNat key, ← Bytes.ofNat_toNat key', hlength, hlength', hscalar]

/-- The public key of the private key that a scalar writes. -/
lemma publicKey_ofNat (hlt : C.order < 2 ^ 256) (S : Signer C) {x px py : Nat} (hx : Scalar.InRange x C.order)
    (hP : C.coordinates (C.mulGenerator x) = some (px, py)) :
    S.publicKey (Bytes.ofNat 32 x) true = .ok (.compressed (decide (py % 2 = 1)) (Block.ofNat 32 px)) := by
  have hvalue : Bytes.toNat (Bytes.ofNat 32 x) = x := Word.toNat_ofNat (hx.2.trans hlt)
  rw [publicKey_eq_ok_iff, hvalue]
  exact ⟨Bytes.length_ofNat 32 x, hx, compress_of_coordinates hP⟩

section Reflection

variable [C.CoordinateLaws] [C.FieldLaws] [C.AdditionLaws] [C.ReflectionLaws]

/-- A private key whose public key has a given x-coordinate is one of two. -/
lemma key_eq_or_eq_sub (hG : C.ExactOrder) {S : Signer C} {x px py : Nat} (hx : Scalar.InRange x C.order)
    (hP : C.coordinates (C.mulGenerator x) = some (px, py)) {key : Bytes} {code : PointCode}
    (h : S.publicKey key true = .ok code) (hcode : code.bytes.tail = (Block.ofNat 32 px).bytes) :
    key = Bytes.ofNat 32 x ∨ key = Bytes.ofNat 32 (C.order - x) := by
  obtain ⟨hlength, hrange, hencode⟩ := publicKey_eq_ok_iff.1 h
  obtain ⟨qx, qy, hQ⟩ := exists_coordinates hG hrange
  rw [encode_of_coordinates hQ, if_pos rfl, Except.ok.injEq] at hencode
  have hword : Block.ofNat 32 qx = Block.ofNat 32 px := by
    rw [← hencode] at hcode
    exact Block.ext hcode
  rw [← Points.coe_nsmul_generator] at hP hQ
  have habscissa : qx = px := by
    rw [← toNat_coordinate hQ, hword, toNat_coordinate hP]
  subst habscissa
  rw [← Bytes.ofNat_toNat key, hlength]
  rcases eq_or_eq_neg hQ hP with heq | heq
  · left
    rw [((Points.nsmul_generator_eq_iff hG).1 heq).eq_of_lt_of_lt hrange.2 hx.2]
  · right
    rw [← Points.order_sub_nsmul_generator hG hx.2.le] at heq
    rw [((Points.nsmul_generator_eq_iff hG).1 heq).eq_of_lt_of_lt hrange.2 hx.order_sub.2]

/-- Over a generator of exact order every private key has a public key of either form, and it is
the only one to have it. If no point lies on the x-axis, the compressed public keys of a scalar
and of its negative differ in their tags and in nothing else, and no third private key has their
x-coordinate. -/
theorem publicKey_names_privateKey (hG : C.ExactOrder) (hlt : C.order < 2 ^ 256)
    (haxis : ∀ P x, C.IsPoint P → C.coordinates P ≠ some (x, 0)) (S : Signer C) :
    (∀ key form, (∃ code, S.publicKey key form = .ok code) ↔
      key.length = 32 ∧ Scalar.InRange (Bytes.toNat key) C.order) ∧
    (∀ key key' form code code', S.publicKey key form = .ok code → S.publicKey key' form = .ok code' →
      code.bytes = code'.bytes → key = key') ∧
    ∀ x, Scalar.InRange x C.order → ∃ (code code' : PointCode) (tag tag' : UInt8) (abscissa : Word),
      S.publicKey (Bytes.ofNat 32 x) true = .ok code ∧ code.bytes = tag :: abscissa.bytes ∧
      S.publicKey (Bytes.ofNat 32 (C.order - x)) true = .ok code' ∧ code'.bytes = tag' :: abscissa.bytes ∧
      (tag = 2 ∧ tag' = 3 ∨ tag = 3 ∧ tag' = 2) ∧
      ∀ key code, S.publicKey key true = .ok code → code.bytes.tail = abscissa.bytes →
        key = Bytes.ofNat 32 x ∨ key = Bytes.ofNat 32 (C.order - x) := by
  refine ⟨exists_publicKey_iff hG S, ?_, ?_⟩
  · intro key key' form code code' h h' hbytes
    rw [PointCode.bytes_injective hbytes] at h
    exact publicKey_injective hG h h'
  · intro x hx
    obtain ⟨px, py, hP⟩ := exists_coordinates hG hx
    have hpy : py ≠ 0 := by
      rintro rfl
      exact haxis _ px (isPoint_mulGenerator x) hP
    obtain ⟨-, hreduced, -⟩ := coordinates_on_curve (isPoint_mulGenerator x) hP
    have hP' : C.coordinates (C.mulGenerator (C.order - x)) = some (px, (C.fieldPrime - py) % C.fieldPrime) := by
      rw [← Points.coe_nsmul_generator] at hP ⊢
      rw [Points.order_sub_nsmul_generator hG hx.2.le]
      exact coordinates_neg hP
    refine ⟨_, _, _, _, _, publicKey_ofNat hlt S hx hP, rfl, publicKey_ofNat hlt S hx.order_sub hP', rfl, ?_, ?_⟩
    · rw [Modular.parity_neg OddFieldLaws.odd (Nat.pos_of_ne_zero hpy) hreduced]
      cases decide (py % 2 = 1) with
      | false => exact .inl ⟨rfl, rfl⟩
      | true => exact .inr ⟨rfl, rfl⟩
    · intro key code h hcode
      exact key_eq_or_eq_sub hG hx hP h hcode

end Reflection

/-- On the toy curve: the public keys of 5 and of 902 lie over the x-coordinate 56, under the tags 3
and 2, and no other does. -/
theorem publicKey_names_privateKey_toy : toyCurve.ExactOrder ∧
    toySigner.publicKey (Bytes.ofNat 32 5) true = .ok toyKey ∧
    ∃ code, toySigner.publicKey (Bytes.ofNat 32 902) true = .ok code ∧
      code.bytes = 2 :: toyKey.bytes.tail ∧
      ∀ key code, toySigner.publicKey key true = .ok code → code.bytes.tail = toyKey.bytes.tail →
        key = Bytes.ofNat 32 5 ∨ key = Bytes.ofNat 32 902 := by
  have hG : toyCurve.ExactOrder := exactOrder_of_prime (show Nat.Prime 907 by norm_num) nofun
  have haxis : ∀ P x, toyCurve.IsPoint P → toyCurve.coordinates P ≠ some (x, 0) := by
    intro P x hP h
    exact ordinate_ne_zero (P := ⟨P, hP⟩) (show 907 % 2 = 1 by decide) h rfl
  have hkey : toySigner.publicKey (Bytes.ofNat 32 5) true = .ok toyKey := by decide +kernel
  obtain ⟨-, -, hpair⟩ := publicKey_names_privateKey hG (by decide) haxis toySigner
  obtain ⟨code, code', tag, tag', abscissa, hcode, hbytes, hcode', hbytes', htags, honly⟩ :=
    hpair 5 (by decide)
  rw [hkey, Except.ok.injEq] at hcode
  subst hcode
  obtain ⟨rfl, -⟩ := List.cons.inj hbytes
  refine ⟨hG, hkey, code', hcode', ?_, ?_⟩
  · rw [hbytes', hbytes]
    rcases htags with ⟨h, -⟩ | ⟨-, rfl⟩
    · exact absurd h (by decide)
    · rfl
  · rw [hbytes]
    exact honly

end Signer

end BlindSchnorr
