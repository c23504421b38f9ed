import BlindSchnorr.Proofs.Curve.JacobianArithmetic
import BlindSchnorr.Proofs.Curve.Representation
import BlindSchnorr.Proofs.Encoding.Numeral

/-!
# What is required of a library

A library implements a curve if its points stand for those of the curve over the residues and its
scalars for residues modulo the order. The group made of its points then follows the group law
of the curve. Scalars are reduced before they reach the library, which changes no multiple as
soon as the order annihilates the curve; that it does is not asked of the library.
-/
namespace BlindSchnorr

open WeierstrassCurve.Affine (Point)

/-- A library whose points stand one by one for the points of a curve over the residues. A multiple
is the sum of as many copies as the residue of the scalar counts. -/
structure PointLibrary.Implements (L : PointLibrary) (C : Weierstrass) [C.Smooth]
    (Rep : L.Point → C.residueCurve.Point → Prop) (value : L.Scalar → ZMod C.order) : Prop where
  injective : ∀ {P P' Q}, Rep P Q → Rep P' Q → P = P'
  functional : ∀ {P Q Q'}, Rep P Q → Rep P Q' → Q = Q'
  surjective : ∀ Q, ∃ P, Rep P Q
  generator : ∀ {Q}, C.Represents C.base Q → Rep L.generator Q
  identity : Rep L.identity 0
  add : ∀ {P P' Q Q'}, Rep P Q → Rep P' Q' → Rep (L.add P P') (Q + Q')
  negate : ∀ {P Q}, Rep P Q → Rep (L.negate P) (-Q)
  mul : ∀ {P Q}, Rep P Q → ∀ s, Rep (L.mul P s) ((value s).val • Q)
  value_scalarOfWord : ∀ w, value (L.scalarOfWord w) = (w.toNat : ZMod C.order)
  words : ∀ {P Q}, Rep P Q → Q ≠ 0 →
    ∃ x y : Word, L.words? P = some (x, y) ∧ C.Represents (.finite x.toNat y.toNat) Q
  /-- Words are asked about only if they hold reduced coordinates. -/
  ofWords : ∀ x y : Word, x.toNat < C.p → y.toNat < C.p → ∀ P,
    L.ofWords? x y = some P ↔ ∃ Q, Rep P Q ∧ C.Represents (.finite x.toNat y.toNat) Q

namespace PointLibrary.Implements

variable {L : PointLibrary} {C : Weierstrass} [C.Smooth] {Rep : L.Point → C.residueCurve.Point → Prop}
  {value : L.Scalar → ZMod C.order} {name : String} {P : L.Point} {Q : C.residueCurve.Point} {x y : ℕ}

/-- Only reduced solutions of the equation build a point. What is not reduced is refused before the
library sees it. -/
theorem build_eq_some_iff (h : L.Implements C Rep value) (hp : C.p < 2 ^ 256) :
    (L.group C name).ofCoordinates? x y = some P ↔ ∃ Q, Rep P Q ∧ C.Represents (.finite x y) Q := by
  change (if C.p ≤ x ∨ C.p ≤ y then none else L.ofWords? (Block.ofNat 32 x) (Block.ofNat 32 y)) = some P ↔ _
  by_cases hlarge : C.p ≤ x ∨ C.p ≤ y
  · rw [if_pos hlarge]
    refine iff_of_false nofun ?_
    rintro ⟨Q, -, hQ⟩
    cases hQ with
    | finite _ hx hy _ _ => omega
  · obtain ⟨hx, hy⟩ := not_or.1 hlarge
    have hxword : (Block.ofNat 32 x).toNat = x := Word.toNat_ofNat (by omega)
    have hyword : (Block.ofNat 32 y).toNat = y := Word.toNat_ofNat (by omega)
    rw [if_neg hlarge, h.ofWords _ _ (by omega) (by omega), hxword, hyword]

theorem coordinates_eq_some_iff (h : L.Implements C Rep value) (hP : Rep P Q) :
    (L.group C name).coordinates P = some (x, y) ↔ C.Represents (.finite x y) Q := by
  change (if P = L.identity then none else (L.words? P).map fun w => (w.1.toNat, w.2.toNat)) = some (x, y) ↔ _
  by_cases hidentity : P = L.identity
  · rw [hidentity] at hP
    rw [if_pos hidentity, h.functional hP h.identity]
    refine iff_of_false (fun hnone => ?_) (fun hrep => ?_)
    · cases hnone
    · cases hrep
  · have hfinite : Q ≠ 0 := by
      rintro rfl
      exact hidentity (h.injective hP h.identity)
    obtain ⟨v, w, hwords, hrep⟩ := h.words hP hfinite
    rw [if_neg hidentity, hwords, Option.map_some, Option.some_inj]
    constructor
    · intro heq
      obtain ⟨rfl, rfl⟩ := Prod.mk.inj heq
      exact hrep
    · intro hrep'
      obtain ⟨rfl, rfl⟩ := AffinePoint.finite.inj (hrep.injective hrep')
      rfl

theorem isPoint_iff (h : L.Implements C Rep value) (hp : C.p < 2 ^ 256) :
    (L.group C name).IsPoint P ↔ ∃ Q, Rep P Q := by
  constructor
  · rintro (rfl | ⟨x, y, hbuild⟩)
    · exact ⟨0, h.identity⟩
    · obtain ⟨Q, hQ, -⟩ := (h.build_eq_some_iff hp).1 hbuild
      exact ⟨Q, hQ⟩
  · rintro ⟨Q, hQ⟩
    cases Q with
    | zero => exact .inl (h.injective hQ h.identity)
    | some X Y hXY =>
      exact .inr ⟨X.val, Y.val, (h.build_eq_some_iff hp).2 ⟨_, hQ, .of_residues hXY⟩⟩

/-- The group made of the points of a library follows the group law of the curve. -/
theorem represented_group (h : L.Implements C Rep value) (hp : C.p < 2 ^ 256) (hpos : 0 < C.order)
    (hn : C.order < 2 ^ 256) : (L.group C name).Represented Rep where
  isPoint_iff := h.isPoint_iff hp
  injective := h.injective
  identity := h.identity
  add := h.add
  negate := h.negate
  scalarMul := by
    intro P Q hP k
    have hword : (Block.ofNat 32 (k % C.order)).toNat = k % C.order :=
      Word.toNat_ofNat ((Nat.mod_lt _ hpos).trans hn)
    have hcopies := h.mul hP (L.scalar C.order k)
    rwa [scalar, h.value_scalarOfWord, hword, ZMod.val_natCast, Nat.mod_mod] at hcopies

theorem coordinateLaws_group (h : L.Implements C Rep value) (hp : C.p < 2 ^ 256) :
    (L.group C name).CoordinateLaws where
  coordinates_identity := if_pos rfl
  coordinates_of_build x y P hbuild := by
    obtain ⟨Q, hP, hQ⟩ := (h.build_eq_some_iff hp).1 hbuild
    exact (h.coordinates_eq_some_iff hP).2 hQ
  build_iff x y := by
    rw [Option.isSome_iff_exists]
    constructor
    · rintro ⟨P, hbuild⟩
      obtain ⟨Q, -, hQ⟩ := (h.build_eq_some_iff hp).1 hbuild
      exact Weierstrass.exists_represents_iff.1 ⟨Q, hQ⟩
    · intro hcurve
      obtain ⟨Q, hQ⟩ := Weierstrass.exists_represents_iff.2 (show C.OnCurve (.finite x y) from hcurve)
      obtain ⟨P, hP⟩ := h.surjective Q
      exact ⟨P, (h.build_eq_some_iff hp).2 ⟨Q, hP, hQ⟩⟩

/-- The group of a library is lawful if the parameters have the sizes asked for and the order
annihilates the curve. -/
theorem lawful_group (h : L.Implements C Rep value) (h4 : C.p % 4 = 3) (hp : C.p < 2 ^ 256)
    (hpos : 0 < C.order) (hn : C.order < 2 ^ 256) (hbase : C.OnCurve C.base)
    (horder : ∀ Q : C.residueCurve.Point, C.order • Q = 0) : (L.group C name).Lawful where
  toCoordinateLaws := h.coordinateLaws_group hp
  toFieldLaws := ⟨Weierstrass.Smooth.prime, h4, hp⟩
  toGroupLaws := by
    refine (h.represented_group hp hpos hn).groupLaws ?_ (fun _ => rfl) horder
    obtain ⟨Q, hQ⟩ := Weierstrass.exists_represents_iff.2 hbase
    exact (h.isPoint_iff hp).2 ⟨Q, h.generator hQ⟩
  coordinates_negate P x y hP hcoordinates := by
    obtain ⟨Q, hQ⟩ := (h.isPoint_iff hp).1 hP
    have hrep := (h.coordinates_eq_some_iff hQ).1 hcoordinates
    exact (h.coordinates_eq_some_iff (h.negate hQ)).2 (Weierstrass.negate_represents hrep)
  order_lt := hn

end PointLibrary.Implements

/-- Affine points with multiples in Jacobian coordinates implement a curve that the order
annihilates. -/
theorem Weierstrass.jacobianLibrary_implements {C : Weierstrass} [C.Smooth] (hp : C.p < 2 ^ 256)
    (horder : ∀ Q : C.residueCurve.Point, C.order • Q = 0) :
    C.jacobianLibrary.Implements C C.Represents (fun s : ℕ => (s : ZMod C.order)) where
  injective := Represents.injective
  functional := Represents.functional
  surjective := exists_represented
  generator hQ := hQ
  identity := .infinity
  add := add_represents
  negate := negate_represents
  mul := by
    intro P Q hP (s : ℕ)
    change C.Represents (C.jacobianMul s P) ((s : ZMod C.order).val • Q)
    rw [ZMod.val_natCast, ← nsmul_eq_mod_nsmul s (horder Q)]
    exact jacobianMul_represents hP s
  value_scalarOfWord w := ZMod.natCast_mod w.toNat C.order
  words := by
    intro P Q hP hQ
    cases hP with
    | infinity => exact absurd rfl hQ
    | @finite x y X Y hXY hx hy hX hY =>
      refine ⟨Block.ofNat 32 x, Block.ofNat 32 y, rfl, ?_⟩
      rw [Word.toNat_ofNat (hx.trans hp), Word.toNat_ofNat (hy.trans hp)]
      exact .finite hXY hx hy hX hY
  ofWords x y hx hy P := by
    change (if x.toNat < C.p ∧ y.toNat < C.p ∧ y.toNat * y.toNat % C.p = C.rhs x.toNat then
      some (.finite x.toNat y.toNat) else none) = some P ↔ _
    constructor
    · intro h
      obtain ⟨hcurve, heq⟩ := Option.ite_none_right_eq_some.1 h
      cases heq
      obtain ⟨Q, hQ⟩ := exists_represents_iff.2 (show C.OnCurve (.finite x.toNat y.toNat) from hcurve)
      exact ⟨Q, hQ, hQ⟩
    · rintro ⟨Q, hP, hQ⟩
      rw [hP.injective hQ]
      exact if_pos (exists_represents_iff.1 ⟨Q, hQ⟩)

end BlindSchnorr
