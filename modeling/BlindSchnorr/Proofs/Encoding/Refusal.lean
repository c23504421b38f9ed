import BlindSchnorr.Proofs.Curve.AffineGroup
import BlindSchnorr.Proofs.Encoding.PointRoundTrip

/-!
# Why a byte string is refused

What reading comes to, for every byte string and every probe window. A string that is no code is
refused by its tag or its length. A pair is refused if it does not solve the curve equation. A
compressed code is read iff a point lies over its coordinate; where none does, the cause depends
on whether the window reaches a coordinate with a point.
-/
namespace BlindSchnorr

namespace PointCode

/-- What is wrong with a byte string that is not the code of anything. -/
inductive Malformed : Bytes → PointError → Prop
  | empty : Malformed [] .empty
  | unknownTag {tag : UInt8} {rest : Bytes} (h : tag ≠ 2 ∧ tag ≠ 3 ∧ tag ≠ 4) :
      Malformed (tag :: rest) (.unknownTag tag)
  | compressed {tag : UInt8} {rest : Bytes} (h : tag = 2 ∨ tag = 3) (hlength : rest.length + 1 ≠ 33) :
      Malformed (tag :: rest) (.wrongLength tag 33 (rest.length + 1))
  | uncompressed {rest : Bytes} (hlength : rest.length + 1 ≠ 65) :
      Malformed (4 :: rest) (.wrongLength 4 65 (rest.length + 1))

/-- Reading a code fails as something is wrong with its tag or its length, and not otherwise. -/
theorem parse_eq_error_iff {b : Bytes} {cause : PointError} : parse b = .error cause ↔ Malformed b cause := by
  constructor
  · intro h
    cases b with
    | nil =>
      cases h
      exact .empty
    | cons tag rest =>
      rw [parse] at h
      split_ifs at h with htag huncompressed
      · split at h
        · cases h
        · next hx =>
          cases h
          have hlength := Block.ofBytes?_eq_none_iff.1 hx
          exact .compressed htag (by omega)
      · split at h
        · cases h
        · next hxy =>
          cases h
          subst huncompressed
          refine .uncompressed fun hlength => ?_
          have hx : (rest.take 32).length = 32 := by simp; omega
          have hy : (rest.drop 32).length = 32 := by simp; omega
          exact hxy ⟨_, hx⟩ ⟨_, hy⟩ (dif_pos hx) (dif_pos hy)
      · cases h
        exact .unknownTag (by tauto)
  · intro h
    cases h with
    | empty => rfl
    | unknownTag h => simp [parse, h]
    | @compressed tag rest htag hlength =>
      have hx : Block.ofBytes? 32 rest = none := Block.ofBytes?_eq_none_iff.2 (by omega)
      rw [parse, if_pos htag, hx]
      rfl
    | @uncompressed rest hlength =>
      rw [parse, if_neg (by decide), if_pos rfl]
      split
      · next x y hx hy =>
        have hsplit := congrArg List.length (List.take_append_drop 32 rest)
        rw [Block.ofBytes?_eq_some_iff.1 hx, Block.ofBytes?_eq_some_iff.1 hy, List.length_append,
          x.length_bytes, y.length_bytes] at hsplit
        omega
      · rfl

section Causes

variable {b : Bytes} {tag : UInt8} {expected actual : Nat}

theorem malformed_empty_iff : Malformed b .empty ↔ b = [] := by
  constructor
  · intro h
    cases h
    rfl
  · rintro rfl
    exact .empty

theorem malformed_unknownTag_iff :
    Malformed b (.unknownTag tag) ↔ b.head? = some tag ∧ tag ≠ 2 ∧ tag ≠ 3 ∧ tag ≠ 4 := by
  constructor
  · intro h
    cases h with
    | unknownTag h => exact ⟨rfl, h⟩
  · intro ⟨hhead, h⟩
    obtain ⟨rest, rfl⟩ := List.head?_eq_some_iff.1 hhead
    exact .unknownTag h

theorem malformed_wrongLength_iff : Malformed b (.wrongLength tag expected actual) ↔
    b.head? = some tag ∧ ((tag = 2 ∨ tag = 3) ∧ expected = 33 ∨ tag = 4 ∧ expected = 65) ∧
      actual = b.length ∧ actual ≠ expected := by
  constructor
  · intro h
    cases h with
    | compressed h hlength => exact ⟨rfl, .inl ⟨h, rfl⟩, rfl, hlength⟩
    | uncompressed hlength => exact ⟨rfl, .inr ⟨rfl, rfl⟩, rfl, hlength⟩
  · intro ⟨hhead, htag, hactual, hlength⟩
    obtain ⟨rest, rfl⟩ := List.head?_eq_some_iff.1 hhead
    subst hactual
    rcases htag with ⟨h, rfl⟩ | ⟨rfl, rfl⟩
    · exact .compressed h hlength
    · exact .uncompressed hlength

end Causes

end PointCode

namespace CurveGroup

variable {C : CurveGroup} {window : Nat}

/-- Whether a point lies over an x-coordinate: the right-hand side of the curve equation is a square
there. -/
def IsAbscissa (C : CurveGroup) (x : Nat) : Prop :=
  x < C.fieldPrime ∧ IsSquare (C.rhs x : ZMod C.fieldPrime)

/-- Whether a probe that finds no point over `x` finds one further on in its window. -/
def HasNeighbour (C : CurveGroup) (window x : Nat) : Prop :=
  x < C.fieldPrime ∧ ∃ i, 0 < i ∧ i < window ∧ C.IsAbscissa (x + i)

lemma resolve_cases (window : Nat) (code : PointCode) :
    (∃ P, C.resolve window code = .ok P) ∨ C.resolve window code = .error .notOnCurve ∨
      C.resolve window code = .error .noCurvePoint := by
  cases code with
  | compressed odd x =>
    cases hprobe : C.probe odd window x.toNat with
    | none => simp [resolve, hprobe]
    | some y => cases hbuild : C.ofCoordinates? x.toNat y <;> simp [resolve, hprobe, hbuild]
  | uncompressed x y => cases hbuild : C.ofCoordinates? x.toNat y.toNat <;> simp [resolve, hbuild]

/-- All that is wrong with a code is that it is not the code of a point. -/
theorem decode_eq_error_iff_malformed {b : Bytes} {cause : PointError} (hcurve : cause ≠ .notOnCurve)
    (hpoint : cause ≠ .noCurvePoint) :
    C.decode window b = .error cause ↔ PointCode.Malformed b cause := by
  rw [decode, bind_eq_error_iff, PointCode.parse_eq_error_iff, or_iff_left]
  rintro ⟨code, -, h⟩
  rcases C.resolve_cases window code with ⟨P, h'⟩ | h' | h' <;> simp_all

theorem resolve_uncompressed_eq_error_iff [C.AcceptanceLaws] {x y : Word} :
    C.resolve window (.uncompressed x y) = .error .notOnCurve ↔
      ¬(x.toNat < C.fieldPrime ∧ y.toNat < C.fieldPrime ∧
        y.toNat * y.toNat % C.fieldPrime = C.rhs x.toNat) := by
  rw [← AcceptanceLaws.build_iff, resolve]
  cases C.ofCoordinates? x.toNat y.toNat <;> simp

section Roots

variable [C.RootLaws] {odd : Bool} {x : Word}

lemma rhs_lt (x : Nat) : C.rhs x < C.fieldPrime := Nat.mod_lt _ RootLaws.prime.pos

/-- Looking for a root decides whether a point lies over a coordinate. -/
theorem isAbscissa_iff_sqrt? {x : Nat} :
    C.IsAbscissa x ↔ x < C.fieldPrime ∧ Modular.sqrt? (C.rhs x) C.fieldPrime ≠ none := by
  refine and_congr_right fun _ => ?_
  rw [Ne, Modular.sqrt?_eq_none_iff RootLaws.prime_mod_four (rhs_lt x), not_not]

instance (x : Nat) : Decidable (C.IsAbscissa x) := decidable_of_iff _ isAbscissa_iff_sqrt?.symm

/-- A probe fails iff no coordinate of its window has a point. -/
theorem probe_eq_none_iff {x : Nat} :
    C.probe odd window x = none ↔ ∀ i < window, ¬C.IsAbscissa (x + i) := by
  induction window generalizing x with
  | zero => simp [probe]
  | succ window ih =>
    rw [probe, Nat.forall_lt_succ_left', add_zero, isAbscissa_iff_sqrt?]
    split_ifs with hx
    · cases hr : Modular.sqrt? (C.rhs x) C.fieldPrime with
      | some r => simp [hx]
      | none =>
        simp only [ih, ne_eq, not_true, and_false, not_false_eq_true, true_and]
        refine forall₂_congr fun i _ => ?_
        rw [add_assoc, add_comm 1]
    · refine iff_of_true rfl ⟨fun h => hx h.1, fun i _ h => ?_⟩
      have := h.1
      omega

/-- If no probe of the window meets a point, there is neither one over the coordinate nor a neighbour. -/
theorem resolve_eq_noCurvePoint_iff : C.resolve window (.compressed odd x) = .error .noCurvePoint ↔
    ¬(1 ≤ window ∧ C.IsAbscissa x.toNat) ∧ ¬C.HasNeighbour window x.toNat := by
  have hprobe : C.resolve window (.compressed odd x) = .error .noCurvePoint ↔
      C.probe odd window x.toNat = none := by
    rw [resolve]
    cases C.probe odd window x.toNat with
    | none => simp
    | some y => cases h : C.ofCoordinates? x.toNat y <;> simp [h]
  rw [hprobe, probe_eq_none_iff]
  constructor
  · intro h
    refine ⟨fun hfirst => h 0 hfirst.1 hfirst.2, fun hneighbour => ?_⟩
    obtain ⟨-, i, -, hi, hx⟩ := hneighbour
    exact h i hi hx
  · rintro ⟨hfirst, hneighbour⟩ i hi hx
    rcases Nat.eq_zero_or_pos i with rfl | hpos
    · exact hfirst ⟨hi, hx⟩
    · exact hneighbour ⟨lt_of_le_of_lt (Nat.le_add_right _ i) hx.1, i, hpos, hi, hx⟩

/-- The reflection has the other parity, unless the point lies on the x-axis. -/
theorem parity_reflected {y : Nat} (hy : y < C.fieldPrime)
    (h : decide (y % 2 = 1) = odd ∨ y = 0) :
    decide ((C.fieldPrime - y) % C.fieldPrime % 2 = 1) = !odd ∨ (C.fieldPrime - y) % C.fieldPrime = 0 := by
  have h4 := RootLaws.prime_mod_four (C := C)
  rcases Nat.eq_zero_or_pos y with rfl | hpos
  · right
    rw [Nat.sub_zero, Nat.mod_self]
  · left
    rw [Modular.parity_neg (by omega) hpos hy, h.resolve_right hpos.ne']

variable [C.AcceptanceLaws]

theorem isAbscissa_of_build {P : C.Point} {x y : Nat} (h : C.ofCoordinates? x y = some P) :
    C.IsAbscissa x := by
  obtain ⟨hx, hy, hcurve⟩ := reduced_of_build h
  exact ⟨hx, (Modular.isSquare_cast_iff (rhs_lt x)).2 ⟨y, hy, hcurve⟩⟩

/-- The reflection of a point can be built too. -/
theorem exists_build_reflected {P : C.Point} {x y : Nat} (h : C.ofCoordinates? x y = some P) :
    ∃ Q, C.ofCoordinates? x ((C.fieldPrime - y) % C.fieldPrime) = some Q := by
  obtain ⟨hx, hy, hcurve⟩ := reduced_of_build h
  apply exists_build hx (Nat.mod_lt _ (RootLaws.prime (C := C)).pos)
  rw [Modular.neg_mul_self hy.le, hcurve]

/-- Over every x-coordinate of a point there is one of either parity, or one on the x-axis. -/
theorem IsAbscissa.exists_parity {x : Nat} (h : C.IsAbscissa x) (odd : Bool) :
    ∃ y P, C.ofCoordinates? x y = some P ∧ (decide (y % 2 = 1) = odd ∨ y = 0) := by
  obtain ⟨hx, hsquare⟩ := h
  obtain ⟨y, hy, hcurve⟩ := (Modular.isSquare_cast_iff (rhs_lt x)).1 hsquare
  obtain ⟨P, hP⟩ := exists_build hx hy hcurve
  by_cases hparity : decide (y % 2 = 1) = odd
  · exact ⟨y, P, hP, .inl hparity⟩
  · obtain ⟨Q, hQ⟩ := exists_build_reflected hP
    have hother := parity_reflected hy (.inl (Bool.eq_not.2 hparity))
    rw [Bool.not_not] at hother
    exact ⟨_, Q, hQ, hother⟩

/-- A compressed code is read iff the window is not empty and a point lies over its coordinate. -/
theorem resolve_compressed_isOk_iff : (∃ P, C.resolve window (.compressed odd x) = .ok P) ↔
    1 ≤ window ∧ C.IsAbscissa x.toNat := by
  constructor
  · intro ⟨P, hP⟩
    obtain ⟨y, hprobe, hbuild⟩ := resolve_compressed_iff_probe.1 hP
    refine ⟨Nat.pos_of_ne_zero ?_, isAbscissa_of_build hbuild⟩
    rintro rfl
    cases hprobe
  · intro ⟨hw, hx⟩
    obtain ⟨y, P, hbuild, hparity⟩ := hx.exists_parity odd
    exact ⟨P, (resolve_compressed_eq_ok_iff hw).2 ⟨y, hbuild, hparity⟩⟩

/-- The y-coordinate of a neighbour builds no point at the coordinate that was written. -/
theorem resolve_eq_notOnCurve_iff : C.resolve window (.compressed odd x) = .error .notOnCurve ↔
    ¬(1 ≤ window ∧ C.IsAbscissa x.toNat) ∧ C.HasNeighbour window x.toNat := by
  constructor
  · intro h
    have hread : ¬(1 ≤ window ∧ C.IsAbscissa x.toNat) := by
      intro hread
      obtain ⟨P, hP⟩ : ∃ P, C.resolve window (.compressed odd x) = .ok P :=
        resolve_compressed_isOk_iff.2 hread
      rw [h] at hP
      cases hP
    refine ⟨hread, ?_⟩
    by_contra hneighbour
    rw [resolve_eq_noCurvePoint_iff.2 ⟨hread, hneighbour⟩] at h
    cases h
  · intro ⟨hread, hneighbour⟩
    rcases C.resolve_cases window (.compressed odd x) with ⟨P, h⟩ | h | h
    · exact absurd (resolve_compressed_isOk_iff.1 ⟨P, h⟩) hread
    · exact h
    · exact absurd hneighbour (resolve_eq_noCurvePoint_iff.1 h).2

/-- Reading takes the other tag to the reflected point. -/
theorem exists_resolve_reflected {P : C.Point} (h : C.resolve window (.compressed odd x) = .ok P) :
    ∃ y Q, C.ofCoordinates? x.toNat y = some P ∧
      C.ofCoordinates? x.toNat ((C.fieldPrime - y) % C.fieldPrime) = some Q ∧
      C.resolve window (.compressed (!odd) x) = .ok Q := by
  have hw := (resolve_compressed_isOk_iff.1 ⟨P, h⟩).1
  obtain ⟨y, hbuild, hparity⟩ := (resolve_compressed_eq_ok_iff hw).1 h
  obtain ⟨Q, hQ⟩ := exists_build_reflected hbuild
  have hreflected := parity_reflected (reduced_of_build hbuild).2.1 hparity
  exact ⟨y, Q, hbuild, hQ, (resolve_compressed_eq_ok_iff hw).2 ⟨_, hQ, hreflected⟩⟩

/-- Whether a coordinate is refused, and why, does not depend on the tag. -/
theorem resolve_eq_error_congr {odd' : Bool} {cause : PointError} :
    C.resolve window (.compressed odd x) = .error cause ↔
      C.resolve window (.compressed odd' x) = .error cause := by
  rcases C.resolve_cases window (.compressed odd x) with ⟨P, h⟩ | h | h
  · have hread := resolve_compressed_isOk_iff.1 ⟨P, h⟩
    obtain ⟨Q, h'⟩ : ∃ Q, C.resolve window (.compressed odd' x) = .ok Q :=
      resolve_compressed_isOk_iff.2 hread
    rw [h, h']
    exact iff_of_false nofun nofun
  · rw [h, resolve_eq_notOnCurve_iff.2 (resolve_eq_notOnCurve_iff.1 h)]
  · rw [h, resolve_eq_noCurvePoint_iff.2 (resolve_eq_noCurvePoint_iff.1 h)]

/-- What every byte string is read as, under every window. A string that is malformed is refused for
what is wrong with it, and a pair if it is not a solution. A compressed code is read as the point over
its coordinate of the parity of its tag. Where there is none, a neighbour within the window makes the
difference between the two causes. The other tag is read as the reflected point, or refused alike. -/
theorem decode_classification (window : Nat) :
    (∀ b, C.decode window b = .error .empty ↔ b = []) ∧
    (∀ b tag, C.decode window b = .error (.unknownTag tag) ↔
      b.head? = some tag ∧ tag ≠ 2 ∧ tag ≠ 3 ∧ tag ≠ 4) ∧
    (∀ b tag expected actual, C.decode window b = .error (.wrongLength tag expected actual) ↔
      b.head? = some tag ∧ ((tag = 2 ∨ tag = 3) ∧ expected = 33 ∨ tag = 4 ∧ expected = 65) ∧
      actual = b.length ∧ actual ≠ expected) ∧
    (∀ x y : Word,
      ((∃ P, C.ofCoordinates? x.toNat y.toNat = some P ∧
          C.decode window (PointCode.uncompressed x y).bytes = .ok P) ↔
        x.toNat < C.fieldPrime ∧ y.toNat < C.fieldPrime ∧
          y.toNat * y.toNat % C.fieldPrime = C.rhs x.toNat) ∧
      (C.decode window (PointCode.uncompressed x y).bytes = .error .notOnCurve ↔
        ¬(x.toNat < C.fieldPrime ∧ y.toNat < C.fieldPrime ∧
          y.toNat * y.toNat % C.fieldPrime = C.rhs x.toNat))) ∧
    ∀ (odd : Bool) (x : Word),
      ((∃ y P, C.ofCoordinates? x.toNat y = some P ∧ (decide (y % 2 = 1) = odd ∨ y = 0) ∧
          C.decode window (PointCode.compressed odd x).bytes = .ok P) ↔
        1 ≤ window ∧ C.IsAbscissa x.toNat) ∧
      (C.decode window (PointCode.compressed odd x).bytes = .error .notOnCurve ↔
        ¬(1 ≤ window ∧ C.IsAbscissa x.toNat) ∧ C.HasNeighbour window x.toNat) ∧
      (C.decode window (PointCode.compressed odd x).bytes = .error .noCurvePoint ↔
        ¬(1 ≤ window ∧ C.IsAbscissa x.toNat) ∧ ¬C.HasNeighbour window x.toNat) ∧
      (∀ P, C.decode window (PointCode.compressed odd x).bytes = .ok P → ∃ y Q,
        C.ofCoordinates? x.toNat y = some P ∧
        C.ofCoordinates? x.toNat ((C.fieldPrime - y) % C.fieldPrime) = some Q ∧
        C.decode window (PointCode.compressed (!odd) x).bytes = .ok Q) ∧
      ∀ cause, C.decode window (PointCode.compressed odd x).bytes = .error cause ↔
        C.decode window (PointCode.compressed (!odd) x).bytes = .error cause := by
  simp only [decode_bytes]
  refine ⟨?_, ?_, ?_, ?_, ?_⟩
  · intro b
    exact (decode_eq_error_iff_malformed (by nofun) (by nofun)).trans PointCode.malformed_empty_iff
  · intro b tag
    exact (decode_eq_error_iff_malformed (by nofun) (by nofun)).trans PointCode.malformed_unknownTag_iff
  · intro b tag expected actual
    exact (decode_eq_error_iff_malformed (by nofun) (by nofun)).trans PointCode.malformed_wrongLength_iff
  · intro x y
    refine ⟨?_, resolve_uncompressed_eq_error_iff⟩
    simp only [resolve_uncompressed_eq_ok_iff, and_self, ← Option.isSome_iff_exists]
    exact AcceptanceLaws.build_iff _ _
  · intro odd x
    refine ⟨?_, resolve_eq_notOnCurve_iff, resolve_eq_noCurvePoint_iff, ?_, ?_⟩
    · rw [← resolve_compressed_isOk_iff]
      constructor
      · intro ⟨_, P, _, _, h⟩
        exact ⟨P, h⟩
      · intro ⟨P, h⟩
        have hw := (resolve_compressed_isOk_iff.1 ⟨P, h⟩).1
        obtain ⟨y, hbuild, hparity⟩ := (resolve_compressed_eq_ok_iff hw).1 h
        exact ⟨y, P, hbuild, hparity, h⟩
    · intro P h
      exact exists_resolve_reflected h
    · intro cause
      exact resolve_eq_error_congr

end Roots

/-- No point of the toy curve lies over 5 or over 966, the last coordinate, but one does over 6. A
coordinate of 968 is not reduced. Over 1 there are two points. -/
theorem decode_classification_toy :
    toyCurve.decode 128 [2, 5] = .error (.wrongLength 2 33 2) ∧
    toyCurve.decode 128 (PointCode.uncompressed (Block.ofNat 32 968) (Block.ofNat 32 88)).bytes =
      .error .notOnCurve ∧
    toyCurve.decode 128 (PointCode.compressed true (Block.ofNat 32 5)).bytes = .error .notOnCurve ∧
    toyCurve.decode 1 (PointCode.compressed true (Block.ofNat 32 5)).bytes = .error .noCurvePoint ∧
    toyCurve.decode 128 (PointCode.compressed true (Block.ofNat 32 966)).bytes = .error .noCurvePoint ∧
    toyCurve.decode 128 (PointCode.compressed true (Block.ofNat 32 968)).bytes = .error .noCurvePoint ∧
    ∃ y P Q, toyCurve.ofCoordinates? 1 y = some P ∧ toyCurve.ofCoordinates? 1 ((967 - y) % 967) = some Q ∧
      toyCurve.decode 128 (PointCode.compressed true (Block.ofNat 32 1)).bytes = .ok P ∧
      toyCurve.decode 128 (PointCode.compressed false (Block.ofNat 32 1)).bytes = .ok Q := by
  have hfive : ¬toyCurve.IsAbscissa 5 := by decide +kernel
  have hlast : ¬toyCurve.IsAbscissa 966 := by decide +kernel
  have hneighbour : toyCurve.HasNeighbour 128 5 := ⟨by decide, 1, by decide, by decide, by decide +kernel⟩
  obtain ⟨-, -, hlength, hpair, hcode⟩ := decode_classification (C := toyCurve) 128
  obtain ⟨-, -, -, -, hfirst⟩ := decode_classification (C := toyCurve) 1
  obtain ⟨hread, -, -, hflip, -⟩ := hcode true (Block.ofNat 32 1)
  obtain ⟨_, P, -, -, hP⟩ := hread.2 ⟨by decide, by decide +kernel⟩
  obtain ⟨y, Q, hy, hreflected, hQ⟩ := hflip P hP
  refine ⟨(hlength _ _ _ _).2 (by decide), (hpair _ _).2.2 (by decide), ?_, ?_, ?_, ?_,
    y, P, Q, hy, hreflected, hP, hQ⟩
  · exact (hcode _ _).2.1.2 ⟨fun h => hfive h.2, hneighbour⟩
  · exact (hfirst _ _).2.2.1.2 ⟨fun h => hfive h.2, fun ⟨_, _, _, _, _⟩ => by omega⟩
  · refine (hcode _ _).2.2.1.2 ⟨fun h => hlast h.2, fun ⟨_, i, hpos, _, hx⟩ => ?_⟩
    have hlt : 966 + i < 967 := hx.1
    omega
  · refine (hcode _ _).2.2.1.2 ⟨fun h => ?_, fun h => ?_⟩
    · exact absurd h.2.1 (by decide)
    · exact absurd h.1 (by decide)

end CurveGroup

end BlindSchnorr
