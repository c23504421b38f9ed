import BlindSchnorr.Encoding.Point
import BlindSchnorr.Proofs.Arith.Power
import BlindSchnorr.Proofs.Curve.Laws
import BlindSchnorr.Proofs.Encoding.Numeral
import BlindSchnorr.Proofs.Outcome

/-!
# Reading a written point

Every finite point has a code of either form, and every probe window reads the point back
from it. A compressed code determines the y-coordinate because the two roots of a square
have different parities. Which points are read does not depend on the window.
-/
namespace BlindSchnorr

namespace PointCode

/-- A byte string is read as a code only if it is what the code writes. -/
theorem parse_eq_ok_iff {b : Bytes} {c : PointCode} : parse b = .ok c ↔ b = c.bytes := by
  constructor
  · intro h
    cases b with
    | nil => cases h
    | cons tag rest =>
      rw [parse] at h
      split_ifs at h with htag huncompressed
      · split at h
        · next x hx =>
          cases h
          rcases htag with rfl | rfl <;> simp [bytes, Block.ofBytes?_eq_some_iff.1 hx]
        · cases h
      · split at h
        · next x y hx hy =>
          cases h
          rw [bytes, ← Block.ofBytes?_eq_some_iff.1 hx, ← Block.ofBytes?_eq_some_iff.1 hy,
            List.take_append_drop, huncompressed]
        · cases h
  · rintro rfl
    exact parse_bytes c

end PointCode

namespace CurveGroup

variable {C : CurveGroup}

theorem finite_eq_ok_iff {P : C.Point} {x y : Nat} :
    C.finite P = .ok (x, y) ↔ C.coordinates P = some (x, y) := elim_eq_ok_iff

theorem compress_of_coordinates {P : C.Point} {x y : Nat} (h : C.coordinates P = some (x, y)) :
    C.compress P = .ok (.compressed (decide (y % 2 = 1)) (Block.ofNat 32 x)) := by
  rw [compress, finite_eq_ok_iff.2 h]
  rfl

theorem encode_of_coordinates {P : C.Point} {x y : Nat} (h : C.coordinates P = some (x, y))
    (compressed : Bool) :
    C.encode P compressed = .ok (if compressed then .compressed (decide (y % 2 = 1)) (Block.ofNat 32 x)
      else .uncompressed (Block.ofNat 32 x) (Block.ofNat 32 y)) := by
  cases compressed with
  | true => exact compress_of_coordinates h
  | false =>
    rw [encode, finite_eq_ok_iff.2 h]
    rfl

theorem coordinates_of_encode {P : C.Point} {compressed : Bool} {code : PointCode}
    (h : C.encode P compressed = .ok code) : ∃ x y, C.coordinates P = some (x, y) := by
  cases hP : C.coordinates P with
  | none => cases compressed <;> simp [encode, compress, finite, hP, Except.map] at h
  | some xy => exact ⟨xy.1, xy.2, rfl⟩

theorem coordinates_of_compress {P : C.Point} {code : PointCode} (h : C.compress P = .ok code) :
    ∃ x y, C.coordinates P = some (x, y) :=
  coordinates_of_encode (show C.encode P true = .ok code from h)

theorem resolve_compressed_iff_probe {window : Nat} {odd : Bool} {w : Word} {P : C.Point} :
    C.resolve window (.compressed odd w) = .ok P ↔
      ∃ y, C.probe odd window w.toNat = some y ∧ C.ofCoordinates? w.toNat y = some P := by
  cases h : C.probe odd window w.toNat with
  | none => simp [resolve, h]
  | some y => simp [resolve, h, elim_eq_ok_iff]

theorem resolve_uncompressed_eq_ok_iff {window : Nat} {x y : Word} {P : C.Point} :
    C.resolve window (.uncompressed x y) = .ok P ↔ C.ofCoordinates? x.toNat y.toNat = some P :=
  elim_eq_ok_iff

/-- Only the bytes of a code are read. -/
theorem decode_eq_ok_iff {window : Nat} {b : Bytes} {P : C.Point} :
    C.decode window b = .ok P ↔ ∃ code : PointCode, b = code.bytes ∧ C.resolve window code = .ok P := by
  simp only [decode, bind_eq_ok_iff, PointCode.parse_eq_ok_iff]

@[simp] theorem decode_bytes (window : Nat) (code : PointCode) :
    C.decode window code.bytes = C.resolve window code := by
  rw [decode, PointCode.parse_bytes, ok_bind]

theorem build_of_decode {window : Nat} {b : Bytes} {P : C.Point} (h : C.decode window b = .ok P) :
    ∃ x y, C.ofCoordinates? x y = some P := by
  obtain ⟨code, -, h⟩ := decode_eq_ok_iff.1 h
  cases code with
  | compressed odd x =>
    obtain ⟨y, -, hbuild⟩ := resolve_compressed_iff_probe.1 h
    exact ⟨_, y, hbuild⟩
  | uncompressed x y => exact ⟨_, _, resolve_uncompressed_eq_ok_iff.1 h⟩

section Roots

variable [C.RootLaws] {P : C.Point} {x y : Nat}

/-- Where a point lies over the x-coordinate, the first probe finds the one of given parity. -/
theorem probe_eq_some_iff (hx : x < C.fieldPrime) (hy : y < C.fieldPrime)
    (hcurve : y * y % C.fieldPrime = C.rhs x) (odd : Bool) (window : Nat) :
    C.probe odd (window + 1) x = some y ↔ decide (y % 2 = 1) = odd ∨ y = 0 := by
  have h4 := RootLaws.prime_mod_four (C := C)
  obtain ⟨r, hr⟩ := Modular.sqrt?_complete h4 y
  have hroot := Modular.sqrt?_sound hr
  have hlt := Modular.sqrt?_lt RootLaws.prime.pos hr
  rw [probe, if_pos hx, ← hcurve, hr]
  simp only [Option.some.injEq]
  rcases Modular.eq_or_eq_neg_of_mul_self hy hlt hroot.symm with rfl | rfl
  · split_ifs with hodd
    · exact iff_of_true rfl (.inl hodd)
    · rcases Nat.eq_zero_or_pos y with rfl | hpos
      · simp
      · rw [Nat.mod_eq_of_lt (by omega : C.fieldPrime - y < C.fieldPrime)]
        exact iff_of_false (by omega) (not_or.2 ⟨hodd, hpos.ne'⟩)
  · rcases Nat.eq_zero_or_pos r with rfl | hpos
    · simp
    · -- The two roots add up to an odd number, so their parities differ.
      rw [Nat.mod_eq_of_lt (by omega : C.fieldPrime - r < C.fieldPrime)]
      cases odd <;> simp <;> omega

variable [C.AcceptanceLaws]

/-- A compressed code is that of the point over its x-coordinate with the y-coordinate of its
parity. Zero is read for either parity. -/
theorem resolve_compressed_eq_ok_iff {window : Nat} (hw : 1 ≤ window) {odd : Bool} {w : Word} :
    C.resolve window (.compressed odd w) = .ok P ↔
      ∃ y, C.ofCoordinates? w.toNat y = some P ∧ (decide (y % 2 = 1) = odd ∨ y = 0) := by
  obtain ⟨window, rfl⟩ := Nat.exists_eq_add_of_le' hw
  rw [resolve_compressed_iff_probe]
  refine exists_congr fun y => and_comm.trans (and_congr_right fun hbuild => ?_)
  obtain ⟨hx, hy, hcurve⟩ := reduced_of_build hbuild
  exact probe_eq_some_iff hx hy hcurve odd window

/-- The probe window has no say in which point is read. -/
theorem decode_eq_ok_congr {window window' : Nat} (hw : 1 ≤ window) (hw' : 1 ≤ window') {b : Bytes} :
    C.decode window b = .ok P ↔ C.decode window' b = .ok P := by
  simp only [decode_eq_ok_iff]
  refine exists_congr fun code => and_congr_right fun _ => ?_
  cases code with
  | compressed odd w => rw [resolve_compressed_eq_ok_iff hw, resolve_compressed_eq_ok_iff hw']
  | uncompressed x y => rfl

end Roots

/-- Every probe window reads back what either form writes. -/
theorem decode_encode [C.FieldLaws] [C.CodingLaws] {P : C.Point} {window : Nat} (hw : 1 ≤ window)
    (hP : C.IsPoint P) {compressed : Bool} {code : PointCode} (h : C.encode P compressed = .ok code) :
    C.decode window code.bytes = .ok P := by
  obtain ⟨x, y, hxy⟩ := coordinates_of_encode h
  obtain ⟨hx, hy, hcurve⟩ := CodingLaws.reduced_of_coordinates P x y hP hxy
  have hbuild := CodingLaws.build_of_coordinates P x y hP hxy
  have hx' := Word.toNat_ofNat (hx.trans FieldLaws.prime_lt)
  have hy' := Word.toNat_ofNat (hy.trans FieldLaws.prime_lt)
  rw [encode_of_coordinates hxy] at h
  cases h
  rw [decode_bytes]
  cases compressed with
  | true =>
    apply resolve_compressed_iff_probe.2
    obtain ⟨window, rfl⟩ := Nat.exists_eq_add_of_le' hw
    rw [hx']
    exact ⟨y, (probe_eq_some_iff hx hy hcurve _ window).2 (.inl rfl), hbuild⟩
  | false =>
    apply resolve_uncompressed_eq_ok_iff.2
    rw [hx', hy']
    exact hbuild

end CurveGroup

end BlindSchnorr
