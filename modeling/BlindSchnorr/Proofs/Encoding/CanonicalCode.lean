import BlindSchnorr.Proofs.Curve.Cusp
import BlindSchnorr.Proofs.Encoding.PointRoundTrip

/-!
# Points and their codes determine each other

What is written for a finite point is read as that point. What is read from a byte string is
written as that byte string, also over fields where the candidate root misses most squares.
The one exception is a point on the x-axis: it is read under either compressed tag and
written under the even one.
-/
namespace BlindSchnorr.CurveGroup

variable {C : CurveGroup} {P : C.Point} {window : Nat}

theorem encode_eq_error_iff {compressed : Bool} {cause : PointError} :
    C.encode P compressed = .error cause ↔ C.coordinates P = none ∧ cause = .infinity := by
  cases h : C.coordinates P with
  | none => cases compressed <;> simp [encode, compress, finite, h, Except.map, eq_comm]
  | some xy => simp [encode_of_coordinates h]

/-- Every finite point has a code of either form that every probe window reads as the point, and
the identity alone has none. -/
theorem decode_inverts_encode [C.CodingLaws] [C.FieldLaws] (hP : C.IsPoint P) (compressed : Bool) :
    (P ≠ C.identity → ∃ code, C.encode P compressed = .ok code ∧
      code.bytes.length = (if compressed then 33 else 65) ∧
      ∀ window, 1 ≤ window → C.decode window code.bytes = .ok P) ∧
    ∀ cause, C.encode P compressed = .error cause ↔ P = C.identity ∧ cause = .infinity := by
  have hidentity := CodingLaws.coordinates_eq_none_iff P hP
  constructor
  · intro hne
    cases hxy : C.coordinates P with
    | none => exact absurd (hidentity.1 hxy) hne
    | some xy =>
      obtain ⟨x, y⟩ := xy
      have hcode := encode_of_coordinates hxy compressed
      refine ⟨_, hcode, ?_, ?_⟩
      · cases compressed <;> simp [PointCode.width, PointCode.compressedWidth, PointCode.uncompressedWidth]
      · intro window hw
        exact decode_encode hw hP hcode
  · intro cause
    rw [encode_eq_error_iff, hidentity]

/-- The point `(0, 0)` of the cubic over 7 elements, whose y-coordinate has only one root. -/
theorem decode_inverts_encode_cusp : (Cusp.group 7).coordinates (4 : Nat) = some (0, 0) ∧
    ∀ compressed, ∃ code, (Cusp.group 7).encode (4 : Nat) compressed = .ok code ∧
      code.bytes.length = (if compressed then 33 else 65) ∧
      ∀ window, 1 ≤ window → (Cusp.group 7).decode window code.bytes = .ok (4 : Nat) := by
  have hprime : Fact (Nat.Prime 7) := ⟨by norm_num⟩
  have hlawful := Cusp.lawful_group (p := 7) (by decide) (by decide)
  have hpoint : (Cusp.group 7).IsPoint (4 : Nat) := (Cusp.isPoint_iff (by decide) (by decide)).2 (by decide)
  refine ⟨by decide, fun compressed => ?_⟩
  exact (decode_inverts_encode hpoint compressed).1 (show (4 : Nat) ≠ 0 by decide)

/-- The search settles the parity: of two roots that differ it takes the one asked for. -/
lemma parity_of_probe (hodd : C.fieldPrime % 2 = 1) {odd : Bool} {x y : Nat}
    (h : C.probe odd window x = some y) : decide (y % 2 = 1) = odd ∨ y = 0 := by
  induction window generalizing x with
  | zero => cases h
  | succ window ih =>
    rw [probe] at h
    split_ifs at h with hx
    cases hr : Modular.sqrt? (C.rhs x) C.fieldPrime with
    | none =>
      rw [hr] at h
      exact ih h
    | some r =>
      have hlt := Modular.sqrt?_lt (by omega) hr
      simp only [hr, Option.some.injEq] at h
      split_ifs at h with hparity
      · rw [← h]
        exact .inl hparity
      · rcases Nat.eq_zero_or_pos r with rfl | hpos
        · right
          rw [← h, Nat.sub_zero, Nat.mod_self]
        · left
          rw [← h, Modular.parity_neg hodd hpos hlt, Bool.eq_not.2 hparity, Bool.not_not]

section Canonical

variable [C.BuildLaws]

/-- The point of a compressed code has the coordinate that was written and not a probed one, and
is written as the code again unless its tag is odd without need. -/
lemma encode_of_resolve_compressed (hodd : C.fieldPrime % 2 = 1) {odd : Bool} {w : Word}
    (h : C.resolve window (.compressed odd w) = .ok P) :
    ∃ y, C.ofCoordinates? w.toNat y = some P ∧
      C.encode P true = .ok (.compressed (odd && decide (y ≠ 0)) w) := by
  obtain ⟨y, hprobe, hbuild⟩ := resolve_compressed_iff_probe.1 h
  have hparity : decide (y % 2 = 1) = (odd && decide (y ≠ 0)) := by
    rcases parity_of_probe hodd hprobe with hy | rfl
    · by_cases h0 : y = 0 <;> simp [← hy, h0]
    · simp
  refine ⟨y, hbuild, ?_⟩
  rw [encode_of_coordinates (BuildLaws.coordinates_of_build _ _ _ hbuild), if_pos rfl, hparity,
    Block.ofNat_toNat]

lemma encode_of_resolve_uncompressed {x y : Word} (h : C.resolve window (.uncompressed x y) = .ok P) :
    C.encode P false = .ok (.uncompressed x y) := by
  have hbuild := resolve_uncompressed_eq_ok_iff.1 h
  rw [encode_of_coordinates (BuildLaws.coordinates_of_build _ _ _ hbuild), if_neg Bool.false_ne_true,
    Block.ofNat_toNat, Block.ofNat_toNat]

/-- What is read from a byte string is a reduced point over the coordinate that was written, and
is written as the byte string again. Only the odd tag of a point on the x-axis becomes even. -/
lemma encode_of_decode (hodd : C.fieldPrime % 2 = 1) {b : Bytes} (h : C.decode window b = .ok P) :
    ∃ x y code, C.ofCoordinates? x y = some P ∧ x = Bytes.toNat (b.tail.take 32) ∧
      C.encode P (decide (b.length = 33)) = .ok code ∧
      code.bytes = if y = 0 ∧ b.head? = some 3 then 2 :: b.tail else b := by
  obtain ⟨code, rfl, hcode⟩ := decode_eq_ok_iff.1 h
  rw [PointCode.length_bytes]
  cases code with
  | compressed odd w =>
    obtain ⟨y, hbuild, hwrite⟩ := encode_of_resolve_compressed hodd hcode
    refine ⟨_, y, _, hbuild, ?_, hwrite, ?_⟩
    · rw [PointCode.bytes, List.tail_cons, List.take_of_length_le w.length_bytes.le]
      rfl
    · by_cases hy : y = 0 <;> cases odd <;> simp [PointCode.bytes, hy]
  | uncompressed x y =>
    refine ⟨_, _, _, resolve_uncompressed_eq_ok_iff.1 hcode, ?_, encode_of_resolve_uncompressed hcode, ?_⟩
    · rw [PointCode.bytes, List.tail_cons, List.take_left' x.length_bytes]
      rfl
    · simp [PointCode.bytes]

/-- Off the x-axis a byte string is what its point is written as. -/
lemma encode_of_decode_of_ne_zero (hodd : C.fieldPrime % 2 = 1) {b : Bytes} {x y : Nat}
    (h : C.decode window b = .ok P) (hxy : C.coordinates P = some (x, y)) (hy : y ≠ 0) :
    ∃ code, C.encode P (decide (b.length = 33)) = .ok code ∧ code.bytes = b := by
  obtain ⟨x', y', code, hbuild, -, hcode, hbytes⟩ := encode_of_decode hodd h
  rw [BuildLaws.coordinates_of_build x' y' P hbuild, Option.some.injEq, Prod.mk.injEq] at hxy
  rw [hxy.2, if_neg fun h0 => hy h0.1] at hbytes
  exact ⟨code, hcode, hbytes⟩

/-- Reading is sound and canonical under every probe window, whatever squares have a candidate
root: no point off the x-axis has two byte strings of one length. -/
theorem encode_inverts_decode (hodd : C.fieldPrime % 2 = 1) :
    (∀ window b P, C.decode window b = .ok P → ∃ x y code,
      C.coordinates P = some (x, y) ∧ x = Bytes.toNat (b.tail.take 32) ∧
      (x < C.fieldPrime ∧ y < C.fieldPrime ∧ y * y % C.fieldPrime = C.rhs x) ∧
      C.encode P (decide (b.length = 33)) = .ok code ∧
      code.bytes = if y = 0 ∧ b.head? = some 3 then 2 :: b.tail else b) ∧
    ∀ window window' b b' P x y, C.decode window b = .ok P → C.decode window' b' = .ok P →
      b.length = b'.length → C.coordinates P = some (x, y) → y ≠ 0 → b = b' := by
  constructor
  · intro window b P h
    obtain ⟨x, y, code, hbuild, hx, hcode, hbytes⟩ := encode_of_decode hodd h
    exact ⟨x, y, code, BuildLaws.coordinates_of_build x y P hbuild, hx,
      BuildLaws.reduced_of_build x y P hbuild, hcode, hbytes⟩
  · intro window window' b b' P x y h h' hlength hxy hy
    obtain ⟨code, hcode, rfl⟩ := encode_of_decode_of_ne_zero hodd h hxy hy
    obtain ⟨code', hcode', rfl⟩ := encode_of_decode_of_ne_zero hodd h' hxy hy
    rw [hlength, hcode', Except.ok.injEq] at hcode
    rw [hcode]

end Canonical

/-- Over 5 elements zero and one are the only squares with a candidate root. The point `(1, 1)` is
written as it was read, and `(0, 0)` with the even tag although it was read under the odd one. -/
theorem encode_inverts_decode_cusp : (Cusp.group 5).fieldPrime % 2 = 1 ∧
    (Cusp.group 5).decode 128 (3 :: Bytes.ofNat 32 1) = .ok (4 : Nat) ∧
    (∃ code, (Cusp.group 5).encode (4 : Nat) true = .ok code ∧ code.bytes = 3 :: Bytes.ofNat 32 1) ∧
    (Cusp.group 5).decode 1 (3 :: List.replicate 32 0) = .ok (3 : Nat) ∧
    ∃ code, (Cusp.group 5).encode (3 : Nat) true = .ok code ∧ code.bytes = 2 :: List.replicate 32 0 := by
  have hprime : Fact (Nat.Prime 5) := ⟨by norm_num⟩
  have hlaws := Cusp.coordinateLaws_group (p := 5) (by decide) (by decide)
  have hone : (Cusp.group 5).decode 128 (3 :: Bytes.ofNat 32 1) = .ok (4 : Nat) := by decide +kernel
  have hzero : (Cusp.group 5).decode 1 (3 :: List.replicate 32 0) = .ok (3 : Nat) := by decide +kernel
  obtain ⟨hwritten, -⟩ := encode_inverts_decode (C := Cusp.group 5) (by decide)
  obtain ⟨x, y, code, hxy, -, -, hcode, hbytes⟩ := hwritten _ _ _ hone
  obtain ⟨x', y', code', hxy', -, -, hcode', hbytes'⟩ := hwritten _ _ _ hzero
  cases (show some (1, 1) = some (x, y) from hxy)
  cases (show some (0, 0) = some (x', y') from hxy')
  exact ⟨by decide, hone, ⟨code, hcode, hbytes⟩, hzero, code', hcode', hbytes'⟩

end BlindSchnorr.CurveGroup
