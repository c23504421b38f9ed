import BlindSchnorr.Proofs.Checked.Arithmetic
import BlindSchnorr.Proofs.Encoding.Refusal

/-!
# Checked point codes

Writing a point fills a string of the width of its code; the coordinates may have any size. Reading a
code takes its slices only after the length is checked, and the probe computes modulo the prime only
at coordinates below it, so a prime of zero is never reached.
-/
namespace BlindSchnorr.Checked

variable {C : CurveGroup}

section Encode

/-- The tag, then the x-coordinate behind it. -/
def encodeCompressed (C : CurveGroup) (P : C.Point) : Checked Bytes :=
  match C.coordinates P with
  | none => refuse (.point .infinity)
  | some (x, y) => do
    let out ← put (List.replicate 33 0) 0 (2 ||| if y % 2 = 1 then 1 else 0)
    copy out 1 33 (← word x)

/-- The tag, then one coordinate behind the other. -/
def encodeUncompressed (C : CurveGroup) (P : C.Point) : Checked Bytes :=
  match C.coordinates P with
  | none => refuse (.point .infinity)
  | some (x, y) => do
    let out ← put (List.replicate 65 0) 0 4
    let out ← copy out 1 33 (← word x)
    copy out 33 65 (← word y)

def encode (C : CurveGroup) (P : C.Point) (compressed : Bool) : Checked Bytes :=
  if compressed then encodeCompressed C P else encodeUncompressed C P

theorem encodeCompressed_eq (P : C.Point) :
    encodeCompressed C P = unchecked (((C.compress P).mapError .point).map PointCode.bytes) := by
  unfold encodeCompressed CurveGroup.compress CurveGroup.finite
  cases C.coordinates P with
  | none => rfl
  | some xy =>
    obtain ⟨x, y⟩ := xy
    have hput : put (List.replicate 33 0) 0 (2 ||| if y % 2 = 1 then 1 else 0) =
        .ok ((2 ||| if y % 2 = 1 then 1 else 0) :: List.replicate 32 0) := rfl
    have htag : (2 ||| if y % 2 = 1 then 1 else 0 : UInt8) = if y % 2 = 1 then 3 else 2 := by
      split_ifs <;> rfl
    have hword := (Block.ofNat 32 x).length_bytes
    simp only [hput, ok_bind, word_eq]
    rw [copy_of_length_eq (by simp) (by simp) hword, htag]
    simp [unchecked, Except.map, Except.mapError, PointCode.bytes]

theorem encodeUncompressed_eq (P : C.Point) :
    encodeUncompressed C P = unchecked (((C.encode P false).mapError .point).map PointCode.bytes) := by
  unfold encodeUncompressed CurveGroup.encode CurveGroup.finite
  cases C.coordinates P with
  | none => rfl
  | some xy =>
    obtain ⟨x, y⟩ := xy
    have hput : put (List.replicate 65 0) 0 4 = .ok (4 :: List.replicate 64 0) := rfl
    have hx := (Block.ofNat 32 x).length_bytes
    have hy := (Block.ofNat 32 y).length_bytes
    simp only [hput, ok_bind, word_eq]
    rw [copy_of_length_eq (by simp) (by simp) hx, ok_bind, copy_of_length_eq (by simp) (by simp [hx]) hy]
    simp [unchecked, Except.map, Except.mapError, PointCode.bytes, hx]

theorem encode_eq (P : C.Point) (compressed : Bool) :
    encode C P compressed = unchecked (((C.encode P compressed).mapError .point).map PointCode.bytes) := by
  cases compressed with
  | true => exact encodeCompressed_eq P
  | false => exact encodeUncompressed_eq P

end Encode

section Decode

/-- A square root of the right-hand side of the curve equation, if the power by a quarter is one. -/
def root (C : CurveGroup) (x : Nat) : Checked (Option Nat) := do
  let cube ← pow x 3 C.fieldPrime
  let rhs ← mod (cube + C.a * x + C.b) C.fieldPrime
  let root ← pow rhs ((C.fieldPrime + 1) >>> 2) C.fieldPrime
  let square ← mod (root * root) C.fieldPrime
  if square = rhs then .ok (some root) else .ok none

theorem root_eq {x : Nat} (hp : 0 < C.fieldPrime) : root C x = .ok (Modular.sqrt? (C.rhs x) C.fieldPrime) := by
  have hrhs : (Modular.pow x 3 C.fieldPrime + C.a * x + C.b) % C.fieldPrime = C.rhs x := by
    rw [CurveGroup.rhs, Modular.pow_eq, Nat.add_assoc, Nat.mod_add_mod, ← Nat.add_assoc, pow_three']
  have hquarter : (C.fieldPrime + 1) >>> 2 = (C.fieldPrime + 1) / 4 := Nat.shiftRight_eq_div_pow _ _
  simp only [root, pow_of_pos hp, mod_of_pos hp, ok_bind, hrhs, hquarter, Modular.sqrt?]
  split_ifs <;> rfl

/-- The y-coordinate of the given parity over the first of successive x-coordinates that has one. -/
def probe (C : CurveGroup) (odd : Bool) : (window x : Nat) → Checked (Option Nat)
  | 0, _ => .ok none
  | window + 1, x =>
    -- Nothing is computed modulo the prime unless a number is below it.
    if x < C.fieldPrime then do
      match ← root C x with
      | none => probe C odd window (x + 1)
      | some r =>
        if decide (r % 2 = 1) = odd then .ok (some r)
        else do
          let y ← sub C.fieldPrime r
          .ok (some (← mod y C.fieldPrime))
    else .ok none

/-- A root is a remainder, so it can be taken from the prime. -/
theorem probe_eq (odd : Bool) (window x : Nat) : probe C odd window x = .ok (C.probe odd window x) := by
  induction window generalizing x with
  | zero => rfl
  | succ window ih =>
    unfold probe CurveGroup.probe
    split_ifs with hx
    · have hp : 0 < C.fieldPrime := Nat.zero_lt_of_lt hx
      rw [root_eq hp, ok_bind]
      cases hroot : Modular.sqrt? (C.rhs x) C.fieldPrime with
      | none => exact ih (x + 1)
      | some r =>
        have hr := Modular.sqrt?_lt hp hroot
        simp only [sub_of_le hr.le, mod_of_pos hp, ok_bind]
        split_ifs <;> rfl
    · rfl

/-- The point with given coordinates, which is refused off the curve. -/
def ofCoordinates (C : CurveGroup) (x y : Nat) : Checked C.Point :=
  (C.ofCoordinates? x y).elim (refuse (.point .notOnCurve)) .ok

theorem ofCoordinates_eq (x y : Nat) : ofCoordinates C x y =
    unchecked (((C.ofCoordinates? x y).elim (Except.error PointError.notOnCurve) .ok).mapError .point) := by
  rw [ofCoordinates]
  cases C.ofCoordinates? x y <;> rfl

/-- The point over an x-coordinate whose y-coordinate the probe finds. -/
def decompress (C : CurveGroup) (odd : Bool) (window x : Nat) : Checked C.Point := do
  match ← probe C odd window x with
  | none => refuse (.point .noCurvePoint)
  | some y => ofCoordinates C x y

theorem decompress_eq (odd : Bool) (window : Nat) (x : Word) : decompress C odd window x.toNat =
    unchecked ((C.resolve window (.compressed odd x)).mapError .point) := by
  rw [decompress, probe_eq, ok_bind, CurveGroup.resolve]
  cases C.probe odd window x.toNat with
  | none => rfl
  | some y => exact ofCoordinates_eq x.toNat y

def expectLength (tag : UInt8) (b : Bytes) (expected : Nat) : Checked Unit :=
  if b.length = expected then .ok () else refuse (.point (.wrongLength tag expected b.length))

/-- The point that a byte string encodes. -/
def decode (C : CurveGroup) (window : Nat) (b : Bytes) : Checked C.Point :=
  match b with
  | [] => refuse (.point .empty)
  | tag :: _ =>
    if tag = 2 ∨ tag = 3 then do
      expectLength tag b 33
      let x ← slice b 1 b.length
      decompress C (decide (tag = 3)) window (Bytes.toNat x)
    else if tag = 4 then do
      expectLength tag b 65
      let x ← slice b 1 33
      let y ← slice b 33 b.length
      ofCoordinates C (Bytes.toNat x) (Bytes.toNat y)
    else refuse (.point (.unknownTag tag))

section Branches

variable {window : Nat} {tag : UInt8} {rest : Bytes}

theorem decode_compressed (htag : tag = 2 ∨ tag = 3) (hlength : rest.length = 32) :
    decode C window (tag :: rest) = unchecked ((C.decode window (tag :: rest)).mapError .point) := by
  have hparse : PointCode.parse (tag :: rest) = .ok (.compressed (decide (tag = 3)) ⟨rest, hlength⟩) := by
    rw [PointCode.parse, if_pos htag, Block.ofBytes?, dif_pos hlength]
  have hwidth : expectLength tag (tag :: rest) 33 = .ok () := if_pos (by rw [List.length_cons, hlength])
  rw [CurveGroup.decode, hparse, ok_bind, ← decompress_eq]
  simp only [decode, if_pos htag, hwidth, slice_to_end (show 1 ≤ (tag :: rest).length by simp), ok_bind]
  rfl

theorem decode_uncompressed (hlength : rest.length = 64) :
    decode C window (4 :: rest) = unchecked ((C.decode window (4 :: rest)).mapError .point) := by
  have hx : (rest.take 32).length = 32 := by simp [hlength]
  have hy : (rest.drop 32).length = 32 := by simp [hlength]
  have hparse : PointCode.parse (4 :: rest) = .ok (.uncompressed ⟨rest.take 32, hx⟩ ⟨rest.drop 32, hy⟩) := by
    rw [PointCode.parse, if_neg (by decide), if_pos rfl, Block.ofBytes?, Block.ofBytes?, dif_pos hx, dif_pos hy]
  have hwidth : expectLength 4 (4 :: rest) 65 = .ok () := if_pos (by rw [List.length_cons, hlength])
  have hslice : slice (4 :: rest) 1 33 = .ok (rest.take 32) :=
    slice_of_le (by omega) (by rw [List.length_cons, hlength]; omega)
  have htail : slice (4 :: rest) 33 (4 :: rest).length = .ok (rest.drop 32) :=
    slice_to_end (by rw [List.length_cons, hlength]; omega)
  have htag : ¬((4 : UInt8) = 2 ∨ (4 : UInt8) = 3) := by decide
  rw [CurveGroup.decode, hparse, ok_bind, CurveGroup.resolve, ← ofCoordinates_eq]
  simp only [decode, if_neg htag, if_true, hwidth, hslice, htail, ok_bind]
  rfl

theorem decode_malformed {b : Bytes} {cause : PointError} (h : PointCode.Malformed b cause) :
    decode C window b = refuse (.point cause) := by
  cases h with
  | empty => rfl
  | @unknownTag tag rest h =>
    simp only [decode, if_neg (not_or.2 ⟨h.1, h.2.1⟩), if_neg h.2.2]
  | @compressed tag rest htag hlength =>
    simp only [decode, if_pos htag, expectLength, List.length_cons, if_neg hlength, refuse_bind]
  | @uncompressed rest hlength =>
    have htag : ¬((4 : UInt8) = 2 ∨ (4 : UInt8) = 3) := by decide
    simp only [decode, if_neg htag, if_true, expectLength, List.length_cons, if_neg hlength, refuse_bind]

end Branches

theorem decode_eq (window : Nat) (b : Bytes) :
    decode C window b = unchecked ((C.decode window b).mapError .point) := by
  cases hparse : PointCode.parse b with
  | error cause =>
    rw [decode_malformed (PointCode.parse_eq_error_iff.1 hparse), CurveGroup.decode, hparse]
    rfl
  | ok code =>
    obtain rfl := PointCode.parse_eq_ok_iff.1 hparse
    cases code with
    | compressed odd x => exact decode_compressed (by cases odd <;> decide) x.length_bytes
    | uncompressed x y => exact decode_uncompressed (by simp [x.length_bytes, y.length_bytes])

end Decode

end BlindSchnorr.Checked
