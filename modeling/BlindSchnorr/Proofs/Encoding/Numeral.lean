import Mathlib
import BlindSchnorr.Encoding.Bytes

/-!
# Reading and writing numerals in base 256

A string of `w` bytes and the numbers below `256 ^ w` are in bijection. A number that does
not fit loses its highest digits.
-/
namespace BlindSchnorr

namespace Bytes

theorem toNat_cons (d : UInt8) (b : Bytes) : toNat (d :: b) = d.toNat * 256 ^ b.length + toNat b := by
  induction b using List.reverseRecOn with
  | nil => simp [toNat]
  | append_singleton b c ih =>
    rw [← List.cons_append, toNat_append_singleton, toNat_append_singleton, ih, List.length_append,
      List.length_singleton, pow_succ]
    ring

theorem toNat_lt (b : Bytes) : toNat b < 256 ^ b.length := by
  induction b using List.reverseRecOn with
  | nil => simp
  | append_singleton b d ih =>
    have hd := d.toNat_lt
    rw [toNat_append_singleton, List.length_append, List.length_singleton, pow_succ]
    omega

theorem toNat_ofNat (width v : Nat) : toNat (ofNat width v) = v % 256 ^ width := by
  induction width generalizing v with
  | zero => simp [ofNat, Nat.mod_one]
  | succ width ih =>
    have hd : (UInt8.ofNat (v % 256)).toNat = v % 256 := by
      rw [UInt8.toNat_ofNat']
      omega
    rw [ofNat, toNat_append_singleton, ih, hd, pow_succ', Nat.mod_mul]
    omega

/-- Every string is the numeral of its value at its own width. -/
theorem ofNat_toNat (b : Bytes) : ofNat b.length (toNat b) = b := by
  induction b using List.reverseRecOn with
  | nil => rfl
  | append_singleton b d ih =>
    have hd := d.toNat_lt
    have hquot : (toNat b * 256 + d.toNat) / 256 = toNat b := by omega
    have hrem : (toNat b * 256 + d.toNat) % 256 = d.toNat := by omega
    rw [toNat_append_singleton, List.length_append, List.length_singleton, ofNat, hquot, hrem, ih,
      UInt8.ofNat_toNat]

theorem ofNat_add (k width v : Nat) : ofNat (k + width) v = ofNat k (v / 256 ^ width) ++ ofNat width v := by
  induction width generalizing v with
  | zero => simp [ofNat]
  | succ width ih =>
    rw [← Nat.add_assoc, ofNat, ih, ofNat, List.append_assoc, Nat.div_div_eq_div_mul, pow_succ']

theorem ofNat_zero (width : Nat) : ofNat width 0 = List.replicate width 0 := by
  induction width with
  | zero => rfl
  | succ width ih =>
    rw [ofNat, Nat.zero_div, ih, List.replicate_succ']
    rfl

/-- A numeral of more digits than a number has starts with zeros. -/
theorem ofNat_add_of_lt {width v : Nat} (h : v < 256 ^ width) (k : Nat) :
    ofNat (k + width) v = List.replicate k 0 ++ ofNat width v := by
  rw [ofNat_add, Nat.div_eq_of_lt h, ofNat_zero]

/-- The lowest digits are the last ones. -/
theorem drop_ofNat_add (k width v : Nat) : (ofNat (k + width) v).drop k = ofNat width v := by
  rw [ofNat_add, List.drop_left' (length_ofNat k _)]

/-- Written at a width of its own choice, the value of a string is the end of the string, or the
string behind zeros. -/
theorem ofNat_toNat_pad (width : Nat) (b : Bytes) :
    ofNat width (toNat b) = List.replicate (width - b.length) 0 ++ b.drop (b.length - width) := by
  rcases Nat.le_total b.length width with hshort | hlong
  · obtain ⟨k, rfl⟩ := Nat.exists_eq_add_of_le' hshort
    rw [ofNat_add_of_lt (toNat_lt b), ofNat_toNat, Nat.add_sub_cancel, Nat.sub_eq_zero_of_le hshort,
      List.drop_zero]
  · obtain ⟨k, hk⟩ := Nat.exists_eq_add_of_le' hlong
    have hdrop : b.length - width = k := by omega
    rw [hdrop, Nat.sub_eq_zero_of_le hlong, List.replicate_zero, List.nil_append, ← drop_ofNat_add k, ← hk,
      ofNat_toNat]

/-- At one width reading and writing are inverse to each other. -/
theorem invOn_ofNat (width : Nat) :
    Set.InvOn toNat (ofNat width) (Set.Iio (256 ^ width)) {b | b.length = width} := by
  constructor
  · intro v hv
    rw [toNat_ofNat, Nat.mod_eq_of_lt hv]
  · rintro b rfl
    exact ofNat_toNat b

theorem bijOn_ofNat (width : Nat) :
    Set.BijOn (ofNat width) (Set.Iio (256 ^ width)) {b | b.length = width} := by
  refine (invOn_ofNat width).bijOn ?_ ?_
  · intro v _
    exact length_ofNat width v
  · rintro b rfl
    exact toNat_lt b

end Bytes

namespace Block

variable {width : Nat}

theorem toNat_lt (b : Block width) : b.toNat < 256 ^ width := by
  simpa only [toNat, b.length_bytes] using Bytes.toNat_lt b.bytes

theorem toNat_ofNat (width v : Nat) : (ofNat width v).toNat = v % 256 ^ width :=
  Bytes.toNat_ofNat width v

@[simp] theorem ofNat_toNat (b : Block width) : ofNat width b.toNat = b := by
  apply ext
  simpa only [ofNat, toNat, b.length_bytes] using Bytes.ofNat_toNat b.bytes

/-- The blocks of a width and the numbers that fit it. -/
def equivFin (width : Nat) : Block width ≃ Fin (256 ^ width) where
  toFun b := ⟨b.toNat, b.toNat_lt⟩
  invFun v := ofNat width v
  left_inv b := b.ofNat_toNat
  right_inv v := Fin.ext ((toNat_ofNat width v).trans (Nat.mod_eq_of_lt v.isLt))

theorem natCard (width : Nat) : Nat.card (Block width) = 256 ^ width := by
  rw [Nat.card_congr (equivFin width), Nat.card_fin]

theorem toNat_injective {b c : Block width} (h : b.toNat = c.toNat) : b = c := by
  rw [← ofNat_toNat b, h, ofNat_toNat]

end Block

namespace Word

theorem toNat_ofNat {v : Nat} (h : v < 2 ^ 256) : (Block.ofNat 32 v).toNat = v := by
  rw [Block.toNat_ofNat]
  exact Nat.mod_eq_of_lt h

theorem toNat_lt (w : Word) : w.toNat < 2 ^ 256 := Block.toNat_lt w

end Word

end BlindSchnorr
