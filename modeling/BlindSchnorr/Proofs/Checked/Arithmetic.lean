import BlindSchnorr.Arith.Jacobi
import BlindSchnorr.Proofs.Arith.UniformDraw
import BlindSchnorr.Proofs.Checked.Primitives

/-!
# Checked arithmetic

Words, differences, Jacobi symbols and drawn scalars, each computed with checked operations. Words and
symbols need no condition, a difference and a draw need a positive modulus.
-/
namespace BlindSchnorr.Checked

/-- The shortest numeral of a number. That of zero is one zero. -/
def numeral (v : Nat) : Bytes := Bytes.ofNat (max 1 ((Binary.size v + 7) / 8)) v

theorem lt_numeral_length (v : Nat) : v < 256 ^ (numeral v).length := by
  have hbits : Binary.size v ≤ 8 * max 1 ((Binary.size v + 7) / 8) := by omega
  rw [numeral, Bytes.length_ofNat, show (256 : Nat) = 2 ^ 8 by norm_num, ← pow_mul]
  exact (Binary.lt_two_pow_size v).trans_le (Nat.pow_le_pow_right two_pos hbits)

theorem toNat_numeral (v : Nat) : Bytes.toNat (numeral v) = v := by
  have hlt := lt_numeral_length v
  rw [numeral, Bytes.length_ofNat] at hlt
  rw [numeral, Bytes.toNat_ofNat, Nat.mod_eq_of_lt hlt]

/-- The last 32 bytes of the shortest numeral, or all of its bytes if it has fewer, copied to the end of
32 zeros. -/
def word (v : Nat) : Checked Bytes := do
  let raw := numeral v
  let tail ← slice raw (raw.length - 32) raw.length
  let start ← sub 32 tail.length
  copy (List.replicate 32 0) start 32 tail

/-- A numeral of any length makes a word: a short one is padded, and of a long one the end covers all the
zeros. -/
theorem word_eq (v : Nat) : word v = .ok (Block.ofNat 32 v).bytes := by
  have hpadded := Bytes.ofNat_toNat_pad 32 (numeral v)
  rw [toNat_numeral] at hpadded
  have htail : ((numeral v).drop ((numeral v).length - 32)).length = min 32 (numeral v).length := by
    rw [List.length_drop]
    omega
  have hstart : 32 - min 32 (numeral v).length = 32 - (numeral v).length := by omega
  rw [word, slice_to_end (Nat.sub_le _ _), ok_bind, htail, sub_of_le (min_le_left _ _), ok_bind, hstart,
    copy_of_length_eq (Nat.sub_le _ _) (by simp) (by omega), List.take_replicate, List.drop_replicate,
    Nat.sub_self, List.replicate_zero, List.append_nil, min_eq_left (Nat.sub_le _ _), ← hpadded]
  rfl

/-- A copy of a word that fills its target. -/
theorem copy_word (w : Word) : copy (List.replicate 32 0) 0 32 w.bytes = .ok w.bytes := by
  rw [copy_of_length_eq (by omega) (by simp) w.length_bytes]
  simp

/-- The difference modulo a number, of which the second operand is reduced before. -/
def modSub (a b n : Nat) : Checked Nat := do
  let r ← mod b n
  let d ← sub (a + n) r
  mod d n

/-- A remainder is below the modulus, so its difference from any sum with the modulus exists. -/
theorem mod_le_add {n : Nat} (hn : 0 < n) (a b : Nat) : b % n ≤ a + n :=
  (Nat.mod_lt b hn).le.trans (Nat.le_add_left n a)

theorem modSub_eq {n : Nat} (hn : 0 < n) (a b : Nat) : modSub a b n = .ok (Modular.sub a b n) := by
  rw [modSub, mod_of_pos hn, ok_bind, sub_of_le (mod_le_add hn a b), ok_bind, mod_of_pos hn]
  rfl

example : modSub 3 5 0 = .error (.trap (.zeroModulus 5)) := rfl

theorem lt_of_mod_shiftRight {n a t r : Nat} (h : mod n (a >>> t) = .ok r) : r < a := by
  obtain ⟨hpos, rfl⟩ := mod_eq_ok_iff.1 h
  exact (Nat.mod_lt n hpos).trans_le (Nat.shiftRight_le a t)

/-- The loop of the Jacobi symbol. -/
def symbolLoop (a n : Nat) (s : Int) : Checked Int :=
  if 1 < a then
    let odd := a >>> Jacobi.twos a
    let s := Jacobi.twosSign (Jacobi.twos a) n * s
    if odd = 1 then .ok s
    else
      match hr : mod n odd with
      | .ok r =>
        have : r < a := lt_of_mod_shiftRight hr
        symbolLoop r odd (Jacobi.swapSign odd n * s)
      | .error stop => .error stop
  else if a = 0 then .ok 0 else .ok s
termination_by a

/-- The moduli of the loop are odd. -/
theorem symbolLoop_eq (a n : Nat) (s : Int) : symbolLoop a n s = .ok (Jacobi.loop a n s) := by
  fun_induction Jacobi.loop a n s with
  | case1 a n s ha odd s' hodd =>
    rw [symbolLoop, if_pos ha]
    exact if_pos hodd
  | case2 a n s ha odd s' hodd ih =>
    have hpos : 0 < odd := Nat.pos_of_ne_zero fun h0 => by
      have hremainder := Jacobi.shiftRight_twos_odd (a := a) (by omega)
      rw [show a >>> Jacobi.twos a = 0 from h0] at hremainder
      contradiction
    rw [symbolLoop, if_pos ha, if_neg hodd]
    split
    next r hr =>
      obtain ⟨-, rfl⟩ := mod_eq_ok_iff.1 hr
      exact ih
    next stop hstop =>
      rw [mod_of_pos hpos] at hstop
      cases hstop
  | case3 n s ha => rw [symbolLoop, if_neg ha, if_pos rfl]
  | case4 a n s ha h0 => rw [symbolLoop, if_neg ha, if_neg h0]

/-- The Jacobi symbol of a number, which is reduced once the modulus is checked. -/
def symbol (a n : Nat) : Checked Int :=
  if Jacobi.IsModulus n then do
    let r ← mod a n
    symbolLoop r n 1
  else refuse .invalidModulus

theorem symbol_eq (a n : Nat) : symbol a n = unchecked (Jacobi.symbol a n) := by
  unfold symbol Jacobi.symbol
  split_ifs with hn
  · have hpos : 0 < n := Nat.zero_lt_of_lt hn.2
    rw [mod_of_pos hpos, ok_bind, symbolLoop_eq, unchecked_ok]
  · rfl

/-- A block with the top bits of its first byte cleared. -/
def clearTop (excess : Nat) (b : Bytes) : Checked Bytes := do
  let mask ← shiftRight 0xff excess
  match b with
  | [] => .error (.trap (.outOfBounds 0 1 0))
  | d :: rest => .ok ((d &&& mask) :: rest)

theorem ne_nil_of_clearTop {excess : Nat} {b c : Bytes} (h : clearTop excess b = .ok c) : b ≠ [] := by
  rintro rfl
  obtain ⟨_, -, htrap⟩ := bind_eq_ok_iff.1 h
  cases htrap

theorem clearTop_eq {excess : Nat} (h : excess < 8) {b : Bytes} (hb : 0 < b.length) :
    clearTop excess b = .ok (Bytes.clearTop excess b) := by
  cases b with
  | nil => contradiction
  | cons d rest =>
    rw [clearTop, shiftRight_of_lt h]
    rfl

theorem pos_of_take_ne_nil {b : Bytes} {width : Nat} (h : b.take width ≠ []) : 0 < b.length ∧ 0 < width := by
  have hpos := List.length_pos_iff.2 h
  rw [List.length_take] at hpos
  omega

/-- The rejection loop of a draw. Each turn overwrites the same block with the next bytes of the tape. -/
def scalarLoop (n width excess : Nat) (tape : Bytes) : Checked (Option (Nat × Bytes)) :=
  if tape.length < width then .ok none
  else
    match hblock : clearTop excess (tape.take width) with
    | .ok block =>
      have : 0 < tape.length ∧ 0 < width := pos_of_take_ne_nil (ne_nil_of_clearTop hblock)
      if Scalar.InRange (Bytes.toNat block) n then .ok (some (Bytes.toNat block, tape.drop width))
      else scalarLoop n width excess (tape.drop width)
    | .error stop => .error stop
termination_by tape.length

/-- A scalar drawn from a tape. A run on a tape that ends too early has no scalar, and does not trap. -/
def scalar (n : Nat) (tape : Bytes) : Checked (Option (Nat × Bytes)) := do
  let width := Scalar.blockWidth n
  let excess ← sub (8 * width) (Binary.size n)
  scalarLoop n width excess tape

theorem scalarLoop_eq {n : Nat} (hn : 0 < n) (tape : Bytes) :
    scalarLoop n (Scalar.blockWidth n) (Scalar.excess n) tape = .ok (Scalar.search n tape) := by
  have hwidth := (Scalar.lt_block_bound hn).2
  induction hlength : tape.length using Nat.strong_induction_on generalizing tape with
  | _ length ih =>
    rcases Nat.lt_or_ge tape.length (Scalar.blockWidth n) with hshort | hlong
    · rw [scalarLoop, if_pos hshort, Scalar.search_of_short hshort]
    -- A refused block is behind the rest of the loop, whose tape is shorter by it.
    let b : Block (Scalar.blockWidth n) := ⟨tape.take (Scalar.blockWidth n), by simp [hlong]⟩
    have hblock : clearTop (Scalar.excess n) (tape.take (Scalar.blockWidth n)) =
        .ok (Bytes.clearTop (Scalar.excess n) b.bytes) :=
      clearTop_eq (Scalar.excess_lt n) (by rw [b.length_bytes]; exact hwidth)
    have hsearch := Scalar.search_block_append hn b (tape.drop (Scalar.blockWidth n))
    rw [List.take_append_drop] at hsearch
    rw [scalarLoop, if_neg (by omega), hsearch]
    split
    next block hok =>
      cases hblock.symm.trans hok
      change (if Scalar.InRange (Scalar.value n b) n then _ else _) = _
      split_ifs with hrange
      · rfl
      · exact ih _ (by rw [List.length_drop]; omega) _ rfl
    next stop hstop => cases hblock.symm.trans hstop

theorem scalar_eq {n : Nat} (hn : 0 < n) (tape : Bytes) : scalar n tape = .ok (Scalar.search n tape) := by
  have hsize := Scalar.size_add_excess n
  have hexcess : 8 * Scalar.blockWidth n - Binary.size n = Scalar.excess n := by
    rw [Binary.size_eq]
    rfl
  rw [scalar, sub_of_le (by rw [Binary.size_eq]; omega), ok_bind, hexcess, scalarLoop_eq hn]

/-- A block for the order zero has no first byte. -/
theorem scalar_zero (tape : Bytes) : scalar 0 tape = .error (.trap (.outOfBounds 0 1 0)) := by
  rw [scalar, sub_of_le (by decide), ok_bind, scalarLoop]
  rfl

end BlindSchnorr.Checked
