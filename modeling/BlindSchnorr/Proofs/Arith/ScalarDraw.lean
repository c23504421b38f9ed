import BlindSchnorr.Arith.Scalar
import BlindSchnorr.Proofs.Arith.Power
import BlindSchnorr.Proofs.Encoding.Numeral

/-!
# What is drawn from a tape

A drawn scalar is in range, and the block that writes a scalar draws it.
-/
namespace BlindSchnorr.Scalar

variable {n v : Nat} {tape rest : Bytes}

theorem inRange_of_search (h : search n tape = some (v, rest)) : InRange v n := by
  induction tape using search.induct n with
  | case1 tape width hshort =>
    rw [search, if_pos hshort] at h
    cases h
  | case2 tape width hlong candidate hrange =>
    rw [search, if_neg hlong, if_pos hrange] at h
    cases h
    exact hrange
  | case3 tape width hlong candidate hrange ih =>
    rw [search, if_neg hlong, if_neg hrange] at h
    exact ih h

lemma lt_block_bound (hn : 0 < n) : n < 256 ^ blockWidth n ∧ 0 < blockWidth n := by
  have hsize := Binary.lt_two_pow_size n
  have hbits : Binary.size n ≤ 8 * blockWidth n := by
    unfold blockWidth
    omega
  have hbound : n < 256 ^ blockWidth n := by
    rw [show (256 : Nat) = 2 ^ 8 by norm_num, ← pow_mul]
    exact hsize.trans_le (Nat.pow_le_pow_right two_pos hbits)
  refine ⟨hbound, Nat.pos_of_ne_zero fun h0 => ?_⟩
  rw [h0, pow_zero] at hbound
  omega

theorem search_of_short (h : tape.length < blockWidth n) : search n tape = none := by
  rw [search, if_pos (.inr h)]

/-- One step of a draw: a block is kept, or the draw goes on behind it. -/
theorem search_append (hn : 0 < n) (b : Block (blockWidth n)) (rest : Bytes) :
    search n (b.bytes ++ rest) =
      if InRange (candidate n b.bytes) n then some (candidate n b.bytes, rest) else search n rest := by
  have hwidth := (lt_block_bound hn).2
  have henough : ¬(blockWidth n = 0 ∨ (b.bytes ++ rest).length < blockWidth n) := by
    rw [List.length_append, b.length_bytes]
    omega
  rw [search, if_neg henough, List.take_left' b.length_bytes, List.drop_left' b.length_bytes]

/-- Every scalar is drawn from some tape. -/
theorem search_block (hv : InRange v n) (rest : Bytes) :
    search n (Bytes.ofNat (blockWidth n) v ++ rest) = some (v, rest) := by
  have hn : 0 < n := hv.1.trans hv.2
  have hvalue : candidate n (Bytes.ofNat (blockWidth n) v) = v := by
    rw [candidate, Bytes.toNat_ofNat, Nat.mod_eq_of_lt (hv.2.trans (lt_block_bound hn).1), Nat.one_shiftLeft]
    exact Nat.mod_eq_of_lt (hv.2.trans (Binary.lt_two_pow_size n))
  have hstep := search_append hn (Block.ofNat (blockWidth n) v) rest
  rwa [Block.ofNat, hvalue, if_pos hv] at hstep

def DrawnPair (n : Nat) (tape : Bytes) (α β : Nat) (rest : Bytes) : Prop :=
  ∃ between, search n tape = some (α, between) ∧ search n between = some (β, rest)

theorem DrawnPair.inRange {α β : Nat} (h : DrawnPair n tape α β rest) : InRange α n ∧ InRange β n := by
  obtain ⟨between, hα, hβ⟩ := h
  exact ⟨inRange_of_search hα, inRange_of_search hβ⟩

theorem DrawnPair.unique {α β α' β' : Nat} {rest' : Bytes} (h : DrawnPair n tape α β rest)
    (h' : DrawnPair n tape α' β' rest') : α = α' ∧ β = β' ∧ rest = rest' := by
  obtain ⟨between, hα, hβ⟩ := h
  obtain ⟨between', hα', hβ'⟩ := h'
  rw [hα, Option.some.injEq, Prod.mk.injEq] at hα'
  rw [← hα'.2, hβ, Option.some.injEq, Prod.mk.injEq] at hβ'
  exact ⟨hα'.1, hβ'⟩

theorem exists_drawnPair {α β : Nat} (hα : InRange α n) (hβ : InRange β n) (rest : Bytes) :
    ∃ tape, DrawnPair n tape α β rest :=
  ⟨_, _, search_block hα _, search_block hβ rest⟩

end BlindSchnorr.Scalar
