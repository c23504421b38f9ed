import BlindSchnorr.Proofs.Arith.ScalarDraw

/-!
# Drawn scalars are uniform

A draw goes through the blocks of the tape and keeps the first whose value is in range, so the
tape that is left starts behind that block. One scalar is the value of as many blocks as any
other.
-/
namespace BlindSchnorr

namespace Bytes

/-- A string with the `excess` top bits of its first byte cleared. -/
def clearTop (excess : Nat) : Bytes → Bytes
  | [] => []
  | d :: rest => (d &&& 0xff >>> UInt8.ofNat excess) :: rest

theorem toNat_and_mask {excess : Nat} (h : excess < 8) (d : UInt8) :
    (d &&& 0xff >>> UInt8.ofNat excess).toNat = d.toNat % 2 ^ (8 - excess) := by
  have hmask : ((0xff : UInt8) >>> UInt8.ofNat excess).toNat = 2 ^ (8 - excess) - 1 := by
    interval_cases excess <;> rfl
  rw [UInt8.toNat_and, hmask, Nat.and_two_pow_sub_one_eq_mod]

/-- Clearing top bits takes a remainder modulo a power of two. -/
theorem toNat_clearTop {excess : Nat} (h : excess < 8) (b : Bytes) :
    toNat (clearTop excess b) = toNat b % 2 ^ (8 * b.length - excess) := by
  cases b with
  | nil => simp [clearTop, Nat.mod_one]
  | cons d rest =>
    have hrest : toNat rest < 256 ^ rest.length := toNat_lt rest
    have hpow : 2 ^ (8 * (d :: rest).length - excess) = 256 ^ rest.length * 2 ^ (8 - excess) := by
      rw [show (256 : Nat) = 2 ^ 8 by norm_num, ← pow_mul, ← pow_add, List.length_cons]
      congr 1
      omega
    rw [clearTop, toNat_cons, toNat_cons, toNat_and_mask h, hpow, Nat.mod_mul, mul_comm d.toNat,
      Nat.mul_add_mod, Nat.mod_eq_of_lt hrest, Nat.mul_add_div (by positivity), Nat.div_eq_of_lt hrest,
      add_zero]
    ring

end Bytes

namespace Scalar

variable {n v : Nat} {tape rest : Bytes}

/-- How many bits a block has more than the order. -/
def excess (n : Nat) : Nat := 8 * blockWidth n - n.size

/-- What a block is worth to a draw: the number that it writes, its excess bits cleared. -/
def value (n : Nat) (b : Block (blockWidth n)) : Nat := Bytes.toNat (Bytes.clearTop (excess n) b.bytes)

theorem excess_lt (n : Nat) : excess n < 8 := by
  rw [excess, blockWidth, Binary.size_eq]
  omega

theorem size_add_excess (n : Nat) : n.size + excess n = 8 * blockWidth n := by
  rw [excess, blockWidth, Binary.size_eq]
  omega

theorem value_eq (b : Block (blockWidth n)) : value n b = b.toNat % 2 ^ n.size := by
  have hbits : 8 * blockWidth n - excess n = n.size := by
    have := size_add_excess n
    omega
  rw [value, Bytes.toNat_clearTop (excess_lt n), b.length_bytes, hbits]
  rfl

theorem candidate_bytes (b : Block (blockWidth n)) : candidate n b.bytes = value n b := by
  rw [value_eq, candidate, Binary.size_eq, Nat.one_shiftLeft]
  rfl

theorem search_block_append (hn : 0 < n) (b : Block (blockWidth n)) (rest : Bytes) :
    search n (b.bytes ++ rest) = if InRange (value n b) n then some (value n b, rest) else search n rest := by
  rw [search_append hn, candidate_bytes]

/-- Blocks out of range leave no trace. -/
theorem search_refused (hn : 0 < n) {refused : List (Block (blockWidth n))}
    (h : ∀ b ∈ refused, ¬InRange (value n b) n) (tape : Bytes) :
    search n (refused.flatMap Block.bytes ++ tape) = search n tape := by
  induction refused with
  | nil => simp
  | cons b refused ih =>
    obtain ⟨hb, hrefused⟩ := List.forall_mem_cons.1 h
    rw [List.flatMap_cons, List.append_assoc, search_block_append hn, if_neg hb, ih hrefused]

/-- A tape starts with blocks out of range. Behind them there is one in range, or less than a block. -/
theorem exists_refused (hn : 0 < n) (tape : Bytes) :
    ∃ (refused : List (Block (blockWidth n))) (rest : Bytes), (∀ b ∈ refused, ¬InRange (value n b) n) ∧
      tape = refused.flatMap Block.bytes ++ rest ∧
      (rest.length < blockWidth n ∨ ∃ b rest', InRange (value n b) n ∧ rest = b.bytes ++ rest') := by
  induction hlength : tape.length using Nat.strong_induction_on generalizing tape with
  | _ length ih =>
    rcases Nat.lt_or_ge tape.length (blockWidth n) with hshort | hlong
    · exact ⟨[], tape, by simp, by simp, .inl hshort⟩
    have hsplit := List.take_append_drop (blockWidth n) tape
    let b : Block (blockWidth n) := ⟨tape.take (blockWidth n), by simp; omega⟩
    by_cases hb : InRange (value n b) n
    · exact ⟨[], tape, by simp, by simp, .inr ⟨b, tape.drop (blockWidth n), hb, hsplit.symm⟩⟩
    · have hwidth := (lt_block_bound hn).2
      have hless : (tape.drop (blockWidth n)).length < length := by
        rw [List.length_drop]
        omega
      obtain ⟨refused, rest, hrefused, hdrop, hrest⟩ := ih _ hless (tape.drop (blockWidth n)) rfl
      refine ⟨b :: refused, rest, List.forall_mem_cons.2 ⟨hb, hrefused⟩, ?_, hrest⟩
      rw [List.flatMap_cons, List.append_assoc, ← hdrop]
      exact hsplit.symm

theorem search_eq_some_iff (hn : 0 < n) : search n tape = some (v, rest) ↔
    ∃ (refused : List (Block (blockWidth n))) (b : Block (blockWidth n)),
      (∀ c ∈ refused, ¬InRange (value n c) n) ∧ InRange (value n b) n ∧ value n b = v ∧
      tape = refused.flatMap Block.bytes ++ (b.bytes ++ rest) := by
  constructor
  · intro h
    obtain ⟨refused, tail, hrefused, rfl, hshort | ⟨b, rest', hb, rfl⟩⟩ := exists_refused hn tape
    · rw [search_refused hn hrefused, search_of_short hshort] at h
      cases h
    · rw [search_refused hn hrefused, search_block_append hn, if_pos hb] at h
      cases h
      exact ⟨refused, b, hrefused, hb, rfl, rfl⟩
  · intro ⟨refused, b, hrefused, hb, hv, htape⟩
    rw [htape, search_refused hn hrefused, search_block_append hn, if_pos hb, hv]

theorem search_eq_none_iff (hn : 0 < n) : search n tape = none ↔
    ∃ (refused : List (Block (blockWidth n))) (rest : Bytes), (∀ c ∈ refused, ¬InRange (value n c) n) ∧
      rest.length < blockWidth n ∧ tape = refused.flatMap Block.bytes ++ rest := by
  constructor
  · intro h
    obtain ⟨refused, tail, hrefused, rfl, hshort | ⟨b, rest', hb, rfl⟩⟩ := exists_refused hn tape
    · exact ⟨refused, tail, hrefused, hshort, rfl⟩
    · rw [search_refused hn hrefused, search_block_append hn, if_pos hb] at h
      cases h
  · intro ⟨refused, rest, hrefused, hshort, htape⟩
    rw [htape, search_refused hn hrefused, search_of_short hshort]

/-- Of the blocks with a given value there is one for each setting of the excess bits. -/
theorem ncard_value (hv : v < 2 ^ n.size) :
    {b : Block (blockWidth n) | value n b = v}.ncard = 2 ^ excess n := by
  have hfull : 2 ^ n.size * 2 ^ excess n = 256 ^ blockWidth n := by
    rw [← pow_add, size_add_excess, pow_mul]
    norm_num
  -- The excess bits stand above the value.
  let block (i : Fin (2 ^ excess n)) : Block (blockWidth n) :=
    Block.ofNat (blockWidth n) (v + 2 ^ n.size * i)
  have hblock : ∀ i, (block i).toNat = v + 2 ^ n.size * i := by
    intro i
    have hlt : v + 2 ^ n.size * i < 2 ^ n.size * 2 ^ excess n := by
      have hi := Nat.mul_le_mul_left (2 ^ n.size) i.isLt
      rw [Nat.mul_succ] at hi
      omega
    rw [Block.toNat_ofNat, Nat.mod_eq_of_lt (hlt.trans_eq hfull)]
  have hinjective : Function.Injective block := by
    intro i j h
    have heq := congrArg Block.toNat h
    rw [hblock, hblock, Nat.add_left_cancel_iff] at heq
    exact Fin.ext (Nat.eq_of_mul_eq_mul_left (Nat.two_pow_pos n.size) heq)
  have hrange : {b : Block (blockWidth n) | value n b = v} = Set.range block := by
    ext b
    simp only [Set.mem_ofPred_eq, Set.mem_range, value_eq]
    constructor
    · intro h
      have hquotient : b.toNat / 2 ^ n.size < 2 ^ excess n := by
        apply Nat.div_lt_of_lt_mul
        rw [hfull]
        exact b.toNat_lt
      refine ⟨⟨_, hquotient⟩, Block.toNat_injective ?_⟩
      rw [hblock, ← h]
      exact Nat.mod_add_div _ _
    · intro ⟨i, hi⟩
      rw [← hi, hblock, Nat.add_mul_mod_self_left, Nat.mod_eq_of_lt hv]
  rw [hrange, Set.ncard_range_of_injective hinjective, Nat.card_fin]

/-- A draw returns the value of the first block in range and leaves the tape behind that block; it
comes to nothing if the tape ends before. Among the blocks every scalar has the same share. -/
theorem draw_uniform (hn : 2 ≤ n) :
    blockWidth n = (n.size + 7) / 8 ∧
    (∀ tape v rest, (draw n).run tape = some (v, rest) ↔
      ∃ (refused : List (Block (blockWidth n))) (b : Block (blockWidth n)),
        (∀ c ∈ refused, ¬InRange (value n c) n) ∧ InRange (value n b) n ∧ value n b = v ∧
        tape = refused.flatMap Block.bytes ++ (b.bytes ++ rest)) ∧
    (∀ tape, (draw n).run tape = none ↔ ∃ (refused : List (Block (blockWidth n))) (rest : Bytes),
      (∀ c ∈ refused, ¬InRange (value n c) n) ∧ rest.length < blockWidth n ∧
      tape = refused.flatMap Block.bytes ++ rest) ∧
    Nat.card (Block (blockWidth n)) = 256 ^ blockWidth n ∧
    ∀ v, InRange v n → {b : Block (blockWidth n) | value n b = v}.ncard = 2 ^ (8 * blockWidth n - n.size) := by
  have hpos : 0 < n := by omega
  refine ⟨?_, ?_, ?_, Block.natCard _, ?_⟩
  · rw [blockWidth, Binary.size_eq]
  · intro tape v rest
    exact search_eq_some_iff hpos
  · intro tape
    exact search_eq_none_iff hpos
  · intro v hv
    exact ncard_value (hv.2.trans (Nat.lt_size_self n))

/-- The order 256 has nine bits, so of two bytes seven bits are cleared. A block of value 256 is refused
and the next taken; there are 128 that draw 11. -/
theorem draw_uniform_256 : blockWidth 256 = 2 ∧
    (draw 256).run [0xff, 0x00, 0xfe, 0x0b, 0x05] = some (11, [0x05]) ∧
    (draw 256).run [0xff, 0x00, 0xfe] = none ∧
    Nat.card (Block (blockWidth 256)) = 65536 ∧
    {b : Block (blockWidth 256) | value 256 b = 11}.ncard = 128 := by
  obtain ⟨-, hsome, hnone, hcard, hshare⟩ := draw_uniform (show 2 ≤ 256 by decide)
  have hwidth : blockWidth 256 = 2 := by decide +kernel
  have hsize : Nat.size 256 = 9 := by rw [← Binary.size_eq]; decide +kernel
  let refused : Block (blockWidth 256) := ⟨[0xff, 0x00], hwidth.symm⟩
  let taken : Block (blockWidth 256) := ⟨[0xfe, 0x0b], hwidth.symm⟩
  have hrefused : value 256 refused = 256 := by
    rw [value_eq, hsize]
    exact show Bytes.toNat [0xff, 0x00] % 2 ^ 9 = 256 by decide
  have htaken : value 256 taken = 11 := by
    rw [value_eq, hsize]
    exact show Bytes.toNat [0xfe, 0x0b] % 2 ^ 9 = 11 by decide
  have hout : ∀ c ∈ [refused], ¬InRange (value 256 c) 256 := by simp [hrefused, InRange]
  refine ⟨hwidth, ?_, ?_, ?_, ?_⟩
  · exact (hsome _ _ _).2 ⟨[refused], taken, hout, by rw [htaken]; decide, htaken, rfl⟩
  · exact (hnone _).2 ⟨[refused], [0xfe], hout, by rw [hwidth]; decide, rfl⟩
  · rw [hcard, hwidth]
    rfl
  · rw [hshare 11 (by decide), hwidth, hsize]
    rfl

end Scalar

end BlindSchnorr
