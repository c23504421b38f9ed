import BlindSchnorr.Proofs.Checked.Arithmetic

/-!
# Words and numbers

Reading a word and writing one are inverse to each other between the words and the numbers below
`2 ^ 256`. Beyond these each still has a law: a number is written as its remainder is, and what is read
from a string of another width is written as the end of the string, or as the string behind zeros.
-/
namespace BlindSchnorr.Word

/-- Two numbers have one word iff they agree modulo `2 ^ 256`. -/
theorem ofNat_eq_iff {u v : Nat} : Block.ofNat 32 u = Block.ofNat 32 v ↔ u ≡ v [MOD 2 ^ 256] := by
  constructor
  · intro h
    have hvalue := congrArg Block.toNat h
    rwa [Block.toNat_ofNat, Block.toNat_ofNat] at hvalue
  · intro h
    apply Block.toNat_injective
    rwa [Block.toNat_ofNat, Block.toNat_ofNat]

/-- Words tell apart the numbers below a bound iff it is at most `2 ^ 256`. -/
theorem injOn_ofNat_iff {bound : Nat} : Set.InjOn (Block.ofNat 32) (Set.Iio bound) ↔ bound ≤ 2 ^ 256 := by
  constructor
  · intro h
    by_contra hlt
    -- The bound itself has the word of zero.
    have hwrap : Block.ofNat 32 (2 ^ 256) = Block.ofNat 32 0 := ofNat_eq_iff.2 (by decide)
    have hzero := h (Set.mem_Iio.2 (by omega)) (Set.mem_Iio.2 (by omega)) hwrap
    exact absurd hzero (by decide)
  · intro hle u hu v hv h
    exact (ofNat_eq_iff.1 h).eq_of_lt_of_lt (hu.trans_le hle) (hv.trans_le hle)

/-- Of a number of any size a word keeps the remainder modulo `2 ^ 256`, and of a string of any width the
last 32 bytes, with zeros before a string that is shorter; cutting and padding the shortest numeral
comes to the same. So reading and writing are inverse bijections between the numbers below `2 ^ 256`
and the strings of 32 bytes, and no greater numbers are told apart by their words. -/
theorem numeral_bijection :
    (∀ v, Bytes.toNat (Bytes.ofNat 32 v) = v % 2 ^ 256) ∧
    (∀ b : Bytes, Bytes.ofNat 32 (Bytes.toNat b) =
      List.replicate (32 - b.length) 0 ++ b.drop (b.length - 32)) ∧
    (∀ v, Checked.word v = .ok (Bytes.ofNat 32 v) ∧ (Block.ofNat 32 v).bytes = Bytes.ofNat 32 v) ∧
    Set.InvOn Bytes.toNat (Bytes.ofNat 32) (Set.Iio (2 ^ 256)) {b | b.length = 32} ∧
    Set.BijOn (Bytes.ofNat 32) (Set.Iio (2 ^ 256)) {b | b.length = 32} ∧
    Set.BijOn Bytes.toNat {b | b.length = 32} (Set.Iio (2 ^ 256)) ∧
    (∀ u v, Block.ofNat 32 u = Block.ofNat 32 v ↔ u ≡ v [MOD 2 ^ 256]) ∧
    ∀ bound, Set.InjOn (Block.ofNat 32) (Set.Iio bound) ↔ bound ≤ 2 ^ 256 := by
  have hinverse := Bytes.invOn_ofNat 32
  have hbijective := Bytes.bijOn_ofNat 32
  rw [show 256 ^ 32 = 2 ^ 256 by decide] at hinverse hbijective
  refine ⟨Bytes.toNat_ofNat 32, Bytes.ofNat_toNat_pad 32, ?_, hinverse, hbijective, ?_, ?_, ?_⟩
  · intro v
    exact ⟨Checked.word_eq v, rfl⟩
  · exact (Set.bijOn_comm hinverse).2 hbijective
  · intro u v
    exact ofNat_eq_iff
  · intro bound
    exact injOn_ofNat_iff

/-- A string of 33 bytes loses its first byte, and one of two bytes gets 30 zeros. -/
example : Bytes.ofNat 32 (Bytes.toNat (7 :: List.replicate 32 1)) = List.replicate 32 1 ∧
    Bytes.ofNat 32 (Bytes.toNat [0, 5]) = List.replicate 31 0 ++ [5] := by decide

end BlindSchnorr.Word
