import BlindSchnorr.Proofs.Hash.NonceStream

/-!
# The nonce is the first scalar of a stream of blocks

A seed fixes an endless sequence of blocks, in which the order of the group has no part. The nonce
for an order is the first block that is a scalar of it. A nonce that is a scalar of a smaller order
too is the nonce for that order, since the blocks before it are scalars of neither.
-/
namespace BlindSchnorr.Nonce

variable {H : HashSuite}

/-- The keys and the blocks that a seed generates. Each block is the keyed digest of the value that
is held before it. Behind a block the key is replaced by the keyed digest of the block and a zero
byte, and the value by the digest of the block under that key. -/
structure Generates (H : HashSuite) (seed : Bytes) (key block : Nat → Word) : Prop where
  start : ∃ k v : Word,
    k = H.mac (Block.replicate 32 0) (List.replicate 32 1 ++ 0 :: seed) ∧
    v = H.mac k (List.replicate 32 1) ∧
    key 0 = H.mac k (v.bytes ++ 1 :: seed) ∧
    block 0 = H.mac (key 0) (H.mac (key 0) v.bytes).bytes
  next_key : ∀ i, key (i + 1) = H.mac (key i) ((block i).bytes ++ [0])
  next_block : ∀ i, block (i + 1) = H.mac (key (i + 1)) (H.mac (key (i + 1)) (block i).bytes).bytes

namespace Generator

/-- The states between two candidates hold the keys, and the candidates are the blocks. -/
theorem generates_seeded (H : HashSuite) (seed : Bytes) :
    Generates H seed (fun i => ((next H)^[i] (seeded H seed)).key)
      (fun i => (advance H ((next H)^[i] (seeded H seed))).value) where
  start := ⟨_, _, rfl, rfl, rfl, rfl⟩
  next_key i := by
    simp only [Function.iterate_succ_apply']
    rfl
  next_block i := by
    simp only [Function.iterate_succ_apply']
    rfl

/-- The search for a nonce finds the first scalar of the endless stream, however late it comes. -/
theorem search_states_eq_some_iff {order k : Nat} {g : Generator} :
    search H order states g = some k ↔ ∃ i, draw H g i = k ∧ Scalar.InRange k order ∧
      ∀ j < i, ¬Scalar.InRange (draw H g j) order := by
  constructor
  · intro h
    obtain ⟨i, -, hfirst⟩ := search_eq_some_iff.1 h
    exact ⟨i, hfirst⟩
  · rintro ⟨i, rfl, hrange, hrejected⟩
    cases hsearch : search H order states g with
    | none => exact absurd hrange (search_states_eq_none_iff.1 hsearch i)
    | some k' =>
      obtain ⟨i', -, rfl, hrange', hrejected'⟩ := search_eq_some_iff.1 hsearch
      -- Of two first scalars the later one would have come too late.
      have hsame : i' = i := by
        rcases Nat.lt_trichotomy i' i with hlt | heq | hgt
        · exact absurd hrange' (hrejected i' hlt)
        · exact heq
        · exact absurd hrange (hrejected' i hgt)
      rw [hsame]

end Generator

/-- The nonce for an order is the first of the blocks that a seed generates to be a scalar of the
order. The blocks are the same for all orders, so a nonce that is a scalar of a smaller order is the
nonce for that order too. -/
theorem derive_first_scalar (H : HashSuite) {s : Seed} (hs : s.check = .ok ()) :
    ∃ key block, Generates H s.bytes key block ∧
      (∀ n, Binary.size n = 256 → ∀ k, derive H n s = .ok k ↔
        (0 < k ∧ k < n) ∧ ∃ i, (block i).toNat = k ∧ ∀ j < i, ¬Scalar.InRange (block j).toNat n) ∧
      ∀ n₁ n₂ k, Binary.size n₁ = 256 → n₁ ≤ n₂ → derive H n₂ s = .ok k → k < n₁ →
        derive H n₁ s = .ok k := by
  have hfirst : ∀ n, Binary.size n = 256 → ∀ k, derive H n s = .ok k ↔
      ∃ i, Generator.draw H (Generator.seeded H s.bytes) i = k ∧ Scalar.InRange k n ∧
        ∀ j < i, ¬Scalar.InRange (Generator.draw H (Generator.seeded H s.bytes) j) n := by
    intro n hn k
    rw [derive_eq_ok_iff, Generator.search_states_eq_some_iff, and_iff_right hs, and_iff_right hn]
  refine ⟨_, _, Generator.generates_seeded H s.bytes, ?_, ?_⟩
  · intro n hn k
    rw [hfirst n hn k]
    constructor
    · rintro ⟨i, hk, hrange, hrejected⟩
      exact ⟨hrange, i, hk, hrejected⟩
    · rintro ⟨hrange, i, hk, hrejected⟩
      exact ⟨i, hk, hrange, hrejected⟩
  · intro n₁ n₂ k hn₁ hle hk hlt
    obtain ⟨-, hn₂, -⟩ := derive_eq_ok_iff.1 hk
    obtain ⟨i, hi, hrange, hrejected⟩ := (hfirst n₂ hn₂ k).1 hk
    refine (hfirst n₁ hn₁ k).2 ⟨i, hi, ⟨hrange.1, hlt⟩, ?_⟩
    intro j hj hrange'
    exact hrejected j hj ⟨hrange'.1, hrange'.2.trans_le hle⟩

/-- A seed whose first two blocks have 256 and 255 bits. -/
def sampleSeed : Seed :=
  { privateKey := List.replicate 32 1, message := List.replicate 32 0, tag := schnorrTag }

/-- For an order that equals the first block this block is just out of range, and the second one is
the nonce. It is the nonce for the smallest order of 256 bits too. -/
theorem derive_first_scalar_sample :
    derive HashSuite.sha256 0xef17b9705c252e1ae0f5e3d43bdb14300f36251dfc3b0bbb369e601da57456f7 sampleSeed =
      .ok 0x40406f039f7fc9a2842e2706ceef92a99fcfea9968c9bd4008427644e0fe1ed9 ∧
    derive HashSuite.sha256 (1 <<< 255) sampleSeed =
      .ok 0x40406f039f7fc9a2842e2706ceef92a99fcfea9968c9bd4008427644e0fe1ed9 := by
  have hlarge : derive HashSuite.sha256
      0xef17b9705c252e1ae0f5e3d43bdb14300f36251dfc3b0bbb369e601da57456f7 sampleSeed =
        .ok 0x40406f039f7fc9a2842e2706ceef92a99fcfea9968c9bd4008427644e0fe1ed9 := by
    rw [derive_eq_ok_iff]
    decide +kernel
  obtain ⟨key, block, -, -, hsmaller⟩ := derive_first_scalar HashSuite.sha256 (s := sampleSeed) (by decide)
  exact ⟨hlarge, hsmaller _ _ _ (by decide +kernel) (by decide +kernel) hlarge (by decide +kernel)⟩

end BlindSchnorr.Nonce
