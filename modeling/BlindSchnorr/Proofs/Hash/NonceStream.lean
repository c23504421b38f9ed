import BlindSchnorr.Hash.Nonce
import BlindSchnorr.Proofs.Encoding.Numeral
import BlindSchnorr.Proofs.Outcome

/-!
# The stream of candidates for a nonce

The nonce is the first scalar of a stream that the seed alone decides. A generator has
finitely many states, so the search gives up only where the whole stream has no scalar.
-/
namespace BlindSchnorr.Nonce

variable {H : HashSuite}

namespace Generator

def next (H : HashSuite) (g : Generator) : Generator := mix H (advance H g) 0 []

def draw (H : HashSuite) (g : Generator) (i : Nat) : Nat := (advance H ((next H)^[i] g)).value.toNat

/-- The search finds the first scalar of the stream. -/
theorem search_eq_some_iff {order n k : Nat} {g : Generator} :
    search H order n g = some k ↔ ∃ i < n, draw H g i = k ∧ Scalar.InRange k order ∧
      ∀ j < i, ¬ Scalar.InRange (draw H g j) order := by
  induction n generalizing g with
  | zero =>
    rw [search]
    simp
  | succ n ih =>
    rw [search, Nat.exists_lt_succ_left]
    by_cases hfirst : Scalar.InRange (draw H g 0) order
    · rw [if_pos (by exact hfirst), Option.some.injEq]
      constructor
      · rintro rfl
        exact .inl ⟨rfl, hfirst, fun j hj => absurd hj j.not_lt_zero⟩
      · rintro (⟨hk, -⟩ | ⟨i, -, -, -, hrejected⟩)
        · exact hk
        · exact absurd hfirst (hrejected 0 i.succ_pos)
    · rw [if_neg (by exact hfirst), ← next, ih]
      constructor
      · rintro ⟨i, hi, hk, hrange, hrejected⟩
        exact .inr ⟨i, hi, hk, hrange, Nat.forall_lt_succ_left.2 ⟨hfirst, hrejected⟩⟩
      · rintro (⟨rfl, hrange, -⟩ | ⟨i, hi, hk, hrange, hrejected⟩)
        · exact absurd hrange hfirst
        · exact ⟨i, hi, hk, hrange, (Nat.forall_lt_succ_left.1 hrejected).2⟩

theorem inRange_of_search {order n k : Nat} {g : Generator} (h : search H order n g = some k) :
    Scalar.InRange k order := by
  obtain ⟨-, -, -, hrange, -⟩ := search_eq_some_iff.1 h
  exact hrange

theorem states_eq : states = 2 ^ 256 * 2 ^ 256 := by
  rw [states, Nat.one_shiftLeft, ← pow_add]

/-- Two states agree among any `states + 1` of a run. -/
lemma exists_repeat (f : Generator → Generator) (g : Generator) :
    ∃ i j, i < j ∧ j ≤ states ∧ f^[i] g = f^[j] g := by
  -- a state is told by the numbers of its key and its value
  let digits : Generator → Fin (2 ^ 256) × Fin (2 ^ 256) := fun g =>
    (⟨g.key.toNat, Word.toNat_lt g.key⟩, ⟨g.value.toNat, Word.toNat_lt g.value⟩)
  have hdigits {g h : Generator} (heq : digits g = digits h) : g = h := by
    obtain ⟨hkey, hvalue⟩ := Prod.mk.inj heq
    cases g
    cases h
    congr
    · exact Block.toNat_injective (Fin.mk.inj hkey)
    · exact Block.toNat_injective (Fin.mk.inj hvalue)
  have hcard : Fintype.card (Fin (2 ^ 256) × Fin (2 ^ 256)) < Fintype.card (Fin (states + 1)) := by
    rw [Fintype.card_prod, Fintype.card_fin, Fintype.card_fin, states_eq]
    exact Nat.lt_succ_self _
  obtain ⟨i, j, hne, heq⟩ :=
    Fintype.exists_ne_map_eq_of_card_lt (fun i : Fin (states + 1) => digits (f^[i] g)) hcard
  obtain hlt | hlt := lt_or_gt_of_ne hne
  · exact ⟨i, j, hlt, Nat.le_of_lt_succ j.isLt, hdigits heq⟩
  · exact ⟨j, i, hlt, Nat.le_of_lt_succ i.isLt, (hdigits heq).symm⟩

/-- Every state of a run comes up in its first `states` steps. -/
lemma exists_lt_iterate_eq (f : Generator → Generator) (g : Generator) (n : Nat) :
    ∃ m < states, f^[m] g = f^[n] g := by
  induction n using Nat.strong_induction_on with
  | _ n ih =>
    by_cases hn : n < states
    · exact ⟨n, hn, rfl⟩
    · obtain ⟨i, j, hij, hj, heq⟩ := exists_repeat f g
      obtain ⟨m, hm, hcycle⟩ := ih (n - j + i) (by omega)
      refine ⟨m, hm, hcycle.trans ?_⟩
      calc f^[n - j + i] g = f^[n - j] (f^[j] g) := by rw [Function.iterate_add_apply, heq]
        _ = f^[n] g := by rw [← Function.iterate_add_apply, Nat.sub_add_cancel (by omega)]

/-- The search of a generator is exhaustive: it fails only if no value of the endless stream is
a scalar. -/
theorem search_states_eq_none_iff {order : Nat} {g : Generator} :
    search H order states g = none ↔ ∀ i, ¬ Scalar.InRange (draw H g i) order := by
  rw [Option.eq_none_iff_forall_ne_some]
  constructor
  · intro hnone i hi
    obtain ⟨m, hm, hsame⟩ := exists_lt_iterate_eq (next H) g i
    have hex : ∃ i, Scalar.InRange (draw H g i) order := ⟨i, hi⟩
    have hm' : Scalar.InRange (draw H g m) order := by
      rw [draw, hsame]
      exact hi
    classical
    exact hnone _ (search_eq_some_iff.2 ⟨Nat.find hex, (Nat.find_min' hex hm').trans_lt hm, rfl,
      Nat.find_spec hex, fun j hj => Nat.find_min hex hj⟩)
  · intro hrejected k hk
    obtain ⟨i, -, rfl, hrange, -⟩ := search_eq_some_iff.1 hk
    exact hrejected i hrange

end Generator

theorem Seed.check_eq_ok_iff {s : Seed} {u : Unit} :
    s.check = .ok u ↔ s.privateKey.length = 32 ∧ s.message.length = 32 ∧
      (s.tag.length = 0 ∨ s.tag.length = 16) ∧ (s.entropy.length = 0 ∨ s.entropy.length = 32) := by
  simp only [check, bind_eq_ok_iff, expectWidth_eq_ok_iff, Widths.Accepts]
  constructor
  · rintro ⟨_, h₁, _, h₂, _, h₃, h₄⟩
    exact ⟨h₁, h₂, h₃, h₄⟩
  · rintro ⟨h₁, h₂, h₃, h₄⟩
    exact ⟨(), h₁, (), h₂, (), h₃, h₄⟩

theorem derive_eq_ok_iff {order k : Nat} {s : Seed} :
    derive H order s = .ok k ↔ s.check = .ok () ∧ Binary.size order = 256 ∧
      Generator.search H order Generator.states (Generator.seeded H s.bytes) = some k := by
  rw [derive, bind_eq_ok_iff]
  constructor
  · rintro ⟨_, hcheck, h⟩
    split_ifs at h with hsize
    split at h
    · next k' hk =>
      cases h
      exact ⟨hcheck, not_not.1 hsize, hk⟩
    · cases h
  · rintro ⟨hcheck, hsize, hk⟩
    refine ⟨(), hcheck, ?_⟩
    rw [if_neg (not_not.2 hsize), hk]

/-- A nonce can be missing for three reasons only: the seed, the order, or a stream without a
scalar. -/
theorem derive_isOk {order : Nat} {s : Seed} (hcheck : s.check = .ok ()) (hsize : Binary.size order = 256)
    (hends : derive H order s ≠ .error .searchExhausted) : ∃ k, derive H order s = .ok k := by
  cases hk : Generator.search H order Generator.states (Generator.seeded H s.bytes) with
  | none =>
    exfalso
    apply hends
    rw [derive, hcheck, ok_bind, if_neg (not_not.2 hsize), hk]
  | some k => exact ⟨k, derive_eq_ok_iff.2 ⟨hcheck, hsize, hk⟩⟩

theorem inRange_of_derive {order k : Nat} {s : Seed} (h : derive H order s = .ok k) :
    Scalar.InRange k order :=
  Generator.inRange_of_search (derive_eq_ok_iff.1 h).2.2

end BlindSchnorr.Nonce
