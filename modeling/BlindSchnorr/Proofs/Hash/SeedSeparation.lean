import BlindSchnorr.Proofs.Hash.NonceStream

/-!
# Different inputs are different seeds

The parts of a seed are written one behind the other with no marks between them, the optional ones in
the order entropy, tag. The widths that are accepted tell the parts apart all the same: no two of the
four combinations of optional parts are of one width. So seeding never digests the same message for two
inputs, and it ends in the same generator for both only if two different messages have one digest.
-/
namespace BlindSchnorr.Nonce

variable {H : HashSuite} {s t : Seed}

namespace Seed

/-- The width of a seed tells the widths of its optional parts. -/
theorem widths_eq_of_length_eq (hs : s.check = .ok ()) (ht : t.check = .ok ())
    (h : s.bytes.length = t.bytes.length) :
    s.entropy.length = t.entropy.length ∧ s.tag.length = t.tag.length := by
  obtain ⟨hkey, hmessage, htag, hentropy⟩ := check_eq_ok_iff.1 hs
  obtain ⟨hkey', hmessage', htag', hentropy'⟩ := check_eq_ok_iff.1 ht
  simp only [bytes, List.length_append] at h
  omega

/-- A seed can be read back: no two accepted inputs are written alike. -/
theorem eq_of_bytes_eq (hs : s.check = .ok ()) (ht : t.check = .ok ()) (h : s.bytes = t.bytes) : s = t := by
  obtain ⟨hkey, hmessage, -, -⟩ := check_eq_ok_iff.1 hs
  obtain ⟨hkey', hmessage', -, -⟩ := check_eq_ok_iff.1 ht
  obtain ⟨hentropy, htag⟩ := widths_eq_of_length_eq hs ht (congrArg List.length h)
  obtain ⟨h, htags⟩ := List.append_inj' h htag
  obtain ⟨h, hentropies⟩ := List.append_inj' h hentropy
  obtain ⟨hkeys, hmessages⟩ := List.append_inj h (hkey.trans hkey'.symm)
  cases s
  cases t
  rw [Seed.mk.injEq]
  exact ⟨hkeys, hmessages, htags, hentropies⟩

end Seed

namespace Generator

/-- The state that seeding starts from. -/
def blank : Generator := ⟨Block.replicate 32 0, Block.replicate 32 1⟩

/-- The message that is digested into the key as data are mixed into a generator. -/
def mixed (g : Generator) (separator : UInt8) (data : Bytes) : Bytes := g.value.bytes ++ separator :: data

/-- The keyed digests by which a seed gets into the key of a generator: the key and the message of the
first, under the separator zero, and of the second, under one. -/
def mixings (H : HashSuite) (seed : Bytes) : List (Word × Bytes) :=
  [(blank.key, blank.mixed 0 seed), ((mix H blank 0 seed).key, (mix H blank 0 seed).mixed 1 seed)]

/-- The digests are the keys that seeding goes through. -/
theorem digests_mixings (H : HashSuite) (seed : Bytes) :
    (mixings H seed).map (fun q => H.mac q.1 q.2) = [(mix H blank 0 seed).key, (seeded H seed).key] := rfl

theorem exists_mixing_of_seeded (H : HashSuite) (seed : Bytes) :
    ∃ q ∈ mixings H seed, H.mac q.1 q.2 = (seeded H seed).key := by
  rw [← List.mem_map, digests_mixings]
  exact List.mem_cons_of_mem _ (List.mem_singleton_self _)

/-- The data can be read back from a message, whatever they are mixed into. -/
theorem eq_of_mixed_eq {g g' : Generator} {separator separator' : UInt8} {data data' : Bytes}
    (h : g.mixed separator data = g'.mixed separator' data') : data = data' := by
  obtain ⟨-, htail⟩ := List.append_inj h (g.value.length_bytes.trans g'.value.length_bytes.symm)
  exact (List.cons.inj htail).2

theorem exists_mixed_of_mem_mixings {seed : Bytes} {q : Word × Bytes} (h : q ∈ mixings H seed) :
    ∃ (g : Generator) (separator : UInt8), q.2 = g.mixed separator seed := by
  simp only [mixings, List.mem_cons, List.not_mem_nil, or_false] at h
  rcases h with rfl | rfl <;> exact ⟨_, _, rfl⟩

/-- No message of one seed is a message of another one. -/
theorem message_ne_of_mem_mixings {seed seed' : Bytes} (hne : seed ≠ seed') {q q' : Word × Bytes}
    (h : q ∈ mixings H seed) (h' : q' ∈ mixings H seed') : q.2 ≠ q'.2 := by
  intro heq
  obtain ⟨g, separator, hq⟩ := exists_mixed_of_mem_mixings h
  obtain ⟨g', separator', hq'⟩ := exists_mixed_of_mem_mixings h'
  rw [hq, hq'] at heq
  exact hne (eq_of_mixed_eq heq)

end Generator

/-- Accepted inputs that differ in any part have different seeds, and none of the messages by which one
of the seeds gets into a generator is a message of the other. So schemes with different tags are set
apart, and so are schemes of which only one has a tag or entropy, whatever the keys, the messages and
the entropy. Two inputs come to the same generator only if two of these messages have one digest. -/
theorem separates_inputs (H : HashSuite) (hs : s.check = .ok ()) (ht : t.check = .ok ()) :
    (s ≠ t → s.bytes ≠ t.bytes ∧
      ∀ q ∈ Generator.mixings H s.bytes, ∀ q' ∈ Generator.mixings H t.bytes, q.2 ≠ q'.2) ∧
    (s.tag ≠ t.tag ∨ (s.tag = [] ↔ t.tag ≠ []) ∨ (s.entropy = [] ↔ t.entropy ≠ []) →
      s.bytes ≠ t.bytes) ∧
    (s ≠ t → Generator.seeded H s.bytes = Generator.seeded H t.bytes →
      ∃ q ∈ Generator.mixings H s.bytes, ∃ q' ∈ Generator.mixings H t.bytes,
        q.2 ≠ q'.2 ∧ H.mac q.1 q.2 = H.mac q'.1 q'.2) := by
  have hseed : s ≠ t → s.bytes ≠ t.bytes := mt (Seed.eq_of_bytes_eq hs ht)
  refine ⟨?_, ?_, ?_⟩
  · intro hne
    exact ⟨hseed hne, fun q h q' h' => Generator.message_ne_of_mem_mixings (hseed hne) h h'⟩
  · intro hscheme
    apply hseed
    rintro rfl
    tauto
  · intro hne hsame
    obtain ⟨q, h, hq⟩ := Generator.exists_mixing_of_seeded H s.bytes
    obtain ⟨q', h', hq'⟩ := Generator.exists_mixing_of_seeded H t.bytes
    refine ⟨q, h, q', h', Generator.message_ne_of_mem_mixings (hseed hne) h h', ?_⟩
    rw [hq, hq', hsame]

/-- An input with a tag and no entropy. -/
def taggedSeed : Seed :=
  { privateKey := List.replicate 32 1, message := List.replicate 32 0, tag := schnorrTag }

/-- An input without a tag, whose entropy begins like one. -/
def untaggedSeed : Seed :=
  { privateKey := List.replicate 32 1, message := List.replicate 32 0,
    entropy := schnorrTag ++ List.replicate 16 0 }

/-- The seed of the first input is the beginning of the seed of the second, and still none of its messages
is one of the second. -/
theorem separates_inputs_sample : taggedSeed.check = .ok () ∧ untaggedSeed.check = .ok () ∧
    taggedSeed.bytes = untaggedSeed.bytes.take 80 ∧ taggedSeed.bytes ≠ untaggedSeed.bytes ∧
    ∀ q ∈ Generator.mixings HashSuite.sha256 taggedSeed.bytes,
      ∀ q' ∈ Generator.mixings HashSuite.sha256 untaggedSeed.bytes, q.2 ≠ q'.2 := by
  have htagged : taggedSeed.check = .ok () := by decide
  have huntagged : untaggedSeed.check = .ok () := by decide
  obtain ⟨hinput, hscheme, -⟩ := separates_inputs HashSuite.sha256 htagged huntagged
  exact ⟨htagged, huntagged, by decide, hscheme (.inl (by decide)), (hinput (by decide)).2⟩

/-- Entropy of a width that is refused would be written like a tag. -/
example : Seed.bytes { taggedSeed with tag := [], entropy := schnorrTag } = taggedSeed.bytes := rfl

end BlindSchnorr.Nonce
