import BlindSchnorr.Proofs.Checked.Blind

/-!
# No operation traps

Every difference, remainder, power, shift, slice and copy that an operation reaches is within its
domain, whatever the input and whatever the backend returns. Only the order of the group has to be
sensible.
-/
namespace BlindSchnorr.Checked

variable {C : CurveGroup}

/-- Each operation runs on every input without a trap, and to the result that it has unchecked. -/
structure OperationsComplete (S : Signer C) : Prop where
  encode : ∀ P compressed,
    Completes (Checked.encode C P compressed) (((C.encode P compressed).mapError .point).map PointCode.bytes)
  decode : ∀ window b, Completes (Checked.decode C window b) ((C.decode window b).mapError .point)
  publicKey : ∀ key compressed,
    Completes (Checked.publicKey C key compressed) ((S.publicKey key compressed).map PointCode.bytes)
  sign : ∀ key message, Completes (Checked.sign S key message) ((S.sign key message).map Signature.bytes)
  verify : ∀ key signature message,
    Completes (Checked.verify S key signature message) (S.verify key signature message)
  openSession : ∀ tape,
    Completes (Checked.openSession C tape) (drawn sessionBytes ((Session.start C).run tape))
  respond : ∀ s key challenge,
    Completes (Checked.respond C s key challenge) ((s.sign C key challenge).1.map Block.bytes)
  request : ∀ publicKey commitment message tape,
    Completes (Checked.request S publicKey commitment message tape)
      (drawn requestBytes ((Requester.start S publicKey commitment message).run tape))
  finalize : ∀ (q : Requester C) response check,
    Completes (Checked.finalize q response check) ((q.finalize response check).map Signature.bytes)

/-- Over a group of order two or more, of which nothing else is assumed, every operation completes on
every input. So does the modular difference for every positive modulus. -/
theorem operations_complete (hn : 2 ≤ C.order) (S : Signer C) :
    OperationsComplete S ∧
    ∀ n, 1 ≤ n → ∀ a b, b % n ≤ a + n ∧ modSub a b n = .ok (Modular.sub a b n) := by
  have hpos : 0 < C.order := Nat.zero_lt_of_lt hn
  constructor
  · exact {
      encode := fun P compressed => .of_eq (encode_eq P compressed)
      decode := fun window b => .of_eq (decode_eq window b)
      publicKey := fun key compressed => .of_eq (publicKey_eq key compressed)
      sign := fun key message => .of_eq (sign_eq key message)
      verify := fun key signature message => .of_eq (verify_eq key signature message)
      openSession := fun tape => .of_eq (openSession_eq hpos tape)
      respond := fun s key challenge => .of_eq (respond_eq hpos s key challenge)
      request := fun publicKey commitment message tape =>
        .of_eq (request_eq hpos publicKey commitment message tape)
      finalize := fun q response check => .of_eq (finalize_eq hpos q response check) }
  · intro n hn a b
    exact ⟨mod_le_add hn a b, modSub_eq hn a b⟩

/-- A backend in which nothing fits together. Points are numbers, the coordinates of every point are
wider than a word and above the field prime, and any two numbers are the coordinates of a point. -/
def lawless : CurveGroup where
  Point := Nat
  decEq := inferInstance
  name := "lawless"
  order := 2
  fieldPrime := 3
  a := 1000
  b := 1
  generator := 7
  identity := 7
  isIdentity _ := false
  add P Q := P * Q
  negate P := P + 1
  scalarMul k P := k + P
  coordinates P := some ((1 <<< 300) + P, 1 <<< 301)
  ofCoordinates? x y := some (x + y)

/-- The only private key of the backend has a public key, whose code keeps the last 256 bits of the
x-coordinate. -/
theorem operations_complete_lawless :
    2 ≤ lawless.order ∧ OperationsComplete ({} : Signer lawless) ∧
    publicKey lawless (Bytes.ofNat 32 1) true = .ok (2 :: Bytes.ofNat 32 8) := by
  have hn : 2 ≤ lawless.order := le_rfl
  obtain ⟨hcomplete, -⟩ := operations_complete hn {}
  refine ⟨hn, hcomplete, ?_⟩
  rw [(hcomplete.publicKey _ _).eq_unchecked]
  decide +kernel

end BlindSchnorr.Checked
