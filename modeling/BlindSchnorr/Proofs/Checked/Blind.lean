import BlindSchnorr.Proofs.Blind.Answer
import BlindSchnorr.Proofs.Blind.Blinding
import BlindSchnorr.Proofs.Checked.Signing

/-!
# Checked blind signing

Both sides of a blind signature. The differences from the order that blinding and unblinding take are
those of remainders by it, so any order but zero will do.
-/
namespace BlindSchnorr.Checked

variable {C : CurveGroup} {S : Signer C} {α β : Type}

/-- What a draw comes to, its result seen through a view: nothing if the tape runs out. -/
def drawn (view : α → β) : Option (Except Error α × Bytes) → Except Error (Option (β × Bytes))
  | none => .ok none
  | some (result, rest) => result.map fun a => some (view a, rest)

section Session

/-- The commitment and the nonce of a session as byte strings. -/
def sessionBytes (s : Session) : Bytes × Option Bytes := (s.commitment.bytes, s.nonce.map Block.bytes)

def openSession (C : CurveGroup) (tape : Bytes) : Checked (Option ((Bytes × Option Bytes) × Bytes)) := do
  match ← scalar C.order tape with
  | none => .ok none
  | some (k, rest) =>
    let commitment ← encodeCompressed C (C.mulGenerator k)
    let nonce ← word k
    .ok (some ((commitment, some nonce), rest))

theorem openSession_eq (hn : 0 < C.order) (tape : Bytes) :
    openSession C tape = unchecked (drawn sessionBytes ((Session.start C).run tape)) := by
  rw [Session.run_start, openSession, scalar_eq hn, ok_bind]
  cases Scalar.search C.order tape with
  | none => rfl
  | some draw =>
    obtain ⟨k, rest⟩ := draw
    simp only [encodeCompressed_eq, word_eq, ok_bind, Option.bind_some, Session.ofNonce]
    cases C.compress (C.mulGenerator k) <;> rfl

/-- Over an order of zero no session opens: a drawn block would have no first byte. -/
theorem openSession_of_order_eq_zero (hn : C.order = 0) (tape : Bytes) :
    openSession C tape = .error (.trap (.outOfBounds 0 1 0)) := by
  rw [openSession, hn, scalar_zero]
  rfl

/-- The answer of a session to a call. -/
def respond (C : CurveGroup) (s : Session) (key challenge : Bytes) : Checked Bytes := do
  let q ← unchecked (Query.read C key challenge)
  match s.nonce with
  | none => refuse .nonceSpent
  | some nonce =>
    let r ← mod (Bytes.toNat nonce.bytes + q.challenge * q.secret) C.order
    word r

theorem respond_eq (hn : 0 < C.order) (s : Session) (key challenge : Bytes) :
    respond C s key challenge = unchecked ((s.sign C key challenge).1.map Block.bytes) := by
  unfold respond Session.sign
  cases Query.read C key challenge with
  | error ε => rfl
  | ok q =>
    rw [unchecked_ok, ok_bind, Session.take]
    cases s.nonce with
    | none => rfl
    | some nonce =>
      simp only [mod_of_pos hn, ok_bind, word_eq]
      rfl

end Session

section Requester

/-- The stored parts of a request as byte strings. -/
structure RequestBytes where
  message : Bytes
  alpha : Bytes
  negated : Bool
  rx : Bytes
  request : Bytes
deriving DecidableEq, Repr

def requestBytes (q : Requester C) : RequestBytes :=
  ⟨q.message.bytes, q.alpha.bytes, q.negated, q.rx.bytes, q.request.bytes⟩

/-- The request that two blinding factors make against a key and a commitment. -/
def blind (S : Signer C) (P R : C.Point) (message : Bytes) (α β : Nat) : Checked RequestBytes :=
  match C.coordinates (C.add (C.add R (C.mulGenerator α)) (C.scalarMul β P)) with
  | none => refuse .degenerateBlinding
  | some (x, y) => do
    let symbol ← symbol y C.fieldPrime
    if symbol ≠ 1 ∧ symbol ≠ -1 then refuse .degenerateBlinding
    else
      let negated := decide (symbol = -1)
      let rx ← word x
      let key ← encodeCompressed C P
      let e₀ ← mod (challenge S rx key message) C.order
      let e₁ ← negateIf negated C.order e₀
      let e ← mod (e₁ + β) C.order
      let stored ← copy (List.replicate 32 0) 0 32 message
      let alpha ← word α
      let request ← word e
      .ok ⟨stored, alpha, negated, rx, request⟩

theorem blind_eq (hn : 0 < C.order) (t : Terms C) (α β : Nat) :
    blind t.signer t.key t.commitment t.message.bytes α β = unchecked ((t.blind α β).map requestBytes) := by
  unfold blind Terms.blind Terms.blindedNonce
  cases C.coordinates (C.add (C.add t.commitment (C.mulGenerator α)) (C.scalarMul β t.key)) with
  | none => rfl
  | some R =>
    obtain ⟨x, y⟩ := R
    simp only [symbol_eq]
    cases Jacobi.symbol y C.fieldPrime with
    | error ε => rfl
    | ok symbol =>
      simp only [unchecked_ok, ok_bind, word_eq, encodeCompressed_eq]
      by_cases hdegenerate : symbol ≠ 1 ∧ symbol ≠ -1
      · rw [if_pos hdegenerate, if_pos hdegenerate]
        rfl
      rw [if_neg hdegenerate, if_neg hdegenerate]
      cases C.compress t.key with
      | error ε => rfl
      | ok key =>
        have hchallenge : t.signer.challenge (Block.ofNat 32 x) key t.message.bytes % C.order ≤ C.order :=
          (Nat.mod_lt _ hn).le
        simp only [Except.mapError, Except.map, unchecked_ok, ok_bind, challenge_eq, mod_of_pos hn,
          negateIf_of_le hchallenge, copy_word]
        rfl

/-- The points of the terms of a request, the length of the message checked before. -/
def readTerms (S : Signer C) (publicKey commitment message : Bytes) : Checked (C.Point × C.Point) := do
  unchecked (expectWidth "message digest" (.exactly 32) message.length)
  let P ← decode C S.config.probeWindow publicKey
  let R ← decode C S.config.probeWindow commitment
  .ok (P, R)

theorem expectWidth_eq_messageDigest (message : Bytes) :
    expectWidth "message digest" (.exactly 32) message.length = (messageDigest message).map fun _ => () := by
  unfold expectWidth messageDigest Block.ofBytes?
  by_cases h : message.length = 32
  · have haccepted : (Widths.exactly 32).Accepts message.length := h
    rw [if_pos haccepted, dif_pos h]
    rfl
  · have hrefused : ¬(Widths.exactly 32).Accepts message.length := h
    rw [if_neg hrefused, dif_neg h]
    rfl

theorem readTerms_eq (publicKey commitment message : Bytes) : readTerms S publicKey commitment message =
    unchecked ((Terms.read S publicKey commitment message).map fun t => (t.key, t.commitment)) := by
  simp only [readTerms, Terms.read, expectWidth_eq_messageDigest, unchecked_map, unchecked_bind, decode_eq,
    Signer.decode]
  cases messageDigest message with
  | error ε => rfl
  | ok w =>
  cases C.decode S.config.probeWindow publicKey with
  | error cause => rfl
  | ok P => cases C.decode S.config.probeWindow commitment <;> rfl

/-- A request with drawn blinding factors. -/
def request (S : Signer C) (publicKey commitment message tape : Bytes) :
    Checked (Option (RequestBytes × Bytes)) := do
  let (P, R) ← readTerms S publicKey commitment message
  match ← scalar C.order tape with
  | none => .ok none
  | some (α, between) =>
    match ← scalar C.order between with
    | none => .ok none
    | some (β, rest) =>
      let q ← blind S P R message α β
      .ok (some (q, rest))

theorem request_eq (hn : 0 < C.order) (publicKey commitment message tape : Bytes) :
    request S publicKey commitment message tape =
      unchecked (drawn requestBytes ((Requester.start S publicKey commitment message).run tape)) := by
  rw [request, readTerms_eq]
  cases hread : Terms.read S publicKey commitment message with
  | error ε =>
    rw [Requester.start, hread]
    rfl
  | ok t =>
    obtain ⟨w, P, R, rfl, -, -, ht⟩ := Terms.read_eq_ok_iff.1 hread
    have hblind := blind_eq hn t
    rw [Requester.start_of_read hread]
    subst ht
    simp only [Except.map, unchecked_ok, ok_bind, scalar_eq hn]
    cases Scalar.search C.order tape with
    | none => rfl
    | some first =>
      obtain ⟨α, between⟩ := first
      simp only [Option.bind_some]
      cases Scalar.search C.order between with
      | none => rfl
      | some second =>
        obtain ⟨β, rest⟩ := second
        simp only [hblind α β, Option.bind_some]
        cases Terms.blind _ α β <;> rfl

/-- What a remainder lacks to its modulus, as a remainder again, or the remainder itself. -/
def negateMod (negated : Bool) (n v : Nat) : Checked Nat :=
  if negated then do
    let d ← sub n v
    mod d n
  else .ok v

theorem negateMod_of_lt {n v : Nat} (h : v < n) (negated : Bool) :
    negateMod negated n v = .ok (if negated then (n - v) % n else v) := by
  cases negated with
  | false => rfl
  | true =>
    rw [negateMod, if_pos rfl, sub_of_le h.le, ok_bind, mod_of_pos (Nat.zero_lt_of_lt h)]
    rfl

/-- The signature that the bytes of a response unblind to. -/
def unblind (q : Requester C) (response : Bytes) : Checked Bytes := do
  let sum ← mod (Bytes.toNat response + Bytes.toNat q.alpha.bytes) C.order
  let v ← negateMod q.negated C.order sum
  let s ← word v
  fromParts q.rx.bytes s

theorem unblind_eq (hn : 0 < C.order) (q : Requester C) (response : Bytes) :
    unblind q response = .ok (q.unblind (Bytes.toNat response)).bytes := by
  have hsum : (Bytes.toNat response + Bytes.toNat q.alpha.bytes) % C.order < C.order := Nat.mod_lt _ hn
  rw [unblind, mod_of_pos hn, ok_bind, negateMod_of_lt hsum, ok_bind, word_eq, ok_bind, fromParts_eq]
  rfl

/-- The signature of a response, verified on demand. -/
def finalize (q : Requester C) (response : Bytes) (check : Bool) : Checked Bytes := do
  unchecked (expectWidth "partial signature" (.exactly 32) response.length)
  let signature ← unblind q response
  if check then
    if ← verify q.signer q.publicKey signature q.message.bytes then .ok signature
    else refuse .verificationFailed
  else .ok signature

theorem finalize_eq (hn : 0 < C.order) (q : Requester C) (response : Bytes) (check : Bool) :
    finalize q response check = unchecked ((q.finalize response check).map Signature.bytes) := by
  unfold finalize Requester.finalize
  rw [unblind_eq hn]
  cases expectWidth "partial signature" (.exactly 32) response.length with
  | error ε => rfl
  | ok _ =>
    cases check with
    | false => rfl
    | true =>
      simp only [unchecked_ok, ok_bind, if_true, verify_eq]
      cases q.signer.verify q.publicKey (q.unblind (Bytes.toNat response)).bytes q.message.bytes with
      | error ε => rfl
      | ok valid => cases valid <;> rfl

end Requester

end BlindSchnorr.Checked
