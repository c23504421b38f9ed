import BlindSchnorr.Blind.Pool
import BlindSchnorr.Proofs.Blind.Completeness

/-!
# One answer for one nonce

The nonce of a session is at any time either in its cell or with exactly one call, under
every schedule of any number of calls. What a call can come to is decided by its input and by
whether the cell was empty when the call got to it. No call waits for another: it is done after
three steps of its own, whatever happens in between.
-/
namespace BlindSchnorr

variable {C : CurveGroup} {nonce : Word} {key challenge : Bytes}

namespace Query

/-- What is wrong with a call: the first check that its input fails. -/
def fault (C : CurveGroup) (key challenge : Bytes) : Option Error :=
  if key.length ≠ 32 then some (.wrongLength "private key" (.exactly 32) key.length)
  else if challenge.length ≠ 32 then some (.wrongLength "challenge" (.exactly 32) challenge.length)
  else if ¬ Scalar.InRange (Bytes.toNat key) C.order then some (.outOfRange "private key")
  else none

theorem fault_eq_none_iff : fault C key challenge = none ↔
    key.length = 32 ∧ challenge.length = 32 ∧ Scalar.InRange (Bytes.toNat key) C.order := by
  unfold fault
  split_ifs <;> simp_all

theorem read_of_fault {e : Error} (h : fault C key challenge = some e) :
    read C key challenge = .error e := by
  unfold fault at h
  split_ifs at h with hkey hchallenge hrange
  · cases h
    simp [read, expectWidth, Widths.Accepts, hkey]
  · cases h
    simp [read, expectWidth, Widths.Accepts, not_not.1 hkey, hchallenge]
  · cases h
    simp [read, expectWidth, Widths.Accepts, CurveGroup.privateKey, not_not.1 hkey, not_not.1 hchallenge,
      hrange]

theorem read_of_fault_eq_none (h : fault C key challenge = none) :
    read C key challenge = .ok ⟨Bytes.toNat key, Bytes.toNat challenge⟩ := by
  obtain ⟨hkey, hchallenge, hrange⟩ := fault_eq_none_iff.1 h
  exact read_eq_ok_iff.2 ⟨hkey, hchallenge, hrange, rfl⟩

end Query

namespace Call

def hasTaken : Call → Bool
  | holding _ _ => true
  | done (.ok _) => true
  | _ => false

/-- What a call with given input can have come to. -/
inductive Follows (C : CurveGroup) (nonce : Word) (consumed : Prop) (key challenge : Bytes) : Call → Prop
  | fresh : Follows C nonce consumed key challenge (.fresh key challenge)
  | checked {q : Query} (hq : Query.read C key challenge = .ok q) :
      Follows C nonce consumed key challenge (.checked q)
  | holding {q : Query} (hq : Query.read C key challenge = .ok q) :
      Follows C nonce consumed key challenge (.holding q nonce)
  | served {q : Query} (hq : Query.read C key challenge = .ok q) :
      Follows C nonce consumed key challenge (.done (.ok (q.respond C nonce)))
  | refused {q : Query} (hq : Query.read C key challenge = .ok q) (hc : consumed) :
      Follows C nonce consumed key challenge (.done (.error .nonceSpent))
  | malformed {e : Error} (he : Query.read C key challenge = .error e) :
      Follows C nonce consumed key challenge (.done (.error e))

lemma Follows.mono {c c' : Prop} (hc : c → c') {call : Call} (h : call.Follows C nonce c key challenge) :
    call.Follows C nonce c' key challenge := by
  cases h with
  | fresh => exact .fresh
  | checked hq => exact .checked hq
  | holding hq => exact .holding hq
  | served hq => exact .served hq
  | refused hq h => exact .refused hq (hc h)
  | malformed he => exact .malformed he

/-- A step either leaves the session as it is or moves the nonce from its cell to the call. -/
theorem step_cases (call : Call) (s : Session) :
    ((call.step C s).2 = s ∧ (call.step C s).1.hasTaken = call.hasTaken) ∨
      ∃ q w, call = .checked q ∧ s.nonce = some w ∧
        call.step C s = (.holding q w, { s with nonce := none }) := by
  cases call with
  | fresh key challenge =>
    left
    cases h : Query.read C key challenge <;> simp [step, h, hasTaken]
  | checked q =>
    obtain ⟨code, cell⟩ := s
    cases cell with
    | none =>
      left
      simp [step, Session.take, hasTaken]
    | some w =>
      right
      exact ⟨q, w, rfl, rfl, rfl⟩
  | holding q w =>
    left
    simp [step, hasTaken]
  | done result =>
    left
    simp [step]

theorem Follows.step {call : Call} {s : Session} (hs : ∀ w ∈ s.nonce, w = nonce)
    (h : call.Follows C nonce (s.nonce = none) key challenge) :
    (call.step C s).1.Follows C nonce ((call.step C s).2.nonce = none) key challenge := by
  cases h with
  | fresh =>
    cases hread : Query.read C key challenge with
    | error e =>
      simp only [Call.step, hread]
      exact .malformed hread
    | ok q =>
      simp only [Call.step, hread]
      exact .checked hread
  | checked hq =>
    obtain ⟨code, cell⟩ := s
    cases cell with
    | none => exact .refused hq rfl
    | some w =>
      cases hs w rfl
      exact .holding hq
  | holding hq => exact .served hq
  | served hq => exact .served hq
  | refused hq hc => exact .refused hq hc
  | malformed he => exact .malformed he

/-- A bound on the steps that a call still takes. -/
def rank : Call → Nat
  | fresh _ _ => 3
  | checked _ => 2
  | holding _ _ => 1
  | done _ => 0

lemma rank_le (call : Call) : call.rank ≤ 3 := by
  cases call <;> simp [rank]

theorem rank_eq_zero_iff {call : Call} : call.rank = 0 ↔ ∃ result, call = .done result := by
  cases call <;> simp [rank]

/-- Every step brings a call closer to its end, also when the nonce is gone. -/
theorem rank_step (call : Call) (s : Session) : (call.step C s).1.rank ≤ call.rank - 1 := by
  cases call with
  | fresh key challenge => cases h : Query.read C key challenge <;> simp [step, h, rank]
  | checked q => cases h : s.nonce <;> simp [step, Session.take, h, rank]
  | holding q w => simp [step, rank]
  | done result => simp [step, rank]

end Call

namespace Pool

variable {commitment : PointCode} {inputs : List (Bytes × Bytes)} {p : Pool}

/-- The invariant of a pool: the commitment stands, every call keeps to its input, and the
nonce is in the cell or with exactly one call. -/
structure Consistent (C : CurveGroup) (commitment : PointCode) (nonce : Word) (inputs : List (Bytes × Bytes))
    (p : Pool) : Prop where
  commitment_eq : p.session.commitment = commitment
  nonce_eq : ∀ w ∈ p.session.nonce, w = nonce
  length_eq : p.calls.length = inputs.length
  follows : ∀ (i : Nat) key challenge (call : Call), inputs[i]? = some (key, challenge) → p.calls[i]? = some call →
    call.Follows C nonce (p.session.nonce = none) key challenge
  conserved : p.session.nonce.toList.length + p.calls.countP Call.hasTaken = 1

def fresh (s : Session) (inputs : List (Bytes × Bytes)) : Pool :=
  ⟨s, inputs.map fun (key, challenge) => .fresh key challenge⟩

theorem consistent_fresh : (fresh ⟨commitment, some nonce⟩ inputs).Consistent C commitment nonce inputs where
  commitment_eq := rfl
  nonce_eq w hw := (Option.some.inj hw).symm
  length_eq := List.length_map _
  follows i key challenge call hinput hcall := by
    simp only [fresh, List.getElem?_map, hinput, Option.map_some, Option.some.injEq] at hcall
    subst hcall
    exact .fresh
  conserved := by
    have hnone : (fresh ⟨commitment, some nonce⟩ inputs).calls.countP Call.hasTaken = 0 := by
      simp [fresh, Call.hasTaken]
    rw [hnone]
    rfl

/-- A step of a pool without the call is no step, and a step of a call acts on the session. -/
lemma step_eq {i : Nat} {call : Call} (h : p.calls[i]? = some call) :
    p.step C i = ⟨(call.step C p.session).2, p.calls.set i (call.step C p.session).1⟩ := by
  simp [step, h]

lemma step_of_none {i : Nat} (h : p.calls[i]? = none) : p.step C i = p := by
  simp [step, h]

lemma calls_step_self {i : Nat} {call : Call} (h : p.calls[i]? = some call) :
    (p.step C i).calls[i]? = some (call.step C p.session).1 := by
  rw [step_eq h]
  exact List.getElem?_set_self (List.getElem?_eq_some_iff.1 h).1

lemma calls_step_ne {i j : Nat} (hij : i ≠ j) : (p.step C i).calls[j]? = p.calls[j]? := by
  cases hcall : p.calls[i]? with
  | none => rw [step_of_none hcall]
  | some call =>
    rw [step_eq hcall]
    exact List.getElem?_set_ne hij

lemma nonce_step_of_none (h : p.session.nonce = none) (i : Nat) :
    (p.step C i).session.nonce = none := by
  cases hcall : p.calls[i]? with
  | none =>
    rw [step_of_none hcall]
    exact h
  | some call =>
    rw [step_eq hcall]
    rcases call.step_cases (C := C) p.session with ⟨hs, _⟩ | ⟨q, w, _, hw, _⟩
    · rw [hs]
      exact h
    · rw [h] at hw
      cases hw

lemma countP_set_add {calls : List Call} {i : Nat} {call call' : Call} (h : calls[i]? = some call) :
    (calls.set i call').countP Call.hasTaken + call.hasTaken.toNat =
      calls.countP Call.hasTaken + call'.hasTaken.toNat := by
  obtain ⟨hi, hcall⟩ := List.getElem?_eq_some_iff.1 h
  have hset := List.countP_set (p := Call.hasTaken) (a := call') hi
  rw [hcall] at hset
  have hpos : call.hasTaken = true → 0 < calls.countP Call.hasTaken := by
    intro htaken
    exact List.countP_pos_iff.2 ⟨call, hcall ▸ List.getElem_mem hi, htaken⟩
  cases hold : call.hasTaken <;> cases hnew : call'.hasTaken <;> simp_all

/-- Also after a step every call keeps to its input. -/
lemma Consistent.follows_step (h : p.Consistent C commitment nonce inputs) (i : Nat) {j : Nat} {call : Call}
    (hinput : inputs[j]? = some (key, challenge)) (hcall : (p.step C i).calls[j]? = some call) :
    call.Follows C nonce ((p.step C i).session.nonce = none) key challenge := by
  by_cases hij : i = j
  · subst hij
    cases hbefore : p.calls[i]? with
    | none =>
      rw [step_of_none hbefore, hbefore] at hcall
      cases hcall
    | some before =>
      rw [calls_step_self hbefore, Option.some.injEq] at hcall
      subst hcall
      rw [step_eq hbefore]
      exact (h.follows i key challenge before hinput hbefore).step h.nonce_eq
  · rw [calls_step_ne hij] at hcall
    exact (h.follows j key challenge call hinput hcall).mono fun hnone => nonce_step_of_none hnone i

theorem Consistent.step (h : p.Consistent C commitment nonce inputs) (i : Nat) :
    (p.step C i).Consistent C commitment nonce inputs := by
  cases hcall : p.calls[i]? with
  | none =>
    rw [step_of_none hcall]
    exact h
  | some call =>
    have hfollows : ∀ (j : Nat) key challenge call', inputs[j]? = some (key, challenge) →
        (p.step C i).calls[j]? = some call' →
          call'.Follows C nonce ((p.step C i).session.nonce = none) key challenge :=
      fun _ _ _ _ hinput hcall' => h.follows_step i hinput hcall'
    rw [step_eq hcall] at hfollows ⊢
    have hcount : (p.calls.set i (call.step C p.session).1).countP Call.hasTaken + call.hasTaken.toNat =
        p.calls.countP Call.hasTaken + (call.step C p.session).1.hasTaken.toNat := countP_set_add hcall
    have hconserved := h.conserved
    have hlength : (p.calls.set i (call.step C p.session).1).length = inputs.length := by
      rw [List.length_set, h.length_eq]
    rcases call.step_cases (C := C) p.session with ⟨hs, htaken⟩ | ⟨q, w, hchecked, hw, hstep⟩
    · rw [hs] at hfollows ⊢
      rw [htaken] at hcount
      exact ⟨h.commitment_eq, h.nonce_eq, hlength, hfollows, by simp only; omega⟩
    · -- The nonce moves from the cell to the call.
      rw [hstep] at hfollows hcount hlength ⊢
      rw [hchecked] at hcount
      rw [hw] at hconserved
      refine ⟨h.commitment_eq, nofun, hlength, hfollows, ?_⟩
      simp only [Call.hasTaken, Bool.toNat_false, Bool.toNat_true, Option.toList_some, Option.toList_none,
        List.length_singleton, List.length_nil] at hcount hconserved ⊢
      omega

/-- Every schedule keeps the invariant. -/
theorem Consistent.run (h : p.Consistent C commitment nonce inputs) (schedule : List Nat) :
    (p.run C schedule).Consistent C commitment nonce inputs := by
  induction schedule generalizing p with
  | nil => exact h
  | cons i schedule ih => exact ih (h.step i)

/-- No schedule makes a consumed session fresh again. -/
theorem nonce_run_of_none (h : p.session.nonce = none) (schedule : List Nat) :
    (p.run C schedule).session.nonce = none := by
  induction schedule generalizing p with
  | nil => exact h
  | cons i schedule ih => exact ih (nonce_step_of_none h i)

/-- The steps of other calls leave a call as it is, its own bring it closer to its end. -/
lemma exists_rank_step {i : Nat} {call : Call} (h : p.calls[i]? = some call) (j : Nat) :
    ∃ call', (p.step C j).calls[i]? = some call' ∧ call'.rank ≤ call.rank - [j].count i := by
  by_cases hij : j = i
  · subst hij
    refine ⟨_, calls_step_self h, ?_⟩
    rw [List.count_singleton_self]
    exact call.rank_step p.session
  · have hcount : [j].count i = 0 := List.count_eq_zero.2 fun hmem => hij (List.mem_singleton.1 hmem).symm
    exact ⟨call, (calls_step_ne hij).trans h, hcount ▸ le_rfl⟩

/-- Along a schedule the rank of a call falls by one for each of its turns. -/
theorem exists_rank_run {i : Nat} {call : Call} (h : p.calls[i]? = some call) (schedule : List Nat) :
    ∃ call', (p.run C schedule).calls[i]? = some call' ∧ call'.rank ≤ call.rank - schedule.count i := by
  induction schedule generalizing p call with
  | nil => exact ⟨call, h, le_rfl⟩
  | cons j schedule ih =>
    obtain ⟨next, hnext, hstep⟩ := exists_rank_step (C := C) h j
    obtain ⟨last, hlast, hrun⟩ := ih hnext
    refine ⟨last, hlast, ?_⟩
    have hcount : (j :: schedule).count i = [j].count i + schedule.count i := by
      rw [← List.count_append, List.singleton_append]
    omega

/-- A call that has had three turns is done, whatever the other calls did in between. -/
theorem exists_done_run {i : Nat} (hi : i < p.calls.length) {schedule : List Nat}
    (hturns : 3 ≤ schedule.count i) : ∃ result, (p.run C schedule).calls[i]? = some (.done result) := by
  obtain ⟨call, hcall, hrank⟩ := exists_rank_run (C := C) (List.getElem?_eq_getElem hi) schedule
  have hzero : call.rank = 0 := by
    have hle := p.calls[i].rank_le
    omega
  obtain ⟨result, rfl⟩ := Call.rank_eq_zero_iff.1 hzero
  exact ⟨result, hcall⟩

lemma calls_step_of_done {i : Nat} {result : Except Error Word} (h : p.calls[i]? = some (.done result))
    (j : Nat) : (p.step C j).calls[i]? = some (.done result) := by
  by_cases hij : j = i
  · subst hij
    exact calls_step_self h
  · exact (calls_step_ne hij).trans h

/-- A result is final. -/
theorem calls_run_of_done {i : Nat} {result : Except Error Word} (h : p.calls[i]? = some (.done result))
    (schedule : List Nat) : (p.run C schedule).calls[i]? = some (.done result) := by
  induction schedule generalizing p with
  | nil => exact h
  | cons j schedule ih => exact ih (calls_step_of_done h j)

/-- A call that comes to an empty cell is refused at once. -/
theorem step_of_consumed {i : Nat} {q : Query} (hcall : p.calls[i]? = some (.checked q))
    (hconsumed : p.session.nonce = none) :
    (p.step C i).session = p.session ∧ (p.step C i).calls[i]? = some (.done (.error .nonceSpent)) := by
  have hstep : (Call.checked q).step C p.session = (.done (.error .nonceSpent), p.session) := by
    obtain ⟨⟨code, cell⟩, calls⟩ := p
    subst hconsumed
    rfl
  rw [calls_step_self hcall, step_eq hcall, hstep]
  exact ⟨rfl, rfl⟩

/-- Without other calls in between, the three steps of a call are one answer of the session. -/
theorem run_alone {i : Nat} (h : p.calls[i]? = some (.fresh key challenge)) :
    p.run C [i, i, i] = ⟨(p.session.sign C key challenge).2,
      p.calls.set i (.done (p.session.sign C key challenge).1)⟩ := by
  have hi : i < p.calls.length := (List.getElem?_eq_some_iff.1 h).1
  have hset : ∀ (s : Session) (call : Call), step C ⟨s, p.calls.set i call⟩ i =
      ⟨(call.step C s).2, p.calls.set i (call.step C s).1⟩ := by
    intro s call
    have hcall : (p.calls.set i call)[i]? = some call := List.getElem?_set_self hi
    rw [step_eq hcall, List.set_set]
  simp only [run, List.foldl_cons, List.foldl_nil]
  rw [step_eq h, hset, hset]
  obtain ⟨⟨code, cell⟩, calls⟩ := p
  cases hread : Query.read C key challenge with
  | error e => simp [Call.step, Session.sign, hread]
  | ok q => cases cell <;> simp [Call.step, Session.sign, Session.take, hread]

section Consistent

variable (h : p.Consistent C commitment nonce inputs)
include h

lemma Consistent.countP_le : p.calls.countP Call.hasTaken ≤ 1 := by
  have hconserved := h.conserved
  omega

lemma Consistent.countP_eq_one_iff : p.session.nonce = none ↔ p.calls.countP Call.hasTaken = 1 := by
  have hconserved := h.conserved
  cases hnonce : p.session.nonce with
  | none =>
    rw [hnonce] at hconserved
    simpa using hconserved
  | some w =>
    rw [hnonce, Option.toList_some, List.length_singleton] at hconserved
    exact iff_of_false nofun (by omega)

theorem Consistent.isConsumed_iff :
    p.session.isConsumed = true ↔ ∃ call ∈ p.calls, call.hasTaken = true := by
  have hle := h.countP_le
  rw [Session.isConsumed, Option.isNone_iff_eq_none, h.countP_eq_one_iff, ← List.countP_pos_iff]
  omega

theorem Consistent.length_served_le : p.served.length ≤ 1 := by
  refine le_trans ?_ h.countP_le
  rw [served, List.length_filterMap_eq_countP]
  apply List.countP_mono_left
  intro call _ hserved
  cases call with
  | done result => cases result <;> simp_all [Call.served?, Call.hasTaken]
  | _ => simp [Call.served?] at hserved

/-- If every call is finished and some call was well-formed, one call is served. -/
theorem Consistent.length_served_eq {i : Nat} (hfinished : ∀ call ∈ p.calls, call.result?.isSome = true)
    (hinput : inputs[i]? = some (key, challenge)) (hfault : Query.fault C key challenge = none) :
    p.served.length = 1 := by
  have hall : p.served.length = p.calls.countP Call.hasTaken := by
    rw [served, List.length_filterMap_eq_countP]
    apply List.countP_congr
    intro call hcall
    have hresult := hfinished call hcall
    cases call with
    | done result => cases result <;> simp [Call.served?, Call.hasTaken]
    | _ => simp [Call.result?] at hresult
  have hi : i < p.calls.length := h.length_eq ▸ (List.getElem?_eq_some_iff.1 hinput).1
  have hcall := List.getElem?_eq_getElem hi
  have hresult := hfinished _ (List.getElem_mem hi)
  have hfollows := h.follows i key challenge _ hinput hcall
  rw [hall]
  generalize p.calls[i] = call at hcall hresult hfollows
  cases hfollows with
  | fresh => simp [Call.result?] at hresult
  | checked => simp [Call.result?] at hresult
  | holding => simp [Call.result?] at hresult
  | served hq =>
    have hpos : 0 < p.calls.countP Call.hasTaken :=
      List.countP_pos_iff.2 ⟨_, List.mem_of_getElem? hcall, rfl⟩
    have hle := h.countP_le
    omega
  | refused hq hempty => exact h.countP_eq_one_iff.1 hempty
  | malformed he =>
    rw [Query.read_of_fault_eq_none hfault] at he
    cases he

/-- Three turns for each call bring all calls to their ends. -/
theorem Consistent.finished_run {schedule : List Nat} (hturns : ∀ i < inputs.length, 3 ≤ schedule.count i) :
    ∀ call ∈ (p.run C schedule).calls, call.result?.isSome = true := by
  intro call hmem
  obtain ⟨i, hcall⟩ := List.mem_iff_getElem?.1 hmem
  have hi : i < inputs.length := (h.run schedule).length_eq ▸ (List.getElem?_eq_some_iff.1 hcall).1
  obtain ⟨result, hdone⟩ := exists_done_run (h.length_eq ▸ hi) (hturns i hi)
  rw [hdone, Option.some.injEq] at hcall
  rw [← hcall]
  rfl

/-- A malformed call ends at its first step with its own fault, and leaves the session alone. -/
theorem Consistent.step_of_fault {i : Nat} {e : Error} (hinput : inputs[i]? = some (key, challenge))
    (hfault : Query.fault C key challenge = some e) :
    (p.step C i).session = p.session ∧ (p.step C i).calls[i]? = some (.done (.error e)) := by
  have hi : i < p.calls.length := h.length_eq ▸ (List.getElem?_eq_some_iff.1 hinput).1
  have hcall := List.getElem?_eq_getElem hi
  have hfollows := h.follows i key challenge _ hinput hcall
  have hread := Query.read_of_fault hfault
  rw [calls_step_self hcall, step_eq hcall, Option.some.injEq]
  generalize p.calls[i] = call at hfollows
  cases hfollows with
  | fresh => simp [Call.step, hread]
  | malformed he =>
    rw [hread, Except.error.injEq] at he
    simp [Call.step, he]
  | checked hq | holding hq | served hq | refused hq _ =>
    rw [hread] at hq
    cases hq

theorem Consistent.result_of_fault_eq_none {i : Nat} {result : Except Error Word}
    (hinput : inputs[i]? = some (key, challenge)) (hfault : Query.fault C key challenge = none)
    (hcall : p.calls[i]? = some (.done result)) : result = .error .nonceSpent ∨
      result = .ok (Query.respond C ⟨Bytes.toNat key, Bytes.toNat challenge⟩ nonce) := by
  have hread := Query.read_of_fault_eq_none hfault
  have hfollows := h.follows i key challenge _ hinput hcall
  cases hfollows with
  | served hq =>
    rw [hread, Except.ok.injEq] at hq
    exact .inr (by rw [hq])
  | refused hq _ => exact .inl rfl
  | malformed he =>
    rw [hread] at he
    cases he

end Consistent

/-- What one nonce amounts to at any moment of any schedule, and what every call comes to from
there: three further turns of its own finish it, whatever else is scheduled. -/
structure AnsweredOnce (C : CurveGroup) (k : Nat) (s : Session) (inputs : List (Bytes × Bytes)) (p : Pool) :
    Prop where
  commitment_eq : p.session.commitment = s.commitment
  length_served_le : p.served.length ≤ 1
  length_served_eq : (∀ call ∈ p.calls, call.result?.isSome = true) →
    (∃ input ∈ inputs, Query.fault C input.1 input.2 = none) → p.served.length = 1
  isConsumed_iff : p.session.isConsumed = true ↔ ∃ call ∈ p.calls, call.hasTaken = true
  isConsumed_run : p.session.isConsumed = true → ∀ more, (p.run C more).session.isConsumed = true
  exists_done_run : ∀ i < inputs.length, ∀ more : List Nat, 3 ≤ more.count i →
    ∃ result, (p.run C more).calls[i]? = some (.done result)
  calls_run_of_done : ∀ (i : Nat) result, p.calls[i]? = some (.done result) →
    ∀ more, (p.run C more).calls[i]? = some (.done result)
  length_served_run : (∃ input ∈ inputs, Query.fault C input.1 input.2 = none) →
    ∀ more : List Nat, (∀ i < inputs.length, 3 ≤ more.count i) → (p.run C more).served.length = 1
  refused : ∀ (i : Nat) q, p.calls[i]? = some (.checked q) → p.session.isConsumed = true →
    (p.step C i).session = p.session ∧ (p.step C i).calls[i]? = some (.done (.error .nonceSpent))
  malformed : ∀ (i : Nat) key challenge e, inputs[i]? = some (key, challenge) →
    Query.fault C key challenge = some e →
      (p.step C i).session = p.session ∧ (p.step C i).calls[i]? = some (.done (.error e))
  wellFormed : ∀ (i : Nat) key challenge result, inputs[i]? = some (key, challenge) →
    Query.fault C key challenge = none → p.calls[i]? = some (.done result) →
      result = .error .nonceSpent ∨ ∃ t, result = .ok t ∧
        t.toNat = (k + Bytes.toNat challenge * Bytes.toNat key) % C.order ∧
        (C.GroupLaws → C.mulGenerator t.toNat = C.add (C.mulGenerator k)
          (C.scalarMul (Bytes.toNat challenge) (C.mulGenerator (Bytes.toNat key))))

/-- However the calls on an opened session interleave, its nonce gives one answer, the answer fits
the commitment, and no call is left without a result. -/
theorem single_use (hlt : C.order < 2 ^ 256) {tape rest : Bytes} {s : Session}
    (hopen : (Session.start C).run tape = some (.ok s, rest)) :
    ∃ k, Scalar.search C.order tape = some (k, rest) ∧ Scalar.InRange k C.order ∧
      C.compress (C.mulGenerator k) = .ok s.commitment ∧
      ∀ inputs schedule, AnsweredOnce C k s inputs ((fresh s inputs).run C schedule) := by
  obtain ⟨k, code, hk, hcode, hs⟩ := Session.start_eq_ok_iff.1 hopen
  subst hs
  have hrange := Scalar.inRange_of_search hk
  refine ⟨k, hk, hrange, hcode, ?_⟩
  intro inputs schedule
  have h : Consistent C code (Block.ofNat 32 k) inputs ((fresh _ inputs).run C schedule) :=
    consistent_fresh.run schedule
  generalize (fresh _ inputs).run C schedule = p at h
  refine ⟨h.commitment_eq, h.length_served_le, ?_, h.isConsumed_iff, ?_, ?_, fun _ _ => calls_run_of_done, ?_,
    ?_, ?_, ?_⟩
  · intro hfinished ⟨input, hinput, hfault⟩
    obtain ⟨i, hi⟩ := List.mem_iff_getElem?.1 hinput
    exact h.length_served_eq hfinished hi hfault
  · intro hconsumed more
    rw [Session.isConsumed, Option.isNone_iff_eq_none] at hconsumed ⊢
    exact nonce_run_of_none hconsumed more
  · intro i hi more hturns
    exact exists_done_run (h.length_eq ▸ hi) hturns
  · intro ⟨input, hinput, hfault⟩ more hturns
    obtain ⟨i, hi⟩ := List.mem_iff_getElem?.1 hinput
    exact (h.run more).length_served_eq (h.finished_run hturns) hi hfault
  · intro i q hcall hconsumed
    rw [Session.isConsumed, Option.isNone_iff_eq_none] at hconsumed
    exact step_of_consumed hcall hconsumed
  · intro i key challenge e hinput hfault
    exact h.step_of_fault hinput hfault
  · intro i key challenge result hinput hfault hcall
    refine (h.result_of_fault_eq_none hinput hfault hcall).imp_right ?_
    intro hresult
    have hvalue := Query.toNat_respond (hrange.1.trans hrange.2) hlt
      ⟨Bytes.toNat key, Bytes.toNat challenge⟩ (Block.ofNat 32 k)
    rw [Word.toNat_ofNat (hrange.2.trans hlt)] at hvalue
    refine ⟨_, hresult, hvalue, ?_⟩
    intro hlaws
    have hfits := congrArg Subtype.val
      (Query.respond_nsmul hlt hrange ⟨Bytes.toNat key, Bytes.toNat challenge⟩)
    rwa [CurveGroup.Points.coe_add, CurveGroup.Points.coe_nsmul_generator,
      CurveGroup.Points.coe_nsmul_generator, CurveGroup.Points.coe_nsmul,
      CurveGroup.Points.coe_nsmul_generator] at hfits

/-- The session of the nonce 11 on the toy curve. -/
def toySession : Session := ⟨.compressed false (Block.ofNat 32 655), some (Block.ofNat 32 11)⟩

/-- Two well-formed calls and one without a key. -/
def toyInputs : List (Bytes × Bytes) :=
  [(Bytes.ofNat 32 5, Bytes.ofNat 32 434), ([], Bytes.ofNat 32 434), (Bytes.ofNat 32 5, Bytes.ofNat 32 61)]

/-- The third call overtakes the first, which then finds the cell empty. -/
theorem single_use_toy : (Session.start toyCurve).run [0, 11] = some (.ok toySession, []) ∧
    ((fresh toySession toyInputs).run toyCurve [0, 2, 1, 2, 0]).calls[0]? =
      some (.done (.error .nonceSpent)) ∧
    ((fresh toySession toyInputs).run toyCurve [0, 2, 1, 2, 0, 0, 2]).served.length = 1 ∧
    ∀ more : List Nat, (∀ i < 3, 3 ≤ more.count i) →
      ((fresh toySession toyInputs).run toyCurve more).served.length = 1 := by
  have hopen : (Session.start toyCurve).run [0, 11] = some (.ok toySession, []) :=
    Session.start_eq_ok_iff.2 ⟨11, _, toy_draw, by decide +kernel, rfl⟩
  obtain ⟨k, _, _, _, honce⟩ := single_use (by decide) hopen
  have hfinished : ∀ call ∈ ((fresh toySession toyInputs).run toyCurve [0, 2, 1, 2, 0, 0, 2]).calls,
      call.result?.isSome = true := by decide +kernel
  have hfault : ∃ input ∈ toyInputs, Query.fault toyCurve input.1 input.2 = none :=
    ⟨(Bytes.ofNat 32 5, Bytes.ofNat 32 434), List.mem_cons_self, by decide +kernel⟩
  have hchecked : ((fresh toySession toyInputs).run toyCurve [0, 2, 1, 2]).calls[0]? =
      some (.checked ⟨5, 434⟩) := rfl
  refine ⟨hopen, ?_, ?_, ?_⟩
  · exact ((honce toyInputs [0, 2, 1, 2]).refused 0 _ hchecked (by decide +kernel)).2
  · exact (honce toyInputs [0, 2, 1, 2, 0, 0, 2]).length_served_eq hfinished hfault
  · exact (honce toyInputs []).length_served_run hfault

end Pool

end BlindSchnorr
