import BlindSchnorr.Blind.Session

/-!
# Concurrent calls on one session

Any number of calls share the nonce cell of a session. A schedule names the call that moves
next, and each move is one of the three steps of an answer. Taking the nonce is a single
move, so no schedule lets two calls hold it.
-/
namespace BlindSchnorr

inductive Call
  | fresh (key challenge : Bytes)
  | checked (query : Query)
  | holding (query : Query) (nonce : Word)
  | done (result : Except Error Word)

namespace Call

/-- The next step of a call on a session. A finished call stays as it is. -/
def step (C : CurveGroup) (s : Session) : Call → Call × Session
  | fresh key challenge =>
    match Query.read C key challenge with
    | .error e => (done (.error e), s)
    | .ok q => (checked q, s)
  | checked q =>
    match s.take with
    | (none, s) => (done (.error .nonceSpent), s)
    | (some nonce, s) => (holding q nonce, s)
  | holding q nonce => (done (.ok (q.respond C nonce)), s)
  | done result => (done result, s)

def result? : Call → Option (Except Error Word)
  | done result => some result
  | _ => none

/-- The response that a call was served with. -/
def served? : Call → Option Word
  | done (.ok s) => some s
  | _ => none

/-- Whether a call was refused because the nonce was gone. -/
def isRefused : Call → Bool
  | done (.error .nonceSpent) => true
  | _ => false

end Call

structure Pool where
  session : Session
  calls : List Call

namespace Pool

/-- One step of the call at an index; without such a call nothing happens. -/
def step (C : CurveGroup) (p : Pool) (i : Nat) : Pool :=
  match p.calls[i]? with
  | none => p
  | some call =>
    let (call, session) := call.step C p.session
    ⟨session, p.calls.set i call⟩

/-- The pool after the steps of a schedule. -/
def run (C : CurveGroup) (p : Pool) (schedule : List Nat) : Pool := schedule.foldl (step C) p

/-- The schedule that moves each of `count` calls in turn, often enough for all to finish. -/
def roundRobin (count : Nat) : List Nat :=
  List.range count ++ List.range count ++ List.range count

def served (p : Pool) : List Word := p.calls.filterMap Call.served?

/-- How many calls were refused because the nonce was gone. -/
def refused (p : Pool) : Nat := p.calls.countP Call.isRefused

end Pool

/-- Any number of equal calls at once, run to the end in turn. -/
def Session.race (C : CurveGroup) (s : Session) (key challenge : Bytes) (count : Nat) : Pool :=
  Pool.run C ⟨s, List.replicate count (.fresh key challenge)⟩ (Pool.roundRobin count)

end BlindSchnorr
