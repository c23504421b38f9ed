import BlindSchnorr.Error

/-!
# Configuration

How many x-coordinates decompression may probe, and whether a blind signature is checked
before it is handed out.
-/
namespace BlindSchnorr

structure Config where
  probeWindow : Nat := 128
  blindSelfCheck : Bool := true
deriving DecidableEq, Repr

namespace Config

def maxProbeWindow : Nat := 128

/-- The configuration that probes no x-coordinate but the encoded one. -/
def strict : Config := { probeWindow := 1 }

def Valid (c : Config) : Prop := 1 ≤ c.probeWindow ∧ c.probeWindow ≤ maxProbeWindow

instance (c : Config) : Decidable c.Valid := inferInstanceAs (Decidable (_ ∧ _))

theorem valid_default : Valid {} := by decide

/-- Refuses a probe window out of range. -/
def validate (c : Config) : Except Error Unit :=
  if c.probeWindow = 0 then .error (.config .emptyWindow)
  else if maxProbeWindow < c.probeWindow then
    .error (.config (.wideWindow c.probeWindow maxProbeWindow))
  else .ok ()

theorem validate_eq_ok_iff (c : Config) : c.validate = .ok () ↔ c.Valid := by
  unfold validate Valid
  split
  · simp; omega
  · split
    · simp; omega
    · simp; omega

end Config

end BlindSchnorr
