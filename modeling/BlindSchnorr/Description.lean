import BlindSchnorr.Service

/-!
# Descriptions

One line on each object, in which secrets do not appear.
-/
namespace BlindSchnorr

/-- A description of a record: its name and its fields. -/
def describeRecord (name : String) (fields : List (String × String)) : String :=
  name ++ " \x7b " ++ ", ".intercalate (fields.map fun (key, value) => key ++ ": " ++ value) ++ " \x7d"

/-- A text in quotes. The names of curves and hexadecimal need no escapes. -/
def quoted (s : String) : String := "\"" ++ s ++ "\""

def truth (b : Bool) : String := if b then "true" else "false"

def Config.describe (c : Config) : String :=
  describeRecord "SchnorrConfig"
    [("decompression_probe_window", toString c.probeWindow),
      ("blind_self_check", truth c.blindSelfCheck)]

def Signature.describe (σ : Signature) : String := "SchnorrSignature(" ++ σ.text ++ ")"

def Signer.describe {C : CurveGroup} (S : Signer C) : String :=
  describeRecord "SchnorrSigner" [("curve", quoted C.name), ("config", S.config.describe)]

def Service.describe {C : CurveGroup} (V : Service C) : String :=
  describeRecord "SchnorrService" [("signer", V.signer.describe)]

/-- A description of a session, without its nonce. -/
def Session.describe (C : CurveGroup) (s : Session) : String :=
  describeRecord "BlindSigner"
    [("curve", quoted C.name), ("commitment", quoted (Bytes.hex s.commitment.bytes)),
      ("consumed", truth s.isConsumed)]

/-- A description of a request, without its blinding factors. -/
def Requester.describe {C : CurveGroup} (q : Requester C) : String :=
  "BlindRequester \x7b curve: " ++ quoted C.name ++ ", request: " ++
    quoted (Bytes.hex q.request.bytes) ++ ", .. \x7d"

end BlindSchnorr
